import Mathlib.Tactic
import SyntaxDump.Proofs.Decimal.Digits
import SyntaxDump.Proofs.Tag.Forest
import SyntaxDump.Proofs.Tag.Line

/-!
# The tags of a dump

The forest of a tree whose own texts stay on their lines has only tags with one
reading, and no element stands further left than the one around it.
-/

namespace SyntaxDump
namespace Tag

/-! ## Texts of numbers -/

def IsNumberChar (c : Char) : Prop :=
  Decimal.isDigit c = true ∨ c = '-' ∨ c = '+' ∨ c = '.' ∨ c = 'e'

theorem IsNumberChar.ne_delimiter {c : Char} (hc : IsNumberChar c) :
    c ≠ '\'' ∧ c ≠ '"' ∧ c ≠ '\n' := by
  refine ⟨?_, ?_, ?_⟩ <;>
    · rintro rfl
      revert hc
      unfold IsNumberChar
      decide

theorem isQuiet_ofList {cs : List Char} (hcs : ∀ c ∈ cs, IsNumberChar c) :
    IsQuiet (String.ofList cs) := by
  intro c hc
  rw [String.toList_ofList] at hc
  exact (hcs c hc).ne_delimiter

theorem isNumberChar_digits (n : Nat) : ∀ c ∈ Decimal.digits n, IsNumberChar c :=
  fun _ hc => .inl (Decimal.isDigit_of_mem_digits hc)

theorem isNumberChar_replicate (count : Nat) : ∀ c ∈ List.replicate count '0', IsNumberChar c := by
  intro c hc
  rw [List.eq_of_mem_replicate hc]
  exact .inl rfl

theorem isNumberChar_append {front back : List Char} (hfront : ∀ c ∈ front, IsNumberChar c)
    (hback : ∀ c ∈ back, IsNumberChar c) : ∀ c ∈ front ++ back, IsNumberChar c := by
  intro c hc
  rcases List.mem_append.mp hc with hleft | hright
  · exact hfront c hleft
  · exact hback c hright

theorem isNumberChar_cons {first : Char} {cs : List Char} (hfirst : IsNumberChar first)
    (hcs : ∀ c ∈ cs, IsNumberChar c) : ∀ c ∈ first :: cs, IsNumberChar c := by
  intro c hc
  rcases List.mem_cons.mp hc with heq | hmem
  · subst heq
    exact hfirst
  · exact hcs c hmem

theorem isQuiet_natText (n : Nat) : IsQuiet (Decimal.natText n) :=
  isQuiet_ofList (isNumberChar_digits n)

theorem isQuiet_integerText (i : Int) : IsQuiet (Decimal.integerText i) := by
  refine isQuiet_ofList ?_
  cases i with
  | ofNat n => exact isNumberChar_digits n
  | negSucc n => exact isNumberChar_cons (.inr (.inl rfl)) (isNumberChar_digits (n + 1))

theorem isNumberChar_withSign (negative : Bool) {cs : List Char}
    (hcs : ∀ c ∈ cs, IsNumberChar c) : ∀ c ∈ Decimal.withSign negative cs, IsNumberChar c := by
  cases negative with
  | true => exact isNumberChar_cons (.inr (.inl rfl)) hcs
  | false => exact hcs

theorem isNumberChar_zeroPadded (width n : Nat) : ∀ c ∈ zeroPadded width n, IsNumberChar c :=
  isNumberChar_append (isNumberChar_replicate _) (isNumberChar_digits n)

theorem isNumberChar_placesText (places n : Nat) :
    ∀ c ∈ placesText places n, IsNumberChar c := by
  have hdigits := isNumberChar_zeroPadded (places + 1) n
  unfold placesText
  dsimp only
  split
  · exact hdigits
  · refine isNumberChar_append (fun c hc => hdigits c (List.mem_of_mem_take hc)) ?_
    exact isNumberChar_cons (.inr (.inr (.inr (.inl rfl))))
      fun c hc => hdigits c (List.mem_of_mem_drop hc)

theorem mem_of_mem_dropWhile_reverse {p : Char → Bool} {c : Char} {cs : List Char}
    (hc : c ∈ (cs.reverse.dropWhile p).reverse) : c ∈ cs :=
  List.mem_reverse.mp ((List.dropWhile_suffix p).subset (List.mem_reverse.mp hc))

theorem mem_of_mem_stripTrailingZeros {c : Char} {number : List Char}
    (hc : c ∈ stripTrailingZeros number) : c ∈ number := by
  unfold stripTrailingZeros at hc
  split at hc
  · exact mem_of_mem_dropWhile_reverse (mem_of_mem_dropWhile_reverse hc)
  · exact hc

theorem isNumberChar_generalText (x : Binary64) : ∀ c ∈ generalText x, IsNumberChar c := by
  have hstripped : ∀ places n, ∀ c ∈ stripTrailingZeros
      (Decimal.withSign x.isNegative (placesText places n)), IsNumberChar c := by
    intro places n c hc
    exact isNumberChar_withSign _ (isNumberChar_placesText places n) c
      (mem_of_mem_stripTrailingZeros hc)
  have hexponent : ∀ power, ∀ c ∈ 'e' :: exponentDigits power, IsNumberChar c := by
    intro power
    refine isNumberChar_cons (.inr (.inr (.inr (.inr rfl)))) (isNumberChar_cons ?_ ?_)
    · split
      · exact .inr (.inl rfl)
      · exact .inr (.inr (.inl rfl))
    · exact isNumberChar_zeroPadded 2 _
  unfold generalText
  dsimp only
  split
  · exact isNumberChar_append (hstripped _ _) (hexponent _)
  · exact hstripped _ _

theorem isOneLine_doubleText (x : Binary64) : IsOneLine (doubleText x) := by
  have hsign : ∀ cs : List Char, '\n' ∉ cs → '\n' ∉ Decimal.withSign x.isNegative cs := by
    intro cs hcs
    unfold Decimal.withSign
    split <;> simp [hcs]
  unfold IsOneLine doubleText
  rw [String.toList_ofList]
  split_ifs
  · exact hsign _ (by decide)
  · exact hsign _ (by decide)
  · exact hsign _ (by decide)
  · intro hmem
    exact (isNumberChar_generalText x _ hmem).ne_delimiter.2.2 rfl

/-! ## Names and attributes -/

theorem isTagName_node {word : String} (hword : IsTagName word) : IsTagName (word ++ "_node") := by
  have hsuffix : IsTagName "_node" := by decide
  intro c hc
  rw [String.toList_append, List.mem_append] at hc
  rcases hc with hleft | hright
  · exact hword c hleft
  · exact hsuffix c hright

theorem isTagName_label (node : Node) : IsTagName node.label := by
  have hkind : ∀ kind : Kind, IsTagName kind.word := by
    intro kind
    cases kind <;> decide
  cases node with
  | unary op argument => exact isTagName_node (by cases op <;> decide)
  | binary op left right => exact isTagName_node (by cases op <;> decide)
  | _ => exact isTagName_node (hkind _)

theorem isQuiet_typeAttribute (type : Option TypeDescriptor) : IsQuiet (typeAttribute type) := by
  cases type with
  | none => exact show IsQuiet "auto" by decide
  | some type => exact type.isQuiet_name

theorem isQuiet_qualifierName (qualifier : Qualifier) : IsQuiet qualifier.name := by
  cases qualifier <;> decide

/-! ## Sound elements -/

/-- An element whose tags have one reading each, at least `bound` to the right,
and with all elements in it at least as far to the right. -/
inductive Element.Sound : (bound : Nat) → Element → Prop
  | leaf {bound level : Nat} {name text : String} (hlevel : bound ≤ level)
      (hname : IsTagName name) (htext : IsOneLine text) : Sound bound (.leaf level name text)
  | branch {bound level : Nat} {name : String} {attributes : List (String × String)}
      {children : List Element} (hlevel : bound ≤ level) (hname : IsTagName name)
      (hattributes : Shown attributes) (hchildren : ∀ child ∈ children, Sound level child) :
      Sound bound (.branch level name attributes children)

theorem Element.Sound.mono {bound bound' : Nat} (hle : bound' ≤ bound) {element : Element}
    (helement : element.Sound bound) : element.Sound bound' := by
  cases helement with
  | leaf hlevel hname htext => exact .leaf (le_trans hle hlevel) hname htext
  | branch hlevel hname hattributes hchildren =>
      exact .branch (le_trans hle hlevel) hname hattributes hchildren

def SoundForest (bound : Nat) (elements : List Element) : Prop :=
  ∀ element ∈ elements, element.Sound bound

namespace SoundForest

variable {bound level : Nat}

theorem nil (bound : Nat) : SoundForest bound [] := by
  intro element hmem
  cases hmem

theorem append {front back : List Element} (hfront : SoundForest bound front)
    (hback : SoundForest bound back) : SoundForest bound (front ++ back) := by
  intro element hmem
  rcases List.mem_append.mp hmem with hleft | hright
  · exact hfront element hleft
  · exact hback element hright

theorem mono {elements : List Element} (hle : bound ≤ level)
    (helements : SoundForest level elements) : SoundForest bound elements :=
  fun element hmem => (helements element hmem).mono hle

theorem leaf (hlevel : bound ≤ level) {name text : String} (hname : IsTagName name)
    (htext : IsOneLine text) : SoundForest bound [.leaf level name text] := by
  intro element hmem
  rw [List.mem_singleton.mp hmem]
  exact .leaf hlevel hname htext

theorem branch (hlevel : bound ≤ level) {name : String} {attributes : List (String × String)}
    {children : List Element} (hname : IsTagName name) (hattributes : Shown attributes)
    (hchildren : SoundForest level children) :
    SoundForest bound [.branch level name attributes children] := by
  intro element hmem
  rw [List.mem_singleton.mp hmem]
  exact .branch hlevel hname hattributes hchildren

theorem bare (hlevel : bound ≤ level) {name : String} {children : List Element}
    (hname : IsTagName name) (hchildren : SoundForest level children) :
    SoundForest bound [Tag.bare level name children] :=
  branch hlevel hname .none hchildren

theorem cons {first : Element} {elements : List Element} (hfirst : SoundForest bound [first])
    (helements : SoundForest bound elements) : SoundForest bound (first :: elements) :=
  hfirst.append helements

theorem wrapper {name : String} {children : List Element} (hname : IsTagName name)
    (hchildren : SoundForest (level + 4) children) :
    SoundForest level [Tag.bare (level + 2) name children] :=
  bare (Nat.le_add_right level 2) hname (hchildren.mono (by omega))

theorem sequenceElement (hlevel : bound ≤ level) (size : Nat) {children : List Element}
    (hchildren : SoundForest level children) :
    SoundForest bound [Tag.sequenceElement level size children] :=
  branch hlevel (by decide)
    (.single (by decide) (isOneLine_of_isQuiet (isQuiet_natText size))) hchildren

theorem blockElement (hlevel : bound ≤ level) {declarations instructions : List Element}
    (hdeclarations : SoundForest (level + 4) declarations)
    (hinstructions : SoundForest (level + 4) instructions) :
    SoundForest bound [Tag.blockElement level declarations instructions] :=
  bare hlevel (by decide) (.cons (.wrapper (by decide) hdeclarations)
    (.wrapper (by decide) hinstructions))

end SoundForest

/-! ## The forest of a tree is sound -/

/-- Do the texts that belong to the node itself stay on their lines? -/
def HasOneLineTexts : Node → Prop
  | .string value => IsOneLine value
  | .var name => IsOneLine name
  | .declaration identifier _ _ _ => IsOneLine identifier
  | _ => True

/-- Is the forest of the node sound wherever it stands? -/
def IsSound (node : Node) : Prop :=
  node.Everywhere HasOneLineTexts → ∀ level, SoundForest level (forest node level)

theorem soundForest_forestAll {nodes : List Node} (ih : ∀ node ∈ nodes, IsSound node)
    (hnodes : Node.EverywhereAll HasOneLineTexts nodes) (level : Nat) :
    SoundForest level (forestAll nodes level) := by
  induction nodes with
  | nil => exact .nil level
  | cons node nodes ihnodes =>
      exact (ih node (by simp) hnodes.1 level).append
        (ihnodes (fun other hmem => ih other (List.mem_cons_of_mem _ hmem)) hnodes.2)

theorem soundForest_forestOption {node : Option Node} (ih : ∀ known ∈ node, IsSound known)
    (hnode : Node.EverywhereOption HasOneLineTexts node) (level : Nat) :
    SoundForest level (forestOption node level) := by
  cases node with
  | none => exact .nil level
  | some node => exact ih node rfl hnode level

theorem soundForest_forestSequence? {nodes : Option (List Node)}
    (ih : ∀ known ∈ nodes, ∀ node ∈ known, IsSound node)
    (hnodes : Node.EverywhereSequence? HasOneLineTexts nodes) (level : Nat) :
    SoundForest level (forestSequence? nodes level) := by
  cases nodes with
  | none => exact .nil level
  | some nodes =>
      exact .sequenceElement le_rfl nodes.length
        ((soundForest_forestAll (ih nodes rfl) hnodes (level + 2)).mono (by omega))

theorem soundForest_forestBlock {declarations instructions : Option (List Node)}
    (ihdeclarations : ∀ known ∈ declarations, ∀ node ∈ known, IsSound node)
    (ihinstructions : ∀ known ∈ instructions, ∀ node ∈ known, IsSound node)
    (hbody : Node.EverywhereBlock HasOneLineTexts ⟨declarations, instructions⟩) (level : Nat) :
    SoundForest level [forestBlock ⟨declarations, instructions⟩ level] :=
  .blockElement le_rfl (soundForest_forestSequence? ihdeclarations hbody.1 (level + 4))
    (soundForest_forestSequence? ihinstructions hbody.2 (level + 4))

/-- The forest of every tree with texts of one line is sound. -/
theorem isSound (node : Node) : IsSound node := by
  induction node using Node.nestedInduction with
  | integer value =>
      intro _ level
      exact .leaf le_rfl (isTagName_label _) (isOneLine_of_isQuiet (isQuiet_integerText _))
  | double value =>
      intro _ level
      exact .leaf le_rfl (isTagName_label _) (isOneLine_doubleText value)
  | string value =>
      intro htexts level
      exact .leaf le_rfl (isTagName_label _) htexts
  | nil =>
      intro _ level
      exact .bare le_rfl (isTagName_label _) (.nil level)
  | null =>
      intro _ level
      exact .bare le_rfl (isTagName_label _) (.nil level)
  | data bytes =>
      intro _ level
      exact .nil level
  | unary op argument ih =>
      intro htexts level
      exact .bare le_rfl (isTagName_label _) ((ih htexts.2 (level + 2)).mono (by omega))
  | binary op left right ihleft ihright =>
      intro htexts level
      exact .bare le_rfl (isTagName_label _)
        (((ihleft htexts.2.1 (level + 2)).append (ihright htexts.2.2 (level + 2))).mono (by omega))
  | var name =>
      intro htexts level
      exact .leaf le_rfl (isTagName_label _) htexts
  | index base index ihbase ihindex =>
      intro htexts level
      exact .bare le_rfl (isTagName_label _)
        (((ihbase htexts.2.1 (level + 4)).append (ihindex htexts.2.2 (level + 4))).mono (by omega))
  | addressOf lvalue ih =>
      intro htexts level
      exact .bare le_rfl (isTagName_label _) ((ih htexts.2 (level + 4)).mono (by omega))
  | stackAlloc argument ih =>
      intro htexts level
      exact .bare le_rfl (isTagName_label _) ((ih htexts.2 (level + 4)).mono (by omega))
  | rvalue lvalue ih =>
      intro htexts level
      exact .bare le_rfl (isTagName_label _) ((ih htexts.2 (level + 4)).mono (by omega))
  | assignment lvalue rvalue ihlvalue ihrvalue =>
      intro htexts level
      exact .bare le_rfl (isTagName_label _)
        ((ihlvalue htexts.2.1 level).append ((ihrvalue htexts.2.2 (level + 4)).mono (by omega)))
  | sequence nodes ih =>
      intro htexts level
      exact .sequenceElement le_rfl nodes.length
        ((soundForest_forestAll ih htexts.2 (level + 2)).mono (by omega))
  | block declarations instructions ihdeclarations ihinstructions =>
      intro htexts level
      exact soundForest_forestBlock ihdeclarations ihinstructions htexts.2 level
  | declaration identifier qualifier type initializer ih =>
      intro htexts level
      have hinitializer := soundForest_forestOption ih htexts.2 (level + 4)
      exact .branch le_rfl (isTagName_label _)
        (.declaration htexts.1 (isQuiet_qualifierName qualifier) (isQuiet_typeAttribute type))
        (.bare le_rfl (by decide) (hinitializer.mono (by omega)))
  | functionDefinition type arguments declarations instructions iharguments ihdeclarations
      ihinstructions =>
      intro htexts level
      have harguments := soundForest_forestSequence? iharguments htexts.2.1 (level + 4)
      have hblock := soundForest_forestBlock ihdeclarations ihinstructions htexts.2.2 (level + 4)
      exact .branch le_rfl (isTagName_label _)
        (.single (by decide) (isOneLine_of_isQuiet (isQuiet_typeAttribute type)))
        (.cons (.wrapper (by decide) harguments) (.wrapper (by decide) hblock))
  | functionCall identifier arguments ihidentifier iharguments =>
      intro htexts level
      have harguments := soundForest_forestSequence? iharguments htexts.2.2 (level + 4)
      have hidentifier : SoundForest (level + 4) (forestCallee identifier (level + 4)) := by
        cases identifier with
        | none => exact .bare le_rfl (by decide) (.nil _)
        | some identifier => exact ihidentifier identifier rfl htexts.2.1 (level + 4)
      exact .bare le_rfl (isTagName_label _)
        (.cons (.wrapper (by decide) hidentifier) (.wrapper (by decide) harguments))
  | sizeof expression ih =>
      intro htexts level
      exact .bare le_rfl (isTagName_label _) ((ih htexts.2 (level + 4)).mono (by omega))
  | ifThen condition block ihcondition ihblock =>
      intro htexts level
      exact .bare le_rfl (isTagName_label _)
        (.cons (.wrapper (by decide) (ihcondition htexts.2.1 (level + 4)))
          (.wrapper (by decide) (ihblock htexts.2.2 (level + 4))))
  | ifElse condition thenBlock elseBlock ihcondition ihthen ihelse =>
      intro htexts level
      exact .bare le_rfl (isTagName_label _)
        (.cons (.wrapper (by decide) (ihcondition htexts.2.1 (level + 4)))
          (.cons (.wrapper (by decide) (ihthen htexts.2.2.1 (level + 4)))
            (.wrapper (by decide) (ihelse htexts.2.2.2 (level + 4)))))
  | whileLoop condition block ihcondition ihblock =>
      intro htexts level
      exact .bare le_rfl (isTagName_label _)
        (.cons (.wrapper (by decide) (ihcondition htexts.2.1 (level + 4)))
          (.wrapper (by decide) (ihblock htexts.2.2 (level + 4))))
  | ret value ih =>
      intro htexts level
      exact .bare le_rfl (isTagName_label _)
        ((soundForest_forestOption ih htexts.2 (level + 4)).mono (by omega))
  | stop depth =>
      intro _ level
      exact .branch le_rfl (isTagName_label _)
        (.single (by decide) (isOneLine_of_isQuiet (isQuiet_integerText _))) (.nil level)
  | next depth =>
      intro _ level
      exact .branch le_rfl (isTagName_label _)
        (.single (by decide) (isOneLine_of_isQuiet (isQuiet_integerText _))) (.nil level)
  | input =>
      intro _ level
      exact .bare le_rfl (isTagName_label _) (.nil level)
  | print arguments ih =>
      intro htexts level
      exact .bare le_rfl (isTagName_label _)
        (.sequenceElement (Nat.le_add_right level 2) arguments.length
          ((soundForest_forestAll ih htexts.2 (level + 4)).mono (by omega)))
  | evaluation argument ih =>
      intro htexts level
      exact .bare le_rfl (isTagName_label _) ((ih htexts.2 (level + 2)).mono (by omega))

theorem mem_linesAll {elements : List Element} {line : Line} :
    line ∈ Element.linesAll elements ↔ ∃ element ∈ elements, line ∈ element.lines := by
  induction elements with
  | nil => simp [Element.linesAll]
  | cons element elements ih => simp [Element.linesAll, ih]

theorem Element.Sound.mark_sound {bound : Nat} {element : Element}
    (helement : element.Sound bound) : ∀ line ∈ element.lines, line.mark.Sound := by
  induction helement with
  | leaf hlevel hname htext =>
      intro line hmem
      rw [List.mem_singleton.mp hmem]
      exact .inline hname htext
  | branch hlevel hname hattributes hchildren ih =>
      intro line hmem
      rcases List.mem_cons.mp hmem with heq | hrest
      · subst heq
        exact .opening hname hattributes
      · rcases List.mem_append.mp hrest with hinner | hlast
        · obtain ⟨child, hchild, hline⟩ := mem_linesAll.mp hinner
          exact ih child hchild line hline
        · rw [List.mem_singleton.mp hlast]
          exact .closing hname

theorem mark_sound_of_mem_lines {root : Node} (hroot : root.Everywhere HasOneLineTexts)
    {level : Nat} : ∀ line ∈ lines root level, line.mark.Sound := by
  intro line hmem
  rw [lines_eq_linesAll] at hmem
  obtain ⟨element, helement, hline⟩ := mem_linesAll.mp hmem
  exact (isSound root hroot level element helement).mark_sound line hline

end Tag
end SyntaxDump
