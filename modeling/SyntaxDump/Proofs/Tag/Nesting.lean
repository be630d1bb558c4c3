import Mathlib.Tactic
import SyntaxDump.Proofs.Tag.Soundness

/-!
# Dumps are well nested

A reader that knows nothing of trees goes over the lines of a text with a stack
of open tags.  It looks at the text of each line only, and fails at a closing
tag that is not the one of the top of the stack, at one that is not indented
like its opening tag, and at a line further left than an open tag.  It reads
every dump to the end and leaves no tag open.
-/

namespace SyntaxDump
namespace Tag

/-! ## The reader -/

/-- A tag that is open, and the indentation of its line. -/
structure OpenTag where
  name : List Char
  indent : Nat
deriving DecidableEq, Repr

def indentOf (line : List Char) : Nat := (line.takeWhile (· == ' ')).length

/-- The name at the front of a text: everything before a space or a bracket. -/
def frontName (cs : List Char) : List Char := cs.takeWhile fun c => c != ' ' && c != '>'

def closingText (name : List Char) : List Char := '<' :: '/' :: (name ++ ['>'])

/-- Is the tag of the form `<name>…</name>`, given what follows the bracket? -/
def IsInline (rest : List Char) : Prop :=
  ∃ text, rest = frontName rest ++ '>' :: (text ++ closingText (frontName rest))

theorem isInline_iff (rest : List Char) : IsInline rest ↔
    frontName rest ++ ['>'] <+: rest ∧
      closingText (frontName rest) <:+ rest.drop ((frontName rest).length + 1) := by
  constructor
  · rintro ⟨text, htext⟩
    generalize frontName rest = name at htext ⊢
    subst htext
    refine ⟨⟨text ++ closingText name, by simp⟩, ⟨text, ?_⟩⟩
    rw [List.drop_append, List.drop_of_length_le (Nat.le_succ _), Nat.add_sub_cancel_left]
    rfl
  · rintro ⟨⟨back, hback⟩, ⟨text, htext⟩⟩
    refine ⟨text, ?_⟩
    generalize frontName rest = name at hback htext ⊢
    subst hback
    rw [List.drop_left' (by simp)] at htext
    rw [htext]
    simp

instance (rest : List Char) : Decidable (IsInline rest) :=
  decidable_of_iff _ (isInline_iff rest).symm

/-- Take a tag off the stack if it is the one that a line closes; `rest` is the
line behind the slash. -/
def closeTop (stack : List OpenTag) (indent : Nat) (rest : List Char) : Option (List OpenTag) :=
  match stack with
  | [] => none
  | top :: below => if rest = top.name ++ ['>'] ∧ indent = top.indent then some below else none

/-- The open tags after a line, if the line may stand here. -/
def scanLine (floor : Nat) (stack : List OpenTag) (line : List Char) : Option (List OpenTag) :=
  let indent := indentOf line
  if floor ≤ indent ∧ ∀ tag ∈ stack, tag.indent ≤ indent then
    match line.drop indent with
    | '<' :: '/' :: rest => closeTop stack indent rest
    | '<' :: rest =>
        if frontName rest = rest then none
        else if IsInline rest then some stack
        else some (⟨frontName rest, indent⟩ :: stack)
    | _ => none
  else none

def scan (floor : Nat) : List OpenTag → List (List Char) → Option (List OpenTag)
  | stack, [] => some stack
  | stack, line :: lines => (scanLine floor stack line).bind fun stack => scan floor stack lines

/-- Is the text well nested, with no line further left than `floor`? -/
def WellNested (floor : Nat) (text : String) : Prop :=
  scan floor [] (textLines text.toList) = some []

instance (floor : Nat) (text : String) : Decidable (WellNested floor text) :=
  inferInstanceAs (Decidable (scan floor [] (textLines text.toList) = some []))

/-! ## One line -/

theorem indentOf_body (line : Line) : indentOf line.body = line.level := by
  obtain ⟨rest, htext⟩ := line.mark.text_eq_cons
  rw [indentOf, Line.body, htext, List.takeWhile_append_of_pos (by simp)]
  simp

theorem drop_body (line : Line) : line.body.drop line.level = line.mark.text :=
  List.drop_left' (List.length_replicate ..)

theorem frontName_append {name : String} (hname : IsTagName name) {c : Char}
    (hc : c = ' ' ∨ c = '>') (back : List Char) :
    frontName (name.toList ++ c :: back) = name.toList := by
  have hfront : ∀ d ∈ name.toList, (d != ' ' && d != '>') = true := by
    intro d hd
    simp [(hname d hd).1, (hname d hd).2.1]
  rw [frontName, List.takeWhile_append_of_pos hfront]
  rcases hc with rfl | rfl <;> simp

section

variable {floor level : Nat} {stack : List OpenTag}

theorem scanLine_body (hfloor : floor ≤ level) (hstack : ∀ tag ∈ stack, tag.indent ≤ level)
    (mark : Mark) :
    scanLine floor stack (Line.mk level mark).body =
      match mark.text with
      | '<' :: '/' :: rest => closeTop stack level rest
      | '<' :: rest =>
          if frontName rest = rest then none
          else if IsInline rest then some stack
          else some (⟨frontName rest, level⟩ :: stack)
      | _ => none := by
  have hindent := indentOf_body ⟨level, mark⟩
  have hdrop := drop_body ⟨level, mark⟩
  simp only at hindent hdrop
  rw [scanLine]
  simp only [hindent, hdrop]
  rw [if_pos ⟨hfloor, hstack⟩]

theorem not_isInline_bracket {name : String} (hname : IsTagName name) :
    ¬ IsInline (name.toList ++ ['>']) := by
  rintro ⟨text, htext⟩
  rw [frontName_append hname (.inr rfl)] at htext
  have hlength := congrArg List.length htext
  simp only [closingText, List.length_append, List.length_cons, List.length_nil] at hlength
  omega

theorem not_isInline_space {name : String} (hname : IsTagName name) (back : List Char) :
    ¬ IsInline (name.toList ++ ' ' :: back) := by
  rintro ⟨text, htext⟩
  rw [frontName_append hname (.inl rfl)] at htext
  have htail := List.append_cancel_left htext
  exact absurd (List.cons.inj htail).1 (by decide)

theorem scanLine_opening (hfloor : floor ≤ level) (hstack : ∀ tag ∈ stack, tag.indent ≤ level)
    {name : String} (hname : IsTagName name) (attributes : List (String × String)) :
    scanLine floor stack (Line.mk level (.opening name attributes)).body =
      some (⟨name.toList, level⟩ :: stack) := by
  obtain ⟨c, back, htail, hc, hbare⟩ := attributeText_bracket attributes
  have htext : (Mark.opening name attributes).text = '<' :: (name.toList ++ c :: back) := by
    rw [Mark.text, List.append_assoc, htail]
  have hinline : ¬ IsInline (name.toList ++ c :: back) := by
    rcases hc with rfl | rfl
    · exact not_isInline_space hname back
    · rw [(hbare rfl).2]
      exact not_isInline_bracket hname
  have hfront := frontName_append hname hc back
  have hne : ¬ frontName (name.toList ++ c :: back) = name.toList ++ c :: back := by
    rw [hfront]
    simp
  rw [scanLine_body hfloor hstack, htext]
  split
  · rename_i rest heq
    exact absurd (List.cons.inj heq).2 (tagName_ne_slash hname hc _ _)
  · rename_i rest _ heq
    obtain rfl : name.toList ++ c :: back = rest := (List.cons.inj heq).2
    rw [if_neg hne, if_neg hinline, hfront]
  · rename_i hother
    exact absurd rfl (hother _)

theorem scanLine_inline (hfloor : floor ≤ level) (hstack : ∀ tag ∈ stack, tag.indent ≤ level)
    {name : String} (hname : IsTagName name) (text : String) :
    scanLine floor stack (Line.mk level (.inline name text)).body = some stack := by
  have hbracket : '>' = ' ' ∨ '>' = '>' := .inr rfl
  have hfront := frontName_append hname hbracket (text.toList ++ closingText name.toList)
  have hne : ¬ frontName (name.toList ++ '>' :: (text.toList ++ closingText name.toList)) =
      name.toList ++ '>' :: (text.toList ++ closingText name.toList) := by
    rw [hfront]
    simp
  have hinline : IsInline (name.toList ++ '>' :: (text.toList ++ closingText name.toList)) :=
    ⟨text.toList, by rw [hfront]⟩
  have htext : (Mark.inline name text).text =
      '<' :: (name.toList ++ '>' :: (text.toList ++ closingText name.toList)) := rfl
  rw [scanLine_body hfloor hstack, htext]
  split
  · rename_i rest heq
    exact absurd (List.cons.inj heq).2 (tagName_ne_slash hname hbracket _ _)
  · rename_i rest _ heq
    obtain rfl : _ = rest := (List.cons.inj heq).2
    rw [if_neg hne, if_pos hinline]
  · rename_i hother
    exact absurd rfl (hother _)

theorem scanLine_closing (hfloor : floor ≤ level) (hstack : ∀ tag ∈ stack, tag.indent ≤ level)
    (name : String) :
    scanLine floor (⟨name.toList, level⟩ :: stack) (Line.mk level (.closing name)).body =
      some stack := by
  have hstack' : ∀ tag ∈ OpenTag.mk name.toList level :: stack, tag.indent ≤ level := by
    simpa using hstack
  rw [scanLine_body hfloor hstack']
  simp [Mark.text, closeTop]

/-! ## All lines -/

theorem scan_linesAll {stack : List OpenTag} {elements : List Element}
    (helements : ∀ element ∈ elements, ∀ rest,
      scan floor stack (element.lines.map Line.body ++ rest) = scan floor stack rest)
    (rest : List (List Char)) :
    scan floor stack ((Element.linesAll elements).map Line.body ++ rest) =
      scan floor stack rest := by
  induction elements with
  | nil => rfl
  | cons element elements ih =>
      have htail := ih fun other hmem => helements other (List.mem_cons_of_mem _ hmem)
      rw [Element.linesAll, List.map_append, List.append_assoc, helements element (by simp),
        htail]

/-- The lines of a sound element leave the stack as it was. -/
theorem scan_lines {bound : Nat} {element : Element} (helement : element.Sound bound)
    (hfloor : floor ≤ bound) {stack : List OpenTag} (hstack : ∀ tag ∈ stack, tag.indent ≤ bound)
    (rest : List (List Char)) :
    scan floor stack (element.lines.map Line.body ++ rest) = scan floor stack rest := by
  induction helement generalizing stack rest with
  | @leaf bound level name text hlevel hname htext =>
      have hline := scanLine_inline (le_trans hfloor hlevel)
        (fun tag hmem => le_trans (hstack tag hmem) hlevel) hname text
      simp only [Element.lines, List.map_cons, List.map_nil, List.singleton_append, scan]
      rw [hline, Option.bind_some]
  | @branch bound level name attributes children hlevel hname hattributes hchildren ih =>
      have hfloor' := le_trans hfloor hlevel
      have hstack' : ∀ tag ∈ stack, tag.indent ≤ level :=
        fun tag hmem => le_trans (hstack tag hmem) hlevel
      have hinner : ∀ tag ∈ OpenTag.mk name.toList level :: stack, tag.indent ≤ level := by
        simpa using hstack'
      -- each child in turn leaves the stack with the tag of its parent on top
      have hall := scan_linesAll (fun child hmem rest => ih child hmem hfloor' hinner rest)
      have hopening := scanLine_opening hfloor' hstack' hname attributes
      have hclosing := scanLine_closing hfloor' hstack' name
      simp only [Element.lines, List.map_cons, List.map_append, List.map_nil, List.cons_append,
        List.append_assoc, List.nil_append, scan]
      rw [hopening, Option.bind_some, hall]
      simp only [scan]
      rw [hclosing, Option.bind_some]

end

theorem wellNested_linesText {floor : Nat} {elements : List Element}
    (helements : SoundForest floor elements) :
    WellNested floor (linesText (Element.linesAll elements)) := by
  have hmarks : ∀ line ∈ Element.linesAll elements, line.mark.Sound := by
    intro line hmem
    obtain ⟨element, helement, hline⟩ := mem_linesAll.mp hmem
    exact (helements element helement).mark_sound line hline
  have hstack : ∀ tag ∈ ([] : List OpenTag), tag.indent ≤ floor := by simp
  have hscan := scan_linesAll (fun element hmem rest =>
    scan_lines (helements element hmem) le_rfl hstack rest) []
  rw [List.append_nil] at hscan
  rw [WellNested, textLines_linesText hmarks, hscan]
  rfl

/-- Every dump of a tree with texts of one line is well nested, and no line of
it is further left than the level of the dump. -/
theorem wellNested_dump (root : Node) (level : Nat) (text : String)
    (hroot : root.Everywhere HasOneLineTexts) (hdump : dump? root level = some text) :
    WellNested level text := by
  rw [dump?_eq_some hdump, lines_eq_linesAll]
  exact wellNested_linesText (isSound root hroot level)

theorem wellNested_dump_tagLikeTexts :
    WellNested 3
      (linesText (lines (.assignment (.var "<a b='>") (.string "</string_node>")) 3)) := by
  have hvar : (Node.var "<a b='>").Everywhere HasOneLineTexts := show IsOneLine _ by decide
  have hstring : (Node.string "</string_node>").Everywhere HasOneLineTexts :=
    show IsOneLine _ by decide
  exact wellNested_dump (.assignment (.var "<a b='>") (.string "</string_node>")) 3 _
    ⟨trivial, hvar, hstring⟩ (if_pos (by decide))

example : ¬ WellNested 0 "<a>\n</b>\n" := by decide

example : ¬ WellNested 0 "<a>\n </a>\n" := by decide

end Tag
end SyntaxDump
