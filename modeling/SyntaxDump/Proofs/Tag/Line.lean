import Mathlib.Tactic
import SyntaxDump.Proofs.Syntax.TypeName
import SyntaxDump.Tag.Dump

/-!
# Reading lines off a text

Nothing in a dump is escaped, and still its lines can be told apart and each
line has one reading only.  A line ends with the first line feed, its level is
the number of its leading spaces, and the name of a tag ends before the first
space or bracket.  The text between tags and the last attribute end where the
line does; only the identifier of a declaration has other attributes behind
it, and these hold no quote, so they are found from the right.
-/

namespace SyntaxDump
namespace Tag

/-! ## Splitting at the first delimiter -/

/-- A text is split in one way only at the first character of some sort. -/
theorem split_unique {p : Char → Prop} {front front' back back' : List Char} {c d : Char}
    (hfront : ∀ a ∈ front, ¬ p a) (hfront' : ∀ a ∈ front', ¬ p a) (hc : p c) (hd : p d)
    (heq : front ++ c :: back = front' ++ d :: back') :
    front = front' ∧ c = d ∧ back = back' := by
  induction front generalizing front' with
  | nil =>
      cases front' with
      | nil => simpa using heq
      | cons a front' =>
          obtain ⟨rfl, -⟩ := List.cons.inj heq
          exact absurd hc (hfront' c (by simp))
  | cons a front ih =>
      cases front' with
      | nil =>
          obtain ⟨rfl, -⟩ := List.cons.inj heq
          exact absurd hd (hfront a (by simp))
      | cons b front' =>
          obtain ⟨rfl, htail⟩ := List.cons.inj heq
          obtain ⟨rfl, hrest⟩ := ih (fun x hx => hfront x (List.mem_cons_of_mem _ hx))
            (fun x hx => hfront' x (List.mem_cons_of_mem _ hx)) htail
          exact ⟨rfl, hrest⟩

theorem split_last_unique {front front' back back' : List Char} {c : Char}
    (hback : c ∉ back) (hback' : c ∉ back')
    (heq : front ++ c :: back = front' ++ c :: back') : front = front' ∧ back = back' := by
  have hreverse := congrArg List.reverse heq
  simp only [List.reverse_append, List.reverse_cons, List.append_assoc, List.singleton_append]
    at hreverse
  have hne : ∀ {cs : List Char}, c ∉ cs → ∀ a ∈ cs.reverse, ¬ a = c := by
    rintro cs hcs a ha rfl
    exact hcs (List.mem_reverse.mp ha)
  obtain ⟨hfirst, -, hsecond⟩ := split_unique (hne hback) (hne hback') rfl rfl hreverse
  exact ⟨List.reverse_injective hsecond, List.reverse_injective hfirst⟩

/-! ## Tags with one reading -/

/-- A name that ends where a tag goes on, and that does not look like the start
of a closing tag. -/
def IsTagName (name : String) : Prop :=
  ∀ c ∈ name.toList, c ≠ ' ' ∧ c ≠ '>' ∧ c ≠ '/' ∧ c ≠ '\n'

instance (name : String) : Decidable (IsTagName name) :=
  List.decidableBAll _ name.toList

def IsOneLine (text : String) : Prop := '\n' ∉ text.toList

instance (text : String) : Decidable (IsOneLine text) :=
  inferInstanceAs (Decidable ('\n' ∉ text.toList))

/-- The attributes that occur in dumps. -/
inductive Shown : List (String × String) → Prop
  | none : Shown []
  | single {key value : String} (hkey : key ∈ ["size", "type", "level"])
      (hvalue : IsOneLine value) : Shown [(key, value)]
  | declaration {identifier qualifier type : String} (hidentifier : IsOneLine identifier)
      (hqualifier : IsQuiet qualifier) (htype : IsQuiet type) :
      Shown [("name", identifier), ("qualifier", qualifier), ("type", type)]

/-- The tags that occur in dumps. -/
inductive Mark.Sound : Mark → Prop
  | opening {name : String} {attributes : List (String × String)} (hname : IsTagName name)
      (hattributes : Shown attributes) : Sound (.opening name attributes)
  | closing {name : String} (hname : IsTagName name) : Sound (.closing name)
  | inline {name text : String} (hname : IsTagName name) (htext : IsOneLine text) :
      Sound (.inline name text)

theorem IsTagName.isOneLine {name : String} (hname : IsTagName name) : IsOneLine name := by
  intro hmem
  exact (hname _ hmem).2.2.2 rfl

theorem isOneLine_of_isQuiet {text : String} (htext : IsQuiet text) : IsOneLine text := by
  intro hmem
  exact (htext _ hmem).2.2 rfl

theorem not_mem_quote {text : String} (htext : IsQuiet text) : '\'' ∉ text.toList := by
  intro hmem
  exact (htext _ hmem).1 rfl

theorem not_mem_attributeText {attributes : List (String × String)}
    (hattributes : ∀ pair ∈ attributes,
      IsOneLine pair.1 ∧ IsOneLine pair.2) : '\n' ∉ attributeText attributes := by
  induction attributes with
  | nil => simp [attributeText]
  | cons pair attributes ih =>
      obtain ⟨key, value⟩ := pair
      obtain ⟨hkey, hvalue⟩ := hattributes (key, value) (by simp)
      have htail := ih fun other hmem => hattributes other (List.mem_cons_of_mem _ hmem)
      unfold IsOneLine at hkey hvalue
      simp_all [attributeText]

theorem Shown.isOneLine {attributes : List (String × String)} (hattributes : Shown attributes) :
    ∀ pair ∈ attributes, IsOneLine pair.1 ∧ IsOneLine pair.2 := by
  cases hattributes with
  | none => simp
  | single hkey hvalue =>
      have hall : ∀ key ∈ ["size", "type", "level"], IsOneLine key := by decide
      simpa using ⟨hall _ hkey, hvalue⟩
  | declaration hidentifier hqualifier htype =>
      have hname : IsOneLine "name" ∧ IsOneLine "qualifier" ∧ IsOneLine "type" := by decide
      simpa [hname] using ⟨hidentifier, isOneLine_of_isQuiet hqualifier, isOneLine_of_isQuiet htype⟩

theorem Mark.Sound.not_mem_text {mark : Mark} (hmark : mark.Sound) : '\n' ∉ mark.text := by
  cases hmark with
  | opening hname hattributes =>
      have hname' := hname.isOneLine
      have htext := not_mem_attributeText hattributes.isOneLine
      unfold IsOneLine at hname'
      simp_all [Mark.text]
  | closing hname =>
      have hname' := hname.isOneLine
      unfold IsOneLine at hname'
      simp_all [Mark.text]
  | inline hname htext =>
      have hname' := hname.isOneLine
      unfold IsOneLine at hname' htext
      simp_all [Mark.text]

/-! ## The lines of a text -/

/-- The lines of a text, without their line feeds. -/
def textLines : List Char → List (List Char)
  | [] => []
  | c :: cs =>
      if c = '\n' then [] :: textLines cs
      else
        match textLines cs with
        | [] => [[c]]
        | line :: lines => (c :: line) :: lines

theorem textLines_line {line : List Char} (hline : '\n' ∉ line) (rest : List Char) :
    textLines (line ++ '\n' :: rest) = line :: textLines rest := by
  induction line with
  | nil => simp [textLines]
  | cons c line ih =>
      have hc : c ≠ '\n' := by
        rintro rfl
        simp at hline
      have htail := ih fun hmem => hline (List.mem_cons_of_mem _ hmem)
      rw [List.cons_append, textLines, if_neg hc, htail]

def Line.body (line : Line) : List Char := List.replicate line.level ' ' ++ line.mark.text

theorem not_mem_body {line : Line} (hline : line.mark.Sound) : '\n' ∉ line.body := by
  have hmark := hline.not_mem_text
  simp [Line.body, hmark]

theorem toList_linesText (lines : List Line) :
    (linesText lines).toList = lines.flatMap fun line => line.body ++ ['\n'] := by
  simp [linesText, List.flatMap_map, Line.body, Line.text]

theorem getLast?_linesText (lines : List Line) :
    (linesText lines).toList.getLast? = if lines = [] then none else some '\n' := by
  rw [toList_linesText]
  cases lines using List.reverseRecOn with
  | nil => rfl
  | append_singleton lines line ih => simp

theorem textLines_linesText {lines : List Line} (hlines : ∀ line ∈ lines, line.mark.Sound) :
    textLines (linesText lines).toList = lines.map Line.body := by
  rw [toList_linesText]
  induction lines with
  | nil => rfl
  | cons line lines ih =>
      have hline := not_mem_body (hlines line (by simp))
      have htail := ih fun other hmem => hlines other (List.mem_cons_of_mem _ hmem)
      rw [List.flatMap_cons, List.append_assoc, List.singleton_append, textLines_line hline,
        htail, List.map_cons]

/-! ## One reading for each line -/

theorem isTagName_not_delimiter {name : String} (hname : IsTagName name) :
    ∀ c ∈ name.toList, ¬ (c = ' ' ∨ c = '>') := by
  rintro c hc (hspace | hbracket)
  · exact (hname c hc).1 hspace
  · exact (hname c hc).2.1 hbracket

theorem tagName_unique {name name' : String} (hname : IsTagName name) (hname' : IsTagName name')
    {c d : Char} {back back' : List Char} (hc : c = ' ' ∨ c = '>') (hd : d = ' ' ∨ d = '>')
    (heq : name.toList ++ c :: back = name'.toList ++ d :: back') :
    name = name' ∧ c = d ∧ back = back' := by
  obtain ⟨hlist, hrest⟩ := split_unique (isTagName_not_delimiter hname)
    (isTagName_not_delimiter hname') hc hd heq
  exact ⟨String.toList_inj.mp hlist, hrest⟩

theorem tagName_ne_slash {name : String} (hname : IsTagName name) {c : Char}
    (hc : c = ' ' ∨ c = '>') (back rest : List Char) :
    name.toList ++ c :: back ≠ '/' :: rest := by
  intro heq
  cases hlist : name.toList with
  | nil =>
      rw [hlist] at heq
      rcases hc with rfl | rfl <;> simp at heq
  | cons d tail =>
      rw [hlist] at heq
      have hd := (hname d (by simp [hlist])).2.2.1
      exact hd (List.cons.inj heq).1

theorem attributeText_bracket (attributes : List (String × String)) :
    ∃ c back, attributeText attributes ++ ['>'] = c :: back ∧ (c = ' ' ∨ c = '>') ∧
      (c = '>' → attributes = [] ∧ back = []) := by
  cases attributes with
  | nil => exact ⟨'>', [], rfl, .inr rfl, fun _ => ⟨rfl, rfl⟩⟩
  | cons pair attributes => exact ⟨' ', _, rfl, .inl rfl, fun h => absurd h (by decide)⟩

theorem attributeText_cons (key value : String) (attributes : List (String × String)) :
    attributeText ((key, value) :: attributes) =
      ' ' :: (key.toList ++ '=' :: '\'' :: (value.toList ++ '\'' :: attributeText attributes)) := by
  simp [attributeText]

theorem key_unique {key key' : String} (hkey : '=' ∉ key.toList) (hkey' : '=' ∉ key'.toList)
    {back back' : List Char} (heq : key.toList ++ '=' :: back = key'.toList ++ '=' :: back') :
    key = key' ∧ back = back' := by
  have hne : ∀ {text : String}, '=' ∉ text.toList → ∀ a ∈ text.toList, ¬ a = '=' := by
    rintro text htext a ha rfl
    exact htext ha
  obtain ⟨hlist, -, hback⟩ := split_unique (hne hkey) (hne hkey') rfl rfl heq
  exact ⟨String.toList_inj.mp hlist, hback⟩

theorem not_mem_key : ∀ key ∈ ["size", "type", "level"], '=' ∉ key.toList ∧ key ≠ "name" := by
  decide

theorem attributeText_declaration (identifier qualifier type : String) :
    attributeText [("name", identifier), ("qualifier", qualifier), ("type", type)] =
      " name='".toList ++
        (((identifier.toList ++ "' qualifier=".toList) ++ '\'' :: qualifier.toList) ++
          "' type=".toList ++ '\'' :: type.toList ++ ['\'']) := by
  simp [attributeText]

/-- The three attributes of a declaration are read off from the right. -/
theorem declaration_unique {identifier identifier' qualifier qualifier' type type' : String}
    (hqualifier : IsQuiet qualifier) (hqualifier' : IsQuiet qualifier')
    (htype : IsQuiet type) (htype' : IsQuiet type')
    (heq : attributeText [("name", identifier), ("qualifier", qualifier), ("type", type)] =
      attributeText [("name", identifier'), ("qualifier", qualifier'), ("type", type')]) :
    identifier = identifier' ∧ qualifier = qualifier' ∧ type = type' := by
  rw [attributeText_declaration, attributeText_declaration] at heq
  have hquoted := List.append_cancel_right (List.append_cancel_left heq)
  obtain ⟨hfront, htypes⟩ :=
    split_last_unique (not_mem_quote htype) (not_mem_quote htype') hquoted
  obtain ⟨hidentifiers, hqualifiers⟩ := split_last_unique (not_mem_quote hqualifier)
    (not_mem_quote hqualifier') (List.append_cancel_right hfront)
  exact ⟨String.toList_inj.mp (List.append_cancel_right hidentifiers),
    String.toList_inj.mp hqualifiers, String.toList_inj.mp htypes⟩

theorem single_ne_declaration {key : String} (hkey : key ∈ ["size", "type", "level"])
    (value identifier qualifier type : String) :
    attributeText [(key, value)] ≠
      attributeText [("name", identifier), ("qualifier", qualifier), ("type", type)] := by
  intro heq
  rw [attributeText_cons, attributeText_cons] at heq
  obtain ⟨rfl, -⟩ := key_unique (not_mem_key key hkey).1 (by decide) (List.cons.inj heq).2
  exact absurd rfl (not_mem_key _ hkey).2

theorem Shown.attributeText_injective {attributes attributes' : List (String × String)}
    (hshown : Shown attributes) (hshown' : Shown attributes')
    (heq : attributeText attributes = attributeText attributes') : attributes = attributes' := by
  cases hshown with
  | none =>
      cases hshown' with
      | none => rfl
      | single hkey hvalue => simp [attributeText] at heq
      | declaration hidentifier hqualifier htype => simp [attributeText] at heq
  | @single key value hkey hvalue =>
      cases hshown' with
      | none => simp [attributeText] at heq
      | @single key' value' hkey' hvalue' =>
          rw [attributeText_cons, attributeText_cons] at heq
          obtain ⟨rfl, hrest⟩ := key_unique (not_mem_key key hkey).1 (not_mem_key key' hkey').1
            (List.cons.inj heq).2
          have hvalues := List.append_cancel_right (List.cons.inj hrest).2
          rw [String.toList_inj.mp hvalues]
      | declaration hidentifier hqualifier htype =>
          exact absurd heq (single_ne_declaration hkey _ _ _ _)
  | declaration hidentifier hqualifier htype =>
      cases hshown' with
      | none => simp [attributeText] at heq
      | single hkey' hvalue' => exact absurd heq.symm (single_ne_declaration hkey' _ _ _ _)
      | declaration hidentifier' hqualifier' htype' =>
          obtain ⟨rfl, rfl, rfl⟩ := declaration_unique hqualifier hqualifier' htype htype' heq
          rfl

theorem opening_text_injective {name : String} {attributes : List (String × String)}
    (hname : IsTagName name) (hattributes : Shown attributes) {mark : Mark} (hmark : mark.Sound)
    (heq : (Mark.opening name attributes).text = mark.text) :
    Mark.opening name attributes = mark := by
  obtain ⟨c, back, htail, hc, hbare⟩ := attributeText_bracket attributes
  cases hmark with
  | @opening name' attributes' hname' hattributes' =>
      obtain ⟨d, back', htail', hd, -⟩ := attributeText_bracket attributes'
      simp only [Mark.text, List.append_assoc, htail, htail', List.cons.injEq, true_and] at heq
      obtain ⟨rfl, rfl, rfl⟩ := tagName_unique hname hname' hc hd heq
      have hsame := List.append_cancel_right (htail.trans htail'.symm)
      rw [hattributes.attributeText_injective hattributes' hsame]
  | closing hname' =>
      simp only [Mark.text, List.append_assoc, htail, List.cons.injEq, true_and] at heq
      exact absurd heq (tagName_ne_slash hname hc _ _)
  | inline hname' htext =>
      simp only [Mark.text, List.append_assoc, htail, List.cons.injEq, true_and] at heq
      obtain ⟨rfl, rfl, hback⟩ := tagName_unique hname hname' hc (.inr rfl) heq
      rw [(hbare rfl).2] at hback
      simp at hback

theorem closing_text_injective {name : String} (hname : IsTagName name) {mark : Mark}
    (hmark : mark.Sound) (heq : (Mark.closing name).text = mark.text) :
    Mark.closing name = mark := by
  cases hmark with
  | opening hname' hattributes' =>
      exact (opening_text_injective hname' hattributes' (.closing hname) heq.symm).symm
  | closing hname' =>
      simp only [Mark.text, List.cons.injEq, true_and] at heq
      rw [String.toList_inj.mp (List.append_cancel_right heq)]
  | inline hname' htext =>
      simp only [Mark.text, List.cons.injEq, true_and] at heq
      exact absurd heq.symm (tagName_ne_slash hname' (.inr rfl) _ _)

/-- Two tags of dumps with the same text are the same. -/
theorem Mark.Sound.text_injective {mark mark' : Mark} (hmark : mark.Sound)
    (hmark' : mark'.Sound) (heq : mark.text = mark'.text) : mark = mark' := by
  cases hmark with
  | opening hname hattributes => exact opening_text_injective hname hattributes hmark' heq
  | closing hname => exact closing_text_injective hname hmark' heq
  | inline hname htext =>
      cases hmark' with
      | opening hname' hattributes' =>
          exact (opening_text_injective hname' hattributes' (.inline hname htext) heq.symm).symm
      | closing hname' =>
          exact (closing_text_injective hname' (.inline hname htext) heq.symm).symm
      | inline hname' htext' =>
          simp only [Mark.text, List.cons.injEq, true_and] at heq
          obtain ⟨rfl, -, hback⟩ := tagName_unique hname hname' (.inr rfl) (.inr rfl) heq
          rw [String.toList_inj.mp (List.append_cancel_right hback)]

theorem Mark.text_eq_cons (mark : Mark) : ∃ rest, mark.text = '<' :: rest := by
  cases mark <;> exact ⟨_, rfl⟩

theorem body_injective {line line' : Line} (hline : line.mark.Sound) (hline' : line'.mark.Sound)
    (heq : line.body = line'.body) : line = line' := by
  obtain ⟨level, mark⟩ := line
  obtain ⟨level', mark'⟩ := line'
  obtain ⟨rest, htext⟩ := mark.text_eq_cons
  obtain ⟨rest', htext'⟩ := mark'.text_eq_cons
  simp only [Line.body, htext, htext'] at heq
  have hspaces : ∀ n, ∀ a ∈ List.replicate n ' ', ¬ a ≠ ' ' := by
    intro n a ha
    simpa using (List.eq_of_mem_replicate ha)
  obtain ⟨hlevel, -, hrest⟩ := split_unique (hspaces level) (hspaces level') (by decide)
    (by decide) heq
  have hlength := congrArg List.length hlevel
  rw [List.length_replicate, List.length_replicate] at hlength
  have hmark : mark = mark' := hline.text_injective hline' (by rw [htext, htext', hrest])
  rw [hlength, hmark]

theorem map_body_injective {lines lines' : List Line}
    (hlines : ∀ line ∈ lines, line.mark.Sound) (hlines' : ∀ line ∈ lines', line.mark.Sound)
    (heq : lines.map Line.body = lines'.map Line.body) : lines = lines' := by
  induction lines generalizing lines' with
  | nil =>
      cases lines' with
      | nil => rfl
      | cons line' lines' => simp at heq
  | cons line lines ih =>
      cases lines' with
      | nil => simp at heq
      | cons line' lines' =>
          obtain ⟨hhead, htail⟩ := List.cons.inj heq
          have hsame := body_injective (hlines line (by simp)) (hlines' line' (by simp)) hhead
          have hrest := ih (fun other hmem => hlines other (List.mem_cons_of_mem _ hmem))
            (fun other hmem => hlines' other (List.mem_cons_of_mem _ hmem)) htail
          rw [hsame, hrest]

/-- The lines of a dump can be read off its text. -/
theorem linesText_injective {lines lines' : List Line} (hlines : ∀ line ∈ lines, line.mark.Sound)
    (hlines' : ∀ line ∈ lines', line.mark.Sound) (heq : linesText lines = linesText lines') :
    lines = lines' := by
  have hbodies := textLines_linesText hlines
  rw [heq, textLines_linesText hlines'] at hbodies
  exact (map_body_injective hlines' hlines hbodies).symm

end Tag
end SyntaxDump
