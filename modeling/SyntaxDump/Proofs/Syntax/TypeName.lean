import Mathlib.Tactic
import SyntaxDump.Proofs.Syntax.Tree

/-!
# The names of types

A name starts with a character that tells the form of the type, and the names
of its parts are delimited, so a type can be read off any text that its name
starts.  No name holds a quote or a line feed.
-/

namespace SyntaxDump

/-- A text that can stand between quotes on one line. -/
def IsQuiet (text : String) : Prop := ∀ c ∈ text.toList, c ≠ '\'' ∧ c ≠ '"' ∧ c ≠ '\n'

instance (text : String) : Decidable (IsQuiet text) :=
  List.decidableBAll _ text.toList

theorem IsQuiet.append {front back : String} (hfront : IsQuiet front) (hback : IsQuiet back) :
    IsQuiet (front ++ back) := by
  intro c hc
  rw [String.toList_append, List.mem_append] at hc
  rcases hc with hleft | hright
  · exact hfront c hleft
  · exact hback c hright

theorem isQuiet_joinWith {separator : String} (hseparator : IsQuiet separator)
    {texts : List String} (htexts : ∀ text ∈ texts, IsQuiet text) :
    IsQuiet (joinWith separator texts) := by
  induction texts with
  | nil => exact show IsQuiet "" by decide
  | cons text texts ih =>
      have hhead := htexts text (by simp)
      have htail := ih fun other hmem => htexts other (List.mem_cons_of_mem _ hmem)
      cases texts with
      | nil => exact hhead
      | cons other texts => exact (hhead.append hseparator).append htail

theorem toList_joinWith_cons (text : String) (texts : List String) :
    (joinWith "," (text :: texts)).toList =
      text.toList ++ texts.flatMap fun other => ',' :: other.toList := by
  induction texts generalizing text with
  | nil => simp [joinWith]
  | cons other texts ih => simp [joinWith, ih]

namespace TypeDescriptor

theorem name_pointer (referenced : TypeDescriptor) :
    (pointer referenced).name = "[" ++ referenced.name ++ "]" := rfl

theorem name_functional (inputs : List TypeDescriptor) (output : TypeDescriptor) :
    (functional inputs output).name =
      "function with output " ++ output.name ++ " and inputs (" ++
        joinWith "," (names inputs) ++ ")" := rfl

/-- The name of every type starts with a character that tells its form. -/
def firstChar : TypeDescriptor → Char
  | .int => 'i'
  | .double => 'd'
  | .string => 's'
  | .void => 'v'
  | .unspec => 'u'
  | .pointer _ => '['
  | .functional .. => 'f'

theorem toList_name_eq_cons (type : TypeDescriptor) :
    ∃ rest, type.name.toList = type.firstChar :: rest := by
  cases type with
  | pointer referenced =>
      rw [name_pointer, String.toList_append, String.toList_append]
      exact ⟨_, rfl⟩
  | functional inputs output =>
      rw [name_functional]
      simp only [String.toList_append]
      exact ⟨_, rfl⟩
  | _ => exact ⟨_, rfl⟩

theorem names_eq_map (types : List TypeDescriptor) : names types = types.map name := by
  induction types with
  | nil => rfl
  | cons type types ih => rw [names, ih, List.map_cons]

theorem isQuiet_name (type : TypeDescriptor) : IsQuiet type.name := by
  induction type using nestedInduction with
  | int => decide
  | double => decide
  | string => decide
  | void => decide
  | unspec => decide
  | pointer referenced ih =>
      have hopen : IsQuiet "[" := by decide
      exact (hopen.append ih).append (by decide)
  | functional inputs output ihinputs ihoutput =>
      have hnames : ∀ text ∈ names inputs, IsQuiet text := by
        rw [names_eq_map]
        simpa using ihinputs
      have hopen : IsQuiet "function with output " := by decide
      exact (((hopen.append ihoutput).append (by decide)).append
        (isQuiet_joinWith (by decide) hnames)).append (by decide)

/-! ## Reading a type off its name -/

/-- Is the type the only one whose name starts a text that its own name
starts? -/
def IsReadable (type : TypeDescriptor) : Prop :=
  ∀ (other : TypeDescriptor) (rest rest' : List Char),
    type.name.toList ++ rest = other.name.toList ++ rest' → type = other ∧ rest = rest'

def inputsEnd (types : List TypeDescriptor) (rest : List Char) : List Char :=
  (types.flatMap fun type => ',' :: type.name.toList) ++ ')' :: rest

theorem inputsEnd_injective {types : List TypeDescriptor}
    (htypes : ∀ type ∈ types, IsReadable type) {others : List TypeDescriptor}
    {rest rest' : List Char} (heq : inputsEnd types rest = inputsEnd others rest') :
    types = others ∧ rest = rest' := by
  induction types generalizing others with
  | nil =>
      cases others with
      | nil => simpa [inputsEnd] using heq
      | cons other others => simp [inputsEnd] at heq
  | cons type types ih =>
      cases others with
      | nil => simp [inputsEnd] at heq
      | cons other others =>
          simp only [inputsEnd, List.flatMap_cons, List.cons_append, List.append_assoc,
            List.cons.injEq, true_and] at heq
          obtain ⟨rfl, htail⟩ := htypes type (by simp) other _ _ heq
          obtain ⟨rfl, hrest⟩ := ih (fun input hmem => htypes input (List.mem_cons_of_mem _ hmem))
            htail
          exact ⟨rfl, hrest⟩

theorem name_ne_close (type : TypeDescriptor) (rest rest' : List Char) :
    type.name.toList ++ rest ≠ ')' :: rest' := by
  obtain ⟨tail, hname⟩ := toList_name_eq_cons type
  rw [hname]
  intro heq
  have hfirst := (List.cons.inj heq).1
  cases type <;> simp [firstChar] at hfirst

theorem joinWith_names_cons (type : TypeDescriptor) (types : List TypeDescriptor)
    (rest : List Char) :
    (joinWith "," (names (type :: types))).toList ++ ')' :: rest =
      type.name.toList ++ inputsEnd types rest := by
  rw [names_eq_map, List.map_cons, toList_joinWith_cons, List.flatMap_map, List.append_assoc]
  rfl

theorem inputs_injective {types : List TypeDescriptor}
    (htypes : ∀ type ∈ types, IsReadable type) {others : List TypeDescriptor}
    {rest rest' : List Char}
    (heq : (joinWith "," (names types)).toList ++ ')' :: rest =
      (joinWith "," (names others)).toList ++ ')' :: rest') :
    types = others ∧ rest = rest' := by
  cases types with
  | nil =>
      cases others with
      | nil => simpa [joinWith, names] using heq
      | cons other others =>
          rw [joinWith_names_cons] at heq
          exact absurd heq.symm (name_ne_close other _ _)
  | cons type types =>
      cases others with
      | nil =>
          rw [joinWith_names_cons] at heq
          exact absurd heq (name_ne_close type _ _)
      | cons other others =>
          rw [joinWith_names_cons, joinWith_names_cons] at heq
          obtain ⟨rfl, htail⟩ := htypes type (by simp) other _ _ heq
          obtain ⟨rfl, hrest⟩ := inputsEnd_injective
            (fun input hmem => htypes input (List.mem_cons_of_mem _ hmem)) htail
          exact ⟨rfl, hrest⟩

theorem firstChar_eq {type other : TypeDescriptor} {rest rest' : List Char}
    (heq : type.name.toList ++ rest = other.name.toList ++ rest') :
    type.firstChar = other.firstChar := by
  obtain ⟨tail, hname⟩ := toList_name_eq_cons type
  obtain ⟨tail', hname'⟩ := toList_name_eq_cons other
  rw [hname, hname'] at heq
  exact (List.cons.inj heq).1

theorem isReadable (type : TypeDescriptor) : IsReadable type := by
  induction type using nestedInduction with
  | pointer referenced ih =>
      intro other rest rest' heq
      have hfirst := firstChar_eq heq
      cases other with
      | pointer referenced' =>
          simp only [name_pointer, String.toList_append, List.append_assoc,
            List.append_cancel_left_eq] at heq
          obtain ⟨rfl, hrest⟩ := ih referenced' _ _ heq
          exact ⟨rfl, List.append_cancel_left hrest⟩
      | _ => simp [firstChar] at hfirst
  | functional inputs output ihinputs ihoutput =>
      intro other rest rest' heq
      have hfirst := firstChar_eq heq
      cases other with
      | functional inputs' output' =>
          simp only [name_functional, String.toList_append, List.append_assoc,
            List.append_cancel_left_eq] at heq
          obtain ⟨rfl, htail⟩ := ihoutput output' _ _ heq
          obtain ⟨rfl, hrest⟩ := inputs_injective ihinputs (List.append_cancel_left htail)
          exact ⟨rfl, hrest⟩
      | _ => simp [firstChar] at hfirst
  | _ =>
      intro other rest rest' heq
      have hfirst := firstChar_eq heq
      cases other <;> simp [firstChar] at hfirst
      exact ⟨rfl, List.append_cancel_left heq⟩

theorem name_injective : Function.Injective name := by
  intro type other heq
  have hread := isReadable type other [] []
  rw [heq] at hread
  exact (hread rfl).1

theorem name_ne_auto (type : TypeDescriptor) : type.name ≠ "auto" := by
  intro heq
  obtain ⟨tail, hname⟩ := toList_name_eq_cons type
  rw [heq, show "auto".toList = ['a', 'u', 't', 'o'] from rfl] at hname
  have hfirst := (List.cons.inj hname).1
  cases type <;> simp [firstChar] at hfirst

/-- A name that starts another name is that name. -/
theorem name_isPrefix_iff (type other : TypeDescriptor) :
    type.name.toList <+: other.name.toList ↔ type = other := by
  constructor
  · rintro ⟨rest, hrest⟩
    exact (isReadable type other rest [] (by rw [hrest, List.append_nil])).1
  · rintro rfl
    exact List.prefix_rfl

/-! ## Commas between inputs only -/

/-- Does no comma stand in front of a closing bracket? -/
def IsTrimmed (cs : List Char) : Prop := cs.IsChain fun c d => c = ',' → d ≠ ')'

instance (cs : List Char) : Decidable (IsTrimmed cs) :=
  inferInstanceAs (Decidable (cs.IsChain fun c d => c = ',' → d ≠ ')'))

theorem IsTrimmed.no_comma_bracket {cs : List Char} (hcs : IsTrimmed cs) :
    ¬ [',', ')'] <:+: cs := by
  intro hinside
  have hpair : IsTrimmed [',', ')'] := hcs.infix hinside
  simp [IsTrimmed] at hpair

theorem IsTrimmed.append {front back : List Char} (hfront : IsTrimmed front)
    (hback : IsTrimmed back)
    (hmeet : front.getLast? ≠ some ',' ∨ back.head? ≠ some ')') :
    IsTrimmed (front ++ back) := by
  refine List.isChain_append.mpr ⟨hfront, hback, ?_⟩
  rintro c hc d hd rfl rfl
  rcases hmeet with hlast | hfirst
  · exact hlast hc
  · exact hfirst hd

theorem getLast?_name_ne_comma (type : TypeDescriptor) :
    type.name.toList.getLast? ≠ some ',' := by
  cases type with
  | pointer referenced =>
      rw [name_pointer, String.toList_append, show "]".toList = [']'] from rfl,
        List.getLast?_concat]
      simp
  | functional inputs output =>
      rw [name_functional, String.toList_append, show ")".toList = [')'] from rfl,
        List.getLast?_concat]
      simp
  | _ => decide

theorem firstChar_ne_bracket (type : TypeDescriptor) : type.firstChar ≠ ')' := by
  cases type <;> simp [firstChar]

theorem isTrimmed_inputsEnd {types : List TypeDescriptor}
    (htypes : ∀ type ∈ types, IsTrimmed type.name.toList) : IsTrimmed (inputsEnd types []) := by
  induction types with
  | nil => exact List.isChain_singleton _
  | cons type types ih =>
      have htail := ih fun other hmem => htypes other (List.mem_cons_of_mem _ hmem)
      have hbody := (htypes type (by simp)).append htail (.inl (getLast?_name_ne_comma type))
      obtain ⟨rest, hname⟩ := toList_name_eq_cons type
      have hfirst : (type.name.toList ++ inputsEnd types []).head? ≠ some ')' := by
        rw [hname]
        simpa using firstChar_ne_bracket type
      have hcomma : IsTrimmed [','] := List.isChain_singleton _
      have hsplit : inputsEnd (type :: types) [] =
          [','] ++ (type.name.toList ++ inputsEnd types []) := by
        simp [inputsEnd]
      rw [hsplit]
      exact hcomma.append hbody (.inr hfirst)

theorem isTrimmed_name (type : TypeDescriptor) : IsTrimmed type.name.toList := by
  induction type using nestedInduction with
  | pointer referenced ih =>
      have hopen : IsTrimmed "[".toList := List.isChain_singleton _
      have hclose : IsTrimmed "]".toList := List.isChain_singleton _
      rw [name_pointer, String.toList_append, String.toList_append]
      exact (hopen.append ih (.inl (by decide))).append hclose (.inr (by decide))
  | functional inputs output ihinputs ihoutput =>
      have hstart : IsTrimmed "function with output ".toList := by decide
      have hmiddle : IsTrimmed " and inputs (".toList := by decide
      have hinputs : IsTrimmed ((joinWith "," (names inputs)).toList ++ [')']) := by
        cases inputs with
        | nil => exact List.isChain_singleton _
        | cons type types =>
            have htail := isTrimmed_inputsEnd fun input hmem =>
              ihinputs input (List.mem_cons_of_mem _ hmem)
            rw [joinWith_names_cons]
            exact (ihinputs type (by simp)).append htail (.inl (getLast?_name_ne_comma type))
      have hname : (functional inputs output).name.toList =
          ("function with output ".toList ++ output.name.toList) ++
            (" and inputs (".toList ++ ((joinWith "," (names inputs)).toList ++ [')'])) := by
        rw [name_functional]
        simp
      rw [hname]
      exact (hstart.append ihoutput (.inl (by decide))).append
        (hmiddle.append hinputs (.inl (by decide))) (.inr (by simp))
  | _ => decide

/-! ## Types as they are shown -/

theorem toList_listed (start : String) (texts : List String) :
    (texts.foldl (fun text input => text ++ input ++ ",") start).toList =
      start.toList ++ texts.flatMap fun text => text.toList ++ [','] := by
  induction texts generalizing start with
  | nil => simp
  | cons text texts ih => simp [ih]

theorem flatMap_append_comma (text : String) (texts : List String) :
    ((text :: texts).flatMap fun other => other.toList ++ [',']) =
      (joinWith "," (text :: texts)).toList ++ [','] := by
  induction texts generalizing text with
  | nil => simp [joinWith]
  | cons other texts ih => rw [List.flatMap_cons, ih]; simp [joinWith]

/-- Taking back the comma behind the last input leaves commas between inputs
only. -/
theorem functionalText_eq (output : String) (inputs : List String) :
    functionalText output inputs =
      "function with output " ++ output ++ " and inputs (" ++ joinWith "," inputs ++ ")" := by
  cases inputs with
  | nil => simp [functionalText, joinWith]
  | cons input inputs =>
      apply String.toList_inj.mp
      rw [functionalText]
      simp only [List.isEmpty_cons, Bool.false_eq_true, if_false, withoutLast,
        String.toList_append, String.toList_ofList]
      rw [toList_listed, flatMap_append_comma, ← List.append_assoc, List.dropLast_concat]
      simp

theorem displays_eq_map (types : List TypeDescriptor) : displays types = types.map display := by
  induction types with
  | nil => rfl
  | cons type types ih => rw [displays, ih, List.map_cons]

/-- Types are shown by their names. -/
theorem display_eq_name (type : TypeDescriptor) : type.display = type.name := by
  induction type using nestedInduction with
  | pointer referenced ih => rw [display, ih, name_pointer]
  | functional inputs output ihinputs ihoutput =>
      have hinputs : displays inputs = names inputs := by
        rw [displays_eq_map, names_eq_map]
        exact List.map_congr_left ihinputs
      rw [display, functionalText_eq, hinputs, ihoutput, name_functional]
  | _ => rfl

theorem typeName_some (type : TypeDescriptor) : typeName (some type) = type.display := by
  cases type <;> rfl

/-- Types can be read off their names.  A type is shown by its name wherever
it stands; the name is not the word for a missing type, can stand between
quotes, has commas between inputs only, and starts no other name. -/
theorem typeName_decodable (type other : TypeDescriptor) :
    typeName (some type) = type.display ∧ type.display = type.name ∧
    typeName (some type) ≠ "" ∧ typeName (some type) ≠ "auto" ∧
    ¬ [',', ')'] <:+: (typeName (some type)).toList ∧ IsQuiet (typeName (some type)) ∧
    ((typeName (some type)).toList <+: (typeName (some other)).toList ↔ type = other) ∧
    (typeName (some type) = typeName (some other) ↔ type = other) := by
  rw [typeName_some, typeName_some, display_eq_name, display_eq_name]
  refine ⟨rfl, rfl, ?_, name_ne_auto type, (isTrimmed_name type).no_comma_bracket,
    isQuiet_name type, name_isPrefix_iff type other, name_injective.eq_iff⟩
  intro hempty
  obtain ⟨rest, hname⟩ := toList_name_eq_cons type
  rw [hempty] at hname
  cases hname

end TypeDescriptor
end SyntaxDump
