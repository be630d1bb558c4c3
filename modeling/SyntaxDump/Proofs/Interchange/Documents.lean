import Mathlib
import SyntaxDump.Format.Builtin
import SyntaxDump.Proofs.Interchange.Edits

/-!
# Documents as spelled values

The outermost container of a document is read by loops of its own, which decode
the kind as soon as it comes.  They agree with the grammar like the loops for
inner containers.  So a document is read as a tree exactly if its text spells a
value of which the kind is given by a word and which decodes to the tree.  What
is known about edits of values then holds for texts: it does not matter in which
order members come, how a text is laid out and which members it has besides the
fields.
-/

namespace SyntaxDump
namespace Interchange

open Json (Value Result Spells SpellsBehind SpellsDocument ReadsItem ReadsMember Blanks EndsNumber
  skipBlanks)

/-! ## The kind of the root -/

@[simp]
theorem failContent_ne_ok {α : Type} {error : Json.ContentError} {cs : List Char} {result : α} :
    failContent error cs ≠ .ok result := by
  intro hok
  cases hok

theorem locate_eq_ok {α : Type} {decoded : Decoded α} {cs rest : List Char} {a : α} :
    locate decoded cs = .ok (a, rest) ↔ decoded = .ok a ∧ cs = rest := by
  cases decoded <;> simp [locate, failContent]

theorem ofWord_eq_ok {word : String} {kind : Kind} :
    nodeFamily.ofWord word = .ok kind ↔ Kind.ofWord? word = some kind := by
  simp only [Family.ofWord, choiceOf, nodeFamily]
  cases Kind.ofWord? word <;> simp

/-- The kind of the root is a string with the word of the kind. -/
theorem readKind_eq_ok {cs rest : List Char} {kind : Kind} :
    readKind cs = .ok (kind, rest) ↔
      ∃ word, Json.readValue 0 cs = .ok (.string word, rest) ∧
        Kind.ofWord? word = some kind := by
  unfold readKind
  split
  · rename_i tail hskip
    simp only [failContent_ne_ok, false_iff]
    rintro ⟨word, hread, -⟩
    exact (Json.not_open_of_readValue_zero hskip hread).1 rfl
  · rename_i tail hskip
    simp only [failContent_ne_ok, false_iff]
    rintro ⟨word, hread, -⟩
    exact (Json.not_open_of_readValue_zero hskip hread).2 rfl
  · rw [(Json.readsValue 0).skips, bind_ok_iff]
    constructor
    · rintro ⟨⟨value, behind⟩, hread, hkind⟩
      split at hkind
      · rename_i word tail hpair
        cases hpair
        obtain ⟨hword, rfl⟩ := locate_eq_ok.mp hkind
        exact ⟨word, hread, ofWord_eq_ok.mp hword⟩
      · obtain ⟨hwrong, -⟩ := locate_eq_ok.mp hkind
        cases hwrong
    · rintro ⟨word, hread, hword⟩
      exact ⟨(.string word, rest), hread, locate_eq_ok.mpr ⟨ofWord_eq_ok.mpr hword, rfl⟩⟩

/-- The kind that a value stands for as the kind of the root. -/
def rootKind? : Value → Option Kind
  | .string word => Kind.ofWord? word
  | _ => none

theorem rootKind?_eq_some {value : Value} {kind : Kind} :
    rootKind? value = some kind ↔
      ∃ word, value = .string word ∧ Kind.ofWord? word = some kind := by
  cases value <;> simp [rootKind?]

theorem readKind_sound {cs rest : List Char} {kind : Kind} (hread : readKind cs = .ok (kind, rest))
    (limit : Nat) :
    ∃ front value, skipBlanks cs = front ++ rest ∧ Spells limit front value ∧
      rootKind? value = some kind := by
  obtain ⟨word, hvalue, hword⟩ := readKind_eq_ok.mp hread
  obtain ⟨front, hsplit, hfront⟩ := (Json.readsValue 0).sound hvalue
  exact ⟨front, .string word, hsplit, Json.SpellsScalar.spells hfront limit, hword⟩

theorem readKind_complete {limit : Nat} {blanks front rest : List Char} {value : Value}
    {kind : Kind} (hblanks : Blanks blanks) (hfront : Spells limit front value)
    (hkind : rootKind? value = some kind) (hrest : EndsNumber rest) :
    readKind (blanks ++ (front ++ rest)) = .ok (kind, rest) := by
  obtain ⟨word, rfl, hword⟩ := rootKind?_eq_some.mp hkind
  -- the kind of the root is read with no container allowed, so the limit has to go down
  have hscalar : Spells 0 front (.string word) := by
    cases limit with
    | zero => exact hfront
    | succ limit =>
        cases hfront with
        | scalar hscalar => exact hscalar
  exact readKind_eq_ok.mpr
    ⟨word, (Json.readsValue 0).complete_behind hblanks hscalar hrest, hword⟩

/-! ## The members of the root -/

def rootMemberStep (state : Opened (String × Value)) (member : String × Value) :
    Option (Opened (String × Value)) :=
  if member.1 = "kind" then
    if state.kind.isSome then none
    else (rootKind? member.2).map fun kind => { state with kind := some kind }
  else some { state with found := member :: state.found }

theorem readsMember_rootMember :
    ReadsMember rootMember (Spells innerDepth) rootMemberStep where
  sound := by
    intro state name cs next rest hmember
    unfold rootMember at hmember
    split_ifs at hmember with hname hknown
    · simp at hmember
    · simp only [bind_ok_iff] at hmember
      obtain ⟨⟨_, behind⟩, hcolon, ⟨kind, rest'⟩, hkind, hdone⟩ := hmember
      cases hdone
      obtain ⟨before, hbefore, rfl⟩ := Json.blanks_of_readColon hcolon
      obtain ⟨after, hafter, hbehind⟩ := Json.exists_blanks behind
      obtain ⟨front, value, hsplit, hfront, hvalue⟩ := readKind_sound hkind innerDepth
      simp only at hsplit
      rw [hsplit] at hbehind
      refine ⟨before ++ ':' :: (after ++ front), value, by simp [hbehind],
        ⟨before, after, front, hbefore, hafter, hfront, rfl⟩, ?_⟩
      simp [rootMemberStep, hname, hknown, hvalue]
    · simp only [bind_ok_iff] at hmember
      obtain ⟨⟨found, rest'⟩, hcollect, hdone⟩ := hmember
      cases hdone
      obtain ⟨front, value, hsplit, hfront, hstep⟩ :=
        (Json.readsValue innerDepth).collectMember.sound hcollect
      cases hstep
      exact ⟨front, value, hsplit, hfront, by simp [rootMemberStep, hname]⟩
  complete := by
    intro cs name value state next rest hcs hstep hrest
    unfold rootMemberStep at hstep
    split_ifs at hstep with hname hknown
    · obtain ⟨kind, hkind, rfl⟩ := Option.map_eq_some_iff.mp hstep
      obtain ⟨before, after, front, hbefore, hafter, hfront, rfl⟩ := hcs
      have hread := readKind_complete hafter hfront hkind hrest
      rw [List.append_assoc, List.cons_append, List.append_assoc, rootMember, if_pos hname,
        if_neg hknown, Json.readColon_of_blanks hbefore]
      simp only [bind, Except.bind, hread, pure, Except.pure]
    · cases hstep
      have hcollect : Json.collectMember (Json.readValue innerDepth) state.found name (cs ++ rest) =
          .ok ((name, value) :: state.found, rest) :=
        (Json.readsValue innerDepth).collectMember.complete hcs rfl hrest
      rw [rootMember, if_neg hname, hcollect]
      rfl

theorem foldlM_rootMemberStep_some {kind : Kind} {members found : List (String × Value)}
    {final : Opened (String × Value)} :
    members.foldlM rootMemberStep ⟨some kind, found⟩ = some final ↔
      occurrences "kind" members = [] ∧
        final = ⟨some kind, (others members).reverse ++ found⟩ := by
  induction members generalizing found with
  | nil => simp [others, eq_comm]
  | cons member members ih =>
      obtain ⟨name, value⟩ := member
      by_cases hname : name = "kind"
      · subst hname
        simp [rootMemberStep]
      · have hstep : rootMemberStep ⟨some kind, found⟩ (name, value) =
            some ⟨some kind, (name, value) :: found⟩ := by simp [rootMemberStep, hname]
        rw [List.foldlM_cons, hstep, occurrences_cons_of_ne hname, others_cons_of_ne hname]
        simpa using ih

theorem foldlM_rootMemberStep {kind : Kind} {members found found' : List (String × Value)} :
    members.foldlM rootMemberStep ⟨none, found⟩ = some ⟨some kind, found'⟩ ↔
      (∃ tag, occurrences "kind" members = [tag] ∧ rootKind? tag = some kind) ∧
        found' = (others members).reverse ++ found := by
  induction members generalizing found with
  | nil => simp
  | cons member members ih =>
      obtain ⟨name, value⟩ := member
      by_cases hname : name = "kind"
      · subst hname
        have hstep : rootMemberStep ⟨none, found⟩ ("kind", value) =
            (rootKind? value).map fun kind => ⟨some kind, found⟩ := by simp [rootMemberStep]
        rw [List.foldlM_cons, hstep, occurrences_cons_self, others_cons_kind]
        cases hkind : rootKind? value with
        | none =>
            simp only [Option.map_none]
            constructor
            · intro hrun
              cases hrun
            · rintro ⟨⟨tag, htag, htagKind⟩, -⟩
              obtain ⟨rfl, -⟩ := List.cons.inj htag
              rw [hkind] at htagKind
              cases htagKind
        | some known =>
            simp only [Option.map_some]
            constructor
            · intro hrun
              obtain ⟨hnone, hfinal⟩ := foldlM_rootMemberStep_some.mp hrun
              cases hfinal
              exact ⟨⟨value, by rw [hnone], hkind⟩, rfl⟩
            · rintro ⟨⟨tag, htag, htagKind⟩, rfl⟩
              obtain ⟨rfl, hnone⟩ := List.cons.inj htag
              rw [hkind] at htagKind
              cases htagKind
              exact foldlM_rootMemberStep_some.mpr ⟨hnone, rfl⟩
      · have hstep : rootMemberStep ⟨none, found⟩ (name, value) =
            some ⟨none, (name, value) :: found⟩ := by simp [rootMemberStep, hname]
        rw [List.foldlM_cons, hstep, occurrences_cons_of_ne hname, others_cons_of_ne hname]
        simpa using ih

/-! ## The items of the root -/

def rootItemStep (state : Opened Value) (item : Value) : Option (Opened Value) :=
  if state.kind.isSome then some { state with found := item :: state.found }
  else (rootKind? item).map fun kind => { state with kind := some kind }

theorem readsItem_rootItem : ReadsItem rootItem (Spells innerDepth) rootItemStep where
  starts := Spells.startsItem
  sound := by
    intro state cs next rest hcs hitem
    unfold rootItem at hitem
    split_ifs at hitem with hknown
    · simp only [bind_ok_iff] at hitem
      obtain ⟨⟨found, rest'⟩, hcollect, hdone⟩ := hitem
      cases hdone
      obtain ⟨front, value, hsplit, hfront, hstep⟩ :=
        (Json.readsValue innerDepth).collectItem.sound hcs hcollect
      cases hstep
      exact ⟨front, value, hsplit, hfront, by simp [rootItemStep, hknown]⟩
    · simp only [bind_ok_iff] at hitem
      obtain ⟨⟨kind, rest'⟩, hkind, hdone⟩ := hitem
      cases hdone
      obtain ⟨front, value, hsplit, hfront, hvalue⟩ := readKind_sound hkind innerDepth
      rw [hcs.skipBlanks] at hsplit
      exact ⟨front, value, hsplit, hfront, by simp [rootItemStep, hknown, hvalue]⟩
  complete := by
    intro front value state next rest hfront hstep hrest
    unfold rootItemStep at hstep
    split_ifs at hstep with hknown
    · cases hstep
      have hcollect : Json.collectItem (Json.readValue innerDepth) state.found (front ++ rest) =
          .ok (value :: state.found, rest) :=
        (Json.readsValue innerDepth).collectItem.complete hfront rfl hrest
      rw [rootItem, if_pos hknown, hcollect]
      rfl
    · obtain ⟨kind, hkind, rfl⟩ := Option.map_eq_some_iff.mp hstep
      have hread := readKind_complete Json.blanks_nil hfront hkind hrest
      rw [List.nil_append] at hread
      rw [rootItem, if_neg hknown, hread]
      rfl

theorem foldlM_rootItemStep_some (kind : Kind) (items found : List Value) :
    items.foldlM rootItemStep ⟨some kind, found⟩ =
      some ⟨some kind, items.reverse ++ found⟩ := by
  induction items generalizing found with
  | nil => rfl
  | cons item items ih =>
      have hstep : rootItemStep ⟨some kind, found⟩ item = some ⟨some kind, item :: found⟩ := by
        simp [rootItemStep]
      rw [List.foldlM_cons, hstep]
      simpa using ih (item :: found)

theorem foldlM_rootItemStep {kind : Kind} {items found : List Value} :
    items.foldlM rootItemStep ⟨none, []⟩ = some ⟨some kind, found⟩ ↔
      ∃ tag rest, items = tag :: rest ∧ rootKind? tag = some kind ∧ found = rest.reverse := by
  cases items with
  | nil => simp
  | cons tag items =>
      have hstep : rootItemStep ⟨none, []⟩ tag =
          (rootKind? tag).map fun kind => ⟨some kind, []⟩ := by simp [rootItemStep]
      rw [List.foldlM_cons, hstep]
      constructor
      · intro hrun
        cases hkind : rootKind? tag with
        | none =>
            rw [hkind] at hrun
            cases hrun
        | some known =>
            rw [hkind] at hrun
            have hrest := (foldlM_rootItemStep_some known items []).symm.trans hrun
            rw [List.append_nil] at hrest
            cases hrest
            exact ⟨tag, items, rfl, hkind, rfl⟩
      · rintro ⟨tag', rest, heq, hkind, rfl⟩
        cases heq
        rw [hkind]
        simpa using foldlM_rootItemStep_some kind items []

/-! ## The root -/

/-- The kind of the root and what else it holds. -/
def IsRoot (value : Value) (kind : Kind) (content : Content) : Prop :=
  ∃ tag, Tagged value tag content ∧ rootKind? tag = some kind

theorem readRoot_sound {cs rest : List Char} {kind : Kind} {content : Content}
    (hread : readRoot cs = .ok ((kind, content), rest)) :
    ∃ front value, skipBlanks cs = front ++ rest ∧ Spells Json.maxDepth front value ∧
      IsRoot value kind content := by
  unfold readRoot at hread
  split at hread
  · rename_i tail hskip
    rw [bind_ok_iff] at hread
    obtain ⟨⟨state, rest'⟩, hitems, hdone⟩ := hread
    obtain ⟨body, items, rfl, hbody, hrun⟩ := readsItem_rootItem.readItems_sound hitems
    split at hdone
    · rename_i known found behind hpair
      cases hpair
      cases hdone
      obtain ⟨tag, others, rfl, hkind, rfl⟩ := foldlM_rootItemStep.mp hrun
      rw [hskip, List.reverse_reverse]
      exact ⟨'[' :: (body ++ [']']), .array (tag :: others), by simp, .array hbody,
        tag, .array, hkind⟩
    · simp at hdone
  · rename_i tail hskip
    rw [bind_ok_iff] at hread
    obtain ⟨⟨state, rest'⟩, hmembers, hdone⟩ := hread
    obtain ⟨body, members, rfl, hbody, hrun⟩ :=
      readsMember_rootMember.readMembers_sound hmembers
    split at hdone
    · rename_i known found behind hpair
      cases hpair
      cases hdone
      obtain ⟨⟨tag, htag, hkind⟩, rfl⟩ := foldlM_rootMemberStep.mp hrun
      rw [hskip, List.append_nil, List.reverse_reverse]
      exact ⟨'{' :: (body ++ ['}']), .object members, by simp, .object hbody,
        tag, .object htag, hkind⟩
    · simp at hdone
  · rw [bind_ok_iff] at hread
    obtain ⟨⟨value, rest'⟩, -, hdone⟩ := hread
    obtain ⟨hwrong, -⟩ := locate_eq_ok.mp hdone
    cases hwrong

theorem readRoot_complete {blanks front rest : List Char} {value : Value} {kind : Kind}
    {content : Content} (hblanks : Blanks blanks) (hfront : Spells Json.maxDepth front value)
    (hroot : IsRoot value kind content) :
    readRoot (blanks ++ (front ++ rest)) = .ok ((kind, content), rest) := by
  obtain ⟨tag, htagged, hkind⟩ := hroot
  have hsolid := (Spells.startsItem front value hfront).startsSolid.append rest
  unfold readRoot
  rw [hblanks.skip_solid hsolid]
  -- the root itself is one of the containers that may be nested
  change Json.SpellsValue (Spells innerDepth) front value at hfront
  cases htagged with
  | @object members tag htag =>
      cases hfront with
      | scalar hscalar => cases hscalar.depth
      | @object body members hbody =>
          have hrun : members.foldlM rootMemberStep ⟨none, []⟩ =
              some ⟨some kind, (others members).reverse ++ []⟩ :=
            foldlM_rootMemberStep.mpr ⟨⟨tag, htag, hkind⟩, rfl⟩
          have hmembers := readsMember_rootMember.readMembers_complete hbody hrun rest
          simp only [List.cons_append, List.append_assoc, List.nil_append, hmembers, bind,
            Except.bind, List.append_nil, List.reverse_reverse, pure, Except.pure]
  | @array tag items =>
      cases hfront with
      | scalar hscalar => cases hscalar.depth
      | @array body items hbody =>
          have hrun : (tag :: items).foldlM rootItemStep ⟨none, []⟩ =
              some ⟨some kind, items.reverse⟩ :=
            foldlM_rootItemStep.mpr ⟨tag, items, rfl, hkind, rfl⟩
          have hitems := readsItem_rootItem.readItems_complete hbody hrun rest
          simp only [List.cons_append, List.append_assoc, List.nil_append, hitems, bind,
            Except.bind, List.reverse_reverse, pure, Except.pure]

/-! ## Documents -/

theorem readEnd_eq_ok {cs : List Char} : readEnd cs = .ok () ↔ Blanks cs := by
  unfold readEnd
  split
  · rename_i hskip
    obtain ⟨blanks, hblanks, hcs⟩ := Json.exists_blanks cs
    rw [hskip, List.append_nil] at hcs
    subst hcs
    simp [hblanks]
  · rename_i hskip
    simp only [reduceCtorEq, false_iff]
    intro hblanks
    apply hskip
    simpa [skipBlanks] using hblanks.skip []

theorem atPosition_eq_ok {α : Type} {cs : List Char} {result : Result α} {a : α} :
    atPosition cs result = .ok a ↔ result = .ok a := by
  cases result <;> simp [atPosition]

/-- A value is the root of a document with this tree. -/
def DecodesTo (value : Value) (root : Node) : Prop :=
  ∃ kind content, IsRoot value kind content ∧
    nodeOfContent (nodeOf Json.maxDepth) (typeOf Json.maxDepth) kind content = .ok root

/-- A text is read as a tree exactly if it spells a value within the nesting
limit that decodes to the tree. -/
theorem read_eq_ok {text : String} {root : Node} :
    read text = .ok root ↔
      ∃ value, SpellsDocument text value ∧ value.depth ≤ Json.maxDepth ∧
        DecodesTo value root := by
  simp only [read, bind_ok_iff, atPosition_eq_ok, mapError_ok_iff]
  constructor
  · rintro ⟨⟨⟨kind, content⟩, rest⟩, hroot, node, hnode, _, hend, hdone⟩
    cases hdone
    obtain ⟨before, hbefore, htext⟩ := Json.exists_blanks text.toList
    obtain ⟨front, value, hsplit, hfront, hvalue⟩ := readRoot_sound hroot
    rw [hsplit] at htext
    have hdocument : SpellsDocument text value :=
      ⟨_, before, front, rest, hbefore, readEnd_eq_ok.mp hend, hfront, htext⟩
    exact ⟨value, hdocument, hfront.depth_le, kind, content, hvalue, hnode⟩
  · rintro ⟨value, ⟨_, before, front, rest, hbefore, hrest, hfront, htext⟩, hdepth,
      kind, content, hvalue, hnode⟩
    have hwithin : Spells Json.maxDepth front value := hfront.of_depth_le hdepth
    rw [htext]
    exact ⟨((kind, content), rest), readRoot_complete hbefore hwithin hvalue, root, hnode, (),
      readEnd_eq_ok.mpr hrest, rfl⟩

theorem read_eq_ok_of_spells {text : String} {value : Value} (htext : SpellsDocument text value)
    (hdepth : value.depth ≤ Json.maxDepth) {root : Node} :
    read text = .ok root ↔ DecodesTo value root := by
  rw [read_eq_ok]
  constructor
  · rintro ⟨other, hother, -, hroot⟩
    rwa [hother.unique htext] at hroot
  · exact fun hroot => ⟨value, htext, hdepth, hroot⟩

/-! ## Edits of documents -/

theorem IsRoot.split {value : Value} {kind : Kind} {content : Content}
    (hroot : IsRoot value kind content) : nodeFamily.split value = .ok (kind, content) := by
  obtain ⟨tag, htagged, hkind⟩ := hroot
  obtain ⟨word, rfl, hword⟩ := rootKind?_eq_some.mp hkind
  exact split_eq_ok.mpr ⟨.string word, htagged, ofWord_eq_ok.mpr hword⟩

/-- The root of a document is read like any other node if its kind is a string. -/
theorem decodesTo_iff_of_word {value : Value}
    (hword : ∀ {tag content}, Tagged value tag content → ∃ word, tag = .string word) {root : Node} :
    DecodesTo value root ↔ nodeOf (Json.maxDepth + 1) value = .ok root := by
  rw [nodeOf, bind_ok_iff]
  constructor
  · rintro ⟨kind, content, hroot, hnode⟩
    exact ⟨(kind, content), hroot.split, hnode⟩
  · rintro ⟨⟨kind, content⟩, hsplit, hnode⟩
    obtain ⟨tag, htagged, hkind⟩ := split_eq_ok.mp hsplit
    obtain ⟨word, rfl⟩ := hword htagged
    exact ⟨kind, content, ⟨.string word, htagged, ofWord_eq_ok.mp hkind⟩, hnode⟩

theorem IsRoot.edited {value value' : Value} {kind : Kind} {content : Content}
    (hroot : IsRoot value kind content) (hedit : Edited .node value value') :
    ∃ content', IsRoot value' kind content' ∧
      ContentKept Same (nodeFields kind) content content' := by
  have hfields : HasFields .node value (kindField :: nodeFields kind) := .node hroot.split
  obtain ⟨tag, htagged, hkind⟩ := hroot
  obtain ⟨tag', content', htagged', hsame, hkept⟩ := hedit.tagged hfields htagged
  obtain ⟨word, rfl, hword⟩ := rootKind?_eq_some.mp hkind
  -- the kind is a string, in which there is nothing to edit
  have htag : tag' = .string word := by
    cases hsame with
    | refl => rfl
    | single hchange => cases hchange.of_scalar
  subst htag
  exact ⟨content', ⟨.string word, htagged', hkind⟩, hkept⟩

theorem DecodesTo.edited {value value' : Value} {root : Node} (hvalue : DecodesTo value root)
    (hedit : Edited .node value value') : DecodesTo value' root := by
  obtain ⟨kind, content, hroot, hnode⟩ := hvalue
  obtain ⟨content', hroot', hkept⟩ := hroot.edited hedit
  exact ⟨kind, content', hroot', nodeOfContent_kept (preserves_nodeOf _) (preserves_typeOf _) kind
    hkept hnode⟩

theorem DecodesTo.edits {value value' : Value} {root : Node} (hvalue : DecodesTo value root)
    (hedits : Relation.ReflTransGen (Edited .node) value value') : DecodesTo value' root := by
  induction hedits with
  | refl => exact hvalue
  | tail _ hedit ih => exact ih.edited hedit

end Interchange

open Json (SpellsDocument)

theorem parseJson_eq_ok {source : String} {root : Node} :
    parseJson source = .ok root ↔
      ∃ value, SpellsDocument source value ∧ value.depth ≤ Json.maxDepth ∧
        Interchange.DecodesTo value root := by
  rw [parseJson, mapError_ok_iff, Interchange.read_eq_ok]

/-- A text is read as a tree and has the normal forms and dumps of another text. -/
structure ReadsLike (source' source : String) (root : Node) : Prop where
  parse : parseJson source' = .ok root
  normalize : ∀ pretty, normalizeJson source' pretty = normalizeJson source pretty
  toTag : ∀ level, jsonToTag source' level = jsonToTag source level

theorem readsLike_of_parseJson {source source' : String} {root : Node}
    (hsource : parseJson source = .ok root) (hsource' : parseJson source' = .ok root) :
    ReadsLike source' source root where
  parse := hsource'
  normalize pretty := by rw [normalizeJson, normalizeJson, hsource', hsource]
  toTag level := by rw [jsonToTag, jsonToTag, hsource', hsource]

/-- A document that is read as a tree spells one value.  However the objects in
it are reordered and whatever members are added that are no fields, every text
of the result reads like the document; the nesting limit needs to be minded for
added members only. -/
theorem parseJson_edits {source : String} {root : Node} (hsource : parseJson source = .ok root) :
    ∃ value, SpellsDocument source value ∧
      (∀ other, SpellsDocument source other → other = value) ∧
      (∀ value' source', Relation.ReflTransGen Interchange.Reordered value value' →
        SpellsDocument source' value' → ReadsLike source' source root) ∧
      ∀ value' source', Relation.ReflTransGen (Interchange.Edited .node) value value' →
        value'.depth ≤ Json.maxDepth → SpellsDocument source' value' →
        ReadsLike source' source root := by
  obtain ⟨value, htext, hdepth, hvalue⟩ := parseJson_eq_ok.mp hsource
  have hedited : ∀ value' source', Relation.ReflTransGen (Interchange.Edited .node) value value' →
      value'.depth ≤ Json.maxDepth → SpellsDocument source' value' →
      ReadsLike source' source root := by
    intro value' source' hedits hdepth' htext'
    have hsource' := parseJson_eq_ok.mpr ⟨value', htext', hdepth', hvalue.edits hedits⟩
    exact readsLike_of_parseJson hsource hsource'
  refine ⟨value, htext, fun other hother => hother.unique htext, ?_, hedited⟩
  intro value' source' hreordered htext'
  have hedits : Relation.ReflTransGen (Interchange.Edited .node) value value' :=
    hreordered.lift id fun _ _ => Interchange.Edited.reordered
  have hdepth' : value'.depth ≤ Json.maxDepth :=
    (Interchange.depth_le_of_reordered hreordered).trans hdepth
  exact hedited value' source' hedits hdepth' htext'

-- the arguments get a note, and the kind goes behind them
theorem parseJson_edits_noted :
    parseJson "\x7b\"kind\":\"print\",\"arguments\":\x7b\"nodes\":[]\x7d\x7d" = .ok (.print []) ∧
      ReadsLike "\x7b\"arguments\":\x7b\"nodes\":[], \"note\":[1]\x7d, \"kind\":\"print\"\x7d"
        "\x7b\"kind\":\"print\",\"arguments\":\x7b\"nodes\":[]\x7d\x7d" (.print []) := by
  have hsource : parseJson "\x7b\"kind\":\"print\",\"arguments\":\x7b\"nodes\":[]\x7d\x7d" =
      .ok (.print []) := by cbv
  obtain ⟨value, -, hunique, -, hedits⟩ := parseJson_edits hsource
  have htext : SpellsDocument "\x7b\"kind\":\"print\",\"arguments\":\x7b\"nodes\":[]\x7d\x7d"
      (.object [("kind", .string "print"), ("arguments", .object [("nodes", .array [])])]) :=
    @Json.spellsDocument_of_readValue 3 _ _ _ (by cbv) Json.blanks_nil
  have htext' : SpellsDocument
      "\x7b\"arguments\":\x7b\"nodes\":[], \"note\":[1]\x7d, \"kind\":\"print\"\x7d"
      (.object [("arguments", .object [("nodes", .array []), ("note", .array [.integer 1])]),
        ("kind", .string "print")]) :=
    @Json.spellsDocument_of_readValue 3 _ _ _ (by cbv) Json.blanks_nil
  obtain rfl := hunique _ htext
  have hnote : Interchange.Edited .sequence (.object [("nodes", .array [])])
      (.object [("nodes", .array []), ("note", .array [.integer 1])]) :=
    @Interchange.Edited.unknown _ [("nodes", .array [])] [] "note" _ _ .sequence (by decide)
  have hinner : Interchange.Edited .node
      (.object [("kind", .string "print"), ("arguments", .object [("nodes", .array [])])])
      (.object [("kind", .string "print"),
        ("arguments", .object [("nodes", .array []), ("note", .array [.integer 1])])]) :=
    @Interchange.Edited.member _ [("kind", .string "print")] [] "arguments" .sequence _ _ _
      (.node (by cbv)) (by decide) hnote
  have houter : Interchange.Edited .node
      (.object [("kind", .string "print"),
        ("arguments", .object [("nodes", .array []), ("note", .array [.integer 1])])])
      (.object [("arguments", .object [("nodes", .array []), ("note", .array [.integer 1])]),
        ("kind", .string "print")]) :=
    .reordered (.here (List.Perm.swap _ _ _))
  exact ⟨hsource, hedits _ _ (.tail (.single hinner) houter) (by decide) htext'⟩

end SyntaxDump
