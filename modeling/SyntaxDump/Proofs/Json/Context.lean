import Mathlib.Tactic
import SyntaxDump.Proofs.Json.Grammar

/-!
# Texts around a gap

A value with a gap is a value in which one part is left open, and it has a text in
two pieces, one in front of the gap and one behind it.  Whatever integer stands
between the pieces, the whole spells the value with the integer in its gap, and
every text of such a value falls into two pieces around the integer.

Between the pieces there may also stand what spells no value.  Then the whole
spells none either, since the reader comes to the gap.
-/

namespace SyntaxDump
namespace Json

/-! ## Values with a gap -/

/-- A value with a gap. -/
inductive Context where
  | hole
  | item (front : List Value) (inner : Context) (back : List Value)
  | member (front : List (String × Value)) (name : String) (inner : Context)
      (back : List (String × Value))

/-- The value with this one in the gap. -/
def Context.fill : Context → Value → Value
  | .hole, value => value
  | .item front inner back, value => .array (front ++ inner.fill value :: back)
  | .member front name inner back, value => .object (front ++ (name, inner.fill value) :: back)

theorem Context.depth_fill_le (context : Context) {value value' : Value}
    (hdepth : value'.depth ≤ value.depth) :
    (context.fill value').depth ≤ (context.fill value).depth := by
  induction context with
  | hole => exact hdepth
  | item front inner back ih =>
      have hitems := Value.depth_array_le_iff.mp
        (Nat.le_refl (Value.array (front ++ inner.fill value :: back)).depth)
      refine Value.depth_array_le_iff.mpr ?_
      simp only [List.forall_mem_append, List.forall_mem_cons] at hitems ⊢
      exact ⟨hitems.1, ih.trans hitems.2.1, hitems.2.2⟩
  | member front name inner back ih =>
      have hmembers := Value.depth_object_le_iff.mp
        (Nat.le_refl (Value.object (front ++ (name, inner.fill value) :: back)).depth)
      refine Value.depth_object_le_iff.mpr ?_
      simp only [List.forall_mem_append, List.forall_mem_cons] at hmembers ⊢
      exact ⟨hmembers.1, ih.trans hmembers.2.1, hmembers.2.2⟩

/-! ## Elements around a gap -/

section Beside

variable {α : Type} {Spelled : List Char → α → Prop}

/-- Elements with a comma behind each of them. -/
inductive Leading (Spelled : List Char → α → Prop) : List Char → List α → Prop where
  | nil : Leading Spelled [] []
  | cons {before text after a rest others} : Blanks before → Spelled text a → Blanks after →
      Leading Spelled rest others →
      Leading Spelled (before ++ (text ++ (after ++ ',' :: rest))) (a :: others)

/-- Elements with a comma in front of each of them. -/
inductive Trailing (Spelled : List Char → α → Prop) : List Char → List α → Prop where
  | nil : Trailing Spelled [] []
  | cons {body elements} : Listed Spelled body elements →
      Trailing Spelled (',' :: body) elements

/-- What stands in front of an element and behind it: the elements before and after
it, with blanks around the element itself. -/
inductive Beside (Spelled : List Char → α → Prop) :
    List Char → List α → List Char → List α → Prop where
  | intro {lead front before after trail back} : Leading Spelled lead front → Blanks before →
      Blanks after → Trailing Spelled trail back →
      Beside Spelled (lead ++ before) front (after ++ trail) back

theorem Leading.listed {lead : List Char} {front : List α} (hlead : Leading Spelled lead front)
    {body : List Char} {elements : List α} (hbody : Listed Spelled body elements) :
    Listed Spelled (lead ++ body) (front ++ elements) := by
  induction hlead with
  | nil => exact hbody
  | cons hbefore htext hafter _ ih =>
      simp only [List.append_assoc, List.cons_append]
      exact .cons hbefore htext hafter ih

theorem Beside.listed {left right : List Char} {front back : List α}
    (hbeside : Beside Spelled left front right back) {text : List Char} {a : α}
    (htext : Spelled text a) :
    Listed Spelled (left ++ (text ++ right)) (front ++ a :: back) := by
  obtain ⟨hlead, hbefore, hafter, htrail⟩ := hbeside
  rw [List.append_assoc]
  refine hlead.listed ?_
  cases htrail with
  | nil =>
      rw [List.append_nil]
      exact .last hbefore htext hafter
  | cons hbody => exact .cons hbefore htext hafter hbody

theorem Listed.exists_beside {body : List Char} {front back : List α} {a : α}
    (hbody : Listed Spelled body (front ++ a :: back)) :
    ∃ left text right, body = left ++ (text ++ right) ∧ Spelled text a ∧
      Beside Spelled left front right back := by
  induction front generalizing body with
  | nil =>
      cases hbody with
      | @last before text after _ hbefore htext hafter =>
          refine ⟨[] ++ before, text, after ++ [], by simp, htext, .intro .nil hbefore hafter .nil⟩
      | @cons before text after _ rest _ hbefore htext hafter hrest =>
          exact ⟨[] ++ before, text, after ++ ',' :: rest, rfl, htext,
            .intro .nil hbefore hafter (.cons hrest)⟩
  | cons first front ih =>
      generalize helements : front ++ a :: back = elements at hbody
      rw [List.cons_append, helements] at hbody
      cases hbody with
      | last => simp at helements
      | @cons before text after _ rest _ hbefore htext hafter hrest =>
          rw [← helements] at hrest
          obtain ⟨left, inner, right, rfl, hinner, hlead, hblanks, hblanks', htrail⟩ := ih hrest
          refine ⟨_, inner, _, ?_, hinner,
            .intro (.cons hbefore htext hafter hlead) hblanks hblanks' htrail⟩
          simp

theorem Beside.endsNumber {left right : List Char} {front back : List α}
    (hbeside : Beside Spelled left front right back) {close : Char} (hclose : IsMark close)
    (rest : List Char) : EndsNumber (right ++ close :: rest) := by
  obtain ⟨-, -, hafter, htrail⟩ := hbeside
  cases htrail with
  | nil =>
      rw [List.append_nil]
      exact hafter.endsNumber_mark hclose rest
  | cons hbody =>
      rw [List.append_assoc]
      exact hafter.endsNumber_mark (.inl rfl) _

end Beside

/-! ## Texts in two pieces -/

/-- The pieces of the text of a value with a gap, in which at most `limit`
containers are nested. -/
inductive SpellsAround : Nat → Context → List Char → List Char → Prop where
  | hole {limit} : SpellsAround limit .hole [] []
  | item {limit front inner back left right before after} :
      Beside (Spells limit) left front right back → SpellsAround limit inner before after →
      SpellsAround (limit + 1) (.item front inner back) ('[' :: (left ++ before))
        (after ++ (right ++ [']']))
  | member {limit front raw name inner back left right blanks blanks' before after} :
      Beside (SpellsMember (Spells limit)) left front right back → SpellsText raw name →
      Blanks blanks → Blanks blanks' → SpellsAround limit inner before after →
      SpellsAround (limit + 1) (.member front (String.ofList name) inner back)
        ('{' :: (left ++ '"' :: (raw ++ '"' :: (blanks ++ ':' :: (blanks' ++ before)))))
        (after ++ (right ++ ['}']))

theorem SpellsAround.spells {limit : Nat} {context : Context} {before after : List Char}
    (haround : SpellsAround limit context before after) {text : List Char} {value : Value}
    (htext : SpellsScalar text value) :
    Spells limit (before ++ (text ++ after)) (context.fill value) := by
  induction haround with
  | @hole limit =>
      simp only [List.nil_append, List.append_nil]
      exact htext.spells limit
  | @item limit front inner back left right before after hbeside _ ih =>
      have hbody := hbeside.listed ih
      have harray : Spells (limit + 1) _ (.array (front ++ inner.fill value :: back)) :=
        SpellsValue.array (.listed hbody)
      simpa [Context.fill] using harray
  | @member limit front raw name inner back left right blanks blanks' before after hbeside hraw
      hblanks hblanks' _ ih =>
      have hentry : SpellsMember (Spells limit)
          ('"' :: (raw ++ '"' :: (blanks ++ ':' :: (blanks' ++ (before ++ (text ++ after))))))
          (String.ofList name, inner.fill value) :=
        ⟨raw, name, _, hraw, rfl, ⟨blanks, blanks', _, hblanks, hblanks', ih, rfl⟩, rfl⟩
      have hbody := hbeside.listed hentry
      have hobject : Spells (limit + 1) _
          (.object (front ++ (String.ofList name, inner.fill value) :: back)) :=
        SpellsValue.object (.listed hbody)
      simpa [Context.fill] using hobject

/-- Every text of a value falls into two pieces around an integer in it. -/
theorem Spells.exists_around {limit : Nat} {context : Context} {cs : List Char} {i : Int}
    (hcs : Spells limit cs (context.fill (.integer i))) :
    ∃ before text after, cs = before ++ (text ++ after) ∧ SpellsScalar text (.integer i) ∧
      SpellsAround limit context before after := by
  induction context generalizing limit cs with
  | hole =>
      refine ⟨[], cs, [], by simp, ?_, .hole⟩
      cases limit with
      | zero => exact hcs
      | succ limit =>
          cases hcs with
          | scalar hscalar => exact hscalar
  | item front inner back ih =>
      cases limit with
      | zero => cases SpellsScalar.depth hcs
      | succ limit =>
          cases hcs with
          | scalar hscalar => cases hscalar.depth
          | array hbody =>
              generalize hitems : front ++ inner.fill (.integer i) :: back = items at hbody
              cases hbody with
              | empty => simp at hitems
              | listed hlisted =>
                  rw [← hitems] at hlisted
                  obtain ⟨left, middle, right, rfl, hmiddle, hbeside⟩ := hlisted.exists_beside
                  obtain ⟨before, text, after, rfl, htext, haround⟩ := ih hmiddle
                  exact ⟨_, text, _, by simp, htext, .item hbeside haround⟩
  | member front name inner back ih =>
      cases limit with
      | zero => cases SpellsScalar.depth hcs
      | succ limit =>
          cases hcs with
          | scalar hscalar => cases hscalar.depth
          | object hbody =>
              generalize hmembers : front ++ (name, inner.fill (.integer i)) :: back = members
                at hbody
              cases hbody with
              | empty => simp at hmembers
              | listed hlisted =>
                  rw [← hmembers] at hlisted
                  obtain ⟨left, middle, right, rfl, hmiddle, hbeside⟩ := hlisted.exists_beside
                  obtain ⟨raw, key, behind, hraw, hname, ⟨blanks, blanks', inside, hblanks,
                    hblanks', hinside, rfl⟩, rfl⟩ := hmiddle
                  obtain ⟨before, text, after, rfl, htext, haround⟩ := ih hinside
                  simp only at hname
                  subst hname
                  exact ⟨_, text, _, by simp, htext, .member hbeside hraw hblanks hblanks' haround⟩

theorem SpellsAround.endsNumber {limit : Nat} {context : Context} {before after : List Char}
    (haround : SpellsAround limit context before after) {rest : List Char}
    (hrest : EndsNumber rest) : EndsNumber (after ++ rest) := by
  induction haround generalizing rest with
  | hole => exact hrest
  | item hbeside _ ih =>
      simp only [List.append_assoc]
      exact ih (hbeside.endsNumber (.inr (.inl rfl)) _)
  | member hbeside _ _ _ _ ih =>
      simp only [List.append_assoc]
      exact ih (hbeside.endsNumber (.inr (.inr rfl)) _)

/-! ## Reading up to the gap -/

theorem SpellsAround.startsItem {limit : Nat} {context : Context} {before after : List Char}
    (haround : SpellsAround limit context before after) {cs : List Char} (hcs : StartsItem cs) :
    StartsItem (before ++ cs) := by
  cases haround with
  | hole => exact hcs
  | item => exact ⟨'[', _, rfl, by decide⟩
  | member => exact ⟨'{', _, rfl, by decide⟩

section Loops

variable {read : List Char → Result (Value × List Char)} {Spelled : List Char → Value → Prop}
  (hread : ReadsValue read Spelled)
include hread

theorem ReadsValue.readItemsFrom_leading {lead : List Char} {front : List Value}
    (hlead : Leading Spelled lead front) {bound cs : List Char} {items : List Value}
    {result : List Value × List Char}
    (hloop : readItemsFrom (Json.collectItem read) bound items (skipBlanks (lead ++ cs)) =
      .ok result) :
    ∃ bound' items', readItemsFrom (Json.collectItem read) bound' items' (skipBlanks cs) =
      .ok result := by
  induction hlead generalizing bound items with
  | nil => exact ⟨bound, items, hloop⟩
  | @cons before text after a rest others hbefore htext hafter _ ih =>
      cases bound with
      | nil => simp [readItemsFrom] at hloop
      | cons _ bound =>
          have hsolid :=
            (hread.starts text a htext).startsSolid.append (after ++ ',' :: (rest ++ cs))
          have hcomma : skipBlanks (after ++ ',' :: (rest ++ cs)) = ',' :: (rest ++ cs) :=
            hafter.skip_solid (.cons (by decide) _)
          have hfirst := hread.collectItem.complete htext (rfl : _ = some (a :: items))
            (hafter.endsNumber_mark (.inl rfl) (rest ++ cs))
          simp only [List.append_assoc, List.cons_append] at hloop
          rw [hbefore.skip_solid hsolid, readItemsFrom, hfirst] at hloop
          simp only [bind, Except.bind, hcomma, if_neg (show ',' ≠ ']' by decide), if_true] at hloop
          cases hskip : skipBlanks (rest ++ cs) with
          | nil => simp [hskip] at hloop
          | cons c tail =>
              simp only [hskip] at hloop
              split_ifs at hloop with hclose
              · simp at hloop
              · rw [← hskip] at hloop
                exact ih hloop

theorem ReadsValue.readMembersFrom_leading {lead : List Char} {front : List (String × Value)}
    (hlead : Leading (SpellsMember Spelled) lead front) {bound cs : List Char}
    {members : List (String × Value)} {result : List (String × Value) × List Char}
    (hloop : readMembersFrom (Json.collectMember read) bound members (skipBlanks (lead ++ cs)) =
      .ok result) :
    ∃ bound' members', readMembersFrom (Json.collectMember read) bound' members'
      (skipBlanks cs) = .ok result := by
  induction hlead generalizing bound members with
  | nil => exact ⟨bound, members, hloop⟩
  | @cons before text after entry rest others hbefore htext hafter _ ih =>
      cases bound with
      | nil => simp [readMembersFrom] at hloop
      | cons _ bound =>
          have hsolid := (SpellsMember.startsSolid text entry htext).append
            (after ++ ',' :: (rest ++ cs))
          have hcomma : skipBlanks (after ++ ',' :: (rest ++ cs)) = ',' :: (rest ++ cs) :=
            hafter.skip_solid (.cons (by decide) _)
          obtain ⟨raw, name, behind, hraw, hname, hbehind, rfl⟩ := htext
          have hkey := readString_of_spellsText hraw (behind ++ (after ++ ',' :: (rest ++ cs)))
          have hfirst := hread.collectMember.complete hbehind
            (rfl : _ = some ((String.ofList name, entry.2) :: members))
            (hafter.endsNumber_mark (.inl rfl) (rest ++ cs))
          simp only [List.append_assoc, List.cons_append] at hloop hsolid
          rw [hbefore.skip_solid hsolid, readMembersFrom] at hloop
          simp only [List.drop_one, List.tail_cons, hkey, bind, Except.bind, hfirst, hcomma,
            if_neg (show ',' ≠ '}' by decide), if_true] at hloop
          cases hskip : skipBlanks (rest ++ cs) with
          | nil => simp [hskip] at hloop
          | cons c tail =>
              simp only [hskip] at hloop
              split_ifs at hloop with hquote hclose
              · rw [← hskip] at hloop
                exact ih hloop
              · simp at hloop
              · simp at hloop

end Loops

theorem Leading.head {α : Type} {Spelled : List Char → α → Prop} {P : Char → Prop}
    (hsolid : ∀ c, P c → isBlank c = false)
    (hstarts : ∀ text a, Spelled text a → ∃ c tail, text = c :: tail ∧ P c)
    {lead blanks cs : List Char} {front : List α} (hlead : Leading Spelled lead front)
    (hblanks : Blanks blanks) (hcs : ∃ c tail, cs = c :: tail ∧ P c) :
    ∃ c tail, skipBlanks (lead ++ (blanks ++ cs)) = c :: tail ∧ P c := by
  cases hlead with
  | nil =>
      obtain ⟨c, tail, rfl, hc⟩ := hcs
      exact ⟨c, tail, hblanks.skip_solid (.cons (hsolid c hc) _), hc⟩
  | cons hbefore htext hafter _ =>
      obtain ⟨c, tail, rfl, hc⟩ := hstarts _ _ htext
      simp only [List.append_assoc, List.cons_append]
      exact ⟨c, _, hbefore.skip_solid (.cons (hsolid c hc) _), hc⟩

theorem readValue_blanks {limit : Nat} {blanks : List Char} (hblanks : Blanks blanks)
    (cs : List Char) : readValue limit (blanks ++ cs) = readValue limit cs :=
  readValue_skipBlanks limit (hblanks.skip cs)

/-- If a text is read, then so is what stands at its gap. -/
theorem SpellsAround.readValue_gap {limit : Nat} {context : Context} {before after : List Char}
    (haround : SpellsAround limit context before after) {cs : List Char} (hcs : StartsItem cs)
    {result : Value × List Char} (hread : readValue limit (before ++ cs) = .ok result) :
    ∃ limit' result', readValue limit' cs = .ok result' := by
  induction haround generalizing result with
  | @hole limit => exact ⟨limit, result, hread⟩
  | @item limit front inner back left right before after hbeside hinner ih =>
      obtain ⟨hlead, hblanks, -, -⟩ := hbeside
      obtain ⟨c, tail, hskip, -, hclose⟩ := hlead.head (fun _ => And.left) Spells.startsItem hblanks
        (hinner.startsItem hcs)
      simp only [List.cons_append, List.append_assoc, readValue_array, map_ok_iff, readItems, hskip,
        if_neg hclose] at hread
      obtain ⟨final, hloop, -⟩ := hread
      rw [← hskip] at hloop
      obtain ⟨bound, items, hgap⟩ := (readsValue limit).readItemsFrom_leading hlead hloop
      cases bound with
      | nil => simp [readItemsFrom] at hgap
      | cons _ bound =>
          rw [readItemsFrom, bind_ok_iff] at hgap
          obtain ⟨state, hitem, -⟩ := hgap
          rw [collectItem, (readsValue limit).skips, readValue_blanks hblanks, bind_ok_iff] at hitem
          obtain ⟨value, hvalue, -⟩ := hitem
          exact ih hvalue
  | @member limit front raw name inner back left right blanks blanks' before after hbeside hraw
      hcolon hvalue hinner ih =>
      obtain ⟨hlead, hblanks, -, -⟩ := hbeside
      obtain ⟨c, tail, hskip, rfl⟩ := hlead.head isBlank_quote SpellsMember.starts hblanks
        ⟨'"', raw ++ '"' :: (blanks ++ ':' :: (blanks' ++ (before ++ cs))), rfl, rfl⟩
      simp only [List.cons_append, List.append_assoc, readValue_object, map_ok_iff, readMembers,
        hskip, if_neg (show '"' ≠ '}' by decide), if_true] at hread
      obtain ⟨final, hloop, -⟩ := hread
      rw [← hskip] at hloop
      obtain ⟨bound, members, hgap⟩ := (readsValue limit).readMembersFrom_leading hlead hloop
      rw [hblanks.skip_solid (.cons (by decide) _)] at hgap
      cases bound with
      | nil => simp [readMembersFrom] at hgap
      | cons _ bound =>
          simp only [readMembersFrom, List.drop_one, List.tail_cons, readString_of_spellsText hraw,
            bind_ok_iff, Except.ok.injEq, exists_eq_left', Json.collectMember,
            readColon_of_blanks hcolon] at hgap
          obtain ⟨state, ⟨value, hbehind, -⟩, -⟩ := hgap
          rw [readValue_blanks hvalue] at hbehind
          exact ih hbehind

/-! ## Documents in two pieces -/

/-- The pieces of a document with a gap, in which at most `limit` containers are
nested. -/
def SpellsDocumentAround (limit : Nat) (context : Context) (before after : List Char) : Prop :=
  ∃ blanks front back blanks', Blanks blanks ∧ Blanks blanks' ∧
    SpellsAround limit context front back ∧ before = blanks ++ front ∧ after = back ++ blanks'

section Documents

variable {limit : Nat} {context : Context} {before text after : List Char}

theorem SpellsDocumentAround.spellsDocument
    (haround : SpellsDocumentAround limit context before after) {value : Value}
    (htext : SpellsScalar text value) :
    SpellsDocument (String.ofList (before ++ (text ++ after))) (context.fill value) := by
  obtain ⟨blanks, front, back, blanks', hblanks, hblanks', hinner, rfl, rfl⟩ := haround
  exact ⟨limit, blanks, front ++ (text ++ back), blanks', hblanks, hblanks',
    hinner.spells htext, by simp⟩

theorem SpellsDocument.exists_around {source : String} {i : Int}
    (hsource : SpellsDocument source (context.fill (.integer i)))
    (hdepth : (context.fill (.integer i)).depth ≤ limit) :
    ∃ before text after, source = String.ofList (before ++ (text ++ after)) ∧
      SpellsScalar text (.integer i) ∧ SpellsDocumentAround limit context before after := by
  obtain ⟨_, blanks, front, blanks', hblanks, hblanks', hfront, hsplit⟩ := hsource
  obtain ⟨before, text, after, rfl, htext, haround⟩ := (hfront.of_depth_le hdepth).exists_around
  refine ⟨blanks ++ before, text, after ++ blanks', ?_, htext,
    blanks, before, after, blanks', hblanks, hblanks', haround, rfl, rfl⟩
  rw [← String.ofList_toList (s := source), hsplit]
  simp

/-- A numeral without a value makes the whole document unreadable. -/
theorem SpellsDocumentAround.not_spellsDocument
    (haround : SpellsDocumentAround limit context before after) {numeral : Numeral}
    (htext : SpellsNumeral text numeral) {unread : Nat} (hnone : numeral.value = .error unread)
    {value : Value} (hdepth : value.depth ≤ limit) :
    ¬SpellsDocument (String.ofList (before ++ (text ++ after))) value := by
  intro hdocument
  obtain ⟨blanks, front, back, blanks', hblanks, hblanks', hinner, rfl, rfl⟩ := haround
  obtain ⟨rest, -, hread⟩ := hdocument.readValue hdepth
  have hstart : StartsItem (text ++ (back ++ blanks')) := htext.startsNumeral.startsItem _
  rw [String.toList_ofList, List.append_assoc, readValue_blanks hblanks] at hread
  obtain ⟨limit', result, hgap⟩ := hinner.readValue_gap hstart hread
  rw [readValue_numeral limit' htext.startsNumeral, readNumber,
    readNumeral_of_spells htext (hinner.endsNumber hblanks'.endsNumber)] at hgap
  simp [bind, Except.bind, hnone] at hgap

end Documents

end Json
end SyntaxDump
