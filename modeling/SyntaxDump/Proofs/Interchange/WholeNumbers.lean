import Mathlib.Tactic
import SyntaxDump.Format.Builtin
import SyntaxDump.Proofs.Interchange.Incomplete
import SyntaxDump.Proofs.Interchange.Reach
import SyntaxDump.Proofs.Interchange.Shown
import SyntaxDump.Proofs.Json.Integer

/-!
# Whole numbers in texts

A whole number is read from its digits into a word of 64 bits, kept there until the
kind of its node is known, and only then narrowed.  Digits that leave the word are
read as a double or as nothing.  None of this shows: whatever the length of a
literal, the document is read as the tree with exactly this number, or not at all.
-/

namespace SyntaxDump
namespace Interchange

open Json (Value Context InWordRange IntegerLiteral SpellsScalar SpellsDocument
  SpellsDocumentAround)

namespace NumberSort

variable {sort : NumberSort} {j : Int}

theorem Admits.inWordRange (hj : sort.Admits j) : InWordRange j := by
  cases sort <;> simp only [Admits] at hj <;> rw [InWordRange] <;> omega

/-- Whatever the digits of an integer spell, it is taken for the integer if that
fits. -/
theorem take_of_integerDigits {value : Value}
    (hvalue : SpellsScalar (Decimal.integerDigits j) value) :
    sort.take value = if sort.Admits j then some j else none := by
  rcases Json.eq_integer_of_integerDigits hvalue with rfl | ⟨hrange, hother⟩
  · rfl
  · rw [if_neg fun hj => hrange (Admits.inWordRange hj)]
    cases value with
    | integer i => exact absurd rfl (hother i)
    | _ => rfl

end NumberSort

/-- A document is read as the number at its gap is, whatever stands there. -/
theorem NumberAt.decodesTo {sort : NumberSort} {context : Context}
    (hplace : NumberAt sort .node context) {i : Int} {root : Node}
    (hroot : DecodesTo (context.fill (.integer i)) root) :
    ∃ leaf whole, sort.Leaf leaf ∧ Opening leaf .node whole ∧ sort.Admits i ∧ root = whole i ∧
      ∀ value root', DecodesTo (context.fill value) root' ↔
        (sort.take value).map whole = some root' := by
  have hnode := (hplace.decodesTo_iff hroot _).mp hroot
  obtain ⟨leaf, whole, hleaf, hopening, hdecode⟩ := hplace.decode hnode
  have hread (value : Value) (root' : Node) : DecodesTo (context.fill value) root' ↔
      (sort.take value).map whole = some root' := by
    rw [hplace.decodesTo_iff hroot, ← hdecode, toOption_eq_some]
    rfl
  have hwhole := (hread _ _).mp hroot
  rw [NumberSort.take] at hwhole
  by_cases hi : sort.Admits i
  · rw [if_pos hi] at hwhole
    exact ⟨leaf, whole, hleaf, hopening, hi, (Option.some.inj hwhole).symm, hread⟩
  · rw [if_neg hi] at hwhole
    cases hwhole

section Literal

variable {sort : NumberSort} {context : Context} {whole : Int → Node} {before after : List Char}

/-- A literal that spells a value decides by its integer alone; one that spells none
makes the document unreadable. -/
theorem readsAs_literal
    (hdepth : ∀ i, (context.fill (.integer i)).depth ≤ Json.maxDepth)
    (hread : ∀ value root, DecodesTo (context.fill value) root ↔
      (sort.take value).map whole = some root)
    (haround : SpellsDocumentAround Json.maxDepth context before after) {literal : List Char}
    {j : Int} (hliteral : IntegerLiteral literal j) (hzero : literal ≠ "-0".toList) :
    ReadsAs (String.ofList (before ++ (literal ++ after)))
      (if sort.Admits j then some (whole j) else none) := by
  have hdigits := hliteral.eq_integerDigits hzero
  obtain ⟨numeral, hnumeral, -⟩ := hliteral
  apply readsAs_of_forall
  intro root
  cases hvalue : numeral.value with
  | ok value =>
      have hscalar : SpellsScalar literal value := .number hnumeral hvalue
      have htext := haround.spellsDocument hscalar
      have hlimit : (context.fill value).depth ≤ Json.maxDepth := by
        refine (context.depth_fill_le ?_).trans (hdepth j)
        rw [hscalar.depth]
        exact Nat.zero_le _
      rw [read_eq_ok_of_spells htext hlimit, hread,
        NumberSort.take_of_integerDigits (hdigits ▸ hscalar)]
      split_ifs <;> simp
  | error unread =>
      have hnone {other : Value} (hother : other.depth ≤ Json.maxDepth) :=
        haround.not_spellsDocument hnumeral hvalue hother
      have hj : ¬sort.Admits j := by
        intro hj
        have hscalar : SpellsScalar literal (.integer j) :=
          Json.spellsScalar_integer.mpr ⟨hdigits, hj.inWordRange⟩
        exact hnone (hdepth j) (haround.spellsDocument hscalar)
      rw [if_neg hj, read_eq_ok]
      constructor
      · rintro ⟨other, hother, hlimit, -⟩
        exact absurd hother (hnone hlimit)
      · exact nofun

end Literal

/-! ## What is written -/

/-- A tree shows a number in every text that it is written as.  The lines of the node
with the number are among the lines of the dump, and a document has the number at a
place of the same sort. -/
structure ShowsNumber (sort : NumberSort) (leaf root : Node) (number : String) : Prop where
  lines : ∀ level, ∃ before depth after, Tag.Stands root level before leaf depth ∧
    Tag.lines root level = before ++ sort.lines depth number ++ after
  dump : ∀ level, level + documentReach ≤ Tag.maxLevel →
    Tag.dump? root level = some (Tag.linesText (Tag.lines root level))
  document : ∀ style, ∃ place limit before after, NumberAt sort .node place ∧
    SpellsDocumentAround limit place before after ∧
      write style root = String.ofList (before ++ (number.toList ++ after))

theorem Opening.showsNumber {leaf whole : Int → Node} (hopening : Opening leaf .node whole)
    {sort : NumberSort} {j : Int} (hleaf : sort.Holds (leaf j) j)
    (hreach : Reaches documentReach (whole j)) :
    ShowsNumber sort (leaf j) (whole j) (Decimal.integerText j) where
  lines level := by
    obtain ⟨before, depth, hstands⟩ := hopening.exists_stands j level
    obtain ⟨after, hlines⟩ := hstands.lines_eq
    exact ⟨before, depth, after, hstands, by rw [hlines, hleaf.lines]⟩
  dump level hlevel := hreach.dump? hlevel
  document style := by
    obtain ⟨place, hplace, hvalue⟩ := hopening.exists_place (f := Json.rereadFloat) hleaf
    have htext := spellsDocument_text style (writable_encode (whole j))
    have hwhole : (encode (whole j)).mapFloats Json.rereadFloat = place.fill (.integer j) := hvalue
    rw [hwhole] at htext
    obtain ⟨before, text, after, hwrite, hscalar, haround⟩ := htext.exists_around le_rfl
    rw [(Json.spellsScalar_integer.mp hscalar).1] at hwrite
    refine ⟨place, _, before, after, hplace, haround, ?_⟩
    rw [write, hwrite, Decimal.integerText, String.toList_ofList]

end Interchange

open Json (Context IntegerLiteral SpellsDocument SpellsDocumentAround)
open Interchange (NumberSort NumberAt Opening ShowsNumber)

/-- A document that is read as a tree spells one value, and at each place for a whole
number its text falls into two pieces around the number.  Between any two pieces for
that place, a literal but minus zero has the document read as the same tree with the
integer of the literal in the place of the number, if the integer fits there, and
makes the document unreadable otherwise.  The number is in the tree and in all that
is written of it. -/
theorem parseJson_integer_literal {source : String} {root : Node}
    (hsource : parseJson source = .ok root) :
    ∃ value, SpellsDocument source value ∧
      (∀ other, SpellsDocument source other → other = value) ∧
      ∀ (sort : NumberSort) (context : Context) (i : Int), value = context.fill (.integer i) →
        NumberAt sort .node context →
        (∃ before after, SpellsDocumentAround Json.maxDepth context before after ∧
          source = String.ofList (before ++ (Decimal.integerDigits i ++ after))) ∧
        ∃ leaf whole, sort.Leaf leaf ∧ Opening leaf .node whole ∧ sort.Admits i ∧ root = whole i ∧
          ∀ before after, SpellsDocumentAround Json.maxDepth context before after →
            ∀ literal j, IntegerLiteral literal j → literal ≠ "-0".toList →
              literal = Decimal.integerDigits j ∧
              ReadsAs (String.ofList (before ++ (literal ++ after)))
                (if sort.Admits j then some (whole j) else none) ∧
              (sort.Admits j → sort.Holds (leaf j) j ∧
                ShowsNumber sort (leaf j) (whole j) (String.ofList literal)) := by
  obtain ⟨value, htext, hdepth, hvalue⟩ := parseJson_eq_ok.mp hsource
  refine ⟨value, htext, fun other hother => hother.unique htext, ?_⟩
  rintro sort context i rfl hplace
  have hlimit (j : Int) : (context.fill (.integer j)).depth ≤ Json.maxDepth :=
    (context.depth_fill_le (Nat.zero_le _)).trans hdepth
  constructor
  · obtain ⟨before, text, after, hsplit, hscalar, haround⟩ := htext.exists_around hdepth
    rw [(Json.spellsScalar_integer.mp hscalar).1] at hsplit
    exact ⟨before, after, haround, hsplit⟩
  · obtain ⟨leaf, whole, hleaf, hopening, hi, hroot, hread⟩ := hplace.decodesTo hvalue
    refine ⟨leaf, whole, hleaf, hopening, hi, hroot, ?_⟩
    intro before after haround literal j hliteral hzero
    have hdigits := hliteral.eq_integerDigits hzero
    have hreads := Interchange.readsAs_literal hlimit hread haround hliteral hzero
    refine ⟨hdigits, hreads, fun hj => ?_⟩
    rw [if_pos hj] at hreads
    have hholds := hleaf.holds hj
    rw [hdigits]
    exact ⟨hholds, hopening.showsNumber hholds (reaches_of_parseJson hreads)⟩

/-- The greatest number that fits, and one that would be seven after a wrap at two to
the power of 64. -/
theorem parseJson_integer_literal_wrapped :
    parseJson "\x7b\"kind\":\"return\",\"value\":\x7b\"kind\":\"integer\",\"value\":7\x7d\x7d" =
      .ok (.ret (some (.integer 7))) ∧
    (∃ root, parseJson ("\x7b\"kind\":\"return\",\"value\":\x7b\"kind\":\"integer\"," ++
      "\"value\":2147483647\x7d\x7d") = .ok root) ∧
    ∃ error, parseJson ("\x7b\"kind\":\"return\",\"value\":\x7b\"kind\":\"integer\"," ++
      "\"value\":18446744073709551623\x7d\x7d") = .error (.unreadable error) := by
  have hsource : parseJson
      "\x7b\"kind\":\"return\",\"value\":\x7b\"kind\":\"integer\",\"value\":7\x7d\x7d" =
        .ok (.ret (some (.integer 7))) := by cbv
  obtain ⟨value, -, hunique, hplaces⟩ := parseJson_integer_literal hsource
  have htext : SpellsDocument
      "\x7b\"kind\":\"return\",\"value\":\x7b\"kind\":\"integer\",\"value\":7\x7d\x7d"
      (.object [("kind", .string "return"),
        ("value", .object [("kind", .string "integer"), ("value", .integer 7)])]) :=
    @Json.spellsDocument_of_readValue 2 _ _ _ (by cbv) Json.blanks_nil
  obtain rfl := hunique _ htext
  have hplace : NumberAt .integer .node (.member [("kind", .string "return")] "value" (.member
      [("kind", .string "integer")] "value" .hole []) []) :=
    .field (.member (.node (by cbv)) (by decide)) NumberSort.Inside.integer.numberAt
  obtain ⟨⟨before, after, haround, hsplit⟩, leaf, whole, -, -, -, -, hreads⟩ :=
    hplaces .integer _ 7 rfl hplace
  let front := "\x7b\"kind\":\"return\",\"value\":\x7b\"kind\":\"integer\",\"value\":".toList
  have hlist : before ++ '7' :: after = front ++ '7' :: "\x7d\x7d".toList := by
    have hseven : Decimal.integerDigits 7 = ['7'] := by cbv
    rw [hseven] at hsplit
    exact (String.ofList_injective hsplit).symm
  obtain ⟨rfl, rfl⟩ : before = front ∧ after = "\x7d\x7d".toList := by
    -- there is one seven in the text
    have hcount : (before ++ '7' :: after).count '7' = 1 := by rw [hlist]; decide
    rw [List.count_append, List.count_cons_self] at hcount
    have hbefore : '7' ∉ before := List.count_eq_zero.mp (by omega)
    have hfront : '7' ∉ front := by decide
    obtain ⟨hsame, -, hrest⟩ := @Tag.split_unique (· = '7') _ _ _ _ _ _
      (fun c hc heq => hbefore (heq ▸ hc)) (fun c hc heq => hfront (heq ▸ hc)) rfl rfl hlist
    exact ⟨hsame, hrest⟩
  have hgreatest : IntegerLiteral "2147483647".toList 2147483647 := by
    have hdigits : Decimal.integerDigits 2147483647 = "2147483647".toList := by cbv
    exact hdigits ▸ Json.integerLiteral_integerDigits 2147483647
  have hwrapped : IntegerLiteral "18446744073709551623".toList 18446744073709551623 := by
    have hdigits : Decimal.integerDigits 18446744073709551623 = "18446744073709551623".toList := by
      cbv
    exact hdigits ▸ Json.integerLiteral_integerDigits 18446744073709551623
  obtain ⟨-, hfits, -⟩ := hreads _ _ haround _ _ hgreatest (by decide)
  obtain ⟨-, hleaves, -⟩ := hreads _ _ haround _ _ hwrapped (by decide)
  rw [if_pos (by decide)] at hfits
  rw [if_neg (by decide)] at hleaves
  have hfits' : String.ofList (front ++ ("2147483647".toList ++ "\x7d\x7d".toList)) =
      "\x7b\"kind\":\"return\",\"value\":\x7b\"kind\":\"integer\"," ++
        "\"value\":2147483647\x7d\x7d" := by decide
  have hleaves' : String.ofList (front ++ ("18446744073709551623".toList ++ "\x7d\x7d".toList)) =
      "\x7b\"kind\":\"return\",\"value\":\x7b\"kind\":\"integer\"," ++
        "\"value\":18446744073709551623\x7d\x7d" := by decide
  rw [hfits'] at hfits
  rw [hleaves'] at hleaves
  exact ⟨hsource, ⟨_, hfits⟩, hleaves⟩

end SyntaxDump
