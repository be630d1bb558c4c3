import Mathlib
import SyntaxDump.Proofs.Interchange.RoundTrip

/-!
# Normal forms

The normal form of a text is the document of its tree, so both stand for the
same tree and the normal form of a normal form is that normal form.  It has to
be read for that, though, and it may be nested deeper than the text it came
from: a text may leave out an empty list, the document of a tree never does.
So the normal form of a text at the nesting limit may lie just beyond it.
-/

namespace SyntaxDump

open Interchange (encode object nodeOf typeOf nodeOfContent)
open Json (Value)

/-! ## Normal forms that can be read -/

theorem normalizeJson_of_parseJson {source : String} {root : Node}
    (hroot : parseJson source = .ok root) (pretty : Bool) :
    normalizeJson source pretty = .ok (Interchange.write (styleOf pretty) root) := by
  simp only [normalizeJson, hroot, bind, Except.bind]
  rfl

theorem normalizeJson_eq_ok {source text : String} {pretty : Bool}
    (htext : normalizeJson source pretty = .ok text) :
    ∃ root, parseJson source = .ok root ∧ text = Interchange.write (styleOf pretty) root := by
  cases hroot : parseJson source with
  | error error =>
      simp only [normalizeJson, hroot, bind, Except.bind] at htext
      cases htext
  | ok root =>
      rw [normalizeJson_of_parseJson hroot] at htext
      exact ⟨root, rfl, (Except.ok.inj htext).symm⟩

section

variable {root : Node} (style : Json.Style)

theorem parseJson_write (hroot : root.HasNoDoubles)
    (hnesting : Json.nesting (Interchange.write style root) ≤ Json.maxDepth) :
    parseJson (Interchange.write style root) = .ok root := by
  rw [Interchange.nesting_write] at hnesting
  rw [parseJson, (Interchange.read_write style root).1 hnesting, root.mapDoubles_eq_self hroot]
  rfl

theorem parseJson_write_error
    (hnesting : Json.maxDepth < Json.nesting (Interchange.write style root)) :
    ∃ error, parseJson (Interchange.write style root) = .error (.unreadable error) := by
  rw [Interchange.nesting_write] at hnesting
  obtain ⟨error, herror⟩ := (Interchange.read_write style root).2 hnesting
  refine ⟨error, ?_⟩
  rw [parseJson, herror]
  rfl

end

/-- A normal form that is nested within the limit is read as the tree of its
source and is its own normal form; one that is nested deeper cannot be read. -/
theorem normalizeJson_fixedPoint (source text : String) (pretty : Bool)
    (hsource : ∀ root, parseJson source = .ok root → root.HasNoDoubles)
    (htext : normalizeJson source pretty = .ok text) :
    (Json.nesting text ≤ 127 →
      (∃ root, parseJson source = .ok root ∧ parseJson text = .ok root) ∧
      normalizeJson text pretty = .ok text ∧
      ∀ other, normalizeJson text other = normalizeJson source other) ∧
    (128 ≤ Json.nesting text → ∃ error, parseJson text = .error (.unreadable error)) := by
  obtain ⟨root, hroot, rfl⟩ := normalizeJson_eq_ok htext
  constructor
  · intro hnesting
    have hparse := parseJson_write (styleOf pretty) (hsource root hroot) hnesting
    refine ⟨⟨root, hroot, hparse⟩, normalizeJson_of_parseJson hparse pretty, ?_⟩
    intro other
    rw [normalizeJson_of_parseJson hparse, normalizeJson_of_parseJson hroot]
  · intro hnesting
    exact parseJson_write_error (styleOf pretty) hnesting

theorem normalizeJson_fixedPoint_omittedNodes :
    normalizeJson "[\"print\", \x7b\"size\": 0\x7d]" false =
      .ok "\x7b\"kind\":\"print\",\"arguments\":\x7b\"nodes\":[]\x7d\x7d" ∧
    normalizeJson "\x7b\"kind\":\"print\",\"arguments\":\x7b\"nodes\":[]\x7d\x7d" true =
      normalizeJson "[\"print\", \x7b\"size\": 0\x7d]" true := by
  have hparse : parseJson "[\"print\", \x7b\"size\": 0\x7d]" = .ok (.print []) := by cbv
  have htext : normalizeJson "[\"print\", \x7b\"size\": 0\x7d]" false =
      .ok "\x7b\"kind\":\"print\",\"arguments\":\x7b\"nodes\":[]\x7d\x7d" := by cbv
  have hsource : ∀ root, parseJson "[\"print\", \x7b\"size\": 0\x7d]" = .ok root →
      root.HasNoDoubles := by
    intro root hroot
    rw [hparse] at hroot
    rw [← Except.ok.inj hroot]
    exact ⟨by decide, trivial⟩
  have hnesting : Json.nesting "\x7b\"kind\":\"print\",\"arguments\":\x7b\"nodes\":[]\x7d\x7d" ≤
      127 := by cbv
  exact ⟨htext, ((normalizeJson_fixedPoint _ _ false hsource htext).1 hnesting).2.2 true⟩

/-! ## A normal form that cannot be read -/

/-- Data without its bytes, inside `n` evaluations. -/
def deepValue : Nat → Value
  | 0 => object .data []
  | n + 1 => object .evaluation [("argument", deepValue n)]

def deepTree : Nat → Node
  | 0 => .data []
  | n + 1 => .evaluation (deepTree n)

theorem depth_deepValue (n : Nat) : (deepValue n).depth = n + 1 := by
  induction n with
  | zero => rfl
  | succ n ih => simp [deepValue, object, Interchange.tagged, Value.depth, Value.depthMembers, ih]

/-- The list of bytes that the text leaves out makes the document of the tree
deeper by one. -/
theorem depth_encode_deepTree (n : Nat) : (encode (deepTree n)).depth = n + 2 := by
  induction n with
  | zero => rfl
  | succ n ih =>
      simp [deepTree, encode, object, Interchange.tagged, Value.depth, Value.depthMembers, ih]

theorem mapFloats_deepValue (f : Binary64 → Binary64) (n : Nat) :
    (deepValue n).mapFloats f = deepValue n := by
  induction n with
  | zero => rfl
  | succ n ih =>
      simp [deepValue, object, Interchange.tagged, Value.mapFloats, Value.mapFloatsMembers, ih]

theorem writable_deepValue (n : Nat) : (deepValue n).Writable := by
  induction n with
  | zero => exact ⟨trivial, trivial⟩
  | succ n ih => exact ⟨trivial, ih, trivial⟩

theorem hasNoDoubles_deepTree (n : Nat) : (deepTree n).HasNoDoubles := by
  induction n with
  | zero => exact show Kind.data ≠ Kind.double by decide
  | succ n ih => exact ⟨show Kind.evaluation ≠ Kind.double by decide, ih⟩

section

open Interchange (Record split_tagged nodeFamily LacksKind innerDepth)

theorem evaluationOfContent {depth : Nat} {value : Value} {argument : Node}
    (hargument : nodeOf depth value = .ok argument) :
    nodeOfContent (nodeOf depth) (typeOf depth) .evaluation (.members [("argument", value)]) =
      .ok (.evaluation argument) := by
  simp [nodeOfContent, Record.read, Record.storeAll, Record.required, Record.field, hargument,
    bind, Except.bind, Except.map]

theorem nodeOf_deepValue {n depth : Nat} (hdepth : n < depth) :
    nodeOf depth (deepValue n) = .ok (deepTree n) := by
  have hsplit : ∀ {kind : Kind} {members : List (String × Value)}, LacksKind members →
      nodeFamily.split (object kind members) = .ok (kind, .members members) :=
    fun {kind} _ hmembers => split_tagged nodeFamily (Kind.ofWord?_word kind) hmembers
  obtain ⟨depth, rfl⟩ := Nat.exists_eq_succ_of_ne_zero (Nat.ne_zero_of_lt hdepth)
  induction n generalizing depth with
  | zero =>
      rw [deepValue, nodeOf, hsplit (by simp [LacksKind])]
      rfl
  | succ n ih =>
      obtain ⟨depth, rfl⟩ := Nat.exists_eq_succ_of_ne_zero
        (Nat.ne_zero_of_lt (Nat.lt_of_succ_lt_succ hdepth))
      rw [deepValue, nodeOf, hsplit (by simp [LacksKind])]
      exact evaluationOfContent (ih depth (by omega))

/-- A text that leaves out its bytes is read up to the nesting limit. -/
theorem parseJson_deepValue {n : Nat} (hn : n < innerDepth) (style : Json.Style) :
    parseJson ((deepValue (n + 1)).text style) = .ok (deepTree (n + 1)) := by
  have hmembers : Value.mapFloatsMembers Json.rereadFloat [("argument", deepValue n)] =
      [("argument", deepValue n)] := by
    rw [Value.mapFloatsMembers, mapFloats_deepValue, Value.mapFloatsMembers]
  have hcontent := evaluationOfContent (nodeOf_deepValue (lt_trans hn (Nat.lt_succ_self _)))
  rw [← hmembers] at hcontent
  have hread := Interchange.read_object style .evaluation (by simp [LacksKind])
    (by simpa using writable_deepValue n) (by simpa [depth_deepValue] using hn) hcontent
  rw [deepValue, parseJson, hread]
  rfl

end

def deepOpening : List Char := "\x7b\"kind\":\"evaluation\",\"argument\":".toList

def deepCore : List Char := "\x7b\"kind\":\"data\"\x7d".toList

/-- The compact text of `deepValue`. -/
def deepSource (n : Nat) : String :=
  String.ofList ((List.replicate n deepOpening).flatten ++ (deepCore ++ List.replicate n '}'))

theorem writeOnto_deepValue (n depth : Nat) (rest : List Char) :
    Json.writeOnto .compact (deepValue n) depth rest =
      (List.replicate n deepOpening).flatten ++ (deepCore ++ (List.replicate n '}' ++ rest)) := by
  induction n generalizing depth rest with
  | zero => rfl
  | succ n ih =>
      have hopening : Json.writeOnto .compact (deepValue (n + 1)) depth rest =
          deepOpening ++ Json.writeOnto .compact (deepValue n) (depth + 1) ('}' :: rest) := rfl
      have hclosing : List.replicate n '}' ++ '}' :: rest = List.replicate (n + 1) '}' ++ rest := by
        rw [List.replicate_succ', List.append_assoc, List.singleton_append]
      have hflatten : (List.replicate (n + 1) deepOpening).flatten =
          deepOpening ++ (List.replicate n deepOpening).flatten := by
        rw [List.replicate_succ, List.flatten_cons]
      rw [hopening, ih, hclosing, hflatten, List.append_assoc]

theorem text_deepValue (n : Nat) : (deepValue n).text .compact = deepSource n := by
  rw [Value.text, Json.write, writeOnto_deepValue, List.append_nil, deepSource]

/-- Some texts without doubles have a normal form that cannot be read: with the
list that the text leaves out, it is nested too deep. -/
theorem normalizeJson_deepSource_unreadable :
    parseJson (deepSource 126) = .ok (deepTree 126) ∧ (deepTree 126).HasNoDoubles ∧
    ∃ text, normalizeJson (deepSource 126) false = .ok text ∧ Json.nesting text = 128 ∧
      (∃ error, parseJson text = .error (.unreadable error)) ∧
      normalizeJson text false ≠ .ok text ∧
      normalizeJson text false ≠ normalizeJson (deepSource 126) false := by
  have hparse : parseJson (deepSource 126) = .ok (deepTree 126) := by
    rw [← text_deepValue]
    exact parseJson_deepValue (by decide) .compact
  have hnesting : Json.nesting (Interchange.write .compact (deepTree 126)) = 128 := by
    rw [Interchange.nesting_write, depth_encode_deepTree]
  have htext := normalizeJson_of_parseJson hparse false
  have hdeep : Json.maxDepth < Json.nesting (Interchange.write .compact (deepTree 126)) := by
    rw [hnesting]
    decide
  have hunread := parseJson_write_error .compact hdeep
  have hfailed : ∀ text, normalizeJson (Interchange.write .compact (deepTree 126)) false ≠
      .ok text := by
    intro text hok
    obtain ⟨root, hroot, -⟩ := normalizeJson_eq_ok hok
    obtain ⟨error, herror⟩ := hunread
    rw [herror] at hroot
    cases hroot
  refine ⟨hparse, hasNoDoubles_deepTree 126, _, htext, hnesting, hunread, hfailed _, ?_⟩
  rw [htext]
  exact hfailed _

end SyntaxDump
