import Mathlib.Tactic
import SyntaxDump.Proofs.Tag.Recovery
import SyntaxDump.Proofs.Tag.Sink

/-!
# The level of a dump

Every level on a walk is the level of the root and something added to it, so a
walk that starts further right is the same walk further right: each of its
lines gets the same number of spaces in front, and nothing else about a dump
depends on the level.  In particular the walk at level zero tells how far to
the right the dump at any other level reaches, and so which levels are too
deep.
-/

namespace SyntaxDump
namespace Tag

/-! ## Walks further right -/

def Line.shift (count : Nat) (line : Line) : Line := { line with level := count + line.level }

def Event.shift (count : Nat) : Event → Event
  | .visiting label level => .visiting label (count + level)
  | .line content => .line (content.shift count)
  | .settled => .settled

section

variable (count level : Nat) (name : String) (events : List Event)

@[simp] theorem shift_visiting : Event.shift count (.visiting name level) =
    .visiting name (count + level) := rfl

@[simp] theorem shift_settled : Event.shift count .settled = .settled := rfl

@[simp] theorem shift_openAt : (openAt level name).shift count = openAt (count + level) name := rfl

@[simp] theorem shift_openWith (attributes : List (String × String)) :
    (openWith level name attributes).shift count = openWith (count + level) name attributes := rfl

@[simp] theorem shift_closeAt : (closeAt level name).shift count = closeAt (count + level) name :=
  rfl

@[simp] theorem shift_inlineAt (text : String) :
    (inlineAt level name text).shift count = inlineAt (count + level) name text := rfl

@[simp] theorem map_shift_wrapped : (wrapped level name events).map (Event.shift count) =
    wrapped (count + level) name (events.map (Event.shift count)) := by
  simp [wrapped]

@[simp] theorem map_shift_sequenced (size : Nat) :
    (sequenced level size events).map (Event.shift count) =
      sequenced (count + level) size (events.map (Event.shift count)) := by
  simp [sequenced]

@[simp] theorem map_shift_blocked (declarations instructions : List Event) :
    (blocked level declarations instructions).map (Event.shift count) =
      blocked (count + level) (declarations.map (Event.shift count))
        (instructions.map (Event.shift count)) := by
  simp [blocked, Nat.add_assoc]

end

/-- Does the walk over a node move along with its level? -/
def MovesAlong (node : Node) : Prop :=
  ∀ count level, walk node (count + level) = (walk node level).map (Event.shift count)

section

variable {nodes : List Node} {option : Option Node}
  {nodes? declarations instructions : Option (List Node)}

theorem walkAll_shift (hnodes : ∀ node ∈ nodes, MovesAlong node) (count level : Nat) :
    walkAll nodes (count + level) = (walkAll nodes level).map (Event.shift count) := by
  induction nodes with
  | nil => rfl
  | cons node nodes ih =>
      have htail := ih fun other hmem => hnodes other (List.mem_cons_of_mem _ hmem)
      rw [walkAll, hnodes node (by simp), htail, walkAll, List.map_append]

theorem walkOption_shift (hnode : ∀ node ∈ option, MovesAlong node) (count level : Nat) :
    walkOption option (count + level) = (walkOption option level).map (Event.shift count) := by
  cases option with
  | none => rfl
  | some node => exact hnode node rfl count level

theorem walkSequence?_shift (hnodes : ∀ nodes ∈ nodes?, ∀ node ∈ nodes, MovesAlong node)
    (count level : Nat) :
    walkSequence? nodes? (count + level) =
      (walkSequence? nodes? level).map (Event.shift count) := by
  cases nodes? with
  | none => rfl
  | some nodes =>
      rw [walkSequence?, walkSequence?, map_shift_sequenced, Nat.add_assoc,
        walkAll_shift (hnodes nodes rfl)]

theorem walkBlock_shift
    (hdeclarations : ∀ nodes ∈ declarations, ∀ node ∈ nodes, MovesAlong node)
    (hinstructions : ∀ nodes ∈ instructions, ∀ node ∈ nodes, MovesAlong node)
    (count level : Nat) :
    walkBlock ⟨declarations, instructions⟩ (count + level) =
      (walkBlock ⟨declarations, instructions⟩ level).map (Event.shift count) := by
  rw [walkBlock, walkBlock, map_shift_blocked, Nat.add_assoc,
    walkSequence?_shift hdeclarations, walkSequence?_shift hinstructions]

end

section

attribute [local simp] walk Nat.add_assoc

/-- A walk that starts further right is the same walk further right. -/
theorem movesAlong (node : Node) : MovesAlong node := by
  induction node using Node.nestedInduction with
  | sequence nodes ih =>
      intro count level
      simp [walkAll_shift ih]
  | block declarations instructions ihdeclarations ihinstructions =>
      intro count level
      simp [walkBlock_shift ihdeclarations ihinstructions]
  | declaration identifier qualifier type initializer ih =>
      intro count level
      simp [walkOption_shift ih]
  | functionDefinition type arguments declarations instructions iharguments ihdeclarations
      ihinstructions =>
      intro count level
      simp [walkSequence?_shift iharguments, walkBlock_shift ihdeclarations ihinstructions]
  | functionCall identifier arguments ihidentifier iharguments =>
      intro count level
      cases identifier with
      | none => simp [walkSequence?_shift iharguments]
      | some identifier =>
          have hidentifier := ihidentifier identifier rfl
          unfold MovesAlong at hidentifier
          simp [walkSequence?_shift iharguments, hidentifier]
  | ret value ih =>
      intro count level
      simp [walkOption_shift ih]
  | print arguments ih =>
      intro count level
      simp [walkAll_shift ih]
  | _ =>
      intro count level
      simp_all [MovesAlong]

end

theorem lines_shift (root : Node) (count level : Nat) :
    lines root (count + level) = (lines root level).map (Line.shift count) := by
  have hline : Event.line? ∘ Event.shift count = Option.map (Line.shift count) ∘ Event.line? := by
    funext event
    cases event <;> rfl
  rw [lines, movesAlong root, List.filterMap_map, hline, lines, List.map_filterMap]
  rfl

/-! ## Indented texts -/

/-- The text with some more spaces in front of every line. -/
def indented (count : Nat) (text : String) : String :=
  String.ofList ((textLines text.toList).flatMap fun line =>
    List.replicate count ' ' ++ line ++ ['\n'])

theorem body_shift (count : Nat) (line : Line) :
    (line.shift count).body = List.replicate count ' ' ++ line.body := by
  rw [Line.body, Line.shift, List.replicate_add, List.append_assoc, Line.body]

theorem linesText_shift (count : Nat) {lines : List Line}
    (hlines : ∀ line ∈ lines, line.mark.Sound) :
    linesText (lines.map (Line.shift count)) = indented count (linesText lines) := by
  apply String.toList_inj.mp
  rw [indented, String.toList_ofList, textLines_linesText hlines, toList_linesText,
    List.flatMap_map, List.flatMap_map]
  simp only [body_shift]

theorem lines_eq_nil_iff (root : Node) (level : Nat) :
    lines root level = [] ↔ root.kind = .data := by
  constructor
  · intro hnil
    by_contra hshown
    obtain ⟨element, hforest, -⟩ := forest_eq_singleton hshown level
    rw [lines_eq_linesAll, hforest] at hnil
    cases element <;> simp [Element.linesAll, Element.lines] at hnil
  · intro hdata
    cases root <;> first | rfl | cases hdata

theorem linesText_eq_empty_iff (lines : List Line) : linesText lines = "" ↔ lines = [] := by
  constructor
  · intro hempty
    by_contra hne
    have hlast := getLast?_linesText lines
    rw [hempty, if_neg hne] at hlast
    cases hlast
  · rintro rfl
    rfl

theorem fits_of_shift {count : Nat} {line : Line} (hline : (line.shift count).fits = true) :
    line.fits = true := by
  have hdeeper : count + line.level ≤ maxLevel := of_decide_eq_true hline
  exact decide_eq_true (by omega)

/-- The level of a dump only indents it: whenever the dump can be written
further right, it can be written here, and the only difference are the spaces
in front of every line.  A dump is empty if its tree is data, and ends its last
line otherwise. -/
theorem dump_indented (root : Node) (level count : Nat) (text : String)
    (hroot : root.Everywhere HasOneLineTexts) (hdump : dump? root (level + count) = some text) :
    ∃ base, dump? root level = some base ∧ text = indented count base ∧
      (base = "" ↔ root.kind = .data) ∧
      (root.kind ≠ .data → base.toList.getLast? = some '\n') := by
  have hfits := fits_of_dump? hdump
  have htext := dump?_eq_some hdump
  rw [Nat.add_comm, lines_shift] at hfits htext
  refine ⟨linesText (lines root level), ?_, ?_, ?_, ?_⟩
  · refine if_pos (List.all_eq_true.mpr fun line hline => ?_)
    exact fits_of_shift (hfits _ (List.mem_map_of_mem hline))
  · rw [htext, linesText_shift count (mark_sound_of_mem_lines hroot)]
  · rw [linesText_eq_empty_iff, lines_eq_nil_iff]
  · intro hshown
    rw [getLast?_linesText, if_neg (mt (lines_eq_nil_iff root level).mp hshown)]

theorem dump_indented_blanks :
    linesText (lines (.assignment (.var " a ") (.ret (some (.string "</b>")))) 5) =
      indented 2
        (linesText (lines (.assignment (.var " a ") (.ret (some (.string "</b>")))) 3)) := by
  have hvar : (Node.var " a ").Everywhere HasOneLineTexts := show IsOneLine _ by decide
  have hstring : (Node.string "</b>").Everywhere HasOneLineTexts := show IsOneLine _ by decide
  obtain ⟨base, hbase, htext, -⟩ :=
    dump_indented (.assignment (.var " a ") (.ret (some (.string "</b>")))) 3 2 _
      ⟨trivial, hvar, trivial, hstring⟩ (if_pos (by decide))
  rw [htext, dump?_eq_some hbase]

end Tag
end SyntaxDump
