import Mathlib.Tactic
import SyntaxDump.Proofs.Tag.Indentation

/-!
# Levels that are too deep

A dump fails for one reason only: a line that is indented too far.  How far the
lines of a tree stand to the right of its first line does not depend on the
level, so the levels at which the dump fails are known from one walk.

A walk on a machine forms its levels as words of 64 bits, and nothing checks
these sums.  What keeps them small is that the walk stops at a line that is too
deep: a level is added to only after a line at that very level has been
written.  The walk on words is therefore followed like the one on numbers, and
no sum that it forms on the way wraps around.  That no sum is left out is an
invariant of the walk: an event stands at a level that is known, at first that
of the root, and a sum of a known level makes its result known.
-/

namespace SyntaxDump
namespace Tag

/-! ## How far a dump reaches -/

/-- How far the rightmost line of a dump stands to the right of its root; data
has no lines. -/
def reach (root : Node) : Option Nat := ((lines root 0).map Line.level).max?

theorem reach_eq_none_iff (root : Node) : reach root = none ↔ root.kind = .data := by
  rw [reach, List.max?_eq_none_iff, List.map_eq_nil_iff, lines_eq_nil_iff]

/-- The lines at a level are those at level zero, further right. -/
theorem lines_eq_shift (root : Node) (level : Nat) :
    lines root level = (lines root 0).map (Line.shift level) :=
  lines_shift root level 0

theorem exists_tooDeep_iff (root : Node) (level : Nat) :
    (∃ line ∈ lines root level, maxLevel < line.level) ↔
      ∃ far ∈ reach root, maxLevel < level + far := by
  rw [lines_eq_shift]
  constructor
  · rintro ⟨shifted, hshifted, hdeep⟩
    obtain ⟨line, hline, rfl⟩ := List.mem_map.mp hshifted
    have hlevel := List.mem_map_of_mem (f := Line.level) hline
    cases hreach : reach root with
    | none =>
        rw [reach, List.max?_eq_none_iff] at hreach
        rw [hreach] at hlevel
        cases hlevel
    | some far =>
        have hfar := (List.max?_eq_some_iff.mp hreach).2 _ hlevel
        have hline : maxLevel < level + line.level := hdeep
        exact ⟨far, rfl, by omega⟩
  · rintro ⟨far, hfar, hdeep⟩
    obtain ⟨line, hline, rfl⟩ := List.mem_map.mp (List.max?_eq_some_iff.mp hfar).1
    exact ⟨line.shift level, List.mem_map_of_mem hline, hdeep⟩

theorem all_fits_iff (lines : List Line) :
    lines.all Line.fits = false ↔ ∃ line ∈ lines, maxLevel < line.level := by
  simp [Line.fits]

theorem dump?_eq_none_iff (root : Node) (level : Nat) :
    dump? root level = none ↔ ∃ far ∈ reach root, maxLevel < level + far := by
  rw [← exists_tooDeep_iff, ← all_fits_iff, dump?]
  cases (lines root level).all Line.fits <;> simp

/-- Into a sink without a limit every line is written up to the first one that
is too deep. -/
theorem outcome_follow_unlimited {writer : Writer} (hroom : writer.sink.room = none)
    (events : List Event) :
    (writer.follow events).2 =
      if (eventLines events).all Line.fits then .done else .tooDeep := by
  induction events generalizing writer with
  | nil => rfl
  | cons event events ih =>
      cases event with
      | visiting label level => exact ih hroom
      | settled => exact @ih writer.clear hroom
      | line line =>
          cases hline : line.fits with
          | false => simp [Writer.follow, Writer.putLine, hline]
          | true =>
              have hput : writer.putLine line =
                  ({ writer with sink := ⟨none, writer.sink.text ++ String.ofList line.text⟩ },
                    .done) := by
                simp [Writer.putLine, hline, Sink.write, hroom]
              have htail := @ih
                { writer with sink := ⟨none, writer.sink.text ++ String.ofList line.text⟩ } rfl
              simp [Writer.follow, hput, htail, hline]

theorem outcome_dumpTo_unlimited (root : Node) (level : Nat) :
    (dumpTo none root level).2 = .tooDeep ↔ dump? root level = none := by
  have houtcome : (dumpTo none root level).2 =
      if (lines root level).all Line.fits then .done else .tooDeep :=
    @outcome_follow_unlimited (Writer.start none) rfl (walk root level)
  rw [houtcome, dump?]
  cases (lines root level).all Line.fits <;> simp

/-! ## Walks on words -/

/-- A sum of a level and a step. -/
structure Sum where
  level : UInt64
  step : Nat
deriving DecidableEq, Repr

/-- The sum itself, which wraps around. -/
def Sum.result (sum : Sum) : UInt64 := sum.level + UInt64.ofNat sum.step

/-- What happens on a walk whose levels are words. -/
inductive WordEvent where
  | plain (event : Event)
  /-- a level is added to -/
  | sum (sum : Sum)
deriving DecidableEq, Repr

/-- Go on at a level that is a step deeper; the sum wraps around. -/
def deeper (level : UInt64) (step : Nat) (body : UInt64 → List WordEvent) : List WordEvent :=
  .sum ⟨level, step⟩ :: body (level + UInt64.ofNat step)

def wrappedWords (level : UInt64) (name : String) (body : List WordEvent) : List WordEvent :=
  .plain (openAt level.toNat name) :: (body ++ [.plain (closeAt level.toNat name)])

/-- A wrapper two levels deeper than the node it belongs to. -/
def wrapperWords (level : UInt64) (name : String) (body : UInt64 → List WordEvent) :
    List WordEvent :=
  deeper level 2 fun inner => wrappedWords inner name (body inner)

def sequencedWords (level : UInt64) (size : Nat) (elements : List WordEvent) : List WordEvent :=
  .plain (openWith level.toNat "sequence_node" [("size", Decimal.natText size)]) ::
    (elements ++ [.plain (closeAt level.toNat "sequence_node")])

mutual
/-- The events of a node and all below it, with every sum of levels in the
place where it is formed.  A node without children forms none. -/
def walkWords : Node → UInt64 → List WordEvent
  | node@(.unary _ argument), level =>
      .plain (.visiting node.label level.toNat) ::
        wrappedWords level node.label (deeper level 2 (walkWords argument))
  | node@(.binary _ left right), level =>
      .plain (.visiting node.label level.toNat) ::
        wrappedWords level node.label
          (deeper level 2 (walkWords left) ++ deeper level 2 (walkWords right))
  | node@(.index base position), level =>
      .plain (.visiting node.label level.toNat) ::
        wrappedWords level node.label
          (deeper level 4 (walkWords base) ++ deeper level 4 (walkWords position))
  | node@(.addressOf lvalue), level =>
      .plain (.visiting node.label level.toNat) ::
        wrappedWords level node.label (deeper level 4 (walkWords lvalue))
  | node@(.stackAlloc argument), level =>
      .plain (.visiting node.label level.toNat) ::
        wrappedWords level node.label (deeper level 4 (walkWords argument))
  | node@(.rvalue lvalue), level =>
      .plain (.visiting node.label level.toNat) ::
        wrappedWords level node.label (deeper level 4 (walkWords lvalue))
  | node@(.assignment target value), level =>
      .plain (.visiting node.label level.toNat) ::
        wrappedWords level node.label
          (walkWords target level ++ .plain .settled :: deeper level 4 (walkWords value))
  | node@(.sequence nodes), level =>
      .plain (.visiting node.label level.toNat) ::
        sequencedWords level nodes.length (walkAllWords nodes level)
  | node@(.block body), level =>
      .plain (.visiting node.label level.toNat) :: walkBlockWords body level
  | node@(.declaration identifier qualifier type initializer), level =>
      .plain (.visiting node.label level.toNat) :: .plain .settled ::
        .plain (openWith level.toNat node.label
          [("name", identifier), ("qualifier", qualifier.name), ("type", typeAttribute type)]) ::
        (wrappedWords level "initializer" (walkOptionWords initializer level) ++
          [.plain (closeAt level.toNat node.label)])
  | node@(.functionDefinition type arguments body), level =>
      .plain (.visiting node.label level.toNat) ::
        .plain (openWith level.toNat node.label [("type", typeAttribute type)]) ::
        (wrapperWords level "arguments" (walkSequenceWords? arguments) ++
          wrapperWords level "block" (fun _ => deeper level 4 (walkBlockWords body)) ++
          [.plain (closeAt level.toNat node.label)])
  | node@(.functionCall identifier arguments), level =>
      .plain (.visiting node.label level.toNat) ::
        wrappedWords level node.label
          (wrapperWords level "identifier" (fun _ => deeper level 4 (walkCalleeWords identifier)) ++
            wrapperWords level "arguments" (walkSequenceWords? arguments))
  | node@(.sizeof expression), level =>
      .plain (.visiting node.label level.toNat) ::
        wrappedWords level node.label (deeper level 4 (walkWords expression))
  | node@(.ifThen condition block), level =>
      .plain (.visiting node.label level.toNat) ::
        wrappedWords level node.label
          (wrapperWords level "condition" (fun _ => deeper level 4 (walkWords condition)) ++
            wrapperWords level "then" (fun _ => deeper level 4 (walkWords block)))
  | node@(.ifElse condition thenBlock elseBlock), level =>
      .plain (.visiting node.label level.toNat) ::
        wrappedWords level node.label
          (wrapperWords level "condition" (fun _ => deeper level 4 (walkWords condition)) ++
            wrapperWords level "then" (fun _ => deeper level 4 (walkWords thenBlock)) ++
            wrapperWords level "else" (fun _ => deeper level 4 (walkWords elseBlock)))
  | node@(.whileLoop condition block), level =>
      .plain (.visiting node.label level.toNat) ::
        wrappedWords level node.label
          (wrapperWords level "condition" (fun _ => deeper level 4 (walkWords condition)) ++
            wrapperWords level "block" (fun _ => deeper level 4 (walkWords block)))
  | node@(.ret value), level =>
      .plain (.visiting node.label level.toNat) ::
        wrappedWords level node.label (walkOptionWords value level)
  | node@(.print arguments), level =>
      .plain (.visiting node.label level.toNat) ::
        wrappedWords level node.label
          (deeper level 2 fun inner =>
            sequencedWords inner arguments.length (walkAllWords arguments inner))
  | node@(.evaluation argument), level =>
      .plain (.visiting node.label level.toNat) ::
        wrappedWords level node.label (deeper level 2 (walkWords argument))
  | node, level => (walk node level.toNat).map .plain
/-- The elements of a sequence that stands at the given level. -/
def walkAllWords : List Node → UInt64 → List WordEvent
  | [], _ => []
  | node :: nodes, level => deeper level 2 (walkWords node) ++ walkAllWords nodes level
/-- A child, if there is one, of a node at the given level. -/
def walkOptionWords : Option Node → UInt64 → List WordEvent
  | none, _ => []
  | some node, level => deeper level 4 (walkWords node)
def walkCalleeWords : Option Node → UInt64 → List WordEvent
  | none, level => wrappedWords level "recursive" []
  | some node, level => walkWords node level
/-- A sequence, if there is one, in a wrapper at the given level. -/
def walkSequenceWords? : Option (List Node) → UInt64 → List WordEvent
  | none, _ => []
  | some nodes, level =>
      deeper level 2 fun inner => sequencedWords inner nodes.length (walkAllWords nodes inner)
def walkBlockWords : Block Node → UInt64 → List WordEvent
  | ⟨declarations, instructions⟩, level =>
      wrappedWords level "block_node"
        (wrapperWords level "declarations" (walkSequenceWords? declarations) ++
          wrapperWords level "instructions" (walkSequenceWords? instructions))
end

/-! ## Following a walk on words -/

/-- How a walk on words went, and the sums it has formed on the way. -/
structure Run where
  writer : Writer
  outcome : Outcome
  sums : List Sum
deriving DecidableEq, Repr

namespace Run

def result (run : Run) : Writer × Outcome := (run.writer, run.outcome)

/-- Go on after a success. -/
def andThen (run : Run) (next : Writer → Run) : Run :=
  match run with
  | ⟨writer, .done, sums⟩ => { next writer with sums := sums ++ (next writer).sums }
  | stopped => stopped

end Run

/-- Go through the events until one of them fails. -/
def followWords (writer : Writer) : List WordEvent → Run
  | [] => ⟨writer, .done, []⟩
  | .sum sum :: rest =>
      { followWords writer rest with sums := sum :: (followWords writer rest).sums }
  | .plain event :: rest =>
      match writer.follow [event] with
      | (writer, .done) => followWords writer rest
      | (writer, outcome) => ⟨writer, outcome, []⟩

/-- Dump a tree with words for levels. -/
def visitWords (writer : Writer) (node : Node) (level : UInt64) : Run :=
  followWords writer (walkWords node level)

/-! ## Sums on the way -/

theorem follow_append (writer : Writer) (front back : List Event) :
    writer.follow (front ++ back) =
      Writer.andThen (writer.follow front) fun writer => writer.follow back := by
  induction front generalizing writer with
  | nil => rfl
  | cons event front ih =>
      cases event with
      | visiting label level => exact ih writer
      | settled => exact ih writer.clear
      | line line =>
          simp only [List.cons_append, Writer.follow]
          cases writer.putLine line with
          | mk next outcome =>
              cases outcome with
              | done => exact ih next
              | _ => rfl

theorem followWords_append (writer : Writer) (front back : List WordEvent) :
    followWords writer (front ++ back) =
      (followWords writer front).andThen fun writer => followWords writer back := by
  induction front generalizing writer with
  | nil => rfl
  | cons event front ih =>
      cases event with
      | sum sum =>
          simp only [List.cons_append, followWords, ih]
          cases hfront : followWords writer front with
          | mk next outcome sums => cases outcome <;> rfl
      | plain event =>
          simp only [List.cons_append, followWords]
          cases writer.follow [event] with
          | mk next outcome =>
              cases outcome with
              | done => exact ih next
              | _ => rfl

/-- Sums that cannot wrap around: the level can be written, and the step is one
of those that a walk takes. -/
def Sum.IsSmall (sum : Sum) : Prop := sum.level.toNat ≤ maxLevel ∧ sum.step ≤ 4

theorem Sum.IsSmall.toNat_result {sum : Sum} (hsmall : sum.IsSmall) :
    sum.result.toNat = sum.level.toNat + sum.step := by
  obtain ⟨hlevel, hstep⟩ := hsmall
  have hbound : sum.level.toNat ≤ 65535 := hlevel
  have hword : sum.step < UInt64.size := lt_of_le_of_lt hstep (by decide)
  rw [Sum.result, UInt64.toNat_add, UInt64.toNat_ofNat_of_lt' hword]
  omega

/-- Do the events on words do to every writer what the others do, with only
small sums on the way? -/
def Tracks (words : List WordEvent) (events : List Event) : Prop :=
  ∀ writer, (followWords writer words).result = writer.follow events ∧
    ∀ sum ∈ (followWords writer words).sums, sum.IsSmall

namespace Tracks

variable {words words' : List WordEvent} {events events' : List Event} {level : UInt64}

theorem nil : Tracks [] [] := by
  intro writer
  exact ⟨rfl, by simp [followWords]⟩

theorem append (hfront : Tracks words events) (hback : Tracks words' events') :
    Tracks (words ++ words') (events ++ events') := by
  intro writer
  obtain ⟨hresult, hsums⟩ := hfront writer
  rw [followWords_append, follow_append, ← hresult]
  cases hrun : followWords writer words with
  | mk next outcome sums =>
      rw [hrun] at hsums
      cases outcome with
      | done =>
          obtain ⟨hresult', hsums'⟩ := hback next
          refine ⟨hresult', ?_⟩
          intro sum hsum
          rcases List.mem_append.mp hsum with hearlier | hlater
          · exact hsums sum hearlier
          · exact hsums' sum hlater
      | _ => exact ⟨rfl, hsums⟩

theorem singleton (event : Event) : Tracks [.plain event] [event] := by
  intro writer
  rw [followWords]
  cases hfollow : writer.follow [event] with
  | mk next outcome => cases outcome <;> exact ⟨rfl, by simp [followWords]⟩

theorem cons (event : Event) (htail : Tracks words events) :
    Tracks (.plain event :: words) (event :: events) :=
  (singleton event).append htail

theorem plain (events : List Event) : Tracks (events.map .plain) events := by
  induction events with
  | nil => exact nil
  | cons event events ih => exact ih.cons event

/-- Behind a line the level is known to be one that can be written. -/
theorem line (mark : Mark) (hrest : level.toNat ≤ maxLevel → Tracks words events) :
    Tracks (.plain (.line ⟨level.toNat, mark⟩) :: words) (.line ⟨level.toNat, mark⟩ :: events) := by
  by_cases hlevel : level.toNat ≤ maxLevel
  · exact (hrest hlevel).cons _
  · intro writer
    have hput : writer.putLine ⟨level.toNat, mark⟩ = (writer, .tooDeep) :=
      if_neg (by simpa [Line.fits] using hlevel)
    simp [followWords, Writer.follow, hput, Run.result]

/-- A sum at a level that can be written does not wrap around. -/
theorem deeper (events : Nat → List Event) (hlevel : level.toNat ≤ maxLevel) {step : Nat}
    (hstep : step ≤ 4) {body : UInt64 → List WordEvent}
    (hbody : ∀ inner : UInt64, Tracks (body inner) (events inner.toNat)) :
    Tracks (deeper level step body) (events (level.toNat + step)) := by
  have hsmall : Sum.IsSmall ⟨level, step⟩ := ⟨hlevel, hstep⟩
  have hsum : (level + UInt64.ofNat step).toNat = level.toNat + step := hsmall.toNat_result
  intro writer
  obtain ⟨hresult, hsums⟩ := hbody (level + UInt64.ofNat step) writer
  rw [hsum] at hresult
  refine ⟨hresult, ?_⟩
  intro sum hmem
  rcases List.mem_cons.mp hmem with hfirst | hlater
  · subst hfirst
    exact hsmall
  · exact hsums sum hlater

theorem wrapped (name : String) (hbody : level.toNat ≤ maxLevel → Tracks words events) :
    Tracks (wrappedWords level name words) (Tag.wrapped level.toNat name events) :=
  line _ fun hlevel => (hbody hlevel).append (singleton _)

theorem sequenced (size : Nat) (hbody : level.toNat ≤ maxLevel → Tracks words events) :
    Tracks (sequencedWords level size words) (Tag.sequenced level.toNat size events) :=
  line _ fun hlevel => (hbody hlevel).append (singleton _)

theorem wrapper (hlevel : level.toNat ≤ maxLevel) (name : String) (hbody : Tracks words events) :
    Tracks (wrapperWords level name fun _ => words)
      (Tag.wrapped (level.toNat + 2) name events) :=
  deeper (fun inner => Tag.wrapped inner name events) hlevel (by decide)
    fun _ => wrapped name fun _ => hbody

end Tracks

/-! ## Trees -/

/-- Is the walk over a node followed on words as it is on numbers? -/
def TracksWalk (node : Node) : Prop :=
  ∀ level : UInt64, Tracks (walkWords node level) (walk node level.toNat)

theorem TracksWalk.deeper {node : Node} (hnode : TracksWalk node) {level : UInt64}
    (hlevel : level.toNat ≤ maxLevel) {step : Nat} (hstep : step ≤ 4) :
    Tracks (deeper level step (walkWords node)) (walk node (level.toNat + step)) :=
  .deeper (walk node) hlevel hstep hnode

section

variable {nodes : List Node} {option : Option Node}
  {nodes? declarations instructions : Option (List Node)} {level : UInt64}

theorem tracks_walkAllWords (hnodes : ∀ node ∈ nodes, TracksWalk node)
    (hlevel : level.toNat ≤ maxLevel) :
    Tracks (walkAllWords nodes level) (walkAll nodes (level.toNat + 2)) := by
  induction nodes with
  | nil => exact .nil
  | cons node nodes ih =>
      have htail := ih fun other hmem => hnodes other (List.mem_cons_of_mem _ hmem)
      exact ((hnodes node (by simp)).deeper hlevel (by decide)).append htail

theorem tracks_walkOptionWords (hnode : ∀ node ∈ option, TracksWalk node)
    (hlevel : level.toNat ≤ maxLevel) :
    Tracks (walkOptionWords option level) (walkOption option (level.toNat + 4)) := by
  cases option with
  | none => exact .nil
  | some node => exact (hnode node rfl).deeper hlevel (by decide)

theorem tracks_sequencedWords (hnodes : ∀ node ∈ nodes, TracksWalk node) (level : UInt64) :
    Tracks (sequencedWords level nodes.length (walkAllWords nodes level))
      (sequenced level.toNat nodes.length (walkAll nodes (level.toNat + 2))) :=
  .sequenced _ fun hlevel => tracks_walkAllWords hnodes hlevel

theorem tracks_walkSequenceWords? (hnodes : ∀ nodes ∈ nodes?, ∀ node ∈ nodes, TracksWalk node)
    (hlevel : level.toNat ≤ maxLevel) :
    Tracks (walkSequenceWords? nodes? level) (walkSequence? nodes? (level.toNat + 2)) := by
  cases nodes? with
  | none => exact .nil
  | some nodes =>
      exact .deeper (walkSequence? (some nodes)) hlevel (by decide)
        (tracks_sequencedWords (hnodes nodes rfl))

/-- A list of nodes in its wrapper. -/
theorem tracks_wrapperWords (hnodes : ∀ nodes ∈ nodes?, ∀ node ∈ nodes, TracksWalk node)
    (hlevel : level.toNat ≤ maxLevel) (name : String) :
    Tracks (wrapperWords level name (walkSequenceWords? nodes?))
      (wrapped (level.toNat + 2) name (walkSequence? nodes? (level.toNat + 4))) :=
  .deeper (fun inner => wrapped inner name (walkSequence? nodes? (inner + 2))) hlevel (by decide)
    fun _ => .wrapped name fun hinner => tracks_walkSequenceWords? hnodes hinner

theorem tracks_walkBlockWords
    (hdeclarations : ∀ nodes ∈ declarations, ∀ node ∈ nodes, TracksWalk node)
    (hinstructions : ∀ nodes ∈ instructions, ∀ node ∈ nodes, TracksWalk node)
    (level : UInt64) :
    Tracks (walkBlockWords ⟨declarations, instructions⟩ level)
      (walkBlock ⟨declarations, instructions⟩ level.toNat) :=
  .wrapped _ fun hlevel =>
    (tracks_wrapperWords hdeclarations hlevel _).append (tracks_wrapperWords hinstructions hlevel _)

end

/-- A walk on words is followed as the walk on numbers, with small sums only. -/
theorem tracksWalk (node : Node) : TracksWalk node := by
  induction node using Node.nestedInduction with
  | unary op argument ih =>
      intro level
      exact .cons _ (.wrapped _ fun hlevel => ih.deeper hlevel (by decide))
  | binary op left right ihleft ihright =>
      intro level
      exact .cons _ (.wrapped _ fun hlevel =>
        .append (ihleft.deeper hlevel (by decide)) (ihright.deeper hlevel (by decide)))
  | index base position ihbase ihposition =>
      intro level
      exact .cons _ (.wrapped _ fun hlevel =>
        .append (ihbase.deeper hlevel (by decide)) (ihposition.deeper hlevel (by decide)))
  | addressOf lvalue ih =>
      intro level
      exact .cons _ (.wrapped _ fun hlevel => ih.deeper hlevel (by decide))
  | stackAlloc argument ih =>
      intro level
      exact .cons _ (.wrapped _ fun hlevel => ih.deeper hlevel (by decide))
  | rvalue lvalue ih =>
      intro level
      exact .cons _ (.wrapped _ fun hlevel => ih.deeper hlevel (by decide))
  | assignment target value ihtarget ihvalue =>
      intro level
      exact .cons _ (.wrapped _ fun hlevel =>
        .append (ihtarget level) (.cons _ (ihvalue.deeper hlevel (by decide))))
  | sequence nodes ih =>
      intro level
      exact .cons _ (tracks_sequencedWords ih level)
  | block declarations instructions ihdeclarations ihinstructions =>
      intro level
      exact .cons _ (tracks_walkBlockWords ihdeclarations ihinstructions level)
  | declaration identifier qualifier type initializer ih =>
      intro level
      exact .cons _ (.cons _ (.line _ fun hlevel =>
        .append (.wrapped _ fun _ => tracks_walkOptionWords ih hlevel) (.singleton _)))
  | functionDefinition type arguments declarations instructions iharguments ihdeclarations
      ihinstructions =>
      intro level
      exact .cons _ (.line _ fun hlevel =>
        .append (.append (tracks_wrapperWords iharguments hlevel _)
          (.wrapper hlevel _ (.deeper (walkBlock ⟨declarations, instructions⟩) hlevel (by decide)
            (tracks_walkBlockWords ihdeclarations ihinstructions)))) (.singleton _))
  | functionCall identifier arguments ihidentifier iharguments =>
      intro level
      cases identifier with
      | none =>
          exact .cons _ (.wrapped _ fun hlevel =>
            .append (.wrapper hlevel _ (.deeper (wrapped · "recursive" []) hlevel (by decide)
              fun _ => .wrapped _ fun _ => .nil)) (tracks_wrapperWords iharguments hlevel _))
      | some identifier =>
          exact .cons _ (.wrapped _ fun hlevel =>
            .append (.wrapper hlevel _ ((ihidentifier identifier rfl).deeper hlevel (by decide)))
              (tracks_wrapperWords iharguments hlevel _))
  | sizeof expression ih =>
      intro level
      exact .cons _ (.wrapped _ fun hlevel => ih.deeper hlevel (by decide))
  | ifThen condition block ihcondition ihblock =>
      intro level
      exact .cons _ (.wrapped _ fun hlevel =>
        .append (.wrapper hlevel _ (ihcondition.deeper hlevel (by decide)))
          (.wrapper hlevel _ (ihblock.deeper hlevel (by decide))))
  | ifElse condition thenBlock elseBlock ihcondition ihthen ihelse =>
      intro level
      exact .cons _ (.wrapped _ fun hlevel =>
        .append (.append (.wrapper hlevel _ (ihcondition.deeper hlevel (by decide)))
          (.wrapper hlevel _ (ihthen.deeper hlevel (by decide))))
          (.wrapper hlevel _ (ihelse.deeper hlevel (by decide))))
  | whileLoop condition block ihcondition ihblock =>
      intro level
      exact .cons _ (.wrapped _ fun hlevel =>
        .append (.wrapper hlevel _ (ihcondition.deeper hlevel (by decide)))
          (.wrapper hlevel _ (ihblock.deeper hlevel (by decide))))
  | ret value ih =>
      intro level
      exact .cons _ (.wrapped _ fun hlevel => tracks_walkOptionWords ih hlevel)
  | print arguments ih =>
      intro level
      exact .cons _ (.wrapped _ fun hlevel => .deeper
        (fun inner => sequenced inner arguments.length (walkAll arguments (inner + 2))) hlevel
        (by decide) (tracks_sequencedWords ih))
  | evaluation argument ih =>
      intro level
      exact .cons _ (.wrapped _ fun hlevel => ih.deeper hlevel (by decide))
  | _ =>
      intro level
      exact .plain _

/-! ## Where levels come from -/

/-- The level that an event stands at. -/
def Event.level? : Event → Option Nat
  | .visiting _ level => some level
  | .line ⟨level, _⟩ => some level
  | .settled => none

/-- Every event stands at a level that is known, and every sum is formed at such
a level.  What is known behind a sum is its result as well. -/
inductive Accounted : List UInt64 → List WordEvent → Prop where
  | nil {known} : Accounted known []
  | plain {known event rest} : (∀ level ∈ event.level?, level ∈ known.map UInt64.toNat) →
      Accounted known rest → Accounted known (.plain event :: rest)
  | sum {known sum rest} : sum.level ∈ known → Accounted (sum.result :: known) rest →
      Accounted known (.sum sum :: rest)

namespace Accounted

variable {known known' : List UInt64} {words words' : List WordEvent} {level : UInt64}

theorem mono (hwords : Accounted known words) (hknown : known ⊆ known') :
    Accounted known' words := by
  induction hwords generalizing known' with
  | nil => exact .nil
  | plain hevent _ ih =>
      exact .plain (fun l hl => List.map_subset _ hknown (hevent l hl)) (ih hknown)
  | sum hsum _ ih => exact .sum (hknown hsum) (ih (List.cons_subset_cons _ hknown))

theorem append (hfront : Accounted known words) (hback : Accounted known words') :
    Accounted known (words ++ words') := by
  induction hfront with
  | nil => exact hback
  | plain hevent _ ih => exact .plain hevent (ih hback)
  | sum hsum _ ih => exact .sum hsum (ih (hback.mono (List.subset_cons_self _ _)))

theorem event (hlevel : level ∈ known) {event : Event} (hevent : event.level? = some level.toNat)
    (hrest : Accounted known words) : Accounted known (.plain event :: words) := by
  refine .plain ?_ hrest
  intro l hl
  obtain rfl : level.toNat = l := Option.some.inj (hevent.symm.trans hl)
  exact List.mem_map_of_mem hlevel

theorem visiting (hlevel : level ∈ known) (label : String) (hrest : Accounted known words) :
    Accounted known (.plain (.visiting label level.toNat) :: words) :=
  .event hlevel rfl hrest

theorem settled (hrest : Accounted known words) :
    Accounted known (.plain .settled :: words) :=
  .plain (by simp [Event.level?]) hrest

theorem line (hlevel : level ∈ known) (mark : Mark) (hrest : Accounted known words) :
    Accounted known (.plain (.line ⟨level.toNat, mark⟩) :: words) :=
  .event hlevel rfl hrest

/-- Events that all stand at one level. -/
theorem flat (hlevel : level ∈ known) {events : List Event}
    (hevents : ∀ event ∈ events, event.level? = some level.toNat) :
    Accounted known (events.map .plain) := by
  induction events with
  | nil => exact .nil
  | cons event events ih =>
      obtain ⟨hevent, hrest⟩ := List.forall_mem_cons.mp hevents
      exact .event hlevel hevent (ih hrest)

theorem deeper (hlevel : level ∈ known) (step : Nat) {body : UInt64 → List WordEvent}
    (hbody : ∀ inner, Accounted (inner :: known) (body inner)) :
    Accounted known (deeper level step body) :=
  .sum hlevel (hbody _)

theorem wrapped (hlevel : level ∈ known) (name : String) (hbody : Accounted known words) :
    Accounted known (wrappedWords level name words) :=
  .line hlevel _ (hbody.append (.line hlevel _ .nil))

theorem sequenced (hlevel : level ∈ known) (size : Nat) (hbody : Accounted known words) :
    Accounted known (sequencedWords level size words) :=
  .line hlevel _ (hbody.append (.line hlevel _ .nil))

theorem wrapper (hlevel : level ∈ known) (name : String) {body : UInt64 → List WordEvent}
    (hbody : ∀ inner, Accounted (inner :: known) (body inner)) :
    Accounted known (wrapperWords level name body) :=
  .deeper hlevel 2 fun inner => .wrapped List.mem_cons_self name (hbody inner)

end Accounted

/-- Do all levels of the walk over a node come from its own? -/
def AccountedWalk (node : Node) : Prop :=
  ∀ (known : List UInt64) (level : UInt64), level ∈ known → Accounted known (walkWords node level)

theorem AccountedWalk.deeper {node : Node} (hnode : AccountedWalk node) {known : List UInt64}
    {level : UInt64} (hlevel : level ∈ known) (step : Nat) :
    Accounted known (deeper level step (walkWords node)) :=
  .deeper hlevel step fun _ => hnode _ _ List.mem_cons_self

/-- A child in a wrapper of its parent. -/
theorem AccountedWalk.wrapper {node : Node} (hnode : AccountedWalk node) {known : List UInt64}
    {level : UInt64} (hlevel : level ∈ known) (name : String) :
    Accounted known (wrapperWords level name fun _ => Tag.deeper level 4 (walkWords node)) :=
  .wrapper hlevel name fun _ => hnode.deeper (List.mem_cons_of_mem _ hlevel) 4

section

variable {nodes : List Node} {option : Option Node}
  {nodes? declarations instructions : Option (List Node)} {known : List UInt64} {level : UInt64}

theorem accounted_walkAllWords (hnodes : ∀ node ∈ nodes, AccountedWalk node)
    (hlevel : level ∈ known) : Accounted known (walkAllWords nodes level) := by
  induction nodes with
  | nil => exact .nil
  | cons node nodes ih =>
      have htail := ih fun other hmem => hnodes other (List.mem_cons_of_mem _ hmem)
      exact ((hnodes node (by simp)).deeper hlevel 2).append htail

theorem accounted_walkOptionWords (hnode : ∀ node ∈ option, AccountedWalk node)
    (hlevel : level ∈ known) : Accounted known (walkOptionWords option level) := by
  cases option with
  | none => exact .nil
  | some node => exact (hnode node rfl).deeper hlevel 4

theorem accounted_sequencedWords (hnodes : ∀ node ∈ nodes, AccountedWalk node)
    (hlevel : level ∈ known) :
    Accounted known (sequencedWords level nodes.length (walkAllWords nodes level)) :=
  .sequenced hlevel _ (accounted_walkAllWords hnodes hlevel)

theorem accounted_walkSequenceWords? (hnodes : ∀ nodes ∈ nodes?, ∀ node ∈ nodes, AccountedWalk node)
    (hlevel : level ∈ known) : Accounted known (walkSequenceWords? nodes? level) := by
  cases nodes? with
  | none => exact .nil
  | some nodes =>
      exact .deeper hlevel 2 fun _ => accounted_sequencedWords (hnodes nodes rfl) List.mem_cons_self

/-- A list of nodes in its wrapper. -/
theorem accounted_wrapperWords (hnodes : ∀ nodes ∈ nodes?, ∀ node ∈ nodes, AccountedWalk node)
    (hlevel : level ∈ known) (name : String) :
    Accounted known (wrapperWords level name (walkSequenceWords? nodes?)) :=
  .wrapper hlevel name fun _ => accounted_walkSequenceWords? hnodes List.mem_cons_self

theorem accounted_walkBlockWords
    (hdeclarations : ∀ nodes ∈ declarations, ∀ node ∈ nodes, AccountedWalk node)
    (hinstructions : ∀ nodes ∈ instructions, ∀ node ∈ nodes, AccountedWalk node)
    (hlevel : level ∈ known) :
    Accounted known (walkBlockWords ⟨declarations, instructions⟩ level) :=
  .wrapped hlevel _ ((accounted_wrapperWords hdeclarations hlevel _).append
    (accounted_wrapperWords hinstructions hlevel _))

end

/-- All levels of a walk come from that of its root. -/
theorem accountedWalk (node : Node) : AccountedWalk node := by
  induction node using Node.nestedInduction with
  | unary op argument ih =>
      intro known level hlevel
      exact .visiting hlevel _ (.wrapped hlevel _ (ih.deeper hlevel 2))
  | binary op left right ihleft ihright =>
      intro known level hlevel
      exact .visiting hlevel _ (.wrapped hlevel _
        ((ihleft.deeper hlevel 2).append (ihright.deeper hlevel 2)))
  | index base position ihbase ihposition =>
      intro known level hlevel
      exact .visiting hlevel _ (.wrapped hlevel _
        ((ihbase.deeper hlevel 4).append (ihposition.deeper hlevel 4)))
  | addressOf lvalue ih =>
      intro known level hlevel
      exact .visiting hlevel _ (.wrapped hlevel _ (ih.deeper hlevel 4))
  | stackAlloc argument ih =>
      intro known level hlevel
      exact .visiting hlevel _ (.wrapped hlevel _ (ih.deeper hlevel 4))
  | rvalue lvalue ih =>
      intro known level hlevel
      exact .visiting hlevel _ (.wrapped hlevel _ (ih.deeper hlevel 4))
  | assignment target value ihtarget ihvalue =>
      intro known level hlevel
      exact .visiting hlevel _ (.wrapped hlevel _
        ((ihtarget known level hlevel).append (.settled (ihvalue.deeper hlevel 4))))
  | sequence nodes ih =>
      intro known level hlevel
      exact .visiting hlevel _ (accounted_sequencedWords ih hlevel)
  | block declarations instructions ihdeclarations ihinstructions =>
      intro known level hlevel
      exact .visiting hlevel _ (accounted_walkBlockWords ihdeclarations ihinstructions hlevel)
  | declaration identifier qualifier type initializer ih =>
      intro known level hlevel
      exact .visiting hlevel _ (.settled (.line hlevel _
        ((Accounted.wrapped hlevel _ (accounted_walkOptionWords ih hlevel)).append
          (.line hlevel _ .nil))))
  | functionDefinition type arguments declarations instructions iharguments ihdeclarations
      ihinstructions =>
      intro known level hlevel
      have hblock : Accounted known (wrapperWords level "block" fun _ =>
          deeper level 4 (walkBlockWords ⟨declarations, instructions⟩)) :=
        .wrapper hlevel _ fun _ => .deeper (List.mem_cons_of_mem _ hlevel) 4 fun _ =>
          accounted_walkBlockWords ihdeclarations ihinstructions List.mem_cons_self
      exact .visiting hlevel _ (.line hlevel _
        (((accounted_wrapperWords iharguments hlevel _).append hblock).append
          (.line hlevel _ .nil)))
  | functionCall identifier arguments ihidentifier iharguments =>
      intro known level hlevel
      have hcallee : Accounted known (wrapperWords level "identifier" fun _ =>
          deeper level 4 (walkCalleeWords identifier)) := by
        cases identifier with
        | none =>
            exact .wrapper hlevel _ fun _ => .deeper (List.mem_cons_of_mem _ hlevel) 4 fun _ =>
              .wrapped List.mem_cons_self _ .nil
        | some identifier => exact (ihidentifier identifier rfl).wrapper hlevel _
      exact .visiting hlevel _ (.wrapped hlevel _
        (hcallee.append (accounted_wrapperWords iharguments hlevel _)))
  | sizeof expression ih =>
      intro known level hlevel
      exact .visiting hlevel _ (.wrapped hlevel _ (ih.deeper hlevel 4))
  | ifThen condition block ihcondition ihblock =>
      intro known level hlevel
      exact .visiting hlevel _ (.wrapped hlevel _
        ((ihcondition.wrapper hlevel _).append (ihblock.wrapper hlevel _)))
  | ifElse condition thenBlock elseBlock ihcondition ihthen ihelse =>
      intro known level hlevel
      exact .visiting hlevel _ (.wrapped hlevel _
        (((ihcondition.wrapper hlevel _).append (ihthen.wrapper hlevel _)).append
          (ihelse.wrapper hlevel _)))
  | whileLoop condition block ihcondition ihblock =>
      intro known level hlevel
      exact .visiting hlevel _ (.wrapped hlevel _
        ((ihcondition.wrapper hlevel _).append (ihblock.wrapper hlevel _)))
  | ret value ih =>
      intro known level hlevel
      exact .visiting hlevel _ (.wrapped hlevel _ (accounted_walkOptionWords ih hlevel))
  | print arguments ih =>
      intro known level hlevel
      exact .visiting hlevel _ (.wrapped hlevel _
        (.deeper hlevel 2 fun _ => accounted_sequencedWords ih List.mem_cons_self))
  | evaluation argument ih =>
      intro known level hlevel
      exact .visiting hlevel _ (.wrapped hlevel _ (ih.deeper hlevel 2))
  | _ =>
      intro known level hlevel
      exact .flat hlevel (by
        simp [walk, wrapped, openAt, openWith, closeAt, inlineAt, Event.level?])

/-- A level that is not known at the start is the result of a sum in front of the
event that stands at it. -/
theorem Accounted.exists_sum {known : List UInt64} {front back : List WordEvent} {event : Event}
    (hwords : Accounted known (front ++ .plain event :: back)) {level : Nat}
    (hlevel : level ∈ event.level?) :
    level ∈ known.map UInt64.toNat ∨ ∃ sum, .sum sum ∈ front ∧ level = sum.result.toNat := by
  induction front generalizing known with
  | nil =>
      cases hwords with
      | plain hevent => exact .inl (hevent level hlevel)
  | cons first front ih =>
      cases hwords with
      | plain _ hrest =>
          refine (ih hrest).imp_right ?_
          rintro ⟨sum, hsum, hresult⟩
          exact ⟨sum, List.mem_cons_of_mem _ hsum, hresult⟩
      | @sum _ sum _ _ hrest =>
          rcases ih hrest with hknown | ⟨later, hlater, hresult⟩
          · rcases List.mem_cons.mp hknown with hresult | hearlier
            · exact .inr ⟨sum, List.mem_cons_self, hresult⟩
            · exact .inl hearlier
          · exact .inr ⟨later, List.mem_cons_of_mem _ hlater, hresult⟩

/-- A run that gets behind a sum records it. -/
theorem mem_sums_of_done {writer : Writer} {front : List WordEvent} {sum : Sum}
    (hdone : (followWords writer front).outcome = .done) (hsum : .sum sum ∈ front) :
    sum ∈ (followWords writer front).sums := by
  induction front generalizing writer with
  | nil => cases hsum
  | cons first front ih =>
      cases first with
      | sum first =>
          rcases List.mem_cons.mp hsum with heq | hlater
          · obtain rfl := WordEvent.sum.inj heq
            exact List.mem_cons_self
          · exact List.mem_cons_of_mem _ (ih hdone hlater)
      | plain event =>
          have hlater : WordEvent.sum sum ∈ front := by simpa using hsum
          simp only [followWords] at hdone ⊢
          cases hfollow : writer.follow [event] with
          | mk next outcome =>
              cases outcome with
              | done =>
                  simp only [hfollow] at hdone ⊢
                  exact ih hdone hlater
              | _ => simp [hfollow] at hdone

/-- A run over some words gets to an event. -/
def Reaches (writer : Writer) (words : List WordEvent) (event : Event) : Prop :=
  ∃ front back, words = front ++ .plain event :: back ∧
    (followWords writer front).outcome = .done

/-- The levels that a run gets to are that of the root and the results of the
sums that it records. -/
theorem level_of_reaches {writer : Writer} {root : Node} {level : UInt64} {event : Event}
    (hreaches : Reaches writer (walkWords root level) event) {l : Nat} (hl : l ∈ event.level?) :
    l = level.toNat ∨
      ∃ sum ∈ (visitWords writer root level).sums, l = sum.level.toNat + sum.step := by
  obtain ⟨front, back, hwords, hdone⟩ := hreaches
  have haccounted := accountedWalk root [level] level (List.mem_singleton_self level)
  rw [hwords] at haccounted
  rcases haccounted.exists_sum hl with hroot | ⟨sum, hsum, rfl⟩
  · exact .inl (by simpa using hroot)
  · have hrecorded := mem_sums_of_done hdone hsum
    have hmem : sum ∈ (visitWords writer root level).sums := by
      rw [visitWords, hwords, followWords_append]
      cases hrun : followWords writer front with
      | mk next outcome sums =>
          rw [hrun] at hdone hrecorded
          obtain rfl : outcome = .done := hdone
          exact List.mem_append_left _ hrecorded
    have hsmall := (tracksWalk root level writer).2 sum hmem
    exact .inr ⟨sum, hmem, hsmall.toNat_result⟩

/-- A dump fails exactly at the levels from which its rightmost line cannot be
reached, and on no walk, whether it fails or not, does a sum of levels wrap
around: each one is formed at a level that can be written.  These sums are all
there are: every level that the walk gets to is that of the root or the result
of one of them. -/
theorem dump_fails_iff_tooDeep (root : Node) (level : UInt64) :
    (dump? root level.toNat = none ↔ ∃ far ∈ reach root, maxLevel < level.toNat + far) ∧
    ((dumpTo none root level.toNat).2 = .tooDeep ↔
      ∃ far ∈ reach root, maxLevel < level.toNat + far) ∧
    (reach root = none ↔ root.kind = .data) ∧
    ∀ writer : Writer,
      (visitWords writer root level).result = writer.visit root level.toNat ∧
      (∀ sum ∈ (visitWords writer root level).sums,
        sum.level.toNat ≤ maxLevel ∧ sum.level.toNat + sum.step < 2 ^ 64) ∧
      ∀ event, Reaches writer (walkWords root level) event → ∀ l ∈ event.level?,
        l = level.toNat ∨
          ∃ sum ∈ (visitWords writer root level).sums, l = sum.level.toNat + sum.step := by
  refine ⟨dump?_eq_none_iff root _, ?_, reach_eq_none_iff root, ?_⟩
  · rw [outcome_dumpTo_unlimited, dump?_eq_none_iff]
  · intro writer
    obtain ⟨hresult, hsums⟩ := tracksWalk root level writer
    refine ⟨hresult, ?_, fun event hreaches l hl => level_of_reaches hreaches hl⟩
    intro sum hsum
    obtain ⟨hlevel, hstep⟩ := hsums sum hsum
    have hsmall : sum.level.toNat ≤ 65535 := hlevel
    exact ⟨hlevel, by omega⟩

/-- Data reaches nowhere, but the wrapper around it does. -/
example : reach (.assignment (.var "a") (.ifThen (.data []) .nil)) = some 8 ∧
    reach (.assignment (.var "a") (.ifThen (.data []) (.data []))) = some 6 := by
  decide

end Tag
end SyntaxDump
