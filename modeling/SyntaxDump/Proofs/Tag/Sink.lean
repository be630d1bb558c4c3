import Mathlib.Tactic
import SyntaxDump.Proofs.Tag.Forest

/-!
# Writing into a sink that fills up

A write into a sink that is too small leaves what fits and fails, and a writer
stops at the first failure.  So whatever is done with a writer, the sink holds
a beginning of the text that a sink without limit would hold, and the outcome
tells whether all of it is there.

The argument is about actions on writers.  An action *writes* a text if it does
to any sink what a single write of that text does; lines do, and the property
goes over from two actions to one after the other, from there to walks and
wrapped steps, and to whole scripts.
-/

namespace SyntaxDump
namespace Tag

/-! ## Sinks -/

namespace Sink

theorem write_nil (sink : Sink) : sink.write [] = (sink, true) := by
  obtain ⟨room, text⟩ := sink
  cases room <;> simp [write]

/-- Two writes of which the second is made only if the first was complete are
one. -/
theorem write_append (sink : Sink) (front back : List Char) :
    sink.write (front ++ back) =
      if (sink.write front).2 then (sink.write front).1.write back else sink.write front := by
  obtain ⟨room, text⟩ := sink
  cases room with
  | none => simp [write, String.append_assoc]
  | some room =>
      by_cases hfits : front.length ≤ room
      · have hdecide : decide (back.length ≤ room - front.length) =
            decide (front.length + back.length ≤ room) := by
          rw [decide_eq_decide]
          omega
        simp [write, hfits, List.take_append, List.take_of_length_le hfits, hdecide, Nat.sub_sub,
          String.append_assoc]
      · have hnone : room - front.length = 0 := by omega
        have hdecide : ¬ front.length + back.length ≤ room := by omega
        have hroom : room - (front.length + back.length) = 0 := by omega
        simp [write, hfits, hnone, hdecide, hroom, List.take_append]

/-- What a sink holds after two writes is what it holds after both texts at
once, even if the first one was not complete. -/
theorem write_write (sink : Sink) (front back : List Char) :
    ((sink.write front).1.write back).1 = (sink.write (front ++ back)).1 := by
  obtain ⟨room, text⟩ := sink
  cases room with
  | none => simp [write, String.append_assoc]
  | some room => simp [write, List.take_append, Nat.sub_sub, String.append_assoc]

def writePieces (sink : Sink) : List (List Char) → Sink × Bool
  | [] => (sink, true)
  | piece :: pieces =>
      match sink.write piece with
      | (sink, true) => sink.writePieces pieces
      | stopped => stopped

/-- It makes no difference in which pieces a text is written. -/
theorem writePieces_eq_write (sink : Sink) (pieces : List (List Char)) :
    sink.writePieces pieces = sink.write pieces.flatten := by
  induction pieces generalizing sink with
  | nil => exact (write_nil sink).symm
  | cons piece pieces ih =>
      rw [List.flatten_cons, write_append, writePieces]
      cases hwrite : sink.write piece with
      | mk next complete =>
          cases complete with
          | true => exact ih next
          | false => rfl

theorem write_write_complete (room : Nat) (front back : List Char) :
    (((Sink.mk (some room) "").write front).1.write back).2 = true ↔
      back = [] ∨ (front ++ back).length ≤ room := by
  have hlength : back = [] ↔ back.length = 0 := List.length_eq_zero_iff.symm
  rw [hlength, List.length_append]
  simp only [write, decide_eq_true_eq]
  omega

end Sink

/-! ## Actions that write a text -/

def outcomeOf (complete : Bool) : Outcome := if complete then .done else .full

/-- Does the action do to any sink what a write of the text does? -/
def Writes (action : Writer → Writer × Outcome) (text : List Char) : Prop :=
  ∀ writer, (action writer).1.sink = (writer.sink.write text).1 ∧
    (action writer).2 = outcomeOf (writer.sink.write text).2

theorem writes_putLine {line : Line} (hline : line.fits = true) :
    Writes (fun writer => writer.putLine line) line.text := by
  intro writer
  simp [Writer.putLine, hline, outcomeOf]

theorem writes_nil {change : Writer → Writer}
    (hsink : ∀ writer, (change writer).sink = writer.sink) :
    Writes (fun writer => (change writer, .done)) [] := by
  intro writer
  simp [hsink, Sink.write_nil, outcomeOf]

theorem Writes.andThen {action next : Writer → Writer × Outcome} {front back : List Char}
    (haction : Writes action front) (hnext : Writes next back) :
    Writes (fun writer => Writer.andThen (action writer) next) (front ++ back) := by
  intro writer
  obtain ⟨hsink, houtcome⟩ := haction writer
  rw [Sink.write_append]
  cases hresult : action writer with
  | mk writer' outcome =>
      simp only [hresult] at hsink houtcome ⊢
      cases hcomplete : (writer.sink.write front).2 with
      | true =>
          obtain ⟨hsink', houtcome'⟩ := hnext writer'
          rw [hcomplete] at houtcome
          subst houtcome
          rw [hsink] at hsink' houtcome'
          exact ⟨hsink', houtcome'⟩
      | false =>
          rw [hcomplete] at houtcome
          subst houtcome
          exact ⟨hsink, by rw [if_neg Bool.false_ne_true, hcomplete]; rfl⟩

/-! ## Walks -/

def lineChars (lines : List Line) : List Char := lines.flatMap Line.text

theorem toList_linesText_eq (lines : List Line) : (linesText lines).toList = lineChars lines := by
  simp [linesText, lineChars, List.flatMap_map]

theorem writes_follow {events : List Event}
    (hevents : ∀ line ∈ eventLines events, line.fits = true) :
    Writes (fun writer => writer.follow events) (lineChars (eventLines events)) := by
  induction events with
  | nil => exact writes_nil fun _ => rfl
  | cons event events ih =>
      cases event with
      | visiting label level => exact ih hevents
      | settled => exact fun writer => ih hevents writer.clear
      | line line =>
          have hline := hevents line (by simp)
          have htail := ih fun other hmem => hevents other (by simp [hmem])
          exact (writes_putLine hline).andThen htail

theorem writes_visit {node : Node} {level : Nat}
    (hlines : ∀ line ∈ lines node level, line.fits = true) :
    Writes (fun writer => writer.visit node level) (lineChars (lines node level)) :=
  writes_follow hlines

/-! ## Steps -/

@[elab_as_elim]
theorem Step.nestedInduction {motive : Step → Prop}
    (mark : motive .mark)
    (openTag : ∀ name level, motive (.openTag name level))
    (closeTag : ∀ name level, motive (.closeTag name level))
    (inlineTag : ∀ name text level, motive (.inlineTag name text level))
    (attributeTag : ∀ name attributes level, motive (.attributeTag name attributes level))
    (wrap : ∀ name level body, (∀ step ∈ body, motive step) → motive (.wrap name level body))
    (visit : ∀ node level, motive (.visit node level))
    (step : Step) : motive step := by
  refine @Step.rec motive (fun steps => ∀ step ∈ steps, motive step)
    mark openTag closeTag inlineTag attributeTag wrap visit ?_ ?_ step
  · simp
  · intro step steps hstep hsteps other hother
    rcases List.mem_cons.mp hother with heq | hmem
    · subst heq
      exact hstep
    · exact hsteps other hmem

mutual
/-- The lines that a step writes. -/
def Step.lines : Step → List Line
  | .mark => []
  | .openTag name level => [⟨level, .opening name []⟩]
  | .closeTag name level => [⟨level, .closing name⟩]
  | .inlineTag name text level => [⟨level, .inline name text⟩]
  | .attributeTag name attributes level => [⟨level, .opening name attributes⟩]
  | .wrap name level body =>
      ⟨level, .opening name []⟩ :: (Step.linesAll body ++ [⟨level, .closing name⟩])
  | .visit node level => Tag.lines node level
def Step.linesAll : List Step → List Line
  | [] => []
  | step :: steps => step.lines ++ Step.linesAll steps
end

/-- A step that can be carried out: none of its lines is indented too far. -/
def Step.Feasible (step : Step) : Prop := ∀ line ∈ step.lines, line.fits = true

theorem lineChars_append (front back : List Line) :
    lineChars (front ++ back) = lineChars front ++ lineChars back :=
  List.flatMap_append

theorem lineChars_singleton (line : Line) : lineChars [line] = line.text := by
  simp [lineChars]

theorem writes_performAll {steps : List Step}
    (hsteps : ∀ step ∈ steps, Writes (Writer.perform step) (lineChars step.lines)) :
    Writes (Writer.performAll steps) (lineChars (Step.linesAll steps)) := by
  induction steps with
  | nil => exact writes_nil fun _ => rfl
  | cons step steps ih =>
      have htail := ih fun other hmem => hsteps other (List.mem_cons_of_mem _ hmem)
      rw [Step.linesAll, lineChars_append]
      exact (hsteps step (by simp)).andThen htail

theorem writes_perform_line {line : Line} (hline : ∀ other ∈ [line], other.fits = true) :
    Writes (fun writer => writer.putLine line) (lineChars [line]) := by
  rw [lineChars_singleton]
  exact writes_putLine (hline line (by simp))

theorem mem_stepLines {steps : List Step} {line : Line} :
    line ∈ Step.linesAll steps ↔ ∃ step ∈ steps, line ∈ step.lines := by
  induction steps with
  | nil => simp [Step.linesAll]
  | cons step steps ih => simp [Step.linesAll, ih]

theorem writes_perform {step : Step} (hstep : step.Feasible) :
    Writes (Writer.perform step) (lineChars step.lines) := by
  induction step using Step.nestedInduction with
  | mark => exact writes_nil fun _ => rfl
  | openTag name level => exact writes_perform_line hstep
  | closeTag name level => exact writes_perform_line hstep
  | inlineTag name text level => exact writes_perform_line hstep
  | attributeTag name attributes level => exact writes_perform_line hstep
  | wrap name level body ih =>
      have hbody : ∀ inner ∈ body, Writes (Writer.perform inner) (lineChars inner.lines) := by
        intro inner hinner
        apply ih inner hinner
        intro line hline
        have hmem := mem_stepLines.mpr ⟨inner, hinner, hline⟩
        exact hstep line (List.mem_cons_of_mem _ (List.mem_append_left _ hmem))
      have hopening := writes_putLine (hstep ⟨level, .opening name []⟩ (by simp [Step.lines]))
      have hclosing := writes_putLine (hstep ⟨level, .closing name⟩ (by simp [Step.lines]))
      have hall := (hopening.andThen (writes_performAll hbody)).andThen hclosing
      have htext : lineChars (Step.wrap name level body).lines =
          (Line.mk level (.opening name [])).text ++ lineChars (Step.linesAll body) ++
            (Line.mk level (.closing name)).text := by
        simp [Step.lines, lineChars]
      rw [htext]
      exact hall
  | visit node level => exact writes_visit hstep

/-! ## Scripts -/

/-- Carry out all steps, each whether or not those before have succeeded, and
tell how each of them ended. -/
def performEach : List Step → Writer → Writer × List Outcome
  | [], writer => (writer, [])
  | step :: steps, writer =>
      let (writer, outcome) := Writer.perform step writer
      let (writer, outcomes) := performEach steps writer
      (writer, outcome :: outcomes)

/-- What a step writes into a sink without a limit. -/
def written (step : Step) : List Char :=
  (Writer.perform step (Writer.start none)).1.sink.text.toList

theorem written_eq {step : Step} (hstep : step.Feasible) : written step = lineChars step.lines := by
  have hsink := (writes_perform hstep (Writer.start none)).1
  rw [written, hsink]
  simp [Writer.start, Sink.empty, Sink.write]

theorem sink_performEach {steps : List Step} (hsteps : ∀ step ∈ steps, step.Feasible)
    (writer : Writer) :
    (performEach steps writer).1.sink = (writer.sink.write (steps.flatMap written)).1 := by
  induction steps generalizing writer with
  | nil => simp [performEach, Sink.write_nil]
  | cons step steps ih =>
      have hstep := hsteps step (by simp)
      have hsink := (writes_perform hstep writer).1
      have htail := ih (fun other hmem => hsteps other (List.mem_cons_of_mem _ hmem))
        (Writer.perform step writer).1
      rw [List.flatMap_cons, ← Sink.write_write, written_eq hstep, ← hsink]
      exact htail

theorem outcome_performEach {steps : List Step} (hsteps : ∀ step ∈ steps, step.Feasible)
    (writer : Writer) {i : Nat} (hi : i < steps.length) :
    (performEach steps writer).2[i]? =
      some (outcomeOf
        ((writer.sink.write ((steps.take i).flatMap written)).1.write (written steps[i])).2) := by
  induction steps generalizing writer i with
  | nil => simp at hi
  | cons step steps ih =>
      have hstep := hsteps step (by simp)
      obtain ⟨hsink, houtcome⟩ := writes_perform hstep writer
      cases i with
      | zero =>
          have hfirst : (performEach (step :: steps) writer).2[0]? =
              some (Writer.perform step writer).2 := rfl
          simp [hfirst, houtcome, Sink.write_nil, written_eq hstep]
      | succ i =>
          have hrest := ih (fun other hmem => hsteps other (List.mem_cons_of_mem _ hmem))
            (Writer.perform step writer).1 (Nat.lt_of_succ_lt_succ hi)
          rw [List.take_succ_cons, List.flatMap_cons, ← Sink.write_write, written_eq hstep, ← hsink]
          exact hrest

theorem length_performEach (steps : List Step) (writer : Writer) :
    (performEach steps writer).2.length = steps.length := by
  induction steps generalizing writer with
  | nil => rfl
  | cons step steps ih => simp [performEach, ih]

theorem done_iff (complete : Bool) : some (outcomeOf complete) = some .done ↔ complete = true := by
  cases complete <;> simp [outcomeOf]

theorem fits_of_dump? {root : Node} {level : Nat} {text : String}
    (hdump : dump? root level = some text) : ∀ line ∈ lines root level, line.fits = true := by
  unfold dump? at hdump
  split at hdump
  · rename_i hall
    exact List.all_eq_true.mp hall
  · cases hdump

theorem dumpTo_limited {root : Node} {level : Nat} {text : String}
    (hdump : dump? root level = some text) (limit : Nat) :
    (dumpTo (some limit) root level).1.toList = text.toList.take limit ∧
      ((dumpTo (some limit) root level).2 = .done ↔ text.length ≤ limit) := by
  obtain ⟨hsink, houtcome⟩ := writes_visit (fits_of_dump? hdump) (Writer.start (some limit))
  have htext : lineChars (lines root level) = text.toList := by
    rw [dump?_eq_some hdump, toList_linesText_eq]
  have hresult : dumpTo (some limit) root level =
      (((Writer.start (some limit)).visit root level).1.sink.text,
        ((Writer.start (some limit)).visit root level).2) := rfl
  simp only [htext] at hsink houtcome
  rw [hresult, hsink, houtcome, ← String.length_toList]
  simp [Writer.start, Sink.empty, Sink.write, outcomeOf]

/-- A sink that fills up cuts the output off and changes nothing else: whatever
steps are carried out, it holds the beginning of the text that a sink without a
limit holds, and those steps succeed that write nothing or whose text is there
to its end.  The same goes for the dump of a tree. -/
theorem limited_sink_cuts_off (steps : List Step) (hsteps : ∀ step ∈ steps, step.Feasible)
    (limit : Nat) :
    (performEach steps (.start none)).1.sink.text.toList = steps.flatMap written ∧
    (performEach steps (.start (some limit))).1.sink.text.toList =
      (steps.flatMap written).take limit ∧
    (performEach steps (.start (some limit))).2.length = steps.length ∧
    (∀ (i : Nat) (hi : i < steps.length),
      (performEach steps (.start (some limit))).2[i]? = some .done ↔
        written steps[i] = [] ∨ ((steps.take (i + 1)).flatMap written).length ≤ limit) ∧
    ∀ (root : Node) (level : Nat) (text : String), dump? root level = some text →
      (dumpTo (some limit) root level).1.toList = text.toList.take limit ∧
      ((dumpTo (some limit) root level).2 = .done ↔ text.length ≤ limit) := by
  refine ⟨?_, ?_, length_performEach steps _, ?_, ?_⟩
  · rw [sink_performEach hsteps]
    simp [Writer.start, Sink.empty, Sink.write]
  · rw [sink_performEach hsteps]
    simp [Writer.start, Sink.empty, Sink.write]
  · intro i hi
    have hprefix : (steps.take (i + 1)).flatMap written =
        (steps.take i).flatMap written ++ written steps[i] := by
      rw [List.take_succ_eq_append_getElem hi, List.flatMap_append, List.flatMap_singleton]
    rw [outcome_performEach hsteps _ hi, done_iff, hprefix]
    exact Sink.write_write_complete limit _ _
  · intro root level text hdump
    exact dumpTo_limited hdump limit

theorem limited_sink_cuts_off_wrap :
    ((performEach [.mark, .wrap "a" 1 [.visit .input 3]] (.start (some 4))).1.sink.text.toList =
        ([Step.mark, .wrap "a" 1 [.visit .input 3]].flatMap written).take 4) ∧
      (performEach [.mark, .wrap "a" 1 [.visit .input 3]] (.start (some 4))).2 =
        [.done, .full] := by
  have hsteps : ∀ step ∈ [Step.mark, .wrap "a" 1 [.visit .input 3]], step.Feasible := by
    intro step hmem
    simp only [List.mem_cons, List.not_mem_nil, or_false] at hmem
    rcases hmem with rfl | rfl
    · exact (by decide : ∀ line ∈ Step.mark.lines, line.fits = true)
    · exact (by decide : ∀ line ∈ (Step.wrap "a" 1 [.visit .input 3]).lines, line.fits = true)
  exact ⟨(limited_sink_cuts_off _ hsteps 4).2.1, by decide⟩

end Tag
end SyntaxDump
