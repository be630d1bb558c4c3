import Mathlib.Tactic

/-!
# Computations that may fail

When a computation that is built from smaller ones has a result.
-/

namespace SyntaxDump

variable {Cause Cause' Found Made : Type}

theorem bind_ok_iff {first : Except Cause Found} {next : Found → Except Cause Made} {made : Made} :
    (first >>= next) = .ok made ↔ ∃ found, first = .ok found ∧ next found = .ok made := by
  cases first with
  | error cause => simp [bind, Except.bind]
  | ok found => simp [bind, Except.bind]

theorem bind_error_iff {first : Except Cause Found} {next : Found → Except Cause Made}
    {cause : Cause} :
    (first >>= next) = .error cause ↔
      first = .error cause ∨ ∃ found, first = .ok found ∧ next found = .error cause := by
  cases first with
  | error cause => simp [bind, Except.bind]
  | ok found => simp [bind, Except.bind]

theorem map_ok_iff {result : Except Cause Found} {make : Found → Made} {made : Made} :
    result.map make = .ok made ↔ ∃ found, result = .ok found ∧ make found = made := by
  cases result with
  | error cause => simp [Except.map]
  | ok found => simp [Except.map]

theorem mapError_ok_iff {result : Except Cause Found} {wrap : Cause → Cause'} {found : Found} :
    result.mapError wrap = .ok found ↔ result = .ok found := by
  cases result with
  | error cause => simp [Except.mapError]
  | ok value => simp [Except.mapError]

end SyntaxDump
