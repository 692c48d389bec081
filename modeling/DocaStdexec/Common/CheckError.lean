import Mathlib.Logic.Basic

/-!
# DOCA status codes and `check_error`

`check_error` prints a message and calls `exit(1)` for every status other than
`DOCA_SUCCESS`.  The statuses that the wrappers name themselves are
constructors of their own.
-/

namespace DocaStdexec

/-- `doca_error_t`. -/
inductive DocaError
  | success
  | unknown
  | invalidValue
  | notFound
  | other (code : Nat)
  deriving DecidableEq

/-- `check_error`: whether the process goes on; otherwise it has called
`exit(1)`. -/
def checkError (err : DocaError) : Bool :=
  err = .success

@[simp] theorem checkError_iff (err : DocaError) : checkError err = true ↔ err = .success := by
  simp [checkError]

end DocaStdexec
