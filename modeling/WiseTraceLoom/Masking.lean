import WiseTraceLoom.Tables

/-!
# The masking callback

Every payload passes through a callback of the host before it is written.  The callback is any
function that returns something or raises; `applyMasking` lets only a `dict` through.
-/

set_option autoImplicit false

namespace WiseTraceLoom

/-- What a masking callback returned. -/
inductive Masked where
  | dict (payload : Payload)
  /-- Something that is not a `dict`, of the type with this name. -/
  | other (typeName : Str)

/-- A masking callback: it returns something, or raises an exception with this text. -/
abbrev MaskingCallback := Payload → Except Str Masked

/-- Why a payload was not masked. -/
inductive MaskingError where
  | raised (exc : Str)
  | notADict (typeName : Str)
  deriving DecidableEq

/-- The text of a `MaskingError`. -/
def MaskingError.message : MaskingError → Str
  | .raised exc => "masking callback raised: ".toList ++ exc
  | .notADict t => "masking callback returned ".toList ++ t ++ ", expected dict".toList

/-- `apply_masking`. -/
def applyMasking (callback : MaskingCallback) (payload : Payload) : Except MaskingError Payload :=
  match callback payload with
  | .error exc => .error (.raised exc)
  | .ok (.dict masked) => .ok masked
  | .ok (.other t) => .error (.notADict t)

/-- **Fail-closed**: what is let through is a `dict` that the callback returned. -/
theorem applyMasking_eq_ok {callback : MaskingCallback} {payload masked : Payload} :
    applyMasking callback payload = .ok masked ↔ callback payload = .ok (.dict masked) := by
  unfold applyMasking
  split <;> simp_all

end WiseTraceLoom
