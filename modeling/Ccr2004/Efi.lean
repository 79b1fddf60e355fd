import Ccr2004.Run

/-!
# Status codes

The `EFI_STATUS` values the modelled drivers return.
-/

namespace Ccr2004

inductive EfiStatus where
  | success
  | invalidParameter
  | outOfResources
  | deviceError
  | timeout
  | notFound
  | writeProtected
  | volumeCorrupted
  | volumeFull
  | aborted
  | noResponse
  | notStarted
  | alreadyStarted
  | notReady
  | bufferTooSmall
  | unsupported
  | compromisedData
  | mediaChanged
  | badBufferSize
deriving Repr, DecidableEq

/-- `EFI_ERROR`. -/
def EfiStatus.isError (s : EfiStatus) : Bool :=
  s ≠ .success

@[simp] theorem EfiStatus.isError_success : EfiStatus.success.isError = false := rfl

theorem EfiStatus.isError_iff {s : EfiStatus} : s.isError = true ↔ s ≠ .success := by
  simp [EfiStatus.isError]

theorem EfiStatus.not_isError_iff {s : EfiStatus} : ¬ s.isError = true ↔ s = .success := by
  rw [isError_iff, not_not]

end Ccr2004
