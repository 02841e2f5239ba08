/-
The errors of the keymaster commands (`keymaster_error_t`), and the
`translate_error` that every copy of beanpod_keymaster_ipc.cpp has.
-/
import Microtrust.Lib.Kernel

namespace Keymaster

open Lib

def kmErrorOk : Int := 0
def kmErrorSecureHwAccessDenied : Int := -45
def kmErrorInvalidInputLength : Int := -21
def kmErrorMemoryAllocationFailed : Int := -41
def kmErrorOperationCancelled : Int := -46
def kmErrorSecureHwBusy : Int := -48
def kmErrorSecureHwCommunicationFailed : Int := -49
def kmErrorUnimplemented : Int := -100
def kmErrorUnknownError : Int := -1000
/-- `BEANPOD_KM_INVALID_INPUT_LENGTH`, which is no `keymaster_error_t`. -/
def beanpodKmInvalidInputLength : Int := -10000

/-- `translate_error`. -/
def translateError (err : Int) : Int :=
  if err = 0 then kmErrorOk
  else if err = Errno.neg .EPERM ∨ err = Errno.neg .EACCES then kmErrorSecureHwAccessDenied
  else if err = Errno.neg .ECANCELED then kmErrorOperationCancelled
  else if err = Errno.neg .ENODEV then kmErrorUnimplemented
  else if err = Errno.neg .ENOMEM then kmErrorMemoryAllocationFailed
  else if err = Errno.neg .EBUSY then kmErrorSecureHwBusy
  else if err = Errno.neg .ioErr then kmErrorSecureHwCommunicationFailed
  else if err = Errno.neg .EOVERFLOW then kmErrorInvalidInputLength
  else kmErrorUnknownError

/-- The errors that a negative value can be translated to. -/
theorem translateError_mem {rc : Int} (h : rc < 0) :
    translateError rc ∈ [kmErrorSecureHwAccessDenied, kmErrorOperationCancelled, kmErrorUnimplemented,
      kmErrorMemoryAllocationFailed, kmErrorSecureHwBusy, kmErrorSecureHwCommunicationFailed,
      kmErrorInvalidInputLength, kmErrorUnknownError] := by
  have hrc : rc ≠ 0 := by omega
  unfold translateError
  rw [if_neg hrc]
  split_ifs <;> simp

theorem translateError_ne_ok {rc : Int} (h : rc < 0) : translateError rc ≠ kmErrorOk := by
  intro heq
  have hmem := translateError_mem h
  rw [heq] at hmem
  exact absurd hmem (by decide)

/-- Only a request that is too large ends so. -/
theorem translateError_ne_beanpod {rc : Int} (h : rc < 0) : translateError rc ≠ beanpodKmInvalidInputLength := by
  intro heq
  have hmem := translateError_mem h
  rw [heq] at hmem
  exact absurd hmem (by decide)

end Keymaster
