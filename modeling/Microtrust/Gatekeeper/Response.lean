/-
What an enrolment or a verification copies out of the transfer buffer.

The result lies behind the fields of the answer, twelve bytes into the buffer
for an enrolment and thirteen for a verification, and is as long as a field of
the answer says. The field is any 32-bit value, and nothing compares it with
what is left of the buffer.
-/
import Microtrust.Gatekeeper.Genuine

namespace Gatekeeper

open Lib

/-- The bytes copied lie in the transfer buffer: the command returns, a result
is the bytes behind the fields of the answer, all of them in the buffer, and a
command that does not succeed delivers none. -/
structure ReadsInside (out : Layout) (env : Env) (o : Outcome) : Prop where
  returns : o.ret.isSome
  inside : ∀ bytes ∈ o.result, out.size + bytes.length ≤ buffSize ∧ o.length = some bytes.length ∧
    bytes = (env.left.drop out.size).take bytes.length
  delivered : o.ret ≠ some 0 → o.result = none

/-- A result that is copied ends where the buffer does, or before. -/
def ResultFits (out : Layout) (env : Env) : Prop :=
  env.transferred = true → env.status = .none → env.callocResult = true → out.size + env.resultLength ≤ buffSize

variable {out : Layout} {env : Env} {buffer : Bytes}

/-- A command that delivers nothing and returns has copied nothing. -/
theorem readsInside_of_none {o : Outcome} (hret : o.ret.isSome) (hres : o.result = none) : ReadsInside out env o where
  returns := hret
  inside := by
    intro bytes h
    rw [hres] at h
    cases h
  delivered := fun _ => hres

/-- Everything an exchange can come to: nothing is copied, and some step before
the copy failed; or the copy is made. -/
theorem exchange_copy_cases (out : Layout) (env : Env) (buffer : Bytes) :
    ((exchange out env buffer).ret.isSome ∧ (exchange out env buffer).result = none ∧
      ¬ (env.transferred = true ∧ env.status = .none ∧ env.callocResult = true)) ∨
    ((env.transferred = true ∧ env.status = .none ∧ env.callocResult = true) ∧
      (exchange out env buffer).length = some env.resultLength ∧
      ((buffSize < out.size + env.resultLength ∧ (exchange out env buffer).ret = none) ∨
        (out.size + env.resultLength ≤ buffSize ∧ (exchange out env buffer).ret = some 0 ∧
          (exchange out env buffer).result = some ((env.left.drop out.size).take env.resultLength)))) := by
  unfold exchange
  cases ht : env.transferred with
  | false => simp [failed]
  | true =>
    by_cases hretry : env.status = .retry
    · simp [hretry]
    by_cases hnone : env.status = .none
    · cases hc : env.callocResult with
      | false => simp [hnone, failed]
      | true =>
        by_cases hfit : out.size + env.resultLength ≤ buffSize
        · simp [hnone, hfit, Nat.not_lt.mpr hfit]
        · simp [hnone, hfit, Nat.not_le.mp hfit]
    · simp [hretry, hnone, failed]

theorem exchange_readsInside_iff (out : Layout) (env : Env) (buffer : Bytes) :
    ReadsInside out env (exchange out env buffer) ↔ ResultFits out env := by
  rcases exchange_copy_cases out env buffer with ⟨hret, hres, hno⟩ | ⟨hyes, hlen, ⟨hbig, hret⟩ | ⟨hfit, hret, hres⟩⟩
  · exact iff_of_true (readsInside_of_none hret hres) fun ht hs hc => absurd ⟨ht, hs, hc⟩ hno
  · refine iff_of_false (fun h => ?_) fun h => ?_
    · have hsome := h.returns
      rw [hret] at hsome
      cases hsome
    · have hfit := h hyes.1 hyes.2.1 hyes.2.2
      omega
  · refine iff_of_true ?_ fun _ _ _ => hfit
    have hbytes : ((env.left.drop out.size).take env.resultLength).length = env.resultLength := by
      rw [List.length_take, List.length_drop, env.size]
      omega
    refine ⟨?_, ?_, ?_⟩
    · rw [hret]
      rfl
    · intro bytes hb
      rw [hres] at hb
      cases hb
      rw [hbytes]
      exact ⟨hfit, hlen, rfl⟩
    · exact fun hne => absurd hret hne

theorem readsInside_failed (out : Layout) (env : Env) : ReadsInside out env failed := readsInside_of_none rfl rfl

/-- **A result is copied from inside the buffer or not at all**, if and only if
the length in the answer leaves room for the fields before it; with arguments
that are turned away, and where a step before the copy fails, nothing is asked
of the answer. -/
theorem response_inside_iff (env : Env) (uid : UInt32) :
    (∀ (currentHandle currentPassword desiredPassword : Blob) (enrolledHandle enrolledHandleLength : Nat),
      ReadsInside enrollOut env (utGkEnroll env uid currentHandle currentPassword desiredPassword
          enrolledHandle enrolledHandleLength) ↔
        (enrollAccepts currentHandle currentPassword desiredPassword enrolledHandle enrolledHandleLength = true →
          env.callocBuffer = true → ResultFits enrollOut env)) ∧
    (∀ (challenge : UInt64) (handle password : Blob) (dest : VerifyDest),
      ReadsInside verifyOut env (utGkVerify env uid challenge handle password dest) ↔
        (verifyAccepts handle password dest = true → env.callocBuffer = true → ResultFits verifyOut env)) := by
  refine ⟨?_, ?_⟩
  · intro currentHandle currentPassword desiredPassword enrolledHandle enrolledHandleLength
    unfold utGkEnroll
    split
    next hno => simp_all [readsInside_failed]
    next hyes =>
      split
      next hc => simp_all [readsInside_failed]
      next hc => split <;> rw [exchange_readsInside_iff] <;> simp_all
  · intro challenge handle password dest
    unfold utGkVerify
    split
    next hno => simp_all [readsInside_failed]
    next hyes =>
      split
      next hc => simp_all [readsInside_failed]
      next hc =>
        rw [exchange_readsInside_iff]
        simp_all

/-- A TEE that reports no error and a result of the given length. -/
def claiming (length : Nat) : Env where
  callocBuffer := true
  callocResult := true
  transferred := true
  left := leBytes 4 0 ++ leBytes 4 length ++ List.replicate 4088 0
  size := by
    rw [List.length_append, List.length_append, length_leBytes, length_leBytes, List.length_replicate]
    rfl

/-- A result one byte longer than what is left of the buffer. -/
theorem result_leaves_buffer :
    ¬ ReadsInside enrollOut (claiming 4085) (utGkEnroll (claiming 4085) 10 (.of [] (by decide)) (.of [] (by decide))
        (.of [0x31, 0x32, 0x33, 0x34] (by decide)) 0x10 0x18) ∧
      ¬ ReadsInside verifyOut (claiming 4084) (utGkVerify (claiming 4084) 10 0 someHandle
        (.of [0x31, 0x32, 0x33, 0x34] (by decide)) ⟨0x10, 0x18, 0x20⟩) := by
  refine ⟨fun h => ?_, fun h => ?_⟩
  · exact absurd h.returns (by decide)
  · exact absurd h.returns (by decide)

end Gatekeeper
