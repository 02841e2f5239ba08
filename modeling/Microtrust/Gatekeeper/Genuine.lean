/-
What the return value of an enrolment or a verification says, and what the
buffer of a verification says about the password.

The one `int` a command returns is zero for success, positive for a timeout
and negative for a failure. The timeout is any 32-bit value the TEE left, so
a timeout of zero comes back as success, and one above the positive `int`s as
a failure. A password that is too long is cut to seventeen bytes, so it is
presented as any other password that begins with them.
-/
import Microtrust.Gatekeeper.Device

namespace Gatekeeper

open Lib

/-! ## The return value -/

/-- The TEE was asked, and what it left is an answer. -/
def Outcome.answered (o : Outcome) (env : Env) : Bool := o.sent.isSome && env.transferred

/-- The bytes after the answer's fields went to the caller. -/
def Outcome.delivered (o : Outcome) (out : Layout) (env : Env) : Prop :=
  out.size + env.resultLength ≤ buffSize ∧ o.length = some env.resultLength ∧
    o.result = some ((env.left.drop out.size).take env.resultLength)

/-- What the return value is for: zero if and only if the TEE reported no error
and its result was delivered, a positive value only for a retry and then the
timeout of it, and a negative value in every other case. -/
structure Genuine (out : Layout) (env : Env) (o : Outcome) : Prop where
  success : o.ret = some 0 ↔ o.answered env = true ∧ env.status = .none ∧ o.delivered out env
  positive : ∀ v, o.ret = some v → 0 < v →
    o.answered env = true ∧ env.status = .retry ∧ v = env.retryTimeout out
  retry : o.answered env = true → env.status = .retry → ∃ v, o.ret = some v ∧ 0 < v
  negative : ¬ (o.answered env = true ∧ env.status = .none ∧ o.delivered out env) →
    ¬ (o.answered env = true ∧ env.status = .retry) → ∃ v, o.ret = some v ∧ v < 0

/-- A retry comes with a timeout that is a positive `int`, and a result that is
copied fits the buffer. -/
def AnswerFits (out : Layout) (env : Env) : Prop :=
  (env.status = .retry → 0 < env.retryTimeout out ∧ env.retryTimeout out < 2 ^ 31) ∧
    (env.status = .none → env.callocResult = true → out.size + env.resultLength ≤ buffSize)

variable {out : Layout} {env : Env} {buffer : Bytes}

/-- A failure that delivers nothing is genuine, unless the TEE asked for a retry. -/
theorem genuine_of_failure {o : Outcome} (hret : o.ret = some (-1)) (hres : o.result = none)
    (hretry : o.answered env = true → env.status ≠ .retry) : Genuine out env o := by
  constructor
  · simp [hret, hres, Outcome.delivered]
  · intro v hv hpos
    rw [hret, Option.some.injEq] at hv
    omega
  · intro ha hs
    exact absurd hs (hretry ha)
  · intro _ _
    exact ⟨-1, hret, by decide⟩

theorem retryTimeout_lt (env : Env) (out : Layout) : env.retryTimeout out < 2 ^ 32 :=
  leAt_lt env.left out.retryTimeout 4

theorem exchange_retry (ht : env.transferred = true) (hs : env.status = .retry) :
    Genuine out env (exchange out env buffer) ↔
      0 < env.retryTimeout out ∧ env.retryTimeout out < 2 ^ 31 := by
  have hout : exchange out env buffer =
      { ret := some (toInt32 (env.retryTimeout out)), sent := some buffer } := by
    simp [exchange, ht, hs]
  rw [hout]
  have hlt := retryTimeout_lt env out
  constructor
  · intro h
    obtain ⟨v, hv, hpos⟩ := h.retry (by simp [Outcome.answered, ht]) hs
    simp only [Option.some.injEq] at hv
    by_cases hbig : 2 ^ 31 ≤ env.retryTimeout out
    · have hneg := toInt32_neg hbig hlt
      omega
    · rw [toInt32_of_lt (by omega)] at hv
      omega
  · intro h
    rw [toInt32_of_lt h.2]
    constructor
    · simp only [Option.some.injEq, hs, reduceCtorEq, false_and, and_false, iff_false]
      omega
    · intro v hv _
      simp only [Option.some.injEq] at hv
      exact ⟨by simp [Outcome.answered, ht], hs, hv.symm⟩
    · intro _ _
      exact ⟨_, rfl, by omega⟩
    · intro _ hno
      exact absurd ⟨by simp [Outcome.answered, ht], hs⟩ hno

theorem exchange_none (ht : env.transferred = true) (hs : env.status = .none) :
    Genuine out env (exchange out env buffer) ↔
      (env.callocResult = true → out.size + env.resultLength ≤ buffSize) := by
  by_cases hc : env.callocResult = true
  · by_cases hfit : out.size + env.resultLength ≤ buffSize
    · have hret : (exchange out env buffer).ret = some 0 := by
        simp [exchange, ht, hs, hc, Nat.not_lt.mpr hfit]
      have hdone : (exchange out env buffer).answered env = true ∧ env.status = .none ∧
          (exchange out env buffer).delivered out env := by
        refine ⟨?_, hs, hfit, ?_, ?_⟩ <;> simp [exchange, ht, hs, hc, Nat.not_lt.mpr hfit, Outcome.answered]
      refine iff_of_true ?_ fun _ => hfit
      constructor
      · exact iff_of_true hret hdone
      · intro v hv hpos
        rw [hret, Option.some.injEq] at hv
        omega
      · intro _ hretry
        rw [hs] at hretry
        cases hretry
      · intro hno
        exact absurd hdone hno
    · -- the copy has no defined result, so the call returns nothing
      have hret : (exchange out env buffer).ret = none := by
        simp [exchange, ht, hs, hc, Nat.not_le.mp hfit]
      refine iff_of_false ?_ fun h => hfit (h hc)
      intro h
      obtain ⟨v, hv, _⟩ := h.negative (fun hdone => hfit hdone.2.2.1) (by simp [hs])
      rw [hret] at hv
      cases hv
  · refine iff_of_true ?_ fun h => absurd h hc
    apply genuine_of_failure
    · simp [exchange, ht, hs, hc, failed]
    · simp [exchange, ht, hs, hc, failed]
    · intro _ hretry
      rw [hs] at hretry
      cases hretry

theorem exchange_genuine_iff (out : Layout) (env : Env) (buffer : Bytes) :
    Genuine out env (exchange out env buffer) ↔ (env.transferred = true → AnswerFits out env) := by
  by_cases ht : env.transferred = true
  · unfold AnswerFits
    by_cases hretry : env.status = .retry
    · rw [exchange_retry ht hretry]
      simp [ht, hretry]
    · by_cases hnone : env.status = .none
      · rw [exchange_none ht hnone]
        simp [ht, hnone]
      · refine iff_of_true ?_ fun _ => ⟨fun h => absurd h hretry, fun h => absurd h hnone⟩
        apply genuine_of_failure
        · simp [exchange, ht, hretry, hnone, failed]
        · simp [exchange, ht, hretry, hnone, failed]
        · exact fun _ => hretry
  · refine iff_of_true ?_ fun h => absurd h ht
    apply genuine_of_failure
    · simp [exchange, ht, failed]
    · simp [exchange, ht, failed]
    · intro ha
      simp [Outcome.answered, ht] at ha

theorem genuine_failed (out : Layout) (env : Env) : Genuine out env failed :=
  genuine_of_failure rfl rfl (by simp [failed, Outcome.answered])

/-- The return value of `ut_gk_verify` and of `ut_gk_enroll` is genuine if and
only if the arguments are turned away, the buffer cannot be had or sent, or
what the TEE left in it fits. -/
theorem return_value_genuine_iff (env : Env) (uid : UInt32) :
    (∀ (challenge : UInt64) (handle password : Blob) (dest : VerifyDest),
      Genuine verifyOut env (utGkVerify env uid challenge handle password dest) ↔
        (verifyAccepts handle password dest = true → env.callocBuffer = true → env.transferred = true →
          AnswerFits verifyOut env)) ∧
    (∀ (currentHandle currentPassword desiredPassword : Blob) (enrolledHandle enrolledHandleLength : Nat),
      Genuine enrollOut env (utGkEnroll env uid currentHandle currentPassword desiredPassword
          enrolledHandle enrolledHandleLength) ↔
        (enrollAccepts currentHandle currentPassword desiredPassword enrolledHandle enrolledHandleLength = true →
          env.callocBuffer = true → env.transferred = true → AnswerFits enrollOut env)) := by
  constructor
  · intro challenge handle password dest
    unfold utGkVerify
    split
    next hno => simp_all [genuine_failed]
    next hyes =>
      split
      next hc => simp_all [genuine_failed]
      next hc =>
        rw [exchange_genuine_iff]
        simp_all
  · intro currentHandle currentPassword desiredPassword enrolledHandle enrolledHandleLength
    unfold utGkEnroll
    split
    next hno => simp_all [genuine_failed]
    next hyes =>
      split
      next hc => simp_all [genuine_failed]
      next hc =>
        split <;> rw [exchange_genuine_iff] <;> simp_all

/-- An environment in which nothing fails and the TEE asks for a retry at once. -/
def retryNow : Env where
  callocBuffer := true
  callocResult := true
  transferred := true
  left := leBytes 4 2 ++ List.replicate 4092 0
  size := by
    rw [List.length_append, length_leBytes, List.length_replicate]
    rfl

/-- A blob of the given bytes. -/
def Blob.of (bytes : Bytes) (h : bytes.length < 2 ^ 32) : Blob where
  ptr := 0x1000
  len := UInt32.ofNat bytes.length
  bytes := bytes
  fits := by
    intro _
    rw [UInt32.toNat_ofNat_of_lt' h]

/-- A timeout of zero is returned as success, though nothing was verified. -/
theorem verify_retry_zero_returns_success :
    ¬ Genuine verifyOut retryNow (utGkVerify retryNow 10 0 (.of (List.replicate 58 0) (by decide))
      (.of [0x31, 0x32, 0x33, 0x34] (by decide)) ⟨0x10, 0x18, 0x20⟩) := by
  intro h
  have hnone := (h.success.mp (by decide)).2.1
  exact absurd hnone (by decide)

/-- A deletion has no timeout to report, and its return value is never anything else. -/
theorem delete_genuine (env : Env) (fields : Bytes) :
    (deleteExchange env fields).ret =
      if env.callocBuffer = true ∧ env.transferred = true ∧ env.status = .none then some 0 else some (-1) := by
  unfold deleteExchange
  split
  next hc => simp_all [failed]
  next hc =>
    split
    next hno =>
      rw [if_neg]
      · rfl
      · intro h
        simp [h.2.1, h.2.2] at hno
    next hyes => simp_all

/-! ## The password in the buffer -/

theorem exchange_sent (out : Layout) (env : Env) (buffer : Bytes) :
    (exchange out env buffer).sent = some buffer := by
  unfold exchange
  split
  · rfl
  · split
    · rfl
    · split
      · rfl
      · dsimp only
        split
        · rfl
        · split <;> rfl

theorem verify_sent {uid : UInt32} {challenge : UInt64} {handle password : Blob} {dest : VerifyDest}
    (hc : env.callocBuffer = true) (ha : verifyAccepts handle password dest = true) :
    (utGkVerify env uid challenge handle password dest).sent =
      some (verifyBuffer uid challenge handle.bytes (presented password.bytes)) := by
  simp only [utGkVerify, ha, hc, Bool.not_true, Bool.false_eq_true, if_false]
  rw [exchange_sent]

/-- Passwords short enough for their length field are read back from the buffer. -/
theorem verifyBuffer_injective {uid : UInt32} {challenge : UInt64} {handle p q : Bytes}
    (hp : p.length < 256 ^ 4) (hq : q.length < 256 ^ 4)
    (h : verifyBuffer uid challenge handle p = verifyBuffer uid challenge handle q) : p = q := by
  simp only [verifyBuffer, pad, List.append_assoc, List.append_cancel_left_eq] at h
  obtain ⟨hlen, h⟩ := List.append_inj h (by simp)
  have hlength : p.length = q.length := by
    rw [← le_leBytes_of_lt hp, hlen, le_leBytes_of_lt hq]
  rw [List.append_cancel_left_eq] at h
  exact (List.append_inj h hlength).1

theorem presented_length (p : Bytes) : (presented p).length < passwordLimit := by
  unfold presented passwordLimit
  split
  · simp
  · omega

/-- One password is presented as the other, or both as a third: one that is too
long is the other's extension, or both are too long and begin alike. -/
def Collide (p q : Bytes) : Prop :=
  passwordLimit ≤ p.length ∧ q = p.take 17 ∨ passwordLimit ≤ q.length ∧ p = q.take 17 ∨
    passwordLimit ≤ p.length ∧ passwordLimit ≤ q.length ∧ p.take 17 = q.take 17

theorem presented_eq_iff {p q : Bytes} (hne : p ≠ q) : presented p = presented q ↔ Collide p q := by
  unfold presented Collide
  by_cases hp : passwordLimit ≤ p.length
  · by_cases hq : passwordLimit ≤ q.length
    · have hpq : ∀ r s : Bytes, passwordLimit ≤ r.length → r ≠ s.take 17 := by
        intro r s hr he
        rw [he, List.length_take] at hr
        unfold passwordLimit at hr
        omega
      simp [hp, hq, hpq]
    · simp [hp, hq, eq_comm]
  · by_cases hq : passwordLimit ≤ q.length
    · simp [hp, hq]
    · simp [hp, hq, hne]

/-- The two passwords are never sent to the TEE in the same buffer. -/
def Separates (uid : UInt32) (challenge : UInt64) (handle p q : Blob) (dest : VerifyDest) : Prop :=
  ∀ (env : Env) (b b' : Bytes), (utGkVerify env uid challenge handle p dest).sent = some b →
    (utGkVerify env uid challenge handle q dest).sent = some b' → b ≠ b'

/-- Two different passwords are sent to the TEE in different buffers if and
only if they do not collide. -/
theorem verify_separates_iff (uid : UInt32) (challenge : UInt64) (handle p q : Blob) (dest : VerifyDest)
    (hp : verifyAccepts handle p dest = true) (hq : verifyAccepts handle q dest = true)
    (hne : p.bytes ≠ q.bytes) :
    Separates uid challenge handle p q dest ↔ ¬ Collide p.bytes q.bytes := by
  rw [← presented_eq_iff hne]
  constructor
  · intro h heq
    refine h retryNow _ _ (verify_sent rfl hp) (verify_sent rfl hq) ?_
    rw [heq]
  · intro h env b b' hb hb' heq
    cases hc : env.callocBuffer with
    | false => simp [utGkVerify, hp, hc, failed] at hb
    | true =>
      rw [verify_sent hc hp, Option.some.injEq] at hb
      rw [verify_sent hc hq, Option.some.injEq] at hb'
      have hlong : ∀ r : Bytes, (presented r).length < 256 ^ 4 := by
        intro r
        have hr := presented_length r
        unfold passwordLimit at hr
        omega
      exact h (verifyBuffer_injective (hlong _) (hlong _) (by rw [hb, hb', heq]))

/-- A password handle of the right size. -/
def someHandle : Blob := .of (List.replicate 58 0) (by decide)

/-- Two passwords of two bytes. -/
theorem verify_separates_short :
    Separates 10 7 someHandle (.of [0x31, 0x32] (by decide)) (.of [0x31, 0x33] (by decide)) ⟨0x10, 0x18, 0x20⟩ :=
  (verify_separates_iff 10 7 someHandle (.of [0x31, 0x32] (by decide)) (.of [0x31, 0x33] (by decide))
    ⟨0x10, 0x18, 0x20⟩ (by decide) (by decide) (by decide)).mpr (by unfold Collide; decide)

/-- A hundred bytes are sent as the seventeen they begin with, which could have
been enrolled. -/
theorem long_password_sent_as_short :
    let dest : VerifyDest := ⟨0x10, 0x18, 0x20⟩
    let p := Blob.of (List.replicate 100 0x31) (by decide)
    let q := Blob.of (List.replicate 17 0x31) (by decide)
    p.bytes ≠ q.bytes ∧ verifyAccepts someHandle p dest = true ∧ verifyAccepts someHandle q dest = true ∧
      enrollAccepts someHandle (.of [] (by decide)) q 0x10 0x18 = true ∧
      ∃ b, (utGkVerify retryNow 10 7 someHandle p dest).sent = some b ∧
        (utGkVerify retryNow 10 7 someHandle q dest).sent = some b := by
  refine ⟨by decide, by decide, by decide, by decide, _, verify_sent rfl (by decide), ?_⟩
  rw [verify_sent rfl (by decide)]
  rfl

end Gatekeeper
