/-
When a keymaster command takes what it received for a response.

`bp_keymaster_call` gives up on every result or status that is not zero, but
returns it as an `int`, and its callers give up only on a negative one. A
result or a status from 1 to 2^31 - 1 therefore passes for success, and what is
deserialized is the receive buffer as it was found on the stack.
-/
import Microtrust.Keymaster.Ipc

namespace Keymaster

open Lib

variable {v : Variant} {env : Env v} {deserialize : Bytes → Option Int} {s s' : State}

/-! ## The response is the answer -/

/-- What a command is for, given the invocation `r` it may make and the status
that brings back: `Deserialize` is called only if both the result and the
status are zero, and only on the bytes the TA wrote; otherwise the command
returns an error. -/
structure Genuine (s : State) (r : Invoked v) (status : UInt32) (o : Outcome) : Prop where
  response : ∀ b, o.deserialized = some b → o.st.invokes = s.invokes + 1 ∧ r.result = 0 ∧ status = 0 ∧
    r.outSize ≤ v.bufferLength ∧ b = r.output.take (r.outSize)
  failure : o.deserialized = none → ∃ e, o.ret = some e ∧ e ≠ kmErrorOk

/-- The result is zero or negative as an `int`, so is the status if it counts,
and the size fits the buffer if that counts. -/
def Answered (r : Invoked v) (status : UInt32) : Prop :=
  (r.result = 0 ∨ 2 ^ 31 ≤ r.result.toNat) ∧
    (r.result = 0 → status = 0 ∨ 2 ^ 31 ≤ status.toNat) ∧
    (r.result = 0 → status = 0 → r.outSize ≤ v.bufferLength)

theorem genuine_of_error {r : Invoked v} {status : UInt32} {o : Outcome} {e : Int} (hd : o.deserialized = none)
    (hr : o.ret = some e) (he : e ≠ kmErrorOk) : Genuine s r status o := by
  constructor
  · intro b hb
    rw [hd] at hb
    cases hb
  · intro _
    exact ⟨e, hr, he⟩

/-- A negative return code resets the connection and becomes an error. -/
theorem finish_of_neg {rc : Int} (hrc : rc < 0) (received : Received) :
    finish env deserialize (rc, some received, s) =
      ⟨some (translateError rc), none, (bpKeymasterConnect env (bpKeymasterDisconnect s)).2⟩ := if_pos hrc

/-- Any other has the response read. -/
theorem finish_of_nonneg {rc : Int} (hrc : ¬ rc < 0) (received : Received) :
    finish env deserialize (rc, some received, s) =
      ⟨some ((deserialize (received.buf.take received.size)).getD kmErrorUnknownError),
        some (received.buf.take received.size), s⟩ := if_neg hrc

theorem deserialize_of_ok {d : Bytes} (h : some ((deserialize d).getD kmErrorUnknownError) = some kmErrorOk) :
    deserialize d = some kmErrorOk := by
  cases hd : deserialize d with
  | none =>
    rw [hd] at h
    exact absurd (Option.some.inj h) (by decide)
  | some err =>
    rw [hd] at h
    exact h

theorem finish_neg {r : Invoked v} {status : UInt32} {rc : Int} (hrc : rc < 0) (received : Received) :
    Genuine s r status (finish env deserialize (rc, some received, s')) := by
  rw [finish_of_neg hrc]
  exact genuine_of_error rfl rfl (translateError_ne_ok hrc)

/-- A positive return code is taken for a response. -/
theorem finish_pos {r : Invoked v} {status : UInt32} {rc : Int} (hrc : 0 < rc)
    (hbad : ¬ (r.result = 0 ∧ status = 0)) (received : Received) :
    ¬ Genuine s r status (finish env deserialize (rc, some received, s')) := by
  rw [finish_of_nonneg (by omega)]
  intro h
  obtain ⟨_, hresult, hstatus, _⟩ := h.response _ rfl
  exact hbad ⟨hresult, hstatus⟩

theorem asInt_pos {n : UInt32} (hz : n ≠ 0) (hs : ¬ 2 ^ 31 ≤ n.toNat) : 0 < asInt n := by
  have h₁ : asInt n ≠ 0 := fun h => hz (asInt_eq_zero.mp h)
  have h₂ : ¬ asInt n < 0 := fun h => hs (asInt_neg.mp h)
  omega

/-- The state after an invocation. -/
def State.invoked (s : State) (cmd : UInt32) (input : Option Bytes) : State :=
  { s with invokes := s.invokes + 1 }.log [.invoke cmd input]

/-- Everything an invocation can do. -/
theorem invoke_cases (env : Env v) (s : State) (cmd : UInt32) (input : Option Bytes) (out : Received)
    {r : Invoked v} (hr : env.invoke s.invokes = r) {status : UInt32}
    (hst : (if input.isSome then r.status else 0) = status) :
    (r.result ≠ 0 ∧ invoke env s cmd input out = (asInt r.result, some out, s.invoked cmd input)) ∨
    (r.result = 0 ∧ status ≠ 0 ∧ invoke env s cmd input out = (asInt status, some out, s.invoked cmd input)) ∨
    (r.result = 0 ∧ status = 0 ∧ v.bufferLength < r.outSize ∧
      invoke env s cmd input out = (0, none, s.invoked cmd input)) ∨
    (r.result = 0 ∧ status = 0 ∧ r.outSize ≤ v.bufferLength ∧
      invoke env s cmd input out =
        (0, some ⟨r.output.take (r.outSize) ++ out.buf.drop (r.outSize), r.outSize⟩, s.invoked cmd input)) := by
  unfold invoke State.invoked
  simp only [hr, hst, ne_eq, asInt_eq_zero]
  by_cases hresult : r.result = 0
  · by_cases hstatus : status = 0
    · by_cases hfit : v.bufferLength < r.outSize
      · simp [hresult, hstatus, hfit, asInt_zero]
      · simp [hresult, hstatus, hfit, asInt_zero, Nat.not_lt.mp hfit]
    · simp [hresult, hstatus]
  · simp [hresult]

/-- The invocation ended with a negative `int`. -/
def Negative (r : Invoked v) (status : UInt32) : Prop :=
  asInt r.result < 0 ∨ r.result = 0 ∧ asInt status < 0

/-- Everything a command that was sent can end with: the connection is reset, or
it stays and there is an answer. One that says that all is well is the TA's
own, or was read where the TA had written nothing. -/
theorem finish_invoke_cases (env : Env v) (deserialize : Bytes → Option Int) (s : State) (cmd : UInt32)
    (input : Option Bytes) (out : Received) {r : Invoked v} (hr : env.invoke s.invokes = r) {status : UInt32}
    (hst : (if input.isSome then r.status else 0) = status) :
    (Negative r status ∧ ∃ rc < 0, finish env deserialize (invoke env s cmd input out) = ⟨some (translateError rc), none,
      (bpKeymasterConnect env (bpKeymasterDisconnect (s.invoked cmd input))).2⟩) ∨
    (¬ Negative r status ∧ ∃ ret d, finish env deserialize (invoke env s cmd input out) = ⟨ret, d, s.invoked cmd input⟩ ∧
      (ret = some kmErrorOk →
        r.result = 0 ∧ status = 0 ∧ r.outSize ≤ v.bufferLength ∧
          deserialize (r.output.take r.outSize) = some kmErrorOk ∨
        ¬ (r.result = 0 ∧ status = 0) ∧ deserialize (out.buf.take out.size) = some kmErrorOk)) := by
  rcases invoke_cases env s cmd input out hr hst with
    ⟨hresult, h⟩ | ⟨hresult, hstatus, h⟩ | ⟨hresult, hstatus, hbig, h⟩ | ⟨hresult, hstatus, hfit, h⟩
  · rw [h]
    by_cases hlt : asInt r.result < 0
    · exact .inl ⟨.inl hlt, _, hlt, finish_of_neg hlt out⟩
    · refine .inr ⟨fun hn => hn.elim hlt fun h => hresult h.1, _, _, finish_of_nonneg hlt out, fun he => .inr ⟨?_, deserialize_of_ok he⟩⟩
      exact fun h => hresult h.1
  · rw [h]
    have hzero : ¬ asInt r.result < 0 := by rw [hresult, asInt_zero]; decide
    by_cases hlt : asInt status < 0
    · exact .inl ⟨.inr ⟨hresult, hlt⟩, _, hlt, finish_of_neg hlt out⟩
    · refine .inr ⟨fun hn => hn.elim hzero fun h => hlt h.2, _, _, finish_of_nonneg hlt out, fun he => .inr ⟨?_, deserialize_of_ok he⟩⟩
      exact fun h => hstatus h.2
  · rw [h]
    refine .inr ⟨?_, none, none, rfl, nofun⟩
    rw [Negative, hresult, hstatus, asInt_zero]
    decide
  · rw [h]
    have hlen : (r.output.take r.outSize).length = r.outSize := by
      rw [List.length_take, r.fits]
      omega
    refine .inr ⟨?_, _, _, finish_of_nonneg (by decide) _, fun he => .inl ⟨hresult, hstatus, hfit, ?_⟩⟩
    · rw [Negative, hresult, hstatus, asInt_zero]
      decide
    · have hd := deserialize_of_ok he
      rwa [List.take_left' hlen] at hd

theorem invoke_genuine_iff (env : Env v) (deserialize : Bytes → Option Int) (s : State) (cmd : UInt32)
    (input : Option Bytes) (out : Received) {r : Invoked v} (hr : env.invoke s.invokes = r) {status : UInt32}
    (hst : (if input.isSome then r.status else 0) = status) :
    Genuine s r status (finish env deserialize (invoke env s cmd input out)) ↔ Answered r status := by
  unfold Answered
  rcases invoke_cases env s cmd input out hr hst with
    ⟨hresult, h⟩ | ⟨hresult, hstatus, h⟩ | ⟨hresult, hstatus, hbig, h⟩ | ⟨hresult, hstatus, hfit, h⟩
  · rw [h]
    by_cases hneg : 2 ^ 31 ≤ r.result.toNat
    · exact iff_of_true (finish_neg (asInt_neg.mpr hneg) out)
        ⟨.inr hneg, fun h => absurd h hresult, fun h => absurd h hresult⟩
    · exact iff_of_false (finish_pos (asInt_pos hresult hneg) (fun h => hresult h.1) out)
        fun h => h.1.elim hresult hneg
  · rw [h]
    by_cases hneg : 2 ^ 31 ≤ status.toNat
    · exact iff_of_true (finish_neg (asInt_neg.mpr hneg) out)
        ⟨.inl hresult, fun _ => .inr hneg, fun _ h => absurd h hstatus⟩
    · exact iff_of_false (finish_pos (asInt_pos hstatus hneg) (fun h => hstatus h.2) out)
        fun h => (h.2.1 hresult).elim hstatus hneg
  · -- the copy has no defined result
    rw [h]
    refine iff_of_false ?_ fun hok => ?_
    · intro hg
      obtain ⟨e, he, _⟩ := hg.failure rfl
      cases he
    · have hfit := hok.2.2 hresult hstatus
      omega
  · rw [h]
    refine iff_of_true ?_ ⟨.inl hresult, fun _ => .inl hstatus, fun _ _ => hfit⟩
    have hlen : (r.output.take (r.outSize)).length = r.outSize := by
      rw [List.length_take, r.fits]
      omega
    constructor
    · intro b hb
      simp only [finish, lt_self_iff_false, if_false, Option.some.injEq] at hb
      refine ⟨rfl, hresult, hstatus, hfit, ?_⟩
      rw [← hb, List.take_left' hlen]
    · intro hd
      simp [finish] at hd

/-- A command takes what it received for a response only when it is one, if and
only if it makes no invocation or the invocation is answered with values the
two layers agree on. This holds of both variants; without a request there is
no status to bring back. -/
theorem send_genuine_iff (v : Variant) (env : Env v) (deserialize : Bytes → Option Int) (s : State) (cmd : UInt32)
    (stack : Bytes) :
    (∀ req : Bytes,
      Genuine s (env.invoke s.invokes) (env.invoke s.invokes).status
          (bpKeymasterSend env deserialize s cmd req stack) ↔
        (0 ≤ s.handle → req.length % 2 ^ 32 ≤ v.bufferLength →
          Answered (env.invoke s.invokes) (env.invoke s.invokes).status)) ∧
    (Genuine s (env.invoke s.invokes) 0 (bpKeymasterSendNoRequest env deserialize s cmd stack) ↔
      (0 ≤ s.handle → Answered (env.invoke s.invokes) 0)) := by
  have hnotConnected : Errno.neg .EINVAL < 0 := by decide
  constructor
  · intro req
    unfold bpKeymasterSend
    dsimp only
    by_cases hbig : v.bufferLength < req.length % 2 ^ 32
    · rw [if_pos hbig]
      exact iff_of_true (genuine_of_error rfl rfl (by decide)) fun _ hsmall => absurd hbig (by omega)
    · rw [if_neg hbig]
      unfold bpKeymasterCall
      by_cases hhandle : s.handle < 0
      · rw [if_pos hhandle]
        exact iff_of_true (finish_neg hnotConnected _) fun hpos => absurd hhandle (by omega)
      · have hlen : ¬ (v.bufferLength < (req.take (req.length % 2 ^ 32)).length ∨ v.bufferLength < v.bufferLength) := by
          rw [List.length_take]
          omega
        rw [if_neg hhandle, if_neg hlen]
        have hiff := invoke_genuine_iff env deserialize s cmd (some (req.take (req.length % 2 ^ 32)))
          ⟨stack, v.bufferLength⟩ rfl rfl
        exact hiff.trans ⟨fun h _ _ => h, fun h => h (by omega) (by omega)⟩
  · unfold bpKeymasterSendNoRequest bpKeymasterCallNoRequest
    by_cases hhandle : s.handle < 0
    · rw [if_pos hhandle]
      exact iff_of_true (finish_neg hnotConnected _) fun hpos => absurd hhandle (by omega)
    · rw [if_neg hhandle]
      have hiff := invoke_genuine_iff env deserialize s cmd none ⟨stack, v.bufferLength⟩ rfl rfl
      exact hiff.trans ⟨fun h _ => h, fun h => h (by omega)⟩

/-- A TA that answers the first command with status 1, and an output buffer that
stays cleared. -/
def busyTa : Env km41 where
  connect := fun _ => ⟨0, 3, 0, true, true⟩
  invoke := fun _ => ⟨0, 1, 0, List.replicate km41.bufferLength 0, List.length_replicate⟩

/-- The status is taken for success: the bytes found on the stack are
deserialized, and the command returns what they say. -/
theorem status_one_deserializes_stack :
    ¬ Genuine { handle := 3 } (busyTa.invoke 0) (busyTa.invoke 0).status
      (bpKeymasterSend busyTa (fun _ => some kmErrorOk) { handle := 3 } 4 [1, 2, 3]
        (List.replicate km41.bufferLength 0xAA)) := by
  intro h
  have hstatus := (h.response _ rfl).2.2.1
  exact absurd hstatus (by decide)

end Keymaster
