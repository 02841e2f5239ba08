/-
The KeyMint service as a run of BeanpodKeymaster.

A call of a client comes to a few calls of methods of the one BeanpodKeymaster,
and nothing else touches the connection. What every method keeps is therefore
kept by the service, and the states of its connection are among those that runs
of methods alone lead to.
-/
import Microtrust.Keymint.Device

namespace Keymint

open Lib Keymaster

variable {lib : KeymasterDefs} {k : Libraries lib} {e : World} {r : Replies} {s : State} {v : Service}

/-! ## Methods with their responses -/

/-- A guarded method fails with its initialization; any other is forwarded. -/
theorem called_cases (e : World) (s : State) (m : Method) (req : Bytes) :
    (m.guarded = false ∧ called e s m req = forwarded e s m req) ∨
    (m.guarded = true ∧ ∃ rc s', beanpodInitialize e s = (rc, s') ∧
      ((rc = none ∧ called e s m req = ⟨none, none, s'⟩) ∨
      (∃ n, n ≠ 0 ∧ rc = some n ∧ called e s m req = ⟨some kmErrorUnknownError, none, s'⟩) ∨
      (rc = some 0 ∧ called e s m req = forwarded e s' m req))) := by
  cases hm : m.guarded with
  | false =>
    refine .inl ⟨rfl, ?_⟩
    unfold called
    rw [hm, if_neg Bool.false_ne_true]
  | true =>
    refine .inr ⟨rfl, (beanpodInitialize e s).1, (beanpodInitialize e s).2, rfl, ?_⟩
    unfold called
    rw [hm, if_pos rfl]
    cases hi : beanpodInitialize e s with
    | mk rc s' =>
      cases rc with
      | none => exact .inl ⟨rfl, rfl⟩
      | some rc =>
        by_cases hrc : rc = 0
        · exact .inr (.inr ⟨by rw [hrc], if_neg (not_not.mpr hrc)⟩)
        · exact .inr (.inl ⟨rc, hrc, rfl, if_pos hrc⟩)

/-- What a method leaves, but for the response, is what `call` says. -/
theorem called_eq (e : World) (s : State) (m : Method) (req : Bytes) :
    ((called e s m req).error, (called e s m req).st) = call e s m req := by
  rcases called_cases e s m req with ⟨hfree, hc⟩ | ⟨hguard, rc, s', hi, hc⟩
  · rw [hc, call_unguarded hfree]
    rfl
  · unfold call
    rw [hguard, hi, if_pos rfl]
    rcases hc with ⟨rfl, hc⟩ | ⟨n, hn, rfl, hc⟩ | ⟨rfl, hc⟩ <;> rw [hc]
    · dsimp only
      rw [if_pos hn]
    · rfl

/-! ## What a call makes of the service -/

/-- What `begin` makes of the service, given what its command left. -/
theorem next_begin (k : Libraries lib) (e : World) (r : Replies) (v : Service) (purpose : UInt32) (keyBlob : Bytes)
    (params : List k.utils.KeyParameter) (authToken : Option AidlAuthToken) :
    ∃ req, v.next k e r (.begin purpose keyBlob params authToken) =
      let c := called e v.st .beginOperation req
      ⟨c.st, v.operations ++
        if c.error = some kmErrorOk then [some { opHandle := k.contents.opHandle (c.response.getD []) }] else []⟩ := by
  refine ⟨k.bytes.beginOperation ⟨purpose, keyBlob,
    k.utils.kmParamSet params ++ [lib.paramBlob tagAuthToken (k.utils.authToken2AidlVec authToken)]⟩, ?_⟩
  unfold Service.next Service.serve KeyMintDevice.begin
  dsimp only
  split
  · rfl
  next hok =>
    rw [if_pos (not_not.mp hok)]
    rfl

/-- A call on an operation that is there, once its request is. -/
theorem next_operation (k : Libraries lib) (e : World) (r : Replies) (v : Service) (i : Nat) (c : OperationCall) :
    v.next k e r (.operation i c) = v ∨
    ∃ op c', v.operation i = some op ∧ c.built k op.opHandle = some c' ∧
      v.next k e r (.operation i c) =
        ⟨(op.step e r v.st c').st, v.operations.set i (some (op.step e r v.st c').op)⟩ := by
  unfold Service.next Service.serve
  dsimp only
  cases hi : v.operation i with
  | none => exact .inl rfl
  | some op =>
    dsimp only
    cases hc : c.built k op.opHandle with
    | none => exact .inl rfl
    | some c' => exact .inr ⟨op, c', rfl, hc, rfl⟩

/-- An object is gone once its client lets go of it, and aborts first what it
still carries. -/
theorem next_release (k : Libraries lib) (e : World) (r : Replies) (v : Service) (i : Nat) :
    v.next k e r (.release i) = v ∨
    ∃ op, v.operation i = some op ∧
      ((op.opHandle ≠ 0 ∧ v.next k e r (.release i) = ⟨(op.abort e v.st).st, v.operations.set i none⟩) ∨
      (op.opHandle = 0 ∧ v.next k e r (.release i) = ⟨v.st, v.operations.set i none⟩)) := by
  unfold Service.next Service.serve
  dsimp only
  cases hi : v.operation i with
  | none => exact .inl rfl
  | some op =>
    refine .inr ⟨op, rfl, ?_⟩
    dsimp only
    split
    next hne => exact .inl ⟨hne, rfl⟩
    next hzero => exact .inr ⟨not_not.mp hzero, rfl⟩

/-! ## What every method keeps -/

section

variable {P : State → Prop} (hP : ∀ s m req, P s → P (call e s m req).2)
include hP

theorem called_keeps (m : Method) (req : Bytes) (h : P s) : P (called e s m req).st := by
  rw [show (called e s m req).st = (call e s m req).2 from congrArg Prod.snd (called_eq e s m req)]
  exact hP s m req h

theorem component_keeps (c : ComponentCall k.utils) (h : P s) : P (c.run k e s).2 := by
  unfold ComponentCall.run
  split
  · exact h
  next f hf =>
    have hcalled := called_keeps hP f.m f.req h
    unfold Forwarding.run
    dsimp only
    split
    · exact hcalled
    · split <;> exact hcalled

theorem request_keeps (op : Operation) (m : Method) (body : Bytes) (h : P s) : P (op.request e s m body).st :=
  hP s m _ h

theorem abort_keeps (op : Operation) (h : P s) : P (op.abort e s).st := by
  have hreq := request_keeps hP op .abortOperation [] h
  unfold Operation.abort
  dsimp only
  split <;> exact hreq

theorem requestOrAbort_keeps (op : Operation) (m : Method) (body : Bytes) (h : P s) :
    P (op.requestOrAbort e s m body).st := by
  have hreq := request_keeps hP op m body h
  unfold Operation.requestOrAbort
  dsimp only
  split
  · exact hreq
  · split
    · exact abort_keeps hP _ hreq
    · exact hreq

theorem step_keeps (op : Operation) (c : OpCall) (h : P s) : P (op.step e r s c).st := by
  cases c with
  | updateAad body => exact requestOrAbort_keeps hP op .updateOperation body h
  | update input body output =>
    have hreq := requestOrAbort_keeps hP op .updateOperation body h
    show P (op.update e r s input body output).st
    unfold Operation.update
    dsimp only
    split_ifs <;> first | exact h | exact hreq
  | finish body output =>
    have hreq := requestOrAbort_keeps hP op .finishOperation body h
    show P (op.finish e r s body output).st
    unfold Operation.finish
    dsimp only
    split
    · exact h
    · split
      · exact hreq
      · split <;> exact hreq
  | abort => exact abort_keeps hP op h

theorem next_keeps (v : Service) (c : ServiceCall k.utils) (h : P v.st) : P (v.next k e r c).st := by
  cases c with
  | component c => exact component_keeps hP c h
  | begin purpose keyBlob params authToken =>
    obtain ⟨req, hnext⟩ := next_begin k e r v purpose keyBlob params authToken
    rw [hnext]
    exact called_keeps hP .beginOperation req h
  | operation i c =>
    rcases next_operation k e r v i c with hnext | ⟨op, c', -, -, hnext⟩
    · rw [hnext]
      exact h
    · rw [hnext]
      exact step_keeps hP op c' h
  | release i =>
    rcases next_release k e r v i with hnext | ⟨op, -, ⟨-, hnext⟩ | ⟨-, hnext⟩⟩
    · rw [hnext]
      exact h
    · rw [hnext]
      exact abort_keeps hP op h
    · rw [hnext]
      exact h

/-- **What every method keeps holds of the connection in every run.** -/
theorem service_keeps {ok : Service → ServiceCall k.utils → Prop} (h : Reach (Service.next k e r) ok {} v)
    (hstart : P {}) : P v.st :=
  h.invariant hstart fun v c hv _ => next_keeps hP v c hv

end

/-- **A run of the service is one of methods.** No client has it initialize or
destroy its BeanpodKeymaster. -/
theorem service_by_methods {ok : Service → ServiceCall k.utils → Prop} (h : Reach (Service.next k e r) ok {} v) :
    Reach (step e) (fun _ op => ∃ m req, op = .method m req) {} v.st := by
  refine service_keeps (fun s m req hs => ?_) h .start
  show Reach (step e) _ {} (step e s (.method m req))
  exact hs.step _ ⟨m, req, rfl⟩

end Keymint
