/-
One operation of KeyMint (keymint1.0/BeanpodKeyMintOperation.cpp), from the
handle that `begin` got for it to the destructor.

The operation shares its BeanpodKeymaster with all others, so each call on it
finds the connection in some state. A request is the handle and the bytes that
the rest of it serializes to, with the authentication token, if any (whose mac
is taken to fit `hw_auth_token_t`). A method that does not return, for the copy
that has no defined result, leaves the operation as it is there.
-/
import Microtrust.Keymint.Configured

namespace Keymint

open Lib Keymaster

def kmErrorOutputParameterNull : Int := -27

/-! ## The requests -/

/-- What becomes of a request: it is rejected as too large, the session is reset,
or the TA receives it, and may answer that all is well. -/
inductive Fate where
  | rejected
  | reset
  | delivered (ok : Bool)
deriving DecidableEq

/-- A request that was made for the operation, and the error its response was
left with. -/
structure Event where
  m : Method
  handle : UInt64
  fate : Fate
  err : Option Int
deriving DecidableEq

/-- `BeanpodKeyMintOperation`, and the requests made so far. -/
structure Operation where
  opHandle : UInt64
  events : List Event := []
deriving DecidableEq

/-- What the response to the `n`th invocation says beside its error. -/
structure Replies where
  inputConsumed : Nat → Nat
  output : Nat → Bytes

/-- What a method ends with: the error in the status it returns, if it returns,
and the output it stored. -/
structure Ended where
  status : Option Int
  output : Option Bytes := none
  st : State
  op : Operation

instance (m : Method) (req : Bytes) : Decidable (Fits m req) := inferInstanceAs (Decidable (_ → _))

instance {v : Variant} (r : Invoked v) (status : UInt32) : Decidable (Negative r status) :=
  inferInstanceAs (Decidable (_ ∨ _))

instance (e : World) (s : State) (m : Method) (req : Bytes) : Decidable (Resets e s m req) :=
  inferInstanceAs (Decidable (_ ∧ _))

def fate (e : World) (s : State) (m : Method) (req : Bytes) : Fate :=
  if ¬ Fits m req then .rejected
  else if Resets e s m req then .reset
  else .delivered (Succeeded e s.ipc.invokes m.command (inputOf m req))

/-! ## The methods -/

variable (e : World) (r : Replies)

/-- A request for the operation: the error in its response. -/
def Operation.request (s : State) (op : Operation) (m : Method) (body : Bytes) : Ended :=
  let req := leBytes 8 op.opHandle.toNat ++ body
  let (err, s') := call e s m req
  { status := err, st := s', op := { op with events := op.events ++ [⟨m, op.opHandle, fate e s m req, err⟩] } }

/-- `abort`. -/
def Operation.abort (s : State) (op : Operation) : Ended :=
  let out := op.request e s .abortOperation []
  match out.status with
  | none => out
  | some _ => { out with op := { out.op with opHandle := 0 } }

/-- What the other methods begin with: the request, and `abort` if it was too
large. -/
def Operation.requestOrAbort (s : State) (op : Operation) (m : Method) (body : Bytes) : Ended :=
  let out := op.request e s m body
  match out.status with
  | none => out
  | some err =>
    if err = beanpodKmInvalidInputLength then
      let aborted := out.op.abort e out.st
      { aborted with status := aborted.status.map fun _ => kmErrorInvalidInputLength }
    else out

/-- `updateAad`. -/
def Operation.updateAad (s : State) (op : Operation) (body : Bytes) : Ended :=
  op.requestOrAbort e s .updateOperation body

/-- `update`. `output` says whether there is a place for one. -/
def Operation.update (s : State) (op : Operation) (input body : Bytes) (output : Bool) : Ended :=
  if !output then { status := some kmErrorOutputParameterNull, st := s, op := op }
  else
    let out := op.requestOrAbort e s .updateOperation body
    if out.status ≠ some kmErrorOk then out
    else if r.inputConsumed s.ipc.invokes ≠ input.length then { out with status := some kmErrorUnknownError }
    else { out with output := some (r.output s.ipc.invokes) }

/-- `finish`. -/
def Operation.finish (s : State) (op : Operation) (body : Bytes) (output : Bool) : Ended :=
  if !output then { status := some kmErrorOutputParameterNull, st := s, op := op }
  else
    let out := op.requestOrAbort e s .finishOperation body
    match out.status with
    | none => out
    | some err =>
      let closed := { out with op := { out.op with opHandle := 0 } }
      if err ≠ kmErrorOk then closed else { closed with output := some (r.output s.ipc.invokes) }

/-- The calls on an operation. -/
inductive OpCall where
  | updateAad (body : Bytes)
  | update (input body : Bytes) (output : Bool)
  | finish (body : Bytes) (output : Bool)
  | abort

def Operation.step (s : State) (op : Operation) : OpCall → Ended
  | .updateAad body => op.updateAad e s body
  | .update input body output => op.update e r s input body output
  | .finish body output => op.finish e r s body output
  | .abort => op.abort e s

/-- The calls, each with the state it finds, and whether all of them returned. -/
def Operation.run (op : Operation) : List (State × OpCall) → Bool × Operation
  | [] => (true, op)
  | (s, c) :: calls =>
    let out := op.step e r s c
    if out.status.isSome then out.op.run calls else (false, out.op)

/-- The destructor, and whether it returned. -/
def Operation.destroy (s : State) (op : Operation) : Bool × Operation :=
  if op.opHandle ≠ 0 then
    let out := op.abort e s
    (out.status.isSome, out.op)
  else (true, op)

/-- The life of the operation that `begin` got the handle `h` for, and whether it
came to its end. -/
def life (h : UInt64) (calls : List (State × OpCall)) (last : State) : Bool × Operation :=
  match Operation.run e r { opHandle := h } calls with
  | (false, op) => (false, op)
  | (true, op) => op.destroy e last

/-! ## What the TA holds -/

def Fate.isDelivered : Fate → Bool
  | .delivered _ => true
  | _ => false

/-- The TA received a `FINISH` or `ABORT` for `h`. -/
def Event.Ends (h : UInt64) (ev : Event) : Prop :=
  ev.handle = h ∧ (ev.m = .finishOperation ∨ ev.m = .abortOperation) ∧ ev.fate.isDelivered = true

instance (h : UInt64) (ev : Event) : Decidable (ev.Ends h) := inferInstanceAs (Decidable (_ ∧ _ ∧ _))

/-- The TA drops `h`: it was told to, it answered an `UPDATE` with an error, or
the session is reset. -/
def Event.drops (h : UInt64) (ev : Event) : Bool :=
  match ev.fate with
  | .rejected => false
  | .reset => true
  | .delivered ok => ev.handle == h && (ev.m != .updateOperation || !ok)

/-- The TA still holds `h` after the requests. -/
def held (h : UInt64) (events : List Event) : Bool := events.all fun ev => !ev.drops h

/-- No request for `h` is made after one that ended it. -/
def Once (h : UInt64) (events : List Event) : Prop := events.Pairwise fun x y => x.Ends h → y.handle ≠ h

/-- The TA answers a `FINISH` with the error that stands for a request that was
never sent. -/
def Event.Reserved (h : UInt64) (ev : Event) : Prop :=
  ev.m = .finishOperation ∧ ev.Ends h ∧ ev.err = some beanpodKmInvalidInputLength

section

variable {e : World} {r : Replies} {h : UInt64} {s : State} {op : Operation} {m : Method} {events new : List Event}

theorem Once.append {ev : Event} (hevents : Once h events) (hev : ev.handle ≠ h) : Once h (events ++ [ev]) := by
  refine List.pairwise_append.mpr ⟨hevents, List.pairwise_singleton _ _, ?_⟩
  intro x _ y hy _
  rw [List.mem_singleton.mp hy]
  exact hev

theorem once_of_none (hevents : ∀ ev ∈ events, ¬ ev.Ends h) : Once h events :=
  List.pairwise_of_forall_mem_list fun x hx _ _ hends => absurd hends (hevents x hx)

/-- The first request that ends the operation may be the last one made. -/
theorem once_concat (hevents : ∀ ev ∈ events, ¬ ev.Ends h) (ev : Event) : Once h (events ++ [ev]) := by
  refine List.pairwise_append.mpr ⟨once_of_none hevents, List.pairwise_singleton _ _, ?_⟩
  exact fun x hx _ _ hends => absurd hends (hevents x hx)

theorem Once.count (hevents : Once h events) : events.countP (fun ev => ev.Ends h) ≤ 1 := by
  induction events with
  | nil => exact Nat.zero_le 1
  | cons ev events ih =>
    obtain ⟨hfirst, hrest⟩ := List.pairwise_cons.mp hevents
    rw [List.countP_cons]
    split
    next hends =>
      have hnone : events.countP (fun ev => ev.Ends h) = 0 := by
        refine List.countP_eq_zero.mpr fun y hy hy' => ?_
        exact hfirst y hy (of_decide_eq_true hends) (of_decide_eq_true hy').1
      omega
    next => exact ih hrest

theorem held_append (ev : Event) : held h (events ++ [ev]) = (held h events && !ev.drops h) := by
  simp [held]

/-! ## A request -/

theorem call_unguarded (hm : m.guarded = false) (e : World) (s : State) (req : Bytes) :
    call e s m req = forward e s m req := by
  unfold call
  rw [hm, if_neg Bool.false_ne_true]

/-- What a request for the operation leaves in the log. -/
def Operation.event (e : World) (s : State) (op : Operation) (m : Method) (body : Bytes) : Event :=
  let req := leBytes 8 op.opHandle.toNat ++ body
  ⟨m, op.opHandle, fate e s m req, (call e s m req).1⟩

theorem request_op (s : State) (op : Operation) (m : Method) (body : Bytes) :
    (op.request e s m body).op = { op with events := op.events ++ [op.event e s m body] } := rfl

/-- Everything that can become of a request. -/
theorem event_cases (s : State) (op : Operation) (hm : m.guarded = false) (body : Bytes) :
    let ev := op.event e s m body
    (ev.fate = .rejected ∧ ev.err = some beanpodKmInvalidInputLength ∧
      ¬ Fits m (leBytes 8 op.opHandle.toNat ++ body)) ∨
    (ev.fate = .reset ∧ ∃ err, ev.err = some err ∧ err ≠ beanpodKmInvalidInputLength) ∨
    ∃ ok, ev.fate = .delivered ok := by
  intro ev
  have hcall : ev.err = (forward e s m (leBytes 8 op.opHandle.toNat ++ body)).1 := by
    show (call e s m _).1 = _
    rw [call_unguarded hm]
  have hfate : ev.fate = fate e s m (leBytes 8 op.opHandle.toNat ++ body) := rfl
  rw [hfate]
  unfold fate
  rcases forward_cases e s m (leBytes 8 op.opHandle.toNat ++ body) with
    ⟨hbig, hf⟩ | ⟨hreset, rc, ipc, hrc, -, hf⟩ | ⟨hfits, hreset, -⟩
  · refine .inl ⟨if_pos hbig, ?_, hbig⟩
    rw [hcall, hf]
  · refine .inr (.inl ⟨?_, translateError rc, ?_, translateError_ne_beanpod hrc⟩)
    · rw [if_neg (not_not.mpr hreset.1), if_pos hreset]
    · rw [hcall, hf]
  · rw [if_neg (not_not.mpr hfits), if_neg hreset]
    exact .inr (.inr ⟨_, rfl⟩)

/-- A request other than an `UPDATE` that is not too large has the TA drop the
handle. -/
theorem event_drops (hm : m.guarded = false) (hup : m ≠ .updateOperation) (s : State) (op : Operation) (body : Bytes)
    (hsent : (op.event e s m body).err = some beanpodKmInvalidInputLength →
      Fits m (leBytes 8 op.opHandle.toNat ++ body)) :
    (op.event e s m body).drops op.opHandle = true := by
  have hhandle : (op.event e s m body).handle = op.opHandle := rfl
  have hmethod : ((op.event e s m body).m != .updateOperation) = true := bne_iff_ne.mpr hup
  unfold Event.drops
  rcases event_cases (e := e) s op hm body with ⟨-, herr, hbig⟩ | ⟨hf, -⟩ | ⟨ok, hf⟩
  · exact absurd (hsent herr) hbig
  · rw [hf]
  · rw [hf, hhandle]
    simp only [beq_self_eq_true, hmethod, Bool.true_or, Bool.and_true]

/-- An `ABORT` always fits. -/
theorem abort_fits (handle : UInt64) : Fits .abortOperation (leBytes 8 handle.toNat ++ []) := by
  intro _
  rw [List.append_nil, length_leBytes]
  decide

/-! ## The phases of an operation -/

/-- The handle is still there, and the TA was not told to end the operation. -/
structure Running (h : UInt64) (op : Operation) : Prop where
  handle : op.opHandle = h
  none : ∀ ev ∈ op.events, ¬ ev.Ends h

/-- The handle is gone here, and so it is in the TA. -/
structure Over (h : UInt64) (op : Operation) : Prop where
  handle : op.opHandle = 0
  once : Once h op.events
  dropped : held h op.events = false

theorem Over.request (hne : h ≠ 0) (ho : Over h op) (s : State) (m : Method) (body : Bytes) :
    Over h (op.request e s m body).op := by
  have hev : (op.event e s m body).handle ≠ h := by
    show op.opHandle ≠ h
    rw [ho.handle]
    exact hne.symm
  rw [request_op]
  refine ⟨ho.handle, ho.once.append hev, ?_⟩
  show held h (op.events ++ [_]) = false
  rw [held_append, ho.dropped, Bool.false_and]

theorem Over.abort (hne : h ≠ 0) (ho : Over h op) (s : State) : Over h (op.abort e s).op := by
  have hreq : Over h (op.request e s .abortOperation []).op := ho.request hne s .abortOperation []
  unfold Operation.abort
  dsimp only
  split
  · exact hreq
  · exact ⟨rfl, hreq.once, hreq.dropped⟩

/-- After `abort` the operation is over. -/
theorem Running.abort (hr : Running h op) (s : State) :
    Once h (op.abort e s).op.events ∧ ((op.abort e s).status.isSome = true → Over h (op.abort e s).op) := by
  have honce : Once h (op.request e s .abortOperation []).op.events := once_concat hr.none _
  have hdrops : (op.event e s .abortOperation []).drops h = true := by
    rw [← hr.handle]
    exact event_drops (m := .abortOperation) rfl (by decide) s op [] fun _ => abort_fits _
  unfold Operation.abort
  dsimp only
  split
  next hstatus =>
    refine ⟨honce, fun hsome => ?_⟩
    rw [hstatus] at hsome
    cases hsome
  next =>
    refine ⟨honce, fun _ => ⟨rfl, honce, ?_⟩⟩
    show held h (op.events ++ [op.event e s .abortOperation _]) = false
    rw [held_append, hdrops]
    exact Bool.and_false _

/-- The two ways of the methods that send. -/
theorem requestOrAbort_cases (s : State) (op : Operation) (m : Method) (body : Bytes) :
    let out := op.request e s m body
    (out.status ≠ some beanpodKmInvalidInputLength ∧ op.requestOrAbort e s m body = out) ∨
    (out.status = some beanpodKmInvalidInputLength ∧
      (op.requestOrAbort e s m body).op = (out.op.abort e out.st).op ∧
      (op.requestOrAbort e s m body).status.isSome = (out.op.abort e out.st).status.isSome) := by
  intro out
  unfold Operation.requestOrAbort
  dsimp only
  split
  next hstatus =>
    refine .inl ⟨?_, rfl⟩
    rw [show out.status = none from hstatus]
    exact nofun
  next err hstatus =>
    split
    next herr =>
      refine .inr ⟨?_, rfl, Option.isSome_map⟩
      rw [← herr]
      exact hstatus
    next herr =>
      refine .inl ⟨fun heq => herr ?_, rfl⟩
      exact Option.some.inj (hstatus.symm.trans heq)

theorem Over.requestOrAbort (hne : h ≠ 0) (ho : Over h op) (s : State) (m : Method) (body : Bytes) :
    Over h (op.requestOrAbort e s m body).op := by
  have hreq : Over h (op.request e s m body).op := ho.request hne s m body
  rcases requestOrAbort_cases s op m body with ⟨-, hout⟩ | ⟨-, hout, -⟩
  · rw [hout]
    exact hreq
  · rw [hout]
    exact hreq.abort hne _

theorem Running.request (hr : Running h op) (s : State) (body : Bytes) (hev : ¬ (op.event e s m body).Ends h) :
    Running h (op.request e s m body).op := by
  refine ⟨hr.handle, fun ev hmem => ?_⟩
  rcases List.mem_append.mp hmem with hmem | hmem
  · exact hr.none ev hmem
  · rw [List.mem_singleton.mp hmem]
    exact hev

/-- An `UPDATE` leaves the operation running, or `abort` ends it. -/
theorem Running.requestOrAbort_update (hr : Running h op) (s : State) (body : Bytes) :
    Once h (op.requestOrAbort e s .updateOperation body).op.events ∧
      ((op.requestOrAbort e s .updateOperation body).status.isSome = true →
        Running h (op.requestOrAbort e s .updateOperation body).op ∨
          Over h (op.requestOrAbort e s .updateOperation body).op) := by
  have hends : ¬ (op.event e s .updateOperation body).Ends h := fun hev => hev.2.1.elim nofun nofun
  have hreq := hr.request s body hends
  rcases requestOrAbort_cases s op .updateOperation body with ⟨-, hout⟩ | ⟨-, hout, hsome⟩
  · rw [hout]
    exact ⟨once_concat hr.none _, fun _ => .inl hreq⟩
  · rw [hout, hsome]
    obtain ⟨honce, hover⟩ := hreq.abort (e := e) (op.request e s .updateOperation body).st
    exact ⟨honce, fun h => .inr (hover h)⟩

/-- A `FINISH` has the TA drop the handle, or `abort` does. -/
theorem Running.requestOrAbort_finish (hr : Running h op) (s : State) (body : Bytes)
    (hok : ¬ (op.event e s .finishOperation body).Reserved h) :
    Once h (op.requestOrAbort e s .finishOperation body).op.events ∧
      ((op.requestOrAbort e s .finishOperation body).status.isSome = true →
        held h (op.requestOrAbort e s .finishOperation body).op.events = false) := by
  rcases requestOrAbort_cases s op .finishOperation body with ⟨hstatus, hout⟩ | ⟨hstatus, hout, hsome⟩
  · -- the request was sent, and either way the TA is rid of the handle
    rw [hout]
    refine ⟨once_concat hr.none _, fun _ => ?_⟩
    have hdrops : (op.event e s .finishOperation body).drops h = true := by
      rw [← hr.handle]
      exact event_drops (m := .finishOperation) rfl (by decide) s op body fun herr => absurd herr hstatus
    show held h (op.events ++ [op.event e s .finishOperation _]) = false
    rw [held_append, hdrops]
    exact Bool.and_false _
  · -- the request was too large
    have hends : ¬ (op.event e s .finishOperation body).Ends h := fun hev => hok ⟨rfl, hev, hstatus⟩
    obtain ⟨honce, hover⟩ := (hr.request s body hends).abort (e := e) (op.request e s .finishOperation body).st
    rw [hout, hsome]
    exact ⟨honce, fun h => (hover h).dropped⟩

/-! ## The methods keep the phases -/

/-- Requests are only added. -/
theorem abort_grows (s : State) (op : Operation) : op.events <+: (op.abort e s).op.events := by
  unfold Operation.abort
  dsimp only
  split <;> exact List.prefix_append _ _

theorem requestOrAbort_grows (s : State) (op : Operation) (m : Method) (body : Bytes) :
    op.events ++ [op.event e s m body] <+: (op.requestOrAbort e s m body).op.events := by
  rcases requestOrAbort_cases s op m body with ⟨-, hout⟩ | ⟨-, hout, -⟩
  · rw [hout]
    exact List.prefix_rfl
  · rw [hout]
    exact abort_grows _ (op.request e s m body).op

/-- What a method may leave of an operation that is not over. -/
structure Kept (h : UInt64) (out : Ended) : Prop where
  once : Once h out.op.events
  phase : out.status.isSome = true → Running h out.op ∨ Over h out.op

theorem Over.kept {out : Ended} (ho : Over h out.op) : Kept h out := ⟨ho.once, fun _ => .inr ho⟩

theorem once_of_phase (hop : Running h op ∨ Over h op) : Once h op.events := by
  rcases hop with hr | ho
  · exact once_of_none hr.none
  · exact ho.once

theorem abort_kept (hne : h ≠ 0) (hop : Running h op ∨ Over h op) (s : State) : Kept h (op.abort e s) := by
  rcases hop with hr | ho
  · obtain ⟨honce, hover⟩ := hr.abort (e := e) s
    exact ⟨honce, fun hsome => .inr (hover hsome)⟩
  · exact (ho.abort hne s).kept

theorem updateAad_kept (hne : h ≠ 0) (hop : Running h op ∨ Over h op) (s : State) (body : Bytes) :
    Kept h (op.updateAad e s body) := by
  rcases hop with hr | ho
  · obtain ⟨honce, hphase⟩ := hr.requestOrAbort_update (e := e) s body
    exact ⟨honce, hphase⟩
  · exact (ho.requestOrAbort hne s .updateOperation body).kept

/-- `update` does to the operation what `updateAad` does. -/
theorem update_kept (hne : h ≠ 0) (hop : Running h op ∨ Over h op) (s : State) (input body : Bytes) (output : Bool) :
    Kept h (op.update e r s input body output) := by
  have haad : Kept h (op.requestOrAbort e s .updateOperation body) := updateAad_kept hne hop s body
  unfold Operation.update
  split
  · exact ⟨once_of_phase hop, fun _ => hop⟩
  dsimp only
  split
  · exact haad
  next hstatus =>
    have hphase := haad.phase (by rw [not_not.mp hstatus]; rfl)
    split
    · exact ⟨haad.once, fun _ => hphase⟩
    · exact ⟨haad.once, fun _ => hphase⟩

theorem finish_kept (hne : h ≠ 0) (hop : Running h op ∨ Over h op) (s : State) (body : Bytes) (output : Bool)
    (hok : ∀ ev ∈ (op.finish e r s body output).op.events, ¬ ev.Reserved h) :
    Kept h (op.finish e r s body output) := by
  unfold Operation.finish at hok ⊢
  split
  · exact ⟨once_of_phase hop, fun _ => hop⟩
  next hout =>
    rw [if_neg hout] at hok
    -- what the request leaves, whether or not it was aborted
    have hmain : Once h (op.requestOrAbort e s .finishOperation body).op.events ∧
        ((op.requestOrAbort e s .finishOperation body).status.isSome = true →
          held h (op.requestOrAbort e s .finishOperation body).op.events = false) := by
      rcases hop with hr | ho
      · refine hr.requestOrAbort_finish s body (hok _ ?_)
        have hmem : op.event e s .finishOperation body ∈ (op.requestOrAbort e s .finishOperation body).op.events :=
          (requestOrAbort_grows s op .finishOperation body).subset (List.mem_append_right _ List.mem_cons_self)
        dsimp only
        split
        · exact hmem
        · split <;> exact hmem
      · have hover := ho.requestOrAbort (e := e) hne s .finishOperation body
        exact ⟨hover.once, fun _ => hover.dropped⟩
    obtain ⟨honce, hdropped⟩ := hmain
    dsimp only
    split
    next hstatus =>
      refine ⟨honce, fun hsome => ?_⟩
      rw [hstatus] at hsome
      cases hsome
    next err hstatus =>
      have hover : Over h { (op.requestOrAbort e s .finishOperation body).op with opHandle := 0 } :=
        ⟨rfl, honce, hdropped (by rw [hstatus]; rfl)⟩
      split
      · exact ⟨honce, fun _ => .inr hover⟩
      · exact ⟨honce, fun _ => .inr hover⟩

theorem step_grows (s : State) (op : Operation) (c : OpCall) : op.events <+: (op.step e r s c).op.events := by
  have hsent : ∀ m body, op.events <+: (op.requestOrAbort e s m body).op.events := fun m body =>
    (List.prefix_append _ _).trans (requestOrAbort_grows s op m body)
  cases c with
  | updateAad body => exact hsent .updateOperation body
  | update input body output =>
    show _ <+: (op.update e r s input body output).op.events
    unfold Operation.update
    dsimp only
    split_ifs <;> first | exact List.prefix_rfl | exact hsent .updateOperation body
  | finish body output =>
    show _ <+: (op.finish e r s body output).op.events
    unfold Operation.finish
    split
    · exact List.prefix_rfl
    · dsimp only
      split
      · exact hsent .finishOperation body
      · split <;> exact hsent .finishOperation body
  | abort => exact abort_grows s op

theorem step_kept (hne : h ≠ 0) (hop : Running h op ∨ Over h op) (s : State) (c : OpCall)
    (hok : ∀ ev ∈ (op.step e r s c).op.events, ¬ ev.Reserved h) : Kept h (op.step e r s c) := by
  cases c with
  | updateAad body => exact updateAad_kept hne hop s body
  | update input body output => exact update_kept hne hop s input body output
  | finish body output => exact finish_kept hne hop s body output hok
  | abort => exact abort_kept hne hop s

/-! ## A whole life -/

theorem run_grows (op : Operation) (calls : List (State × OpCall)) : op.events <+: (op.run e r calls).2.events := by
  induction calls generalizing op with
  | nil => exact List.prefix_rfl
  | cons sc calls ih =>
    obtain ⟨s, c⟩ := sc
    unfold Operation.run
    dsimp only
    split
    · exact (step_grows s op c).trans (ih _)
    · exact step_grows s op c

theorem run_kept (hne : h ≠ 0) (hop : Running h op ∨ Over h op) (calls : List (State × OpCall))
    (hok : ∀ ev ∈ (op.run e r calls).2.events, ¬ ev.Reserved h) :
    Once h (op.run e r calls).2.events ∧
      ((op.run e r calls).1 = true → Running h (op.run e r calls).2 ∨ Over h (op.run e r calls).2) := by
  induction calls generalizing op with
  | nil => exact ⟨once_of_phase hop, fun _ => hop⟩
  | cons sc calls ih =>
    obtain ⟨s, c⟩ := sc
    unfold Operation.run at hok ⊢
    dsimp only at hok ⊢
    split
    next hsome =>
      rw [if_pos hsome] at hok
      have hkept := step_kept hne hop s c fun ev hev => hok ev ((run_grows _ calls).subset hev)
      exact ih (hkept.phase hsome) hok
    next hsome =>
      rw [if_neg hsome] at hok
      exact ⟨(step_kept hne hop s c hok).once, nofun⟩

theorem destroy_kept (hne : h ≠ 0) (hop : Running h op ∨ Over h op) (last : State) :
    Once h (op.destroy e last).2.events ∧
      ((op.destroy e last).1 = true → held h (op.destroy e last).2.events = false) := by
  unfold Operation.destroy
  split
  next hhandle =>
    rcases hop with hr | ho
    · obtain ⟨honce, hover⟩ := hr.abort (e := e) last
      exact ⟨honce, fun hsome => (hover hsome).dropped⟩
    · exact absurd ho.handle hhandle
  next hhandle =>
    rcases hop with hr | ho
    · exact absurd (hr.handle ▸ not_not.mp hhandle) hne
    · exact ⟨ho.once, fun _ => ho.dropped⟩

/-- What is wanted of a life: the TA is told at most once to end the operation,
nothing is asked of it afterwards, and it does not keep it. -/
structure Clean (h : UInt64) (out : Bool × Operation) : Prop where
  atMostOnce : out.2.events.countP (fun ev => ev.Ends h) ≤ 1
  nothingAfter : Once h out.2.events
  released : out.1 = true → held h out.2.events = false

theorem clean_of_once {out : Bool × Operation}
    (hout : Once h out.2.events ∧ (out.1 = true → held h out.2.events = false)) : Clean h out :=
  ⟨hout.1.count, hout.1, hout.2⟩

/-- **An operation is ended once and never leaked**, whatever is asked of it and
whatever the TA answers, but for the one error that the TA does not have. -/
theorem operation_ends_once (e : World) (r : Replies) {h : UInt64} (hne : h ≠ 0) (calls : List (State × OpCall))
    (last : State) (hok : ∀ ev ∈ (life e r h calls last).2.events, ¬ ev.Reserved h) :
    Clean h (life e r h calls last) := by
  have hstart : Running h { opHandle := h } := ⟨rfl, fun ev hev => absurd hev List.not_mem_nil⟩
  unfold life at hok ⊢
  cases hrun : Operation.run e r { opHandle := h } calls with
  | mk returned op =>
    rw [hrun] at hok
    have hkept := run_kept (e := e) (r := r) hne (.inl hstart) calls
    rw [hrun] at hkept
    cases returned with
    | false => exact clean_of_once ⟨(hkept hok).1, nofun⟩
    | true =>
      have hgrows : op.events <+: (op.destroy e last).2.events := by
        unfold Operation.destroy
        split
        · exact abort_grows last op
        · exact List.prefix_rfl
      have hphase := (hkept fun ev hev => hok ev (hgrows.subset hev)).2 rfl
      exact clean_of_once (destroy_kept hne hphase last)

/-! ## Coming to an end -/

/-- No response is larger than the buffer it is copied to. -/
def Bounded (e : World) : Prop := ∀ n, (e.ipc.invoke n).outSize ≤ keymint10.bufferLength

theorem forward_returns (hfit : Bounded e) (s : State) (m : Method) (req : Bytes) :
    (forward e s m req).1.isSome = true := by
  have hfinish : ∀ {rc : Int} {received : Received} {ipc : Keymaster.State},
      (finish e.ipc (e.deserialize m.command) (rc, some received, ipc)).ret.isSome = true := by
    intro rc received ipc
    by_cases hrc : rc < 0
    · rw [finish_of_neg hrc]
      rfl
    · rw [finish_of_nonneg hrc]
      rfl
  by_cases hfits : Fits m req
  · rw [forward_fits hfits s]
    dsimp only
    split
    · exact hfinish
    · rcases invoke_cases e.ipc s.ipc m.command (inputOf m req) ⟨e.stack s.ipc.invokes, keymint10.bufferLength⟩ rfl rfl with
        ⟨-, h⟩ | ⟨-, -, h⟩ | ⟨-, -, hbig, -⟩ | ⟨-, -, -, h⟩
      · rw [h]
        exact hfinish
      · rw [h]
        exact hfinish
      · exact absurd (hfit _) (not_le.mpr hbig)
      · rw [h]
        exact hfinish
  · rcases forward_cases e s m req with ⟨-, hf⟩ | ⟨hreset, -⟩ | ⟨hsent, -⟩
    · rw [hf]
      rfl
    · exact absurd hreset.1 hfits
    · exact absurd hsent hfits

theorem request_returns (hfit : Bounded e) (hm : m.guarded = false) (s : State) (op : Operation) (body : Bytes) :
    (op.request e s m body).status.isSome = true := by
  show (call e s m _).1.isSome = true
  rw [call_unguarded hm]
  exact forward_returns hfit s m _

theorem abort_returns (hfit : Bounded e) (s : State) (op : Operation) : (op.abort e s).status.isSome = true := by
  have hreq := request_returns hfit (m := .abortOperation) rfl s op []
  unfold Operation.abort
  dsimp only
  split <;> exact hreq

theorem requestOrAbort_returns (hfit : Bounded e) (hm : m.guarded = false) (s : State) (op : Operation) (body : Bytes) :
    (op.requestOrAbort e s m body).status.isSome = true := by
  rcases requestOrAbort_cases s op m body with ⟨-, hout⟩ | ⟨-, -, hsome⟩
  · rw [hout]
    exact request_returns hfit hm s op body
  · rw [hsome]
    exact abort_returns hfit _ _

theorem step_returns (hfit : Bounded e) (s : State) (op : Operation) (c : OpCall) :
    (op.step e r s c).status.isSome = true := by
  cases c with
  | updateAad body => exact requestOrAbort_returns hfit (m := .updateOperation) rfl s op body
  | update input body output =>
    have hreq := requestOrAbort_returns hfit (m := .updateOperation) rfl s op body
    show (op.update e r s input body output).status.isSome = true
    unfold Operation.update
    dsimp only
    split_ifs <;> first | rfl | exact hreq
  | finish body output =>
    have hreq := requestOrAbort_returns hfit (m := .finishOperation) rfl s op body
    show (op.finish e r s body output).status.isSome = true
    unfold Operation.finish
    split
    · rfl
    · dsimp only
      split
      · exact hreq
      · split <;> exact hreq
  | abort => exact abort_returns hfit s op

/-- Every life comes to its end if the responses fit. -/
theorem life_ends (hfit : Bounded e) (h : UInt64) (calls : List (State × OpCall)) (last : State) :
    (life e r h calls last).1 = true := by
  have hrun : ∀ op, (Operation.run e r op calls).1 = true := by
    induction calls with
    | nil => exact fun _ => rfl
    | cons sc calls ih =>
      intro op
      unfold Operation.run
      dsimp only
      rw [if_pos (step_returns hfit sc.1 op sc.2)]
      exact ih _
  have hdestroy : ∀ op : Operation, (op.destroy e last).1 = true := by
    intro op
    unfold Operation.destroy
    split
    · exact abort_returns hfit last op
    · rfl
  have hstart := hrun { opHandle := h }
  unfold life
  split
  next op heq =>
    rw [heq] at hstart
    cases hstart
  next op _ => exact hdestroy op

end

/-- A TA that grants everything, and answers a `FINISH` so. -/
def answering (err : Int) : World :=
  { bench fun _ => 0 with
    deserialize := fun cmd _ => some (if cmd = Method.finishOperation.command then err else kmErrorOk) }

/-- The connection as it is after `begin`. -/
def begun : State := { ipc := { handle := 3 }, initialized := true }

def silent : Replies := ⟨fun _ => 0, fun _ => []⟩

/-- A `FINISH` that the TA received and answered with the error for requests that
are too large is followed by an `ABORT`. -/
theorem finish_then_abort :
    ¬ ∀ (e : World) (r : Replies) (h : UInt64) (calls : List (State × OpCall)) (last : State),
      h ≠ 0 → Clean h (life e r h calls last) := by
  intro hall
  have hclean := hall (answering beanpodKmInvalidInputLength) silent 5 [(begun, .finish [] true)] begun (by decide)
  have htwice : (life (answering beanpodKmInvalidInputLength) silent 5 [(begun, .finish [] true)] begun).2.events.countP
      (fun ev => ev.Ends 5) = 2 := by decide +kernel
  have honce := hclean.atMostOnce
  rw [htwice] at honce
  exact absurd honce (by decide)

/-- A life with an update and a `FINISH`, which both succeed. -/
theorem operation_ends_once_signed :
    (life (answering kmErrorOk) silent 5 [(begun, .update [] [] true), (begun, .finish [] true)] begun).1 = true ∧
      Clean 5 (life (answering kmErrorOk) silent 5 [(begun, .update [] [] true), (begun, .finish [] true)] begun) := by
  have hevents : (life (answering kmErrorOk) silent 5 [(begun, .update [] [] true), (begun, .finish [] true)]
      begun).2.events = [⟨.updateOperation, 5, .delivered true, some kmErrorOk⟩,
        ⟨.finishOperation, 5, .delivered true, some kmErrorOk⟩] := by decide +kernel
  have hfit : Bounded (answering kmErrorOk) := fun _ => Nat.zero_le _
  refine ⟨life_ends hfit 5 _ begun, operation_ends_once (answering kmErrorOk) silent (by decide) _ begun fun ev hev hres => ?_⟩
  rw [hevents] at hev
  have herr : ev.err = some kmErrorOk := by
    rcases List.mem_cons.mp hev with rfl | hev
    · rfl
    · rw [List.mem_singleton.mp hev]
  rw [hres.2.2] at herr
  exact absurd herr (by decide)

end Keymint
