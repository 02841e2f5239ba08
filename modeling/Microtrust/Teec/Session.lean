/-
The calls of the TEE client library (libteec/src/tee_client_api.cpp) that
open, use and close sessions and contexts.
-/
import Microtrust.Teec.Api

namespace Teec

open Lib

/-! ## After the call -/

/-- `teec_post_process_tmpref`. -/
def teecPostProcessTmpref (s : State) (ty : ParamType) (tmpref : TempMemoryReference)
    (param : IoctlParam) (shm : SharedMemory) : TempMemoryReference × State :=
  if ty = .tempInput then (tmpref, s)
  else
    let s := if param.u₁ ≤ tmpref.size ∧ tmpref.buffer ≠ 0
      then s.memcpy tmpref.buffer shm.buffer param.u₁ else s
    ({ tmpref with size := param.u₁ }, s)

/-- `teec_post_process_whole`. -/
def teecPostProcessWhole (s : State) (memref : RegisteredMemoryReference) (param : IoctlParam) :
    RegisteredMemoryReference × State :=
  let shm := s.blocks memref.parent
  if shm.flags &&& memOutput = 0 then (memref, s)
  else
    let s := if shm.shadowBuffer ≠ 0 ∧ param.u₁ ≤ shm.size
      then s.memcpy shm.buffer shm.shadowBuffer param.u₁ else s
    ({ memref with size := param.u₁ }, s)

/-- `teec_post_process_partial`. -/
def teecPostProcessPartial (s : State) (ty : ParamType) (memref : RegisteredMemoryReference)
    (param : IoctlParam) : RegisteredMemoryReference × State :=
  if ty = .partialInput then (memref, s)
  else
    let shm := s.blocks memref.parent
    let s := if shm.shadowBuffer ≠ 0 ∧ param.u₁ ≤ memref.size
      then s.memcpy (shm.buffer + memref.offset.toNat) (shm.shadowBuffer + memref.offset.toNat) param.u₁
      else s
    ({ memref with size := param.u₁ }, s)

/-- One round of the loop of `teec_post_process_operation`. -/
def postProcessSlot (params : Nat → IoctlParam) (shms : Nat → SharedMemory) (r : Operation × State)
    (n : Nat) : Operation × State :=
  let (op, s) := r
  let set (p : Parameter) : Operation := { op with params := Function.update op.params n p }
  match op.type n with
  | some .valueOutput | some .valueInout =>
    (set { op.params n with value := ⟨(params n).u₀.toUInt32, (params n).u₁.toUInt32⟩ }, s)
  | some ty@.tempInput | some ty@.tempOutput | some ty@.tempInout =>
    let (tmpref, s) := teecPostProcessTmpref s ty (op.params n).tmpref (params n) (shms n)
    (set { op.params n with tmpref }, s)
  | some .whole =>
    let (memref, s) := teecPostProcessWhole s (op.params n).memref (params n)
    (set { op.params n with memref }, s)
  | some ty@.partialInput | some ty@.partialOutput | some ty@.partialInout =>
    let (memref, s) := teecPostProcessPartial s ty (op.params n).memref (params n)
    (set { op.params n with memref }, s)
  | _ => (op, s)

/-- `teec_post_process_operation`. -/
def teecPostProcessOperation (s : State) (op : Option Operation) (params : Nat → IoctlParam)
    (shms : Nat → SharedMemory) : Option Operation × State :=
  match op with
  | none => (none, s)
  | some op =>
    let (op, s) := (List.range payloadRefCount).foldl (postProcessSlot params shms) (op, s)
    (some op, s)

/-- The types of a temporary reference. -/
def Operation.isTemp (op : Operation) (n : Nat) : Bool :=
  match op.type n with
  | some .tempInput | some .tempOutput | some .tempInout => true
  | _ => false

/-- `teec_free_temp_refs`. -/
def teecFreeTempRefs (s : State) (op : Option Operation) (shms : Nat → SharedMemory) : State :=
  match op with
  | none => s
  | some op =>
    (List.range payloadRefCount).foldl
      (fun s n => if op.isTemp n then (teecReleaseSharedMemory s (shms n)).2 else s) s

/-! ## Sessions -/

/-- `ioctl_errno_to_res`. -/
def ioctlErrnoToRes (err : Errno) : Result :=
  if err = .ENOMEM then errorOutOfMemory else errorGeneric

/-- What a call returns: the result, its origin, the operation as it was left. -/
structure Outcome where
  res : Result
  origin : UInt32
  op : Option Operation
  st : State

/-- The way an operation takes: it is prepared, the TEE is asked, the answer is
brought back, and the temporary references are freed however it ended.
`answered` is what an answer does to the session. -/
def exchange (s : State) (ctx : Addr) (call : Call) (op : Option Operation)
    (answered : Reply → State → State) : Outcome :=
  match teecPreProcessOperation s ctx op with
  | (res, p) =>
    if res ≠ success then ⟨res, originApi, op, teecFreeTempRefs p.st op p.shms⟩
    else
      match p.st.askTee (p.st.contexts ctx).fd call with
      | (.error e, s) => ⟨ioctlErrnoToRes e, originComms, op, teecFreeTempRefs s op p.shms⟩
      | (.ok r, s) =>
        let (op, s) := teecPostProcessOperation (answered r s) op r.params p.shms
        ⟨r.ret, r.retOrigin, op, teecFreeTempRefs s op p.shms⟩

/-- `connection_method`. -/
inductive Login where
  | loginPublic | loginUser | loginGroup
  | loginApplication | loginUserApplication | loginGroupApplication
  | other (code : UInt32)
deriving DecidableEq

/-- The check of the login method against the data passed along, with the
origin reported for a failed one. -/
def checkLogin (login : Login) (connectionData : Addr) : Except (Result × UInt32) Unit :=
  match login with
  | .loginPublic | .loginUser | .loginApplication | .loginUserApplication =>
    if connectionData ≠ 0 then .error (errorBadParameters, originComms) else .ok ()
  | .loginGroup | .loginGroupApplication =>
    if connectionData = 0 then .error (errorBadParameters, originComms) else .ok ()
  | .other _ => .error (errorNotSupported, originApi)

/-- `TEEC_OpenSession`. -/
def teecOpenSession (s : State) (ctx session : Addr) (login : Login) (connectionData : Addr)
    (op : Option Operation) : Outcome :=
  if h : ctx = 0 ∨ session = 0 then ⟨errorBadParameters, originApi, op, s⟩
  else
    match checkLogin login connectionData with
    | .error (res, origin) => ⟨res, origin, op, s⟩
    | .ok () =>
      let out := exchange s ctx (.openSession (s.contexts ctx).fd) op fun r s =>
        if r.ret = success
        then { s with sessions := Function.update s.sessions session ⟨ctx, r.session⟩ } else s
      if out.res = success
      then { out with st := { out.st with sessionMap := out.st.sessionMap.insert ⟨session, fun e => h (.inr e)⟩ } }
      else out

/-- `TEEC_InvokeCommand`. -/
def teecInvokeCommand (s : State) (session : Addr) (cmd : UInt32) (op : Option Operation) : Outcome :=
  if session = 0 then ⟨errorBadParameters, originApi, op, s⟩
  else
    let op := op.map fun o => { o with session }
    let ctx := (s.sessions session).ctx
    exchange s ctx (.invoke (s.contexts ctx).fd (s.sessions session).sessionId cmd) op fun _ s => s

/-- `ut_close_session`. -/
def utCloseSession (s : State) (session : Addr) : State :=
  if session = 0 then s
  else
    let k := s.sessions session
    s.log (.closeSession (s.contexts k.ctx).fd k.sessionId)

/-- `TEEC_CloseSession`. -/
def teecCloseSession (s : State) (session : Addr) : State :=
  if h : session = 0 then s
  else if ⟨session, h⟩ ∈ s.sessionMap then
    let s := utCloseSession s session
    { s with sessionMap := s.sessionMap.erase ⟨session, h⟩ }
  else s

/-! ## Contexts -/

/-- `TEEC_MAX_DEV_SEQ`. -/
def maxDevSeq : Nat := 10

/-- `teec_open_dev`. A device that does not answer as it should is closed again. -/
def teecOpenDev (s : State) : Option Nat × State :=
  let res := s.env.dev s.devs
  let s := { s with devs := s.devs + 1 }
  match res with
  | .missing => (none, s)
  | .refused fd => (none, (s.log (.openDev fd)).log (.close fd))
  | .ready fd => (some fd, s.log (.openDev fd))

/-- The loop of `TEEC_InitializeContext`. -/
def initializeFrom (ctx : Ref) : Nat → State → Result × State
  | 0, s => (errorItemNotFound, s)
  | n + 1, s =>
    match teecOpenDev s with
    | (some fd, s) =>
      (success, { s with
        contexts := Function.update s.contexts ctx ⟨fd⟩, contextMap := s.contextMap.insert ctx })
    | (none, s) => initializeFrom ctx n s

/-- `TEEC_InitializeContext`. -/
def teecInitializeContext (s : State) (ctx : Addr) : Result × State :=
  if h : ctx = 0 then (errorBadParameters, s) else initializeFrom ⟨ctx, h⟩ maxDevSeq s

/-- The session is one of the context. -/
def State.ownedBy (s : State) (ctx : Addr) (session : Ref) : Bool := (s.sessions session).ctx = ctx

/-- The loop of `TEEC_FinalizeContext`; none when the iterator is advanced past
the end. -/
def finalizeSessions (s : State) (ctx : Addr) : Option State :=
  match h : eraseLoop (s.ownedBy ctx) (fun s k => utCloseSession s k.1) s s.sessionMap.keys with
  | none => none
  | some (s', left) => some { s' with sessionMap := s.sessionMap.restrict left (eraseLoop_sublist h) }

/-- What follows the loop: the context is closed and erased if it is there. -/
def dropContext (s : State) (ctx : Addr) : State :=
  if hc : ctx = 0 then s
  else if ⟨ctx, hc⟩ ∈ s.contextMap then
    { s.log (.close (s.contexts ctx).fd) with contextMap := s.contextMap.erase ⟨ctx, hc⟩ }
  else s

/-- `TEEC_FinalizeContext`. -/
def teecFinalizeContext (s : State) (ctx : Addr) : Option State :=
  (finalizeSessions s ctx).map fun s => dropContext s ctx

/-- `~Common`. -/
def destroyCommon (s : State) : State :=
  let s := { eraseAll (fun s k => utCloseSession s k.1) s s.sessionMap.keys with sessionMap := .empty }
  { eraseAll (fun s k => s.log (.close (s.contexts k.1).fd)) s s.contextMap.keys with contextMap := .empty }

/-- A process that has just loaded the library. -/
def State.fresh (env : Env) : State :=
  ⟨env, fun _ => 0, [], fun _ => ⟨0⟩, fun _ => ⟨0, 0⟩, fun _ => {}, .empty, .empty, 0, 0, 0, []⟩

/-- An environment in which every call succeeds. -/
def obliging : Env where
  dev := fun _ => .ready 3
  mmap := fun i => some (0x1000 * (i + 1))
  mmap_ne := by
    intro i a h
    have ha : 0x1000 * (i + 1) = a := Option.some.inj h
    exact ha ▸ Nat.mul_ne_zero (by decide) (Nat.succ_ne_zero i)
  shmId := fun i => i
  tee := fun i => .ok ⟨success, 4, i.toUInt32, fun _ => {}, fun _ => 0⟩

/-- A client that has initialized a context and opened one session in it. -/
def oneSession : State :=
  (teecOpenSession (teecInitializeContext (.fresh obliging) 0x10).2 0x10 0x20 .loginPublic 0 none).st

end Teec
