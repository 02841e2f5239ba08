/-
The way a keymaster command takes to the TA in the 400 tree
(km4.1/common/beanpod_keymaster_ipc.cpp and its copy in keymint1.0/common).

The environment says how each call of the TEE client library ends, by the
number of the attempt. The receive buffer on the stack is not initialised: what
it holds before the copy is an argument of the functions that have it. A copy
that does not fit it has no defined result, and the command then returns
nothing.
-/
import Microtrust.Keymaster.Errors

namespace Keymaster

open Lib

/-- The two copies of the file: the size of the buffers
(`KEYMASTER_MAX_BUFFER_LENGTH`), and whether a failed allocation ends
`bp_keymaster_connect`. -/
structure Variant where
  bufferLength : Nat
  stopsOnFailedAlloc : Bool

def km41 : Variant := ⟨1024 * 70, false⟩
def keymint10 : Variant := ⟨1024 * 140, true⟩

/-! ## The environment and the state -/

/-- What an invocation leaves: the TEEC result, the status the TA left in the
first parameter, the size in the output reference, and the output buffer. -/
structure Invoked (v : Variant) where
  result : UInt32
  status : UInt32
  size : UInt64
  output : Bytes
  fits : output.length = v.bufferLength

/-- The size as it is stored in `*out_size`. -/
def Invoked.outSize {v : Variant} (r : Invoked v) : Nat := r.size.toNat % 2 ^ 32

/-- How the calls of one `bp_keymaster_connect` end. An allocation that
succeeds has a buffer. -/
structure Connecting where
  contextResult : UInt32
  fd : Int
  sessionResult : UInt32
  allocInput : Bool
  allocOutput : Bool

structure Env (v : Variant) where
  connect : Nat → Connecting
  invoke : Nat → Invoked v

/-- The calls made of the TEE client library. -/
inductive Call where
  | initializeContext | openSession
  | allocateInput | allocateOutput
  | releaseInput | releaseOutput
  | closeSession | finalizeContext
  | invoke (cmd : UInt32) (input : Option Bytes)
deriving DecidableEq

/-- `handle_`, and how often the library was asked to connect and to invoke. -/
structure State where
  handle : Int := -1
  connects : Nat := 0
  invokes : Nat := 0
  calls : List Call := []
deriving DecidableEq

def State.log (s : State) (cs : List Call) : State := { s with calls := s.calls ++ cs }

variable {v : Variant}

/-- A `TEEC_Result` in an `int`. -/
def asInt (n : UInt32) : Int := toInt32 n.toNat

theorem asInt_zero : asInt 0 = 0 := rfl

theorem asInt_eq_zero {n : UInt32} : asInt n = 0 ↔ n = 0 := toInt32_eq_zero

theorem asInt_neg {n : UInt32} : asInt n < 0 ↔ 2 ^ 31 ≤ n.toNat := by
  constructor
  · intro h
    by_contra hsmall
    unfold asInt at h
    rw [toInt32_of_lt (by omega)] at h
    omega
  · exact fun h => toInt32_neg h n.toNat_lt

/-- `bp_keymaster_connect`. -/
def bpKeymasterConnect (env : Env v) (s : State) : Int × State :=
  if 0 < s.handle then (0, s)
  else
    let c := env.connect s.connects
    let s := { s with connects := s.connects + 1 }.log [.initializeContext]
    if c.contextResult ≠ 0 then (asInt c.contextResult, s)
    else
      let s := s.log [.openSession]
      if c.sessionResult ≠ 0 then (asInt c.sessionResult, s.log [.finalizeContext])
      else
        let s := s.log [.allocateInput]
        let s := if c.allocInput then s else s.log [.closeSession, .finalizeContext]
        if !c.allocInput && v.stopsOnFailedAlloc then (-1, s)
        else
          let s := s.log [.allocateOutput]
          let s := if c.allocOutput then s else s.log [.releaseInput, .closeSession, .finalizeContext]
          if !c.allocOutput && v.stopsOnFailedAlloc then (-1, s)
          else (0, { s with handle := c.fd })

/-- `bp_keymaster_disconnect`. -/
def bpKeymasterDisconnect (s : State) : State :=
  let s := if 0 < s.handle
    then s.log [.releaseOutput, .releaseInput, .closeSession, .finalizeContext] else s
  { s with handle := -1 }

/-! ## A command -/

/-- The receive buffer and the size stored through `out_size`; none for a copy
that leaves the buffer. -/
structure Received where
  buf : Bytes
  size : Nat

/-- What both forms of `bp_keymaster_call` end with: the invocation, the two
tests of its outcome, and the copy. Only an invocation with a value for its
first parameter brings back a status. -/
def invoke (env : Env v) (s : State) (cmd : UInt32) (input : Option Bytes) (out : Received) :
    Int × Option Received × State :=
  let r := env.invoke s.invokes
  let status := if input.isSome then r.status else 0
  let s := { s with invokes := s.invokes + 1 }.log [.invoke cmd input]
  let rc := asInt r.result
  if rc ≠ 0 then (rc, some out, s)
  else if status ≠ 0 then (asInt status, some out, s)
  else
    if v.bufferLength < r.outSize then (rc, none, s)
    else (rc, some ⟨r.output.take r.outSize ++ out.buf.drop r.outSize, r.outSize⟩, s)

/-- `bp_keymaster_call` with a request. -/
def bpKeymasterCall (env : Env v) (s : State) (cmd : UInt32) (input : Bytes) (out : Received) :
    Int × Option Received × State :=
  if s.handle < 0 then (Errno.neg .EINVAL, some out, s)
  else if v.bufferLength < input.length ∨ v.bufferLength < out.size
  then (kmErrorInvalidInputLength, some out, s)
  else invoke env s cmd (some input) out

/-- `bp_keymaster_call` without one. -/
def bpKeymasterCallNoRequest (env : Env v) (s : State) (cmd : UInt32) (out : Received) :
    Int × Option Received × State :=
  if s.handle < 0 then (Errno.neg .EINVAL, some out, s)
  else invoke env s cmd none out

/-- What a command leaves its caller: the error it returns, if it returns, and
what it passed to `Deserialize`. -/
structure Outcome where
  ret : Option Int
  deserialized : Option Bytes
  st : State

/-- What both forms of the command do after the call. `deserialize` gives the
error in the response, or none for a response it does not accept. -/
def finish (env : Env v) (deserialize : Bytes → Option Int) (r : Int × Option Received × State) : Outcome :=
  let (rc, received, s) := r
  match received with
  | none => ⟨none, none, s⟩
  | some received =>
    if rc < 0 then
      -- the connection is reset
      let (_, s) := bpKeymasterConnect env (bpKeymasterDisconnect s)
      ⟨some (translateError rc), none, s⟩
    else
      let rsp := received.buf.take received.size
      ⟨some ((deserialize rsp).getD kmErrorUnknownError), some rsp, s⟩

/-- `bp_keymaster_send`. `stack` is what the receive buffer holds at first. -/
def bpKeymasterSend (env : Env v) (deserialize : Bytes → Option Int) (s : State) (cmd : UInt32)
    (req stack : Bytes) : Outcome :=
  let reqSize := req.length % 2 ^ 32
  if v.bufferLength < reqSize then ⟨some beanpodKmInvalidInputLength, none, s⟩
  else finish env deserialize (bpKeymasterCall env s cmd (req.take reqSize) ⟨stack, v.bufferLength⟩)

/-- `bp_keymaster_send_no_request`. -/
def bpKeymasterSendNoRequest (env : Env v) (deserialize : Bytes → Option Int) (s : State) (cmd : UInt32)
    (stack : Bytes) : Outcome :=
  finish env deserialize (bpKeymasterCallNoRequest env s cmd ⟨stack, v.bufferLength⟩)

end Keymaster
