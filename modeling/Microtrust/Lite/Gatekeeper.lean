/-
The gatekeeper device of the lite tree (gatekeeper/trusty_gatekeeper.cpp and
trusty_gatekeeper_ipc.c): each call writes a request to the one connection and
reads one reply from it.

The connection is a queue of replies. The server queues one reply for each
request it receives; a read that fails leaves the queue as it is. Requests are
numbered in the order they are received, and a reply carries the number of the
request it answers, for the statements only: the client does not see it. The
environment says how each system call ends, by the number of the call. How the
messages are serialized is up to the gatekeeper library (`Codec`).
-/
import Microtrust.Lib.Kernel
import Microtrust.Lib.Reach

namespace LiteGatekeeper

open Lib

/-- `SEND_BUF_SIZE` and `RECV_BUF_SIZE`. -/
def bufSize : Nat := 8192

/-- `sizeof(struct gatekeeper_message)`. -/
def headerSize : Nat := 4

/-- `GK_RESP_BIT`. -/
def respBit : Nat := 1

/-! ## Calls and reports -/

/-- The calls of the device. -/
inductive Op where
  | enroll (uid : UInt32) (currentPasswordHandle currentPassword desiredPassword : Bytes)
  | verify (uid : UInt32) (challenge : UInt64) (enrolledPasswordHandle providedPassword : Bytes)

/-- `GK_ENROLL`, `GK_VERIFY`. -/
def Op.command : Op → Nat
  | .enroll .. => 0
  | .verify .. => 2

/-- The argument that may not be empty. -/
def Op.missing : Op → Bool
  | .enroll _ _ _ desiredPassword => desiredPassword.isEmpty
  | .verify _ _ enrolledPasswordHandle _ => enrolledPasswordHandle.isEmpty

/-- What the library reads from a reply: the error in it, the timeout, whether
to enrol again, and the new handle or the token. -/
structure Response where
  error : Nat
  retryTimeout : UInt32
  requestReenroll : Bool
  data : Bytes

/-- `ERROR_NONE` and `ERROR_RETRY`. -/
def errorNone : Nat := 0
def errorRetry : Nat := 2

structure Codec where
  serialize : Op → Bytes
  deserialize : Nat → Bytes → Option Response

/-- What the caller is told. -/
inductive Report where
  | generalFailure
  | retryTimeout (timeout : UInt32)
  | ok (timeout : UInt32) (data : Bytes)
  | reenroll (timeout : UInt32) (token : Bytes)
deriving DecidableEq

/-- How a response is reported; only a verification looks at the request to
enrol again. -/
def reportResponse (op : Op) (r : Response) : Report :=
  if r.error = errorRetry then .retryTimeout r.retryTimeout
  else if r.error ≠ errorNone then .generalFailure
  else
    match op with
    | .enroll .. => .ok r.retryTimeout r.data
    | .verify .. => if r.requestReenroll then .reenroll r.retryTimeout r.data else .ok r.retryTimeout r.data

/-! ## The connection -/

/-- A request as the server receives it. -/
structure Request where
  cmd : Nat
  payload : Bytes

/-- How a write ends. A write that fails may have delivered its message. -/
inductive Written where
  | done
  | failed (e : Errno) (delivered : Bool)

structure Env where
  connect : Except Errno Nat
  write : Nat → Written
  read : Nat → Option Errno
  reply : Nat → Request → Bytes

/-- `handle_`, the device's `error_`, the replies on their way, the requests
received, and how often each system call was made. -/
structure State where
  handle : Nat := 0
  error : Int := 0
  queue : List (Nat × Bytes) := []
  received : List Request := []
  writes : Nat := 0
  reads : Nat := 0

variable (codec : Codec) (env : Env)

/-- `TrustyGateKeeperDevice::TrustyGateKeeperDevice`. -/
def start : State :=
  match env.connect with
  | .error e => { error := e.neg }
  | .ok fd => { handle := fd }

/-- A request reaches the server, which replies. -/
def receive (s : State) (req : Request) : State :=
  { s with
    queue := s.queue ++ [(s.received.length, env.reply s.received.length req)]
    received := s.received ++ [req] }

/-- `write`. -/
def write (s : State) (req : Request) : Option Errno × State :=
  let res := env.write s.writes
  let s := { s with writes := s.writes + 1 }
  match res with
  | .done => (none, receive env s req)
  | .failed e delivered => (some e, if delivered then receive env s req else s)

/-- `read` of a reply into a buffer. One that does not fit cannot be read, and
with nothing queued the read cannot succeed. -/
def read (s : State) : Except Errno (Nat × Bytes) × State :=
  let res := env.read s.reads
  let s := { s with reads := s.reads + 1 }
  match res, s.queue with
  | some e, _ => (.error e, s)
  | none, [] => (.error .EAGAIN, s)
  | none, m :: queue =>
    if bufSize < m.2.length then (.error .EMSGSIZE, s) else (.ok m, { s with queue })

/-! ## The calls -/

/-- `trusty_gatekeeper_call`: the return code and the reply in the buffer. -/
def trustyGatekeeperCall (s : State) (req : Request) : Int × Option (Nat × Bytes) × State :=
  if s.handle = 0 then (Errno.neg .EINVAL, none, s)
  else
    match write env s req with
    | (some e, s) => (e.neg, none, s)
    | (none, s) =>
      match read env s with
      | (.error e, s) => (e.neg, none, s)
      | (.ok m, s) =>
        if m.2.length < headerSize then (Errno.neg .EINVAL, none, s)
        else if req.cmd ||| respBit ≠ leAt m.2 0 headerSize then (Errno.neg .EINVAL, none, s)
        else (m.2.length, some m, s)

/-- What a call of the device leaves: the report, and the reply it was made from. -/
structure Outcome where
  report : Report
  reply : Option (Nat × Bytes)
  st : State

/-- `TrustyGateKeeperDevice::enroll` and `TrustyGateKeeperDevice::verify`, with
`TrustyGateKeeperDevice::Send`. -/
def call (s : State) (op : Op) : Outcome :=
  if s.error ≠ 0 then ⟨.generalFailure, none, s⟩
  else if op.missing then ⟨.generalFailure, none, s⟩
  else if bufSize < (codec.serialize op).length then ⟨.generalFailure, none, s⟩
  else
    match trustyGatekeeperCall env s ⟨op.command, codec.serialize op⟩ with
    | (rc, reply, s) =>
      if rc < 0 then ⟨.generalFailure, none, s⟩
      else
        match (reply.bind fun m => codec.deserialize op.command (m.2.drop headerSize)) with
        | none => ⟨.generalFailure, reply, s⟩
        | some r => ⟨reportResponse op r, reply, s⟩

/-- The device taking one call after another. -/
def step (s : State) (op : Op) : State := (call codec env s op).st

end LiteGatekeeper
