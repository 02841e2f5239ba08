/-
The way a keymaster command takes to the server in the lite tree
(km4.1/common/beanpod_keymaster_ipc.cpp): a request goes out in chunks, the
answer comes back in frames, and any error on the way resets the connection.

A connection is a queue of messages to the client and, on the server's side,
the chunks of a request that is not complete. A chunk with `KEYMASTER_STOP_BIT`
announces another; one without it completes the request, and the server queues
its answer. Requests are numbered in the order they are completed, and every
message carries the number of the request it answers, for the statements only:
the client does not see it. The environment says how each system call ends, by
the number of the call.
-/
import Microtrust.Keymaster.Errors
import Microtrust.Lib.Reach

namespace LiteKeymaster

open Lib Keymaster

/-- `KEYMASTER_RESP_BIT`. -/
def respBit : UInt32 := 1

/-- `KEYMASTER_STOP_BIT`. -/
def stopBit : UInt32 := 2

/-- `MAX_SEND_BUF_SIZE`. -/
def maxSendBufSize : Nat := 3 * 1024

/-- `KEYMASTER_MAX_BUFFER_LENGTH`. -/
def maxBufferLength : Nat := 4096

/-- `BP_KEYMASTER_SEND_BUF_SIZE` and `BP_KEYMASTER_RECV_BUF_SIZE`. -/
def bufSize : Nat := 17 * maxBufferLength

/-- `sizeof(struct keymaster_message)`. -/
def headerSize : Nat := 4

/-- The command in the header of a message. -/
def headerCmd (m : Bytes) : UInt32 := UInt32.ofNat (leAt m 0 headerSize)

/-- The message has a header with the stop bit. -/
def stops (m : Bytes) : Bool := headerSize ≤ m.length && headerCmd m &&& stopBit != 0

/-! ## The server -/

/-- A request as the server puts it together. -/
structure Request where
  cmd : UInt32
  payload : Bytes
deriving DecidableEq

/-- An answer: messages of which exactly the last has the stop bit. -/
structure Answer where
  before : List Bytes
  last : Bytes
  goesOn : ∀ m ∈ before, stops m = false
  ends : stops last = true

def Answer.messages (a : Answer) : List Bytes := a.before ++ [a.last]

/-- The bytes an answer carries. -/
def Answer.payload (a : Answer) : Bytes := a.messages.flatMap (·.drop headerSize)

/-- How a write ends. A write that fails may have delivered its message. -/
inductive Written where
  | done
  | failed (e : Errno) (delivered : Bool)

structure Env where
  malloc : Nat → Bool
  write : Nat → Written
  readv : Nat → Option Errno
  connect : Nat → Except Errno Nat
  answer : Nat → Request → Answer

/-- One connection. -/
structure Channel where
  chunks : Bytes := []
  queue : List (Nat × Bytes) := []

/-- `handle_`, the connections by descriptor, the requests completed and the
messages read so far, and how often each system call was made. -/
structure State where
  handle : Int := -1
  channels : Nat → Channel := fun _ => {}
  served : List Request := []
  taken : List (Nat × Bytes) := []
  mallocs : Nat := 0
  writes : Nat := 0
  reads : Nat := 0
  connects : Nat := 0

/-- The descriptor behind `handle_`. -/
def State.fd (s : State) : Nat := s.handle.toNat

def State.setChannel (s : State) (ch : Channel) : State :=
  { s with channels := Function.update s.channels s.fd ch }

variable (env : Env)

/-- A message reaches the server. -/
def deliver (s : State) (cmd : UInt32) (payload : Bytes) : State :=
  let ch := s.channels s.fd
  if cmd &&& stopBit ≠ 0 then s.setChannel { ch with chunks := ch.chunks ++ payload }
  else
    let req : Request := ⟨cmd, ch.chunks ++ payload⟩
    let n := s.served.length
    { s.setChannel ⟨[], ch.queue ++ (env.answer n req).messages.map (n, ·)⟩ with served := s.served ++ [req] }

/-! ## The client -/

/-- `bp_keymaster_connect`. A new connection starts empty. -/
def bpKeymasterConnect (s : State) : Int × State :=
  let res := env.connect s.connects
  let s := { s with connects := s.connects + 1 }
  match res with
  | .error e => (e.neg, s)
  | .ok fd => (0, { s with handle := fd, channels := Function.update s.channels fd {} })

/-- `bp_keymaster_disconnect`. What was queued is lost with the connection. -/
def bpKeymasterDisconnect (s : State) : State :=
  let s := if 0 ≤ s.handle then s.setChannel {} else s
  { s with handle := -1 }

/-- One message is allocated and written. -/
def sendMessage (s : State) (cmd : UInt32) (payload : Bytes) : Int × State :=
  let ok := env.malloc s.mallocs
  let s := { s with mallocs := s.mallocs + 1 }
  if !ok then (Errno.neg .EINVAL, s)
  else
    let res := env.write s.writes
    let s := { s with writes := s.writes + 1 }
    match res with
    | .done => (0, deliver env s cmd payload)
    | .failed e delivered => (e.neg, if delivered then deliver env s cmd payload else s)

/-- The loop that sends the request. Every round but the last takes
`MAX_SEND_BUF_SIZE` bytes off it, so its length bounds the rounds. -/
def sendRequest : Nat → State → UInt32 → Bytes → Int × State
  | 0, s, cmd, input => sendMessage env s cmd input
  | n + 1, s, cmd, input =>
    if maxSendBufSize < input.length then
      match sendMessage env s (cmd ||| stopBit) (input.take maxSendBufSize) with
      | (rc, s) => if rc < 0 then (rc, s) else sendRequest n s cmd (input.drop maxSendBufSize)
    else sendMessage env s cmd input

/-- How the loop that reads the answer ends: what it returns, the bytes in the
buffer, the messages it took and the ones it left, and the number of reads. -/
structure ReadEnd where
  rc : Int
  out : Bytes
  taken : List (Nat × Bytes)
  left : List (Nat × Bytes)
  reads : Nat

/-- The loop that reads the answer from a queue. With nothing queued the read
cannot succeed; a message that does not fit is refused and stays. -/
def readResponse (cmd : UInt32) (outMax : Nat) : Nat → List (Nat × Bytes) → Bytes → ReadEnd
  | reads, [], out => ⟨((env.readv reads).getD .EAGAIN).neg, out, [], [], reads + 1⟩
  | reads, m :: queue, out =>
    match env.readv reads with
    | some e => ⟨e.neg, out, [], m :: queue, reads + 1⟩
    | none =>
      if headerSize + min maxBufferLength (outMax - out.length) < m.2.length
      then ⟨Errno.neg .EMSGSIZE, out, [], m :: queue, reads + 1⟩
      else if m.2.length < headerSize then ⟨Errno.neg .EINVAL, out, [m], queue, reads + 1⟩
      else if cmd ||| respBit ≠ headerCmd m.2 &&& ~~~stopBit then ⟨Errno.neg .EINVAL, out, [m], queue, reads + 1⟩
      else
        let out := out ++ m.2.drop headerSize
        if stops m.2 then ⟨m.2.length, out, [m], queue, reads + 1⟩
        else
          let r := readResponse cmd outMax (reads + 1) queue out
          { r with taken := m :: r.taken }

/-- `bp_keymaster_call`. -/
def bpKeymasterCall (s : State) (cmd : UInt32) (input : Bytes) (outMax : Nat) : Int × Bytes × State :=
  if s.handle < 0 then (Errno.neg .EINVAL, [], s)
  else
    match sendRequest env input.length s cmd input with
    | (rc, s) =>
      if rc < 0 then (rc, [], s)
      else
        let ch := s.channels s.fd
        let r := readResponse env cmd outMax s.reads ch.queue []
        (r.rc, r.out, { s.setChannel { ch with queue := r.left } with
          reads := r.reads, taken := s.taken ++ r.taken })

/-- What a command leaves its caller: the error it returns and what it passed to
`Deserialize`. -/
structure Outcome where
  ret : Int
  deserialized : Option Bytes
  st : State

/-- What both forms of the command do: the call, and the reset or the response. -/
def exchange (deserialize : Bytes → Option Int) (s : State) (cmd : UInt32) (input : Bytes) : Outcome :=
  match bpKeymasterCall env s cmd input bufSize with
  | (rc, out, s) =>
    if rc < 0 then
      let (_, s) := bpKeymasterConnect env (bpKeymasterDisconnect s)
      ⟨translateError rc, none, s⟩
    else ⟨(deserialize out).getD kmErrorUnknownError, some out, s⟩

/-- The bytes of a request that are sent: its size is kept in 32 bits. -/
def sentBytes (req : Bytes) : Bytes := req.take (req.length % 2 ^ 32)

/-- `bp_keymaster_send`. -/
def bpKeymasterSend (deserialize : Bytes → Option Int) (s : State) (cmd : UInt32) (req : Bytes) : Outcome :=
  if bufSize < req.length % 2 ^ 32 then ⟨beanpodKmInvalidInputLength, none, s⟩
  else exchange env deserialize s cmd (sentBytes req)

/-- `bp_keymaster_send_no_request`. -/
def bpKeymasterSendNoRequest (deserialize : Bytes → Option Int) (s : State) (cmd : UInt32) : Outcome :=
  exchange env deserialize s cmd []

/-! ## Runs -/

/-- What is called of the file. -/
inductive Op where
  | connect
  | disconnect
  | send (cmd : UInt32) (req : Bytes)
  | sendNoRequest (cmd : UInt32)

def step (deserialize : Bytes → Option Int) (s : State) : Op → State
  | .connect => (bpKeymasterConnect env s).2
  | .disconnect => bpKeymasterDisconnect s
  | .send cmd req => (bpKeymasterSend env deserialize s cmd req).st
  | .sendNoRequest cmd => (bpKeymasterSendNoRequest env deserialize s cmd).st

/-- The states reached from that of a process that has not connected. -/
abbrev Reached (deserialize : Bytes → Option Int) : State → Prop :=
  Reach (step env deserialize) (fun _ _ => True) {}

end LiteKeymaster
