/-
Installing a keybox in the lite tree (kmsetkey/HalAdaptationLayer.cpp and
kmsetkey_ipc.c): the keybox is sent in chunks, each of which the server has to
acknowledge, and only then is the server told to set it.

The server records the length it is told, appends what it receives, and
answers a chunk with `DONE_FLAG` exactly when it has reached that length. Its
answers to the other commands are the environment's, as is how each system
call ends. Every exchange is noted with the state of the server at that time,
for the statements only.
-/
import Microtrust.Lib.Kernel
import Microtrust.Lib.Script

namespace Kmsetkey

open Lib

/-- `enum kmsetkey_cmd`. -/
inductive Cmd where
  | keyLen | keyBuf | setKey | setDecryptKey
deriving DecidableEq

def Cmd.code : Cmd → Nat
  | .keyLen => 0x0
  | .keyBuf => 0x1
  | .setKey => 0x2
  | .setDecryptKey => 0x10

def maxMsgSize : Nat := 4096
def ipcMsgSize : Nat := 16

/-- `sizeof(struct kmsetkey_msg)`. -/
def headerSize : Nat := 4

def respFlag : Nat := 0x80000000
def doneFlag : Nat := 0x40000000

/-- `Input_Ekkb_pub`. -/
def inputEkkbPub : Bytes := [
  0x54, 0xCB, 0xCD, 0xB3, 0xFF, 0xCD, 0xCC, 0xDD, 0xA3, 0xFF, 0x5D, 0x30, 0x95, 0x03, 0x2D, 0x2A,
  0x2A, 0x12, 0xE6, 0x90, 0x0B, 0x3F, 0xF7, 0x85, 0xE5, 0xB3, 0xDD, 0x8E, 0x4B, 0x27, 0x9D, 0x58,
  0xC8, 0x24, 0x7A, 0xB0, 0x83, 0x8B, 0xB1, 0xD4, 0xA4, 0x92, 0x17, 0x0E, 0xF2, 0xCF, 0x19, 0x9A,
  0xAB, 0xCE, 0xFB, 0x68, 0xCB, 0x86, 0x94, 0x6E, 0x16, 0x8E, 0x3D, 0xCC, 0xF8, 0x0C, 0xA6, 0x30,
  0x1C, 0x47, 0xA6, 0xB6, 0x50, 0x2F, 0x68, 0x94, 0x23, 0x0C, 0x62, 0xAF, 0xE1, 0x44, 0xA4, 0x27,
  0xD8, 0x79, 0x05, 0x68, 0x51, 0x89, 0x04, 0x49, 0x61, 0x93, 0x7A, 0xEF, 0xB5, 0xB9, 0x17, 0x72,
  0x28, 0x87, 0xBA, 0x94, 0x4A, 0xB8, 0xF1, 0x46, 0xCF, 0xE7, 0x53, 0x0A, 0x02, 0x5A, 0xEE, 0x59,
  0x47, 0xBE, 0xC2, 0x41, 0x98, 0xD9, 0x5B, 0x17, 0xAF, 0x10, 0x0B, 0xE0, 0x92, 0xBA, 0x65, 0x30,
  0x63, 0x76, 0x94, 0x2A, 0x26, 0x7D, 0x3F, 0x94, 0x2E, 0x9F, 0x06, 0xB8, 0xD3, 0xB0, 0x76, 0xE9,
  0xBD, 0xBA, 0x07, 0x6E, 0xE1, 0x3D, 0x1F, 0xC6, 0xDB, 0x7F, 0x34, 0xC1, 0xB4, 0xED, 0x8B, 0x00,
  0x36, 0xAE, 0x1E, 0xBB, 0x65, 0x81, 0x38, 0x94, 0x77, 0xE2, 0x4E, 0x5C, 0xC1, 0x9F, 0x93, 0x2D,
  0x29, 0xA3, 0x30, 0x29, 0xF7, 0xEC, 0xFC, 0xCC, 0x87, 0x3F, 0xFA, 0x09, 0xAD, 0x1E, 0xE5, 0xAF,
  0x4E, 0xCF, 0x0E, 0x44, 0x8C, 0xE3, 0xBF, 0x8D, 0x5B, 0xEB, 0xD6, 0xA0, 0xEA, 0xC6, 0xBF, 0xB1,
  0x56, 0xD5, 0xC9, 0xE6, 0xB8, 0xE1, 0xB9, 0x94, 0x85, 0xAD, 0x38, 0x38, 0xDD, 0xE2, 0x57, 0xCC,
  0xFE, 0xED, 0xF0, 0x2A, 0x10, 0xB6, 0x8E, 0x3C, 0xA2, 0x4D, 0x97, 0x60, 0x3E, 0xEC, 0x92, 0xE2,
  0xC1, 0x72, 0xB6, 0x38, 0xE2, 0xC0, 0xA8, 0xCA, 0xD6, 0xEB, 0x0C, 0x35, 0xE9, 0x3E, 0x8D, 0x91]

/-- `InputPkb`. -/
def inputPkb : Bytes := [
  0x00,
  0x05, 0x14, 0x24, 0x14, 0x2F, 0xE1, 0xFC, 0x61, 0xB1, 0x0B, 0x97, 0xAF, 0x5C, 0x66, 0xB0, 0xF6,
  0x15, 0x26, 0xF6, 0x1C, 0x96, 0xC8, 0xBA, 0x96, 0x77, 0xD5, 0x4E, 0xFB, 0xA4, 0x91, 0xFD, 0xFB,
  0x16, 0x33, 0xED, 0x6E, 0xCC, 0x41, 0x0F, 0xCF, 0xC2, 0x94, 0xC2, 0x64, 0x1C, 0xFA, 0x12, 0x66,
  0x04, 0xE3, 0x4C, 0xF0, 0xB4, 0x5F, 0x15, 0x4B, 0xDB, 0xF4, 0x29, 0x1F, 0x98, 0xD3, 0xF5, 0x4E,
  0xA8, 0xD2, 0xA1, 0x0E, 0x8B, 0x59, 0xBF, 0x17, 0xDE, 0xB7, 0xA7, 0x50, 0x02, 0x2F, 0x14, 0x9C,
  0x7A, 0xE5, 0x24, 0x6D, 0x0E, 0x9F, 0xDE, 0x45, 0x4D, 0x6A, 0x75, 0x06, 0xB3, 0xDA, 0x88, 0x86,
  0x8D, 0xA6, 0x11, 0x43, 0xA8, 0x17, 0xA9, 0x6F, 0x70, 0x27, 0x01, 0xDA, 0xFA, 0xAF, 0xF6, 0xA8,
  0x47, 0xEC, 0xEF, 0x29, 0x66, 0x4E, 0xA8, 0x7C, 0x99, 0xFA, 0x40, 0xB8, 0xD4, 0x8A, 0x2C, 0xB1]

/-! ## The server -/

structure Request where
  cmd : Cmd
  payload : Bytes

/-- What the server keeps for a connection. -/
structure Server where
  declared : Nat := 0
  received : Bytes := []

def Server.step (srv : Server) (req : Request) : Server :=
  match req.cmd with
  | .keyLen => { srv with declared := le req.payload }
  | .keyBuf => { srv with received := srv.received ++ req.payload }
  | _ => srv

/-- The header of an answer that has, or has not, `DONE_FLAG`. -/
def ackCode (cmd : Cmd) (finish : Bool) : Nat :=
  if finish then cmd.code ||| respFlag ||| doneFlag else cmd.code ||| respFlag

/-- How a write ends. A write that fails may have delivered its message. -/
inductive Written where
  | done
  | failed (e : Errno) (delivered : Bool)

structure Env where
  connect : Except Errno Nat
  alloc : Nat → Bool
  write : Nat → Written
  read : Nat → Option Errno
  /-- An answer, or for a chunk what follows the header of the answer. -/
  reply : Nat → Request → Bytes

/-- The answer to a request that took the server to `srv`. -/
def answer (env : Env) (n : Nat) (srv : Server) (req : Request) : Bytes :=
  match req.cmd with
  | .keyBuf => leBytes 4 (ackCode .keyBuf (srv.declared ≤ srv.received.length)) ++ env.reply n req
  | _ => env.reply n req

/-! ## The client -/

/-- What `kmsetkey_call` is called with. -/
structure Call where
  cmd : Cmd
  finish : Bool
  payload : Bytes

/-- A call that got to its write: the server as it was, and the answer that was
read. -/
abbrev Exchange := Entry Server Call (Option Bytes)

/-- The connection, the answers on their way, the server, how often each
system call was made, and what was exchanged. -/
structure State where
  handle : Nat := 0
  queue : List Bytes := []
  server : Server := {}
  allocs : Nat := 0
  writes : Nat := 0
  reads : Nat := 0
  log : List Exchange := []

variable (env : Env)

def alloc (s : State) : Bool × State := (env.alloc s.allocs, { s with allocs := s.allocs + 1 })

/-- A request reaches the server, which answers. -/
def deliver (s : State) (req : Request) : State :=
  let srv := s.server.step req
  { s with server := srv, queue := s.queue ++ [answer env s.writes srv req] }

def write (s : State) (req : Request) : Option Errno × State :=
  let res := env.write s.writes
  let s := { s with writes := s.writes + 1 }
  match res with
  | .done => (none, deliver env s req)
  | .failed e delivered => (some e, if delivered then deliver env s req else s)

/-- `read` of an answer into a buffer of `MAX_MSG_SIZE`. One that does not fit
cannot be read, and with nothing on its way the read cannot succeed. -/
def read (s : State) : Except Errno Bytes × State :=
  let res := env.read s.reads
  let s := { s with reads := s.reads + 1 }
  match res, s.queue with
  | some e, _ => (.error e, s)
  | none, [] => (.error .EAGAIN, s)
  | none, m :: queue => if maxMsgSize < m.length then (.error .EMSGSIZE, s) else (.ok m, { s with queue })

def note (s : State) (x : Exchange) : State := { s with log := s.log ++ [x] }

/-- `kmsetkey_call`. -/
def kmsetkeyCall (s : State) (cmd : Cmd) (finish : Bool) (input : Bytes) : Int × State :=
  if s.handle ≤ 0 then (Errno.EINVAL.neg, s)
  else
    let before := s.server
    match alloc env s with
    | (false, s) => (Errno.ENOMEM.neg, s)
    | (true, s) =>
      match write env s ⟨cmd, input⟩ with
      | (some e, s) => (e.neg, note s ⟨⟨cmd, finish, input⟩, before, none⟩)
      | (none, s) =>
        match read env s with
        | (.error e, s) => (e.neg, note s ⟨⟨cmd, finish, input⟩, before, none⟩)
        | (.ok out, s) =>
          let s := note s ⟨⟨cmd, finish, input⟩, before, some out⟩
          if out.length < headerSize then (Errno.EINVAL.neg, s)
          else if leAt out 0 4 ≠ ackCode cmd finish then (Errno.EINVAL.neg, s)
          else (0, s)

/-- `decrypt_key_install`. -/
def decryptKeyInstall (s : State) : Int × State :=
  match alloc env s with
  | (false, s) => (-1, s)
  | (true, s) => kmsetkeyCall env s .setDecryptKey true (inputEkkbPub ++ inputPkb)

/-- A keybox: its length is a `uint32_t`. -/
abbrev Keybox := { peakb : Bytes // peakb.length < 2 ^ 32 }

/-- `payload_len`: what is left, or as much as fits a message. -/
def payloadLen (len offset : Nat) : Nat :=
  if len - offset < maxMsgSize - ipcMsgSize - headerSize then len - offset
  else maxMsgSize - ipcMsgSize - headerSize

/-- The next `payload_offset`, in 32 bits. -/
def nextOffset (len offset : Nat) : Nat := (offset + payloadLen len offset) % 2 ^ 32

theorem payloadLen_le {len offset : Nat} (h : offset < len) :
    0 < payloadLen len offset ∧ offset + payloadLen len offset ≤ len := by
  unfold payloadLen maxMsgSize ipcMsgSize headerSize
  split <;> omega

theorem nextOffset_eq {len offset : Nat} (hlen : len < 2 ^ 32) (h : offset < len) :
    nextOffset len offset = offset + payloadLen len offset := by
  have hle := payloadLen_le h
  exact Nat.mod_eq_of_lt (by omega)

/-- The loop over the chunks. It ends because every chunk has a byte. -/
def keyBufLoop (peakb : Keybox) (offset : Nat) (s : State) : Int × State :=
  if _h : offset < peakb.1.length then
    let len := payloadLen peakb.1.length offset
    let next := nextOffset peakb.1.length offset
    let finish := if next < peakb.1.length then false else true
    match kmsetkeyCall env s .keyBuf finish ((peakb.1.drop offset).take len) with
    | (rc, s) => if rc < 0 then (rc, s) else keyBufLoop peakb next s
  else (0, s)
termination_by peakb.1.length - offset
decreasing_by
  have hle := payloadLen_le _h
  have hnext := nextOffset_eq peakb.2 _h
  omega

/-- `kmsetkey_disconnect`, and the value to return. -/
def exit (rc : Int) (s : State) : Int × State := (if rc < 0 then rc else 0, { s with handle := 0 })

/-- `HalAdaptationLayer::attest_key_install`. -/
def attestKeyInstall (peakb : Keybox) : Int × State :=
  match env.connect with
  | .error e => (e.neg, {})
  | .ok handle =>
    match decryptKeyInstall env { handle } with
    | (rc, s) =>
      if rc < 0 then exit rc s
      else match kmsetkeyCall env s .keyLen true (leBytes 4 peakb.1.length) with
        | (rc, s) =>
          if rc < 0 then exit rc s
          else match keyBufLoop env peakb 0 s with
            | (rc, s) =>
              if rc < 0 then exit rc s
              else match kmsetkeyCall env s .setKey true [] with
                | (rc, s) => exit rc s

end Kmsetkey
