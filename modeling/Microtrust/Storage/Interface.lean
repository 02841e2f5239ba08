/-
The storage proxy's protocol (`microtrust/interface/storage.h`): commands,
result codes, flags and the message header, and the state of a running
proxy.
-/
import Microtrust.Lib.Kernel

namespace Storage

open Lib

/-- `enum storage_cmd`, the commands `handle_req` switches on. -/
inductive Cmd where
  | fileDelete | fileOpen | fileClose | fileRead | fileWrite | fileGetSize | fileSetSize
  | rpmbSend | initOk | initProinfoOk | initPersistOk
deriving DecidableEq

def Cmd.code : Cmd → UInt32
  | .fileDelete => 2
  | .fileOpen => 4
  | .fileClose => 6
  | .fileRead => 8
  | .fileWrite => 10
  | .fileGetSize => 12
  | .fileSetSize => 14
  | .rpmbSend => 16
  | .initOk => 40
  | .initProinfoOk => 42
  | .initPersistOk => 44

def Cmd.all : List Cmd :=
  [.fileDelete, .fileOpen, .fileClose, .fileRead, .fileWrite, .fileGetSize, .fileSetSize,
    .rpmbSend, .initOk, .initProinfoOk, .initPersistOk]

/-- The command of a code; none for a code the switch does not list. -/
def Cmd.ofCode (n : UInt32) : Option Cmd := Cmd.all.find? fun c => c.code == n

/-- `STORAGE_RESP_BIT`. -/
def respBit : UInt32 := 1

/-- `enum storage_err`. -/
inductive Err where
  | noError | generic | notValid | unimplemented | access | notFound | exist | transact
deriving DecidableEq

def Err.code : Err → Int
  | .noError => 0
  | .generic => 1
  | .notValid => 2
  | .unimplemented => 3
  | .access => 4
  | .notFound => 5
  | .exist => 6
  | .transact => 7

/-! `enum storage_msg_flag`. -/

def flagPreCommit : UInt32 := 0x2
def flagPostCommit : UInt32 := 0x4

/-! `enum storage_file_open_flag`, by the bit that is shifted. -/

def openCreate : Nat := 0
def openCreateExclusive : Nat := 1
def openTruncate : Nat := 2
def openPersistentFile : Nat := 3
def openProinfoFile : Nat := 4
def openVfs : Nat := 5

/-- `struct storage_msg`, without its payload. -/
structure Msg where
  cmd : UInt32
  opId : UInt32
  flags : UInt32
  size : UInt32
  result : Int
  reserved : UInt32
deriving DecidableEq

def Msg.answer (msg : Msg) (e : Err) : Msg := { msg with result := e.code }

def Msg.preCommit (msg : Msg) : Bool := msg.flags &&& flagPreCommit != 0
def Msg.postCommit (msg : Msg) : Bool := msg.flags &&& flagPostCommit != 0

/-- `enum sync_state`. -/
inductive SyncState where
  | unused | clean | dirty
deriving DecidableEq

def fdTblSize : Nat := 64
def maxReadSize : Nat := 4096
def reqBufferSize : Nat := 4096 * 16

/-- The widths the build leaves open. -/
structure Abi where
  sizeBits : Nat
  offBits : Nat

/-- The roots of storage.c: descriptors and names, set once at the start. -/
structure Roots where
  ssdirFd : Int := -1
  ssdirName : Option Bytes := none
  ssPersistentDirFd : Int := -1
  ssPersistentDirName : Option Bytes := none
  ssProinfoNodeFd : Int := -1
  /-- `PRO_NODE`, fixed by the build. -/
  ssProinfoName : Bytes

/-- What storage.c notes as not yet synced. -/
structure Marks where
  fsState : SyncState := .clean
  dirState : SyncState := .clean
  fdState : Nat → SyncState := fun _ => .clean

/-- The static variables of storage.c, rpmb.c, ipc.c and proxy.c, with the
values they have before `main` runs. -/
structure Statics where
  roots : Roots
  marks : Marks := {}
  readRsp : Bytes := List.replicate maxReadSize 0
  rpmbFd : Int := -1
  readBuf : Bytes := List.replicate maxReadSize 0
  tipcFd : Int := -1
  reqBuffer : Bytes := List.replicate (reqBufferSize + 1) 0

/-- One `struct mmc_ioc_cmd`. A write names the bytes it sends and where in
the request they start; a read names none. -/
structure MmcCmd where
  writeFlag : UInt32
  opcode : Nat
  flags : UInt32
  blksz : Nat
  blocks : Nat
  src : Option Nat
  data : Bytes
deriving DecidableEq

/-- A call of `ipc_respond`: the header and payload handed to `writev`, and
what it returned. -/
structure Resp where
  msg : Msg
  out : Option Bytes
  rc : Int
deriving DecidableEq

/-- A running proxy: its variables, the kernel under it, the environment's
answers (call by call), what the MMC device would read out, and what the
proxy has sent: responses, MMC commands, system properties. -/
structure World where
  env : Nat → Syscall → Reply
  now : Nat
  mmcRead : Nat → Bytes
  abi : Abi
  kern : Kernel
  st : Statics
  sent : List Resp
  mmc : List (List MmcCmd)
  props : List (String × String)

namespace World

def setMarks (w : World) (m : Marks) : World := { w with st := { w.st with marks := m } }

/-- A system call: the environment answers it, the kernel carries it out. -/
def sys {α} (w : World) (c : Syscall) (f : Reply → Kernel → α × Kernel) : α × World :=
  let (a, k) := f (w.env w.now c) w.kern
  (a, { w with kern := k, now := w.now + 1 })

def openPath (w : World) (path : Bytes) (fl : OpenFlags) : Except Errno Nat × World :=
  w.sys (.open path) fun r k => k.openPath r path fl

def close (w : World) (fd : Int) : Except Errno Unit × World :=
  w.sys (.close fd) fun r k => k.close r fd

def pread (w : World) (fd : Int) (len : Nat) (off : Int) : Except Errno Bytes × World :=
  w.sys (.pread fd len off) fun r k => (k.pread r fd len off, k)

def pwrite (w : World) (fd : Int) (buf : Bytes) (off : Int) : Except Errno Nat × World :=
  w.sys (.pwrite fd buf.length off) fun r k => k.pwrite r fd buf off

def ftruncate (w : World) (fd : Int) (len : Int) : Except Errno Unit × World :=
  w.sys (.ftruncate fd len) fun r k => k.ftruncate r fd len

def fstat (w : World) (fd : Int) : Except Errno Nat × World :=
  w.sys (.fstat fd) fun r k => (k.fstat r fd, k)

def fsync (w : World) (fd : Int) : Except Errno Unit × World :=
  w.sys (.fsync fd) fun r k => k.fsync r fd

def syncfs (w : World) (fd : Int) : Except Errno Unit × World :=
  w.sys (.syncfs fd) fun r k => k.syncfs r fd

def unlink (w : World) (path : Bytes) : Except Errno Unit × World :=
  w.sys (.unlink path) fun r k => k.unlink r path

def mkdir (w : World) (path : Bytes) : Except Errno Unit × World :=
  w.sys (.mkdir path) fun r k => k.mkdir r path

/-- An allocation of `size` bytes (`malloc`, `asprintf`). -/
def alloc (w : World) (size : Nat) : Bool × World :=
  w.sys (.alloc size) fun r k => (r.toBool, k)

/-- A call on a descriptor whose effect is outside the kernel modelled here. -/
def touch (w : World) (c : Syscall) (fd : Int) : Bool × World :=
  w.sys c fun r k => ((k.desc fd).isSome && r.toBool, k)

end World

end Storage
