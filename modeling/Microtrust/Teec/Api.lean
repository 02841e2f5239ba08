/-
The TEE client library (libteec/src/tee_client_api.cpp): contexts, sessions,
shared memory and the processing of an operation's four parameters.

Memory is flat; a pointer is a number and 0 is null. The structures a client
passes by pointer live in tables of their own (`contexts`, `sessions`,
`blocks`), an operation is passed by value. The environment decides what
`mmap`, the shared-memory ioctls and the TEE answer, each by the number of
the call. Every call that acquires or gives back a resource is logged.
-/
import Microtrust.Lib.Kernel
import Microtrust.Lib.KeySet

namespace Teec

open Lib

abbrev Addr := Nat

/-- A pointer that is not null. -/
abbrev Ref := {a : Addr // a ≠ 0}

/-! ## The types of tee_client_api.h -/

/-- `TEEC_Result`. -/
abbrev Result := UInt32

def success : Result := 0
def errorGeneric : Result := 0xFFFF0000
def errorBadParameters : Result := 0xFFFF0006
def errorItemNotFound : Result := 0xFFFF0008
def errorNotSupported : Result := 0xFFFF000A
def errorOutOfMemory : Result := 0xFFFF000C

def originApi : UInt32 := 1
def originComms : UInt32 := 2

def memInput : UInt32 := 1
def memOutput : UInt32 := 2

/-- `TEEC_Context`. -/
structure Context where
  fd : Int
deriving DecidableEq

/-- `TEEC_Session`. -/
structure Session where
  ctx : Addr
  sessionId : UInt32
deriving DecidableEq

/-- `TEEC_SharedMemory`. -/
structure SharedMemory where
  buffer : Addr := 0
  size : UInt64 := 0
  flags : UInt32 := 0
  id : Int := 0
  allocedSize : UInt64 := 0
  shadowBuffer : Addr := 0
  registeredFd : Int := 0
deriving DecidableEq

/-- `TEEC_TempMemoryReference`. -/
structure TempMemoryReference where
  buffer : Addr
  size : UInt64

/-- `TEEC_RegisteredMemoryReference`. -/
structure RegisteredMemoryReference where
  parent : Addr
  size : UInt64
  offset : UInt64

/-- `TEEC_Value`. -/
structure Value where
  a : UInt32
  b : UInt32

/-- `TEEC_Parameter`. The parameter's type says which member of the union is
used; no function looks at another. -/
structure Parameter where
  tmpref : TempMemoryReference := ⟨0, 0⟩
  memref : RegisteredMemoryReference := ⟨0, 0, 0⟩
  value : Value := ⟨0, 0⟩

/-- The types of a parameter. -/
inductive ParamType where
  | none
  | valueInput | valueOutput | valueInout
  | tempInput | tempOutput | tempInout
  | whole
  | partialInput | partialOutput | partialInout
deriving DecidableEq

def ParamType.ofCode : Nat → Option ParamType
  | 0 => some .none
  | 1 => some .valueInput
  | 2 => some .valueOutput
  | 3 => some .valueInout
  | 5 => some .tempInput
  | 6 => some .tempOutput
  | 7 => some .tempInout
  | 12 => some .whole
  | 13 => some .partialInput
  | 14 => some .partialOutput
  | 15 => some .partialInout
  | _ => Option.none

/-- `TEEC_CONFIG_PAYLOAD_REF_COUNT`. -/
def payloadRefCount : Nat := 4

/-- `TEEC_Operation`. -/
structure Operation where
  paramTypes : UInt32
  params : Nat → Parameter
  session : Addr := 0

/-- `TEEC_PARAM_TYPE_GET`; none for a code that is no type. -/
def Operation.type (op : Operation) (n : Nat) : Option ParamType :=
  ParamType.ofCode ((op.paramTypes.toNat >>> (n * 4)) &&& 0xF)

/-- `struct tee_ioctl_param`: the attribute and the three words of the union
(`shm_offs`, `size`, `shm_id`, or the values `a`, `b`, `c`). -/
structure IoctlParam where
  attr : UInt64 := 0
  u₀ : UInt64 := 0
  u₁ : UInt64 := 0
  u₂ : UInt64 := 0
deriving DecidableEq

def attrMemrefInput : UInt64 := 5
def attrMemrefOutput : UInt64 := 6
def attrMemrefInout : UInt64 := 7

/-- An `int` stored in a 64-bit word. -/
def word (n : Int) : UInt64 := UInt64.ofInt n

/-! ## The process -/

/-- What the TEE answers to an open or an invoke: the argument block it
leaves, and what it wrote to shared memory. -/
structure Reply where
  ret : Result
  retOrigin : UInt32
  session : UInt32
  params : Nat → IoctlParam
  shared : Addr → UInt8

/-- How an attempt to open a TEE device ends. -/
inductive DevOutcome where
  | missing
  | refused (fd : Nat)
  | ready (fd : Nat)
deriving DecidableEq

/-- The environment: the devices, and by the number of the allocation or of
the call what `mmap`, `TEE_IOC_SHM_ID` and the TEE answer. -/
structure Env where
  dev : Nat → DevOutcome
  mmap : Nat → Option Addr
  mmap_ne : ∀ i a, mmap i = some a → a ≠ 0
  shmId : Nat → Int
  tee : Nat → Except Errno Reply

/-- The calls that acquire or give back a resource. -/
inductive Call where
  | mmap (fd : Int) (len : UInt64) (addr : Option Addr)
  | shmId (fd : Int) (addr : Addr) (id : Int)
  | munmap (addr : Addr) (len : UInt64)
  | shmRelease (fd : Int) (id : Int)
  | close (fd : Int)
  | openDev (fd : Int)
  | openSession (fd : Int)
  | invoke (fd : Int) (session cmd : UInt32)
  | closeSession (fd : Int) (session : UInt32)
deriving DecidableEq

namespace Call

/-- The session a call closes, by the descriptor and the id it names. -/
def closedSession : Call → Option (Int × UInt32)
  | .closeSession fd id => some (fd, id)
  | _ => none

/-- The descriptor a call closes. -/
def closedFd : Call → Option Int
  | .close fd => some fd
  | _ => none

/-- The mapping a call makes, and the one it removes. -/
def mapped : Call → Option (Addr × UInt64)
  | .mmap _ len (some a) => some (a, len)
  | _ => none

def unmapped : Call → Option (Addr × UInt64)
  | .munmap a len => some (a, len)
  | _ => none

/-- The id a block was given (-1 if the kernel had none), and the one released. -/
def obtained : Call → Option (Int × Int)
  | .shmId fd _ id => some (fd, id)
  | _ => none

def released : Call → Option (Int × Int)
  | .shmRelease fd id => some (fd, id)
  | _ => none

end Call

structure State where
  env : Env
  mem : Addr → UInt8
  /-- The mappings of shared memory, start and length. -/
  maps : List (Addr × UInt64)
  contexts : Addr → Context
  sessions : Addr → Session
  blocks : Addr → SharedMemory
  /-- `_contextMap` and `_sessionMap`, which map each key to itself. -/
  contextMap : KeySet Ref
  sessionMap : KeySet Ref
  /-- How many devices, allocations and TEE calls were tried. -/
  devs : Nat
  allocs : Nat
  asked : Nat
  calls : List Call

namespace State

def log (s : State) (c : Call) : State := { s with calls := s.calls ++ [c] }

/-- `memcpy`. -/
def memcpy (s : State) (dst src : Addr) (n : UInt64) : State :=
  { s with mem := fun a => if dst ≤ a ∧ a < dst + n.toNat then s.mem (src + (a - dst)) else s.mem a }

/-- `mmap` of a TEE device. -/
def mmap (s : State) (fd : Int) (len : UInt64) : Option Addr × State :=
  let res := if fd < 0 then none else s.env.mmap s.allocs
  let s := { s with allocs := s.allocs + 1 }.log (.mmap fd len res)
  match res with
  | none => (none, s)
  | some a => (some a, { s with maps := s.maps ++ [(a, len)] })

def munmap (s : State) (a : Addr) (len : UInt64) : State :=
  { s with maps := s.maps.erase (a, len) }.log (.munmap a len)

def mapped (s : State) (a : Addr) : Bool := s.maps.any fun m => m.1 ≤ a && a < m.1 + m.2.toNat

/-- The TEE is called, and writes to shared memory if it answers. -/
def askTee (s : State) (fd : Int) (c : Call) : Except Errno Reply × State :=
  let res := if fd < 0 then .error .EBADF else s.env.tee s.asked
  let s := { s with asked := s.asked + 1 }.log c
  match res with
  | .error e => (.error e, s)
  | .ok r => (.ok r, { s with mem := fun a => if s.mapped a then r.shared a else s.mem a })

end State

/-! ## Shared memory -/

/-- The checks both ways of getting shared memory begin with. -/
def badFlags (flags : UInt32) : Bool := flags == 0 || flags &&& ~~~(memInput ||| memOutput) != 0

/-- `teec_shm_get_id`, for the mapping made last. -/
def teecShmGetId (s : State) (fd : Int) (addr : Addr) : Int × State :=
  let id := s.env.shmId (s.allocs - 1)
  let id := if id < 0 then -1 else id
  (id, s.log (.shmId fd addr id))

/-- `TEEC_AllocateSharedMemory`. -/
def teecAllocateSharedMemory (s : State) (ctx : Addr) (shm : SharedMemory) : Result × SharedMemory × State :=
  if ctx = 0 then (errorBadParameters, shm, s)
  else if badFlags shm.flags then (errorBadParameters, shm, s)
  else
    let len := if shm.size = 0 then 8 else shm.size
    let fd := (s.contexts ctx).fd
    match s.mmap fd len with
    | (none, s) =>
      -- `MAP_FAILED` is left in the buffer
      (errorOutOfMemory, { shm with buffer := 2 ^ 64 - 1, id := -1 }, s)
    | (some a, s) =>
      let (id, s) := teecShmGetId s fd a
      (success, { shm with buffer := a, shadowBuffer := 0, allocedSize := len, registeredFd := fd, id }, s)

/-- `TEEC_RegisterSharedMemory`. -/
def teecRegisterSharedMemory (s : State) (ctx : Addr) (shm : SharedMemory) : Result × SharedMemory × State :=
  if ctx = 0 then (errorBadParameters, shm, s)
  else if badFlags shm.flags then (errorBadParameters, shm, s)
  else if shm.buffer = 0 then (errorBadParameters, shm, s)
  else
    let len := if shm.size = 0 then 8 else shm.size
    let fd := (s.contexts ctx).fd
    match s.mmap fd len with
    | (none, s) => (errorOutOfMemory, { shm with shadowBuffer := 2 ^ 64 - 1, id := -1 }, s)
    | (some a, s) =>
      let (id, s) := teecShmGetId s fd a
      (success, { shm with shadowBuffer := a, allocedSize := len, registeredFd := fd, id }, s)

/-- `TEEC_ReleaseSharedMemory`. -/
def teecReleaseSharedMemory (s : State) (shm : SharedMemory) : SharedMemory × State :=
  if shm.id = -1 then (shm, s)
  else
    let fd := shm.registeredFd
    if fd < 0 then (shm, s)
    else
      let s :=
        if shm.shadowBuffer ≠ 0 then s.munmap shm.shadowBuffer shm.allocedSize
        else if shm.buffer ≠ 0 then s.munmap shm.buffer shm.allocedSize
        else s.log (.close fd)
      let buffer := if shm.shadowBuffer = 0 then 0 else shm.buffer
      ({ shm with buffer, id := -1, shadowBuffer := 0, registeredFd := -1, size := 0 },
        s.log (.shmRelease fd shm.id))

/-! ## Before the call -/

/-- What is prepared for the TEE: the parameters, and the blocks behind the
temporary references. -/
structure Prep where
  params : Nat → IoctlParam
  shms : Nat → SharedMemory
  st : State

def Prep.setParam (p : Prep) (n : Nat) (q : IoctlParam) : Prep :=
  { p with params := Function.update p.params n q }

/-- `teec_pre_process_whole`. -/
def teecPreProcessWhole (s : State) (memref : RegisteredMemoryReference) (param : IoctlParam) :
    Result × IoctlParam × State :=
  let shm := s.blocks memref.parent
  let flags := shm.flags &&& (memInput ||| memOutput)
  if flags = 0 then (errorBadParameters, param, s)
  else
    let attr := if flags = memInput ||| memOutput then attrMemrefInout
      else if flags &&& memInput ≠ 0 then attrMemrefInput
      else attrMemrefOutput
    let s := if shm.shadowBuffer ≠ 0 ∧ flags &&& memInput ≠ 0
      then s.memcpy shm.shadowBuffer shm.buffer shm.size else s
    (success, { param with attr, u₂ := word shm.id, u₁ := shm.size }, s)

/-- The flags a partial reference asks of its parent, and its attribute. -/
def partialKind : ParamType → Option (UInt32 × UInt64)
  | .partialInput => some (memInput, attrMemrefInput)
  | .partialOutput => some (memOutput, attrMemrefOutput)
  | .partialInout => some (memOutput ||| memInput, attrMemrefInout)
  | _ => none

/-- `teec_pre_process_partial`. -/
def teecPreProcessPartial (s : State) (ty : ParamType) (memref : RegisteredMemoryReference)
    (param : IoctlParam) : Result × IoctlParam × State :=
  match partialKind ty with
  | none => (errorBadParameters, param, s)
  | some (req, attr) =>
    let shm := s.blocks memref.parent
    if shm.flags &&& req ≠ req then (errorBadParameters, { param with attr }, s)
    else
      let s := if shm.shadowBuffer ≠ 0 ∧ ty ≠ .partialOutput
        then s.memcpy (shm.shadowBuffer + memref.offset.toNat) (shm.buffer + memref.offset.toNat) memref.size
        else s
      (success, { attr, u₂ := word shm.id, u₀ := memref.offset, u₁ := memref.size }, s)

/-- The flags of the block behind a temporary reference, and its attribute. -/
def tempKind : ParamType → Option (UInt32 × UInt64)
  | .tempInput => some (memInput, attrMemrefInput)
  | .tempOutput => some (memOutput, attrMemrefOutput)
  | .tempInout => some (memInput ||| memOutput, attrMemrefInout)
  | _ => none

/-- `teec_pre_process_tmpref`. -/
def teecPreProcessTmpref (s : State) (ctx : Addr) (ty : ParamType) (tmpref : TempMemoryReference)
    (param : IoctlParam) (shm : SharedMemory) : Result × IoctlParam × SharedMemory × State :=
  match tempKind ty with
  | none => (errorBadParameters, param, shm, s)
  | some (flags, attr) =>
    match teecAllocateSharedMemory s ctx { shm with flags, size := tmpref.size } with
    | (res, shm, s) =>
      if res ≠ success then (res, { param with attr }, shm, s)
      else (success, { param with attr, u₁ := tmpref.size, u₂ := word shm.id }, shm,
        s.memcpy shm.buffer tmpref.buffer tmpref.size)

/-- One round of the loop of `teec_pre_process_operation`. -/
def preProcessSlot (ctx : Addr) (op : Operation) (n : Nat) (p : Prep) : Result × Prep :=
  match op.type n with
  | some .none => (success, p.setParam n { p.params n with attr := 0 })
  | some .valueInput | some .valueOutput | some .valueInout =>
    let v := (op.params n).value
    (success, p.setParam n { p.params n with
      attr := (op.paramTypes.toNat >>> (n * 4) &&& 0xF).toUInt64, u₀ := v.a.toUInt64, u₁ := v.b.toUInt64 })
  | some ty@.tempInput | some ty@.tempOutput | some ty@.tempInout =>
    let (res, param, shm, s) :=
      teecPreProcessTmpref p.st ctx ty (op.params n).tmpref (p.params n) (p.shms n)
    (res, { params := Function.update p.params n param, shms := Function.update p.shms n shm, st := s })
  | some .whole =>
    let (res, param, s) := teecPreProcessWhole p.st (op.params n).memref (p.params n)
    (res, { p.setParam n param with st := s })
  | some ty@.partialInput | some ty@.partialOutput | some ty@.partialInout =>
    let (res, param, s) := teecPreProcessPartial p.st ty (op.params n).memref (p.params n)
    (res, { p.setParam n param with st := s })
  | none => (errorBadParameters, p)

/-- The loop, which stops at the first slot that fails. -/
def preProcessSlots (ctx : Addr) (op : Operation) : List Nat → Prep → Result × Prep
  | [], p => (success, p)
  | n :: ns, p =>
    match preProcessSlot ctx op n p with
    | (res, p) => if res ≠ success then (res, p) else preProcessSlots ctx op ns p

/-- `teec_pre_process_operation`. The parameter block was cleared by the caller. -/
def teecPreProcessOperation (s : State) (ctx : Addr) (op : Option Operation) : Result × Prep :=
  let p : Prep := ⟨fun _ => {}, fun _ => {}, s⟩
  match op with
  | none => (success, p)
  | some op =>
    if op.paramTypes > 0xffff then (errorBadParameters, p)
    else preProcessSlots ctx op (List.range payloadRefCount) p

end Teec
