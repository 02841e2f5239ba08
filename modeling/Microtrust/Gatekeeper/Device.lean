/-
The gatekeeper device of the 400 tree (gatekeeper/ut_gatekeeper.cpp): each
command is packed into a 4096-byte buffer, the buffer goes to the TEE and
comes back with the answer, and one `int` tells the caller what became of it.

A pointer is a number and 0 is null. What the allocator and the transfer do is
up to the environment. A copy that reads past the end of the buffer has no
defined result: the command then returns nothing.
-/
import Microtrust.Lib.Bytes

namespace Gatekeeper

open Lib

/-- `GATEKEEPER_BUFF_SIZE`. -/
def buffSize : Nat := 4096

/-- `sizeof(password_handle_t)`: version, user id, flags, salt, signature and
whether it is backed by hardware. -/
def passwordHandleSize : Nat := 1 + 8 + 8 + 8 + 32 + 1

/-- The first length of a password that is too long. -/
def passwordLimit : Nat := 100

/-- `gatekeeper_error_t`. -/
inductive Status where
  | none | invalid | retry | unknown | passwordWrong | uidNotFound | cmdWrong
  | other (code : Nat)
deriving DecidableEq

def Status.ofCode : Nat → Status
  | 0 => .none
  | 1 => .invalid
  | 2 => .retry
  | 3 => .unknown
  | 4 => .passwordWrong
  | 5 => .uidNotFound
  | 6 => .cmdWrong
  | n => .other n

/-- Bytes passed as a pointer and a length. -/
structure Blob where
  ptr : Nat
  len : UInt32
  bytes : Bytes
  fits : ptr ≠ 0 → bytes.length = len.toNat

/-- A null pointer, or a length of zero. -/
def Blob.absent (b : Blob) : Bool := b.ptr = 0 || b.len = 0

/-- What the environment does to one command: whether its first and second
`calloc` succeed, how `ut_gk_transfer_buff` ends, and what the TEE leaves in
the buffer. -/
structure Env where
  callocBuffer : Bool
  callocResult : Bool
  transferred : Bool
  left : Bytes
  size : left.length = buffSize

/-- What a command leaves its caller: the return value if there is one, what
was stored through the result pointers, and the buffer that was sent. -/
structure Outcome where
  ret : Option Int
  length : Option Nat := none
  result : Option Bytes := none
  reenroll : Option Bool := none
  sent : Option Bytes := none
deriving DecidableEq

def failed : Outcome := { ret := some (-1) }

/-! ## What the TEE left -/

/-- Where the fields of an answer lie (`ut_gk_enroll_out_t`,
`ut_gk_verify_out_t`); the error and the length come first in both. -/
structure Layout where
  size : Nat
  retryTimeout : Nat
  requestReenroll : Option Nat

def enrollOut : Layout := ⟨12, 8, none⟩
def verifyOut : Layout := ⟨13, 9, some 8⟩

namespace Env

def status (env : Env) : Status := .ofCode (leAt env.left 0 4)

/-- `enrolled_password_handle_length`, `auth_token_length`. -/
def resultLength (env : Env) : Nat := leAt env.left 4 4

def retryTimeout (env : Env) (out : Layout) : Nat := leAt env.left out.retryTimeout 4

end Env

/-- What both commands do once they have a buffer to send. -/
def exchange (out : Layout) (env : Env) (buffer : Bytes) : Outcome :=
  if !env.transferred then { failed with sent := some buffer }
  else if env.status = .retry then
    { ret := some (toInt32 (env.retryTimeout out)), sent := some buffer }
  else if env.status ≠ .none then { failed with sent := some buffer }
  else
    let stored : Outcome :=
      { failed with
        length := some env.resultLength
        reenroll := out.requestReenroll.map fun off => leAt env.left off 1 ≠ 0
        sent := some buffer }
    if !env.callocResult then stored
    -- the copy would leave the buffer
    else if buffSize < out.size + env.resultLength then { stored with ret := none }
    else { stored with ret := some 0, result := some ((env.left.drop out.size).take env.resultLength) }

/-- The fields of a command in a cleared buffer. -/
def pad (fields : Bytes) : Bytes := fields ++ List.replicate (buffSize - fields.length) 0

/-! ## The commands -/

/-- The buffer `ut_gk_enroll` sends. The lengths take four bytes less than
those of a verification, and the union is as long as its longest member. -/
def enrollBuffer (uid : UInt32) (handle password desired : Bytes) : Bytes :=
  pad (leBytes 1 0x01 ++ leBytes 4 uid.toNat ++ leBytes 4 handle.length ++ leBytes 4 password.length ++
    leBytes 4 desired.length ++ leBytes 4 0 ++ handle ++ password ++ desired)

/-- The checks of `ut_gk_enroll`. -/
def enrollAccepts (currentHandle currentPassword desiredPassword : Blob)
    (enrolledHandle enrolledHandleLength : Nat) : Bool :=
  desiredPassword.len.toNat < passwordLimit && enrolledHandle ≠ 0 && enrolledHandleLength ≠ 0 &&
    !desiredPassword.absent &&
    (currentHandle.absent || currentPassword.absent ||
      currentHandle.len.toNat = passwordHandleSize && currentPassword.len.toNat < passwordLimit)

/-- `ut_gk_enroll`. Without a current handle or a current password neither is sent. -/
def utGkEnroll (env : Env) (uid : UInt32) (currentHandle currentPassword desiredPassword : Blob)
    (enrolledHandle enrolledHandleLength : Nat) : Outcome :=
  if !enrollAccepts currentHandle currentPassword desiredPassword enrolledHandle enrolledHandleLength then failed
  else if !env.callocBuffer then failed
  else if currentHandle.absent || currentPassword.absent then
    exchange enrollOut env (enrollBuffer uid [] [] desiredPassword.bytes)
  else
    exchange enrollOut env (enrollBuffer uid currentHandle.bytes currentPassword.bytes desiredPassword.bytes)

/-- The buffer `ut_gk_verify` sends. -/
def verifyBuffer (uid : UInt32) (challenge : UInt64) (handle password : Bytes) : Bytes :=
  pad (leBytes 1 0x02 ++ leBytes 4 uid.toNat ++ leBytes 8 challenge.toNat ++ leBytes 4 handle.length ++
    leBytes 4 password.length ++ handle ++ password)

/-- Where `ut_gk_verify` stores what it found. -/
structure VerifyDest where
  authToken : Nat
  authTokenLength : Nat
  requestReenroll : Nat

/-- The first check of `ut_gk_verify`. -/
def verifyAccepts (handle password : Blob) (dest : VerifyDest) : Bool :=
  !(handle.absent || password.absent || dest.authToken = 0 || dest.authTokenLength = 0 ||
    dest.requestReenroll = 0 || handle.len.toNat ≠ passwordHandleSize)

/-- The password that is passed on: one that is too long is cut to seventeen
bytes, for the TEE to count a failure. -/
def presented (password : Bytes) : Bytes :=
  if passwordLimit ≤ password.length then password.take 17 else password

/-- `ut_gk_verify`. -/
def utGkVerify (env : Env) (uid : UInt32) (challenge : UInt64) (handle password : Blob) (dest : VerifyDest) :
    Outcome :=
  if !verifyAccepts handle password dest then failed
  else if !env.callocBuffer then failed
  else exchange verifyOut env (verifyBuffer uid challenge handle.bytes (presented password.bytes))

/-- What `ut_gk_delete_user` and `ut_gk_delete_all_users` do with their fields. -/
def deleteExchange (env : Env) (fields : Bytes) : Outcome :=
  if !env.callocBuffer then failed
  else if !env.transferred || env.status ≠ .none then { failed with sent := some (pad fields) }
  else { ret := some 0, sent := some (pad fields) }

/-- `ut_gk_delete_user`. -/
def utGkDeleteUser (env : Env) (uid : UInt32) : Outcome :=
  deleteExchange env (leBytes 1 0x03 ++ leBytes 4 uid.toNat)

/-- `ut_gk_delete_all_users`. -/
def utGkDeleteAllUsers (env : Env) : Outcome := deleteExchange env (leBytes 1 0x04)

end Gatekeeper
