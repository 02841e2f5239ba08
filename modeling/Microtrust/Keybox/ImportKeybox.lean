/-
Sending a keybox to the TA (ut_ree_import_attest_keybox in km4.1
kmsetkey/ut_kmsetkey.cpp). The message is put together in the keymaster buffer:
a message header, then `kmsetkey_t` with the lengths, the keybox as long as the
caller says, and the two keys; what follows the message header goes to
`ut_km_import_google_key_and_model`.
-/
import Microtrust.Keybox.ModelInfo
import Microtrust.Lib.Copy

namespace Keybox

open Lib

/-! ## The message -/

def keymasterMaxBufferLength : Nat := 1024 * 70

/-- `kmsetkey_error_t`. -/
inductive KmsetkeyError where
  | ok | unexpectedNullPointer | memoryAllocationFailed | responseError | invokeCommandFailed | keyNotExist
  | unknownError
deriving DecidableEq

/-- `ut_message_t`. -/
structure UtMessage where
  commandId : UInt32 := 0
  error : Int32 := 0
  hasBlock : UInt32 := 0
  attestKeyboxLen : UInt32 := 0

def UtMessage.bytes (m : UtMessage) : Bytes :=
  leBytes 4 m.commandId.toNat ++ leBytes 4 m.error.toUInt32.toNat ++ leBytes 4 m.hasBlock.toNat ++
    leBytes 4 m.attestKeyboxLen.toNat

/-- `kmsetkey_t`; what is reserved is zero. -/
structure KmsetkeyT where
  allLen : UInt32
  peakbLen : UInt32
  inputpkbLen : UInt32
  ekkbPubLen : UInt32

def KmsetkeyT.bytes (m : KmsetkeyT) : Bytes :=
  leBytes 4 m.allLen.toNat ++ leBytes 4 m.peakbLen.toNat ++ leBytes 4 m.inputpkbLen.toNat ++
    leBytes 4 m.ekkbPubLen.toNat ++ List.replicate 16 0

def sizeofUtMessage : Nat := 16
def sizeofKmsetkey : Nat := 32

def cmdIdTeeReeImportKeybox : UInt32 := 601

def inputEkkbPub : Bytes := [
  0x54, 0xCB, 0xCD, 0xB3, 0xFF, 0xCD, 0xCC, 0xDD, 0xA3, 0xFF, 0x5D, 0x30, 0x95, 0x03, 0x2D, 0x2A,
  0x2A, 0x12, 0xE6, 0x90, 0x0B, 0x3F, 0xF7, 0x85, 0xE5, 0xB3, 0xDD, 0x8E, 0x4B, 0x27, 0x9D, 0x58,
  0xC8, 0x24, 0x7A, 0xB0, 0x83, 0x8B, 0xB1, 0xD4, 0xA4, 0x92, 0x17, 0x0E, 0xF2, 0xCF, 0x19, 0x9A,
  0xAB, 0xCE, 0xFB, 0x68, 0xCB, 0x86, 0x94, 0x6E, 0x16, 0x8E, 0x3D, 0xCC, 0xF8, 0x0C, 0xA6, 0x30,
  0x1C, 0x47, 0xA6, 0xB6, 0x50, 0x2F, 0x68, 0x94, 0x23, 0x0C, 0x62, 0xAF, 0xE1, 0x44, 0xA4, 0x27,
  0xD8, 0x79, 0x05, 0x68, 0x51, 0x89, 0x04, 0x49, 0x61, 0x93, 0x7A, 0xEF, 0xB5, 0xB9, 0x17, 0x72,
  0x28, 0x87, 0xBA, 0x94, 0x4A, 0xB8, 0xF1, 0x46, 0xCF, 0xE7, 0x53, 0x0A, 0x02, 0x5A, 0xEE, 0x59,
  0x47, 0xBE, 0xC2, 0x41, 0x98, 0xD9, 0x5B, 0x17, 0xAF, 0x10, 0x0B, 0xE0, 0x92, 0xBA, 0x65, 0x30,
  0x63, 0x76, 0x94, 0x2A, 0x26, 0x7D, 0x3F, 0x94, 0x2E, 0x9F, 0x06, 0xB8, 0xD3, 0xB0, 0x76, 0xE9,
  0xBD, 0xBA, 0x07, 0x6E, 0xE1, 0x3D, 0x1F, 0xC6, 0xDB, 0x7F, 0x34, 0xC1, 0xB4, 0xED, 0x8B, 0x00,
  0x36, 0xAE, 0x1E, 0xBB, 0x65, 0x81, 0x38, 0x94, 0x77, 0xE2, 0x4E, 0x5C, 0xC1, 0x9F, 0x93, 0x2D,
  0x29, 0xA3, 0x30, 0x29, 0xF7, 0xEC, 0xFC, 0xCC, 0x87, 0x3F, 0xFA, 0x09, 0xAD, 0x1E, 0xE5, 0xAF,
  0x4E, 0xCF, 0x0E, 0x44, 0x8C, 0xE3, 0xBF, 0x8D, 0x5B, 0xEB, 0xD6, 0xA0, 0xEA, 0xC6, 0xBF, 0xB1,
  0x56, 0xD5, 0xC9, 0xE6, 0xB8, 0xE1, 0xB9, 0x94, 0x85, 0xAD, 0x38, 0x38, 0xDD, 0xE2, 0x57, 0xCC,
  0xFE, 0xED, 0xF0, 0x2A, 0x10, 0xB6, 0x8E, 0x3C, 0xA2, 0x4D, 0x97, 0x60, 0x3E, 0xEC, 0x92, 0xE2,
  0xC1, 0x72, 0xB6, 0x38, 0xE2, 0xC0, 0xA8, 0xCA, 0xD6, 0xEB, 0x0C, 0x35, 0xE9, 0x3E, 0x8D, 0x91]

def inputpkb : Bytes := [
  0x05, 0x14, 0x24, 0x14, 0x2F, 0xE1, 0xFC, 0x61, 0xB1, 0x0B, 0x97, 0xAF, 0x5C, 0x66, 0xB0, 0xF6,
  0x15, 0x26, 0xF6, 0x1C, 0x96, 0xC8, 0xBA, 0x96, 0x77, 0xD5, 0x4E, 0xFB, 0xA4, 0x91, 0xFD, 0xFB,
  0x16, 0x33, 0xED, 0x6E, 0xCC, 0x41, 0x0F, 0xCF, 0xC2, 0x94, 0xC2, 0x64, 0x1C, 0xFA, 0x12, 0x66,
  0x04, 0xE3, 0x4C, 0xF0, 0xB4, 0x5F, 0x15, 0x4B, 0xDB, 0xF4, 0x29, 0x1F, 0x98, 0xD3, 0xF5, 0x4E,
  0xA8, 0xD2, 0xA1, 0x0E, 0x8B, 0x59, 0xBF, 0x17, 0xDE, 0xB7, 0xA7, 0x50, 0x02, 0x2F, 0x14, 0x9C,
  0x7A, 0xE5, 0x24, 0x6D, 0x0E, 0x9F, 0xDE, 0x45, 0x4D, 0x6A, 0x75, 0x06, 0xB3, 0xDA, 0x88, 0x86,
  0x8D, 0xA6, 0x11, 0x43, 0xA8, 0x17, 0xA9, 0x6F, 0x70, 0x27, 0x01, 0xDA, 0xFA, 0xAF, 0xF6, 0xA8,
  0x47, 0xEC, 0xEF, 0x29, 0x66, 0x4E, 0xA8, 0x7C, 0x99, 0xFA, 0x40, 0xB8, 0xD4, 0x8A, 0x2C, 0xB1]

/-! ## Sending it -/

/-- What the import meets: whether `keymaster_buffer` is there already and, if
not, whether `malloc` finds one; the model property; and the two TEEC calls. -/
structure ImportEnv where
  allocated : Bool
  malloc : Bool
  property : PropValue
  keyLink : Link
  modelLink : Link

/-- `TEE_Alloc_KM_Buffer_And_Reset`: the buffer, or none for the result -1. -/
def teeAllocKmBufferAndReset (env : ImportEnv) : Option (Nat → UInt8) :=
  if env.allocated || env.malloc then some fun _ => 0 else none

/-- A copy to the buffer; none for one that leaves it. -/
def memcpy (buffer : Nat → UInt8) (p : Nat) (data : Bytes) : Option (Nat → UInt8) :=
  if keymasterMaxBufferLength < p + data.length then none else some (Lib.stored buffer p data)

/-- The copies, with `p_data_buff` as an offset. -/
def fillBuffer (buffer : Nat → UInt8) (kmstrMsg : UtMessage) (inputMsg : KmsetkeyT) (peakb : Nat → UInt8) :
    Option (Nat → UInt8) := do
  let buffer ← memcpy buffer 0 kmstrMsg.bytes
  let p := sizeofUtMessage
  let buffer ← memcpy buffer p inputMsg.bytes
  let p := p + sizeofKmsetkey
  let buffer ← memcpy buffer p (held peakb 0 inputMsg.peakbLen.toNat)
  let p := p + inputMsg.peakbLen.toNat
  let buffer ← memcpy buffer p inputpkb
  let p := p + inputMsg.inputpkbLen.toNat
  memcpy buffer p inputEkkbPub

/-- The lengths, as they are sent. The sum is one of 32 bits. -/
def keyboxLengths (peakbLen : UInt32) : KmsetkeyT where
  allLen := peakbLen + .ofNat inputpkb.length + .ofNat inputEkkbPub.length + .ofNat sizeofKmsetkey
  peakbLen := peakbLen
  inputpkbLen := .ofNat inputpkb.length
  ekkbPubLen := .ofNat inputEkkbPub.length

/-- How an import ends, with what `ut_km_import_google_key_and_model` was given
if it came to that. -/
structure Imported where
  error : KmsetkeyError
  passed : Option Bytes
  state : State

/-- `ut_ree_import_attest_keybox`; none if a copy has left the buffer. `peakb` is
what the memory holds from the pointer on. -/
def utReeImportAttestKeybox (env : ImportEnv) (s : State) (peakb : Option (Nat → UInt8)) (peakbLen : UInt32) :
    Option Imported :=
  match peakb with
  | none => some ⟨.unexpectedNullPointer, none, s⟩
  | some peakb =>
    match teeAllocKmBufferAndReset env with
    | none => some ⟨.memoryAllocationFailed, none, s⟩
    | some buffer =>
      let inputMsg := keyboxLengths peakbLen
      if inputMsg.inputpkbLen ≠ 128 ∨ inputMsg.ekkbPubLen ≠ 256 then some ⟨.unknownError, none, s⟩
      else
        let kmstrMsg : UtMessage := { commandId := cmdIdTeeReeImportKeybox, attestKeyboxLen := inputMsg.allLen }
        match fillBuffer buffer kmstrMsg inputMsg peakb with
        | none => none
        | some buffer =>
          let data := held buffer sizeofUtMessage inputMsg.allLen.toNat
          match utKmImportGoogleKeyAndModel env.property s env.keyLink env.modelLink data with
          | (retVal, s) =>
            if retVal ≠ 0 then some ⟨.invokeCommandFailed, some data, s⟩
            -- the response is read where the request was written
            else if le (held buffer 4 4) ≠ 0 then some ⟨.responseError, some data, s⟩
            else some ⟨.ok, some data, s⟩

/-! ## Filling the buffer -/

@[simp] theorem length_inputpkb : inputpkb.length = 128 := by decide +kernel

@[simp] theorem length_inputEkkbPub : inputEkkbPub.length = 256 := by decide +kernel

@[simp] theorem UtMessage.length_bytes (m : UtMessage) : m.bytes.length = sizeofUtMessage := by
  simp [UtMessage.bytes, sizeofUtMessage]

@[simp] theorem KmsetkeyT.length_bytes (m : KmsetkeyT) : m.bytes.length = sizeofKmsetkey := by
  simp [KmsetkeyT.bytes, sizeofKmsetkey]

/-- The whole message, with both headers. -/
def messageSize (peakbLen : UInt32) : Nat := sizeofUtMessage + sizeofKmsetkey + peakbLen.toNat + 128 + 256

variable {buffer buffer' peakb : Nat → UInt8} {m : UtMessage} {peakbLen : UInt32}

theorem memcpy_of_le {p : Nat} {data : Bytes} (h : p + data.length ≤ keymasterMaxBufferLength) :
    memcpy buffer p data = some (Lib.stored buffer p data) := if_neg (not_lt.mpr h)

theorem memcpy_of_lt {p : Nat} {data : Bytes} (h : keymasterMaxBufferLength < p + data.length) :
    memcpy buffer p data = none := if_pos h

/-- What is in the buffer once everything is copied. -/
def filled (buffer : Nat → UInt8) (m : UtMessage) (peakb : Nat → UInt8) (peakbLen : UInt32) : Nat → UInt8 :=
  let buffer := Lib.stored buffer 0 m.bytes
  let buffer := Lib.stored buffer 16 (keyboxLengths peakbLen).bytes
  let buffer := Lib.stored buffer 48 (held peakb 0 peakbLen.toNat)
  let buffer := Lib.stored buffer (48 + peakbLen.toNat) inputpkb
  Lib.stored buffer (48 + peakbLen.toNat + 128) inputEkkbPub

theorem keyboxLengths_inputpkbLen (n : UInt32) : (keyboxLengths n).inputpkbLen = 128 := by
  rw [keyboxLengths, length_inputpkb]
  rfl

theorem keyboxLengths_ekkbPubLen (n : UInt32) : (keyboxLengths n).ekkbPubLen = 256 := by
  rw [keyboxLengths, length_inputEkkbPub]
  rfl

/-- The copies, with the offsets they come to. -/
theorem fillBuffer_eq : fillBuffer buffer m (keyboxLengths peakbLen) peakb =
    (memcpy buffer 0 m.bytes).bind fun buffer =>
    (memcpy buffer 16 (keyboxLengths peakbLen).bytes).bind fun buffer =>
    (memcpy buffer 48 (held peakb 0 peakbLen.toNat)).bind fun buffer =>
    (memcpy buffer (48 + peakbLen.toNat) inputpkb).bind fun buffer =>
    memcpy buffer (48 + peakbLen.toNat + 128) inputEkkbPub := by
  unfold fillBuffer
  rw [keyboxLengths_inputpkbLen]
  rfl

theorem fillBuffer_of_le (h : messageSize peakbLen ≤ keymasterMaxBufferLength) :
    fillBuffer buffer m (keyboxLengths peakbLen) peakb = some (filled buffer m peakb peakbLen) := by
  simp only [messageSize, sizeofUtMessage, sizeofKmsetkey] at h
  have hmessage : m.bytes.length = 16 := m.length_bytes
  have hlengths : (keyboxLengths peakbLen).bytes.length = 32 := KmsetkeyT.length_bytes _
  rw [fillBuffer_eq, memcpy_of_le (by omega), Option.bind_some, memcpy_of_le (by omega), Option.bind_some,
    memcpy_of_le (by rw [length_held]; omega), Option.bind_some, memcpy_of_le (by rw [length_inputpkb]; omega),
    Option.bind_some, memcpy_of_le (by rw [length_inputEkkbPub]; omega)]
  rfl

/-- If nothing before it does, the last copy leaves the buffer. -/
theorem fillBuffer_of_lt (h : keymasterMaxBufferLength < messageSize peakbLen) :
    fillBuffer buffer m (keyboxLengths peakbLen) peakb = none := by
  simp only [messageSize, sizeofUtMessage, sizeofKmsetkey] at h
  have hlast (b : Nat → UInt8) : memcpy b (48 + peakbLen.toNat + 128) inputEkkbPub = none :=
    memcpy_of_lt (by rw [length_inputEkkbPub]; omega)
  rw [fillBuffer_eq]
  simp only [hlast, Option.bind_fun_none]

/-! ## Reading it -/

/-- The message behind its header as the TA reads it: the keybox and the two
keys, by the lengths that stand in front, which have to use it up. -/
def splitKeybox (data : Bytes) : Option (Bytes × Bytes × Bytes) :=
  let peakbLen := leAt data 4 4
  let inputpkbLen := leAt data 8 4
  let ekkbPubLen := leAt data 12 4
  let payload := data.drop sizeofKmsetkey
  if leAt data 0 4 = data.length ∧ payload.length = peakbLen + inputpkbLen + ekkbPubLen then
    some (payload.take peakbLen, (payload.drop peakbLen).take inputpkbLen, payload.drop (peakbLen + inputpkbLen))
  else none

/-- The lengths, read back. -/
theorem leAt_kmsetkey (k : KmsetkeyT) (rest : Bytes) :
    leAt (k.bytes ++ rest) 0 4 = k.allLen.toNat ∧ leAt (k.bytes ++ rest) 4 4 = k.peakbLen.toNat ∧
      leAt (k.bytes ++ rest) 8 4 = k.inputpkbLen.toNat ∧ leAt (k.bytes ++ rest) 12 4 = k.ekkbPubLen.toNat := by
  have hfour (n : UInt32) : le (leBytes 4 n.toNat) = n.toNat := le_leBytes_of_lt n.toNat_lt
  exact ⟨hfour k.allLen, hfour k.peakbLen, hfour k.inputpkbLen, hfour k.ekkbPubLen⟩

theorem splitKeybox_append {k : KmsetkeyT} {a b c : Bytes} (ha : k.peakbLen.toNat = a.length)
    (hb : k.inputpkbLen.toNat = b.length) (hc : k.ekkbPubLen.toNat = c.length)
    (hall : k.allLen.toNat = sizeofKmsetkey + a.length + b.length + c.length) :
    splitKeybox (k.bytes ++ (a ++ (b ++ c))) = some (a, b, c) := by
  obtain ⟨hlen, hpeakb, hinput, hekkb⟩ := leAt_kmsetkey k (a ++ (b ++ c))
  have hpayload : (k.bytes ++ (a ++ (b ++ c))).drop sizeofKmsetkey = a ++ (b ++ c) := List.drop_left' k.length_bytes
  unfold splitKeybox
  simp only [hlen, hpeakb, hinput, hekkb, hpayload, ha, hb, hc, hall]
  rw [if_pos]
  · rw [List.take_left, List.drop_left, List.take_left, ← List.append_assoc, List.drop_left' List.length_append]
  · simp only [List.length_append, k.length_bytes]
    omega

/-- What `ut_km_import_google_key_and_model` is given when the message fits. -/
def keyboxData (peakb : Nat → UInt8) (peakbLen : UInt32) : Bytes :=
  (keyboxLengths peakbLen).bytes ++ (held peakb 0 peakbLen.toNat ++ (inputpkb ++ inputEkkbPub))

theorem length_keyboxData (peakb : Nat → UInt8) (peakbLen : UInt32) :
    (keyboxData peakb peakbLen).length = sizeofKmsetkey + peakbLen.toNat + 128 + 256 := by
  simp only [keyboxData, List.length_append, KmsetkeyT.length_bytes, length_held, length_inputpkb, length_inputEkkbPub]
  omega

/-- The copies behind the message header are one copy of all they bring. -/
theorem filled_eq (buffer : Nat → UInt8) (m : UtMessage) (peakb : Nat → UInt8) (peakbLen : UInt32) :
    filled buffer m peakb peakbLen = Lib.stored (Lib.stored buffer 0 m.bytes) 16 (keyboxData peakb peakbLen) := by
  have hlengths : (keyboxLengths peakbLen).bytes.length = 32 := KmsetkeyT.length_bytes _
  unfold keyboxData
  rw [← stored_stored, ← stored_stored, ← stored_stored, hlengths, length_held, length_inputpkb]
  rfl

theorem allLen_of_le (h : messageSize peakbLen ≤ keymasterMaxBufferLength) :
    (keyboxLengths peakbLen).allLen.toNat = sizeofKmsetkey + peakbLen.toNat + 128 + 256 := by
  simp only [messageSize, sizeofUtMessage, sizeofKmsetkey, keymasterMaxBufferLength] at h
  simp only [keyboxLengths, length_inputpkb, length_inputEkkbPub, sizeofKmsetkey, UInt32.toNat_add, UInt32.reduceOfNat,
    UInt32.reduceToNat]
  omega

theorem held_filled (h : messageSize peakbLen ≤ keymasterMaxBufferLength) :
    held (filled buffer m peakb peakbLen) sizeofUtMessage (keyboxLengths peakbLen).allLen.toNat =
      keyboxData peakb peakbLen := by
  rw [allLen_of_le h, ← length_keyboxData peakb, filled_eq]
  exact held_stored _ _ _

theorem split_keyboxData (h : messageSize peakbLen ≤ keymasterMaxBufferLength) :
    splitKeybox (keyboxData peakb peakbLen) = some (held peakb 0 peakbLen.toNat, inputpkb, inputEkkbPub) := by
  refine splitKeybox_append ?_ ?_ ?_ ?_
  · rw [length_held]
    rfl
  · rw [keyboxLengths_inputpkbLen, length_inputpkb]
    rfl
  · rw [keyboxLengths_ekkbPubLen, length_inputEkkbPub]
    rfl
  · rw [allLen_of_le h, length_held, length_inputpkb, length_inputEkkbPub]

/-! ## The import -/

/-- The import fails before anything is copied; or the message fits the buffer,
and what is passed on splits into the keybox and the two keys. -/
def FitsAndDecodes (peakb : Option (Nat → UInt8)) (peakbLen : UInt32) : Option Imported → Prop
  | none => False
  | some r =>
    match r.passed with
    | none => r.error ≠ .ok
    | some data => messageSize peakbLen ≤ keymasterMaxBufferLength ∧
        data.length = (keyboxLengths peakbLen).allLen.toNat ∧
        ∃ keybox ∈ peakb, splitKeybox data = some (held keybox 0 peakbLen.toNat, inputpkb, inputEkkbPub)

section

variable {env : ImportEnv} {s : State}

/-- An import that gets to its copies. -/
theorem import_of_buffer (h : (env.allocated || env.malloc) = true) : ∃ m : UtMessage,
    utReeImportAttestKeybox env s (some peakb) peakbLen =
      match fillBuffer (fun _ => 0) m (keyboxLengths peakbLen) peakb with
      | none => none
      | some buffer =>
        let data := held buffer sizeofUtMessage (keyboxLengths peakbLen).allLen.toNat
        match utKmImportGoogleKeyAndModel env.property s env.keyLink env.modelLink data with
        | (retVal, s) =>
          if retVal ≠ 0 then some ⟨.invokeCommandFailed, some data, s⟩
          else if le (held buffer 4 4) ≠ 0 then some ⟨.responseError, some data, s⟩
          else some ⟨.ok, some data, s⟩ := by
  refine ⟨{ commandId := cmdIdTeeReeImportKeybox, attestKeyboxLen := (keyboxLengths peakbLen).allLen }, ?_⟩
  have hchecked : ¬ ((keyboxLengths peakbLen).inputpkbLen ≠ 128 ∨ (keyboxLengths peakbLen).ekkbPubLen ≠ 256) := by
    rw [keyboxLengths_inputpkbLen, keyboxLengths_ekkbPubLen]
    decide
  simp only [utReeImportAttestKeybox, teeAllocKmBufferAndReset, if_pos h]
  rw [if_neg hchecked]

theorem import_of_lt (hbuffer : (env.allocated || env.malloc) = true)
    (h : keymasterMaxBufferLength < messageSize peakbLen) :
    utReeImportAttestKeybox env s (some peakb) peakbLen = none := by
  obtain ⟨m, hm⟩ := import_of_buffer hbuffer
  rw [hm, fillBuffer_of_lt h]

theorem import_of_le (hbuffer : (env.allocated || env.malloc) = true)
    (h : messageSize peakbLen ≤ keymasterMaxBufferLength) : ∃ e s',
    utReeImportAttestKeybox env s (some peakb) peakbLen = some ⟨e, some (keyboxData peakb peakbLen), s'⟩ := by
  obtain ⟨m, hm⟩ := import_of_buffer hbuffer
  rw [hm, fillBuffer_of_le h]
  simp only [held_filled h]
  split
  · exact ⟨_, _, rfl⟩
  · split <;> exact ⟨_, _, rfl⟩

end

/-- **A keybox message fits and decodes unless its keybox is too long.** An import
does what it should exactly if it is given no keybox, finds no buffer, or the
two headers, the keybox and the two keys are at most as long as the buffer. -/
theorem import_attest_keybox_iff (env : ImportEnv) (s : State) (peakb : Option (Nat → UInt8)) (peakbLen : UInt32) :
    FitsAndDecodes peakb peakbLen (utReeImportAttestKeybox env s peakb peakbLen) ↔
      peakb = none ∨ (env.allocated = false ∧ env.malloc = false) ∨ 16 + 32 + peakbLen.toNat + 128 + 256 ≤ 71680 := by
  cases peakb with
  | none =>
    refine iff_of_true ?_ (.inl rfl)
    show KmsetkeyError.unexpectedNullPointer ≠ .ok
    decide
  | some peakb =>
    by_cases hbuffer : (env.allocated || env.malloc) = true
    · have hcond : (some peakb = none ∨ (env.allocated = false ∧ env.malloc = false) ∨
          16 + 32 + peakbLen.toNat + 128 + 256 ≤ 71680) ↔ messageSize peakbLen ≤ keymasterMaxBufferLength := by
        have hfound : ¬ (env.allocated = false ∧ env.malloc = false) := by
          rwa [← Bool.or_eq_false_iff, Bool.not_eq_false]
        simp [hfound, messageSize, keymasterMaxBufferLength, sizeofUtMessage, sizeofKmsetkey]
      rw [hcond]
      by_cases hfits : messageSize peakbLen ≤ keymasterMaxBufferLength
      · obtain ⟨e, s', himport⟩ : ∃ e s', utReeImportAttestKeybox env s (some peakb) peakbLen =
            some ⟨e, some (keyboxData peakb peakbLen), s'⟩ := import_of_le hbuffer hfits
        rw [himport]
        refine iff_of_true ⟨hfits, ?_, peakb, rfl, split_keyboxData hfits⟩ hfits
        rw [length_keyboxData, allLen_of_le hfits]
      · rw [import_of_lt hbuffer (not_le.mp hfits)]
        exact iff_of_false id hfits
    · have hnone : env.allocated = false ∧ env.malloc = false := by simpa using hbuffer
      refine iff_of_true ?_ (.inr (.inl hnone))
      have hfailed : utReeImportAttestKeybox env s (some peakb) peakbLen = some ⟨.memoryAllocationFailed, none, s⟩ := by
        simp only [utReeImportAttestKeybox, teeAllocKmBufferAndReset, if_neg hbuffer]
      rw [hfailed]
      show KmsetkeyError.memoryAllocationFailed ≠ .ok
      decide

/-- A device without a model, whose TEE answers every call. -/
def answering : ImportEnv := ⟨true, true, ⟨[], by decide⟩, {}, {}⟩

/-- One byte more than the buffer has room for is copied all the same. -/
theorem keybox_leaves_buffer :
    ¬ FitsAndDecodes (some fun _ => 0) 71249 (utReeImportAttestKeybox answering {} (some fun _ => 0) 71249) := by
  rw [import_of_lt rfl (by decide)]
  exact id

end Keybox
