/-
The request that tells the TA about the device (BPConfigureRequest and
BeanpodKeymaster::ConfigDeviceInfo in keymint1.0/common/BeanpodKeymaster.cpp).

Five properties are copied to five adjacent fields, each as many bytes as the
property has. A property longer than its field goes on into the next one, and
what it leaves there stays unless the copies that follow write over it.
-/
import Microtrust.Lib.Bytes
import Microtrust.Lib.Copy

namespace Keymint

open Lib

/-! ## The request -/

/-- `MAX_ANDROID_PROP_LEN`. -/
def maxPropLen : Nat := 92

/-- What the properties say, in the order of the copies. -/
structure DeviceInfo where
  brand : Bytes
  manufacturer : Bytes
  product : Bytes
  model : Bytes
  board : Bytes

def DeviceInfo.props (info : DeviceInfo) : List Bytes :=
  [info.brand, info.manufacturer, info.product, info.model, info.board]

/-- Where the fields of a request end. `board` is its last member. -/
def requestEnd : Nat := 5 * maxPropLen

/-- The copies, from the `i`-th field on; none for a copy that leaves the request. -/
def copyProps : Nat → List Bytes → (Nat → UInt8) → Option (Nat → UInt8)
  | _, [], fields => some fields
  | i, prop :: props, fields =>
    if i * maxPropLen + (cstr prop).length ≤ requestEnd
    then copyProps (i + 1) props (stored fields (i * maxPropLen) (cstr prop)) else none

/-- The serialization of the keymaster library, given what it has appended so
far and the room there is: it appends what fits. -/
structure Serializer where
  appendUint32ToBuf : Nat → Bytes → UInt32 → Bytes
  appendToBuf : Nat → Bytes → Bytes → Bytes
  appendUint32ToBuf_of_le : ∀ room buf n, buf.length + 4 ≤ room → appendUint32ToBuf room buf n = buf ++ leBytes 4 n.toNat
  appendToBuf_of_le : ∀ room buf data, buf.length + data.length ≤ room → appendToBuf room buf data = buf ++ data

/-- `BPConfigureRequest::SerializedSize`. -/
def serializedSize : Nat := 4 + 4 + maxPropLen * 5

/-- `BPConfigureRequest::Serialize`, to a buffer of the serialized size. -/
def serialize (lib : Serializer) (osVersion osPatchlevel : UInt32) (fields : Nat → UInt8) : Bytes :=
  let buf := lib.appendUint32ToBuf serializedSize [] osVersion
  let buf := lib.appendUint32ToBuf serializedSize buf osPatchlevel
  let buf := lib.appendToBuf serializedSize buf (held fields (0 * maxPropLen) maxPropLen)
  let buf := lib.appendToBuf serializedSize buf (held fields (1 * maxPropLen) maxPropLen)
  let buf := lib.appendToBuf serializedSize buf (held fields (2 * maxPropLen) maxPropLen)
  let buf := lib.appendToBuf serializedSize buf (held fields (3 * maxPropLen) maxPropLen)
  lib.appendToBuf serializedSize buf (held fields (4 * maxPropLen) maxPropLen)

/-- The request `ConfigDeviceInfo` passes to `Configure`, serialized. -/
def configDeviceInfo (lib : Serializer) (osVersion osPatchlevel : UInt32) (info : DeviceInfo) : Option Bytes :=
  (copyProps 0 info.props fun _ => 0).map (serialize lib osVersion osPatchlevel)

/-! ## What it is to be -/

/-- The `i`-th field of a serialized request. -/
def fieldAt (bytes : Bytes) (i : Nat) : Bytes := (bytes.drop (8 + i * maxPropLen)).take maxPropLen

/-- Every field holds its own property and nothing else. -/
def LaidOut (info : DeviceInfo) (request : Option Bytes) : Prop :=
  ∃ bytes, request = some bytes ∧ bytes.length = serializedSize ∧
    ∀ i prop, info.props[i]? = some prop → fieldAt bytes i = padTake (cstr prop) maxPropLen

/-- No property runs past the last field, and where one runs into a later field,
the property of that field is as long there. -/
structure Separate (info : DeviceInfo) : Prop where
  ends : ∀ i prop, info.props[i]? = some prop → i * maxPropLen + (cstr prop).length ≤ requestEnd
  covered : ∀ i j prop before, info.props[i]? = some prop → info.props[j]? = some before → j < i →
    maxPropLen ≤ (cstr prop).length ∨ j * maxPropLen + (cstr before).length ≤ i * maxPropLen + (cstr prop).length

/-! ## The copies -/

variable {i : Nat} {props : List Bytes} {fields fields' : Nat → UInt8} {prop : Bytes}

theorem ne_zero_of_mem_cstr {b : UInt8} (h : b ∈ cstr prop) : b ≠ 0 := by
  simpa using List.mem_takeWhile_imp h

/-- What holds of every property holds of the first and of the rest. -/
theorem forall_cons_iff {P : Nat → Bytes → Prop} {p : Bytes} :
    (∀ j prop, (p :: props)[j]? = some prop → P (i + j) prop) ↔
      P i p ∧ ∀ j prop, props[j]? = some prop → P (i + 1 + j) prop := by
  refine ⟨?_, ?_⟩
  · intro h
    refine ⟨h 0 p rfl, fun j prop hj => ?_⟩
    rw [Nat.add_assoc, Nat.add_comm 1 j]
    exact h (j + 1) prop hj
  · rintro ⟨hp, h⟩ j prop hj
    cases j with
    | zero =>
      cases hj
      exact hp
    | succ j =>
      rw [Nat.add_comm j 1, ← Nat.add_assoc]
      exact h j prop hj

/-- All copies are made if and only if none leaves the request. -/
theorem copyProps_isSome :
    (copyProps i props fields).isSome ↔
      ∀ j prop, props[j]? = some prop → (i + j) * maxPropLen + (cstr prop).length ≤ requestEnd := by
  induction props generalizing i fields with
  | nil => simp [copyProps]
  | cons p props ih =>
    rw [forall_cons_iff (P := fun j prop => j * maxPropLen + (cstr prop).length ≤ requestEnd), copyProps]
    split
    next hfits =>
      rw [ih]
      exact ⟨fun h => ⟨hfits, h⟩, fun h => h.2⟩
    next hlong =>
      exact iff_of_false nofun fun h => hlong h.1

theorem copyProps_cons {p : Bytes} (h : copyProps i (p :: props) fields = some fields') :
    copyProps (i + 1) props (stored fields (i * maxPropLen) (cstr p)) = some fields' := by
  rw [copyProps] at h
  split at h
  · exact h
  · cases h

/-- The fields before are left alone. -/
theorem copyProps_before (h : copyProps i props fields = some fields') {x : Nat} (hx : x < i * maxPropLen) :
    fields' x = fields x := by
  induction props generalizing i fields with
  | nil =>
    cases h
    rfl
  | cons p props ih =>
    rw [ih (copyProps_cons h) (by rw [Nat.succ_mul]; omega)]
    refine stored_of_notMem ?_ fields
    rw [mem_cells]
    omega

/-- A field has what its own property brings it. -/
theorem copyProps_own (h : copyProps i props fields = some fields') {j o : Nat} (hj : props[j]? = some prop)
    (ho : o < maxPropLen) {b : UInt8} (hb : (cstr prop)[o]? = some b) :
    fields' ((i + j) * maxPropLen + o) = b := by
  induction props generalizing i j fields with
  | nil => cases hj
  | cons p props ih =>
    cases j with
    | zero =>
      cases hj
      rw [copyProps_before (copyProps_cons h) (by rw [Nat.add_zero, Nat.succ_mul]; omega)]
      obtain ⟨hlt, hget⟩ := List.getElem?_eq_some_iff.mp hb
      simpa [stored, hlt] using hget
    | succ j =>
      rw [Nat.add_comm j 1, ← Nat.add_assoc]
      exact ih (copyProps_cons h) hj

theorem stored_eq_zero {x a : Nat} :
    stored fields a (cstr prop) x = 0 ↔ fields x = 0 ∧ x ∉ cells a (cstr prop).length := by
  by_cases hx : x ∈ cells a (cstr prop).length
  · refine iff_of_false ?_ fun h => h.2 hx
    obtain ⟨o, ho, rfl⟩ := exists_of_mem_cells hx
    simp only [stored, ho, Nat.le_add_right, Nat.add_lt_add_iff_left, and_self, dif_pos, Nat.add_sub_cancel_left]
    exact ne_zero_of_mem_cstr (List.get_mem _ _)
  · rw [stored_of_notMem hx]
    exact ⟨fun h => ⟨h, hx⟩, fun h => h.1⟩

/-- A byte stays clear if and only if no property reaches it: a string has no
byte of zero to clear it again. -/
theorem copyProps_eq_zero (h : copyProps i props fields = some fields') {x : Nat} :
    fields' x = 0 ↔ fields x = 0 ∧
      ∀ j prop, props[j]? = some prop → x ∉ cells ((i + j) * maxPropLen) (cstr prop).length := by
  induction props generalizing i fields with
  | nil =>
    cases h
    simp
  | cons p props ih =>
    rw [forall_cons_iff (P := fun j prop => x ∉ cells (j * maxPropLen) (cstr prop).length), ih (copyProps_cons h),
      stored_eq_zero, and_assoc]

/-! ## The serialized request -/

/-- One field is appended behind those before it. -/
theorem appendToBuf_field (lib : Serializer) {head : Bytes} (hhead : head.length = 8) (fields : Nat → UInt8)
    (hi : i < 5) :
    lib.appendToBuf serializedSize (head ++ held fields 0 (i * maxPropLen)) (held fields (i * maxPropLen) maxPropLen) =
      head ++ held fields 0 ((i + 1) * maxPropLen) := by
  have hroom : (head ++ held fields 0 (i * maxPropLen)).length + (held fields (i * maxPropLen) maxPropLen).length ≤
      serializedSize := by
    simp only [List.length_append, length_held, hhead, serializedSize, maxPropLen]
    omega
  rw [lib.appendToBuf_of_le _ _ _ hroom, List.append_assoc, Nat.succ_mul, held_add, Nat.zero_add]

theorem serialize_eq (lib : Serializer) (osVersion osPatchlevel : UInt32) (fields : Nat → UInt8) :
    serialize lib osVersion osPatchlevel fields =
      leBytes 4 osVersion.toNat ++ leBytes 4 osPatchlevel.toNat ++ held fields 0 requestEnd := by
  have hhead : lib.appendUint32ToBuf serializedSize (lib.appendUint32ToBuf serializedSize [] osVersion) osPatchlevel =
      leBytes 4 osVersion.toNat ++ leBytes 4 osPatchlevel.toNat ++ held fields 0 (0 * maxPropLen) := by
    rw [lib.appendUint32ToBuf_of_le serializedSize [] osVersion (by decide), List.nil_append,
      lib.appendUint32ToBuf_of_le serializedSize _ osPatchlevel (by simp [serializedSize])]
    simp [held]
  have hfield (j : Nat) (hj : j < 5) :
      lib.appendToBuf serializedSize (leBytes 4 osVersion.toNat ++ leBytes 4 osPatchlevel.toNat ++ _) _ = _ :=
    appendToBuf_field lib (by simp) fields hj
  unfold serialize
  dsimp only
  rw [hhead, hfield 0 (by decide), hfield 1 (by decide), hfield 2 (by decide), hfield 3 (by decide),
    hfield 4 (by decide)]
  rfl

theorem fieldAt_serialize (lib : Serializer) (osVersion osPatchlevel : UInt32) (fields : Nat → UInt8) (hi : i < 5) :
    fieldAt (serialize lib osVersion osPatchlevel fields) i = held fields (i * maxPropLen) maxPropLen := by
  have hsplit : requestEnd = i * maxPropLen + maxPropLen + (4 - i) * maxPropLen := by
    rw [← Nat.succ_mul, ← Nat.add_mul]
    unfold requestEnd
    congr 1
    omega
  rw [serialize_eq, fieldAt, ← List.drop_drop, List.drop_left' (by simp), hsplit, held_add, held_add, List.append_assoc,
    List.drop_left' (by simp), Nat.zero_add, List.take_left' (by simp)]

theorem padTake_eq_map (bs : Bytes) (n : Nat) : padTake bs n = (List.range n).map fun o => bs[o]?.getD 0 := by
  refine List.ext_getElem (by simp) fun o ho ho' => ?_
  rw [List.getElem_map, List.getElem_range]
  by_cases hlt : o < bs.length
  · have htake : o < (bs.take n).length := by
      rw [length_padTake] at ho
      rw [List.length_take]
      omega
    simp [padTake, List.getElem_append_left htake, hlt]
  · have htake : (bs.take n).length ≤ o := by
      rw [List.length_take]
      omega
    simp [padTake, List.getElem_append_right htake, hlt]

/-- A field is its own property, byte by byte. -/
theorem field_eq_iff : held fields (i * maxPropLen) maxPropLen = padTake (cstr prop) maxPropLen ↔
    ∀ o < maxPropLen, fields (i * maxPropLen + o) = (cstr prop)[o]?.getD 0 := by
  rw [padTake_eq_map, held, List.map_inj_left]
  simp only [List.mem_range]

theorem props_lt {info : DeviceInfo} (h : info.props[i]? = some prop) : i < 5 := (List.getElem?_eq_some_iff.mp h).1

/-- What a property left in a later field is still there, where that field's own
property does not reach. -/
theorem covered_of_fields {info : DeviceInfo} (h : copyProps 0 info.props (fun _ => 0) = some fields')
    (hfields : ∀ i prop, info.props[i]? = some prop →
      held fields' (i * maxPropLen) maxPropLen = padTake (cstr prop) maxPropLen)
    {j : Nat} {before : Bytes} (hi : info.props[i]? = some prop) (hj : info.props[j]? = some before) (hlt : j < i) :
    maxPropLen ≤ (cstr prop).length ∨ j * maxPropLen + (cstr before).length ≤ i * maxPropLen + (cstr prop).length := by
  by_contra hno
  have hle : j * maxPropLen ≤ i * maxPropLen := Nat.mul_le_mul_right _ (Nat.le_of_lt hlt)
  have hclear : fields' (i * maxPropLen + (cstr prop).length) = 0 := by
    rw [field_eq_iff.mp (hfields i prop hi) _ (by omega), List.getElem?_eq_none (le_refl _), Option.getD_none]
  refine ((copyProps_eq_zero h).mp hclear).2 j before hj ?_
  rw [mem_cells, Nat.zero_add]
  omega

theorem fields_of_separate {info : DeviceInfo} (hsep : Separate info)
    (h : copyProps 0 info.props (fun _ => 0) = some fields') (hi : info.props[i]? = some prop) :
    held fields' (i * maxPropLen) maxPropLen = padTake (cstr prop) maxPropLen := by
  rw [field_eq_iff]
  intro o ho
  cases hb : (cstr prop)[o]? with
  | some b =>
    have hown := copyProps_own h hi ho hb
    rwa [Nat.zero_add] at hown
  | none =>
    -- the field's own property ends before, and no other reaches this far
    have hlen : (cstr prop).length ≤ o := List.getElem?_eq_none_iff.mp hb
    refine (copyProps_eq_zero h).mpr ⟨rfl, fun j before hj hmem => ?_⟩
    rw [mem_cells, Nat.zero_add] at hmem
    rcases Nat.lt_trichotomy j i with hlt | rfl | hgt
    · rcases hsep.covered i j prop before hi hj hlt with hfull | hshort
      · omega
      · omega
    · cases hi.symm.trans hj
      omega
    · have hle : (i + 1) * maxPropLen ≤ j * maxPropLen := Nat.mul_le_mul_right _ hgt
      rw [Nat.succ_mul] at hle
      omega

theorem ends_iff {info : DeviceInfo} : (copyProps 0 info.props fun _ => 0).isSome ↔
    ∀ i prop, info.props[i]? = some prop → i * maxPropLen + (cstr prop).length ≤ requestEnd := by
  rw [copyProps_isSome]
  simp only [Nat.zero_add]

section
variable {lib : Serializer} {osVersion osPatchlevel : UInt32} {info : DeviceInfo}

theorem separate_of_laidOut (h : LaidOut info (configDeviceInfo lib osVersion osPatchlevel info)) : Separate info := by
  obtain ⟨bytes, hbytes, -, hfields⟩ := h
  obtain ⟨fields, hcopy, rfl⟩ := Option.map_eq_some_iff.mp hbytes
  refine ⟨ends_iff.mp (by rw [hcopy]; rfl), fun i j prop before hi hj hlt => covered_of_fields hcopy ?_ hi hj hlt⟩
  intro i prop hi
  rw [← fieldAt_serialize lib osVersion osPatchlevel fields (props_lt hi)]
  exact hfields i prop hi

theorem laidOut_of_separate (hsep : Separate info) :
    LaidOut info (configDeviceInfo lib osVersion osPatchlevel info) := by
  obtain ⟨fields, hcopy⟩ := Option.isSome_iff_exists.mp (ends_iff.mpr hsep.ends)
  refine ⟨serialize lib osVersion osPatchlevel fields, by rw [configDeviceInfo, hcopy]; rfl, ?_, fun i prop hi => ?_⟩
  · rw [serialize_eq, List.length_append, List.length_append, length_leBytes, length_leBytes, length_held]
    rfl
  · rw [fieldAt_serialize lib osVersion osPatchlevel fields (props_lt hi)]
    exact fields_of_separate hsep hcopy hi

end

/-- **Every field holds its own property if and only if the properties keep
apart**: none runs past the last field, and none reaches a byte of a later field
that the property of that field leaves clear. -/
theorem device_info_laid_out_iff (lib : Serializer) (osVersion osPatchlevel : UInt32) (info : DeviceInfo) :
    LaidOut info (configDeviceInfo lib osVersion osPatchlevel info) ↔ Separate info :=
  ⟨separate_of_laidOut, laidOut_of_separate⟩

/-- The library as it is: what does not fit is left out. -/
def appending : Serializer where
  appendUint32ToBuf := fun room buf n => if buf.length + 4 ≤ room then buf ++ leBytes 4 n.toNat else buf
  appendToBuf := fun room buf data => if buf.length + data.length ≤ room then buf ++ data else buf
  appendUint32ToBuf_of_le := fun _ _ _ h => if_pos h
  appendToBuf_of_le := fun _ _ _ h => if_pos h

/-- A brand of 94 bytes, with a manufacturer of one. -/
def longBrand : DeviceInfo := ⟨List.replicate 94 0x41, [0x42], [0x43], [0x44], [0x45]⟩

/-- The last byte of the brand stays behind the manufacturer. -/
theorem brand_runs_into_manufacturer : ¬ LaidOut longBrand (configDeviceInfo appending 130000 202301 longBrand) := by
  intro h
  exact absurd ((separate_of_laidOut h).covered 1 0 [0x42] (List.replicate 94 0x41) rfl rfl (by decide)) (by decide)

end Keymint
