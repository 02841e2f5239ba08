/-
Key parameters on their way to the keymaster library and back (KmParamSet and
kmParamSet2Hidl in 40/BeanpodKeymaster4Device.cpp, the same in the 400 and the
lite tree).

A parameter has a tag, and the type in the tag's top bits says which member of
a union holds its value. Both ways switch over the type; what the first leaves
out it gives the tag INVALID, and leaves the rest of the element as the
allocation had it.
-/
import Microtrust.Lib.Bytes

namespace Keymaster

open Lib

/-! ## Tags and parameters -/

abbrev Tag := UInt32

/-- `KM_TAG_INVALID`. -/
def tagInvalid : Tag := 0

/-- `keymaster_tag_type_t`. -/
inductive TagType where
  | invalid
  | enum | enumRep
  | uint | uintRep
  | ulong | date | bool | bignum | bytes | ulongRep
  | other (bits : Nat)
deriving DecidableEq

def TagType.ofBits : Nat → TagType
  | 0 => .invalid
  | 1 => .enum
  | 2 => .enumRep
  | 3 => .uint
  | 4 => .uintRep
  | 5 => .ulong
  | 6 => .date
  | 7 => .bool
  | 8 => .bignum
  | 9 => .bytes
  | 10 => .ulongRep
  | n => .other n

/-- The type in the top four bits of a tag. -/
def typeBits (tag : Tag) : TagType := .ofBits (tag.toNat / 2 ^ 28)

/-- What the keymaster library has for `keymaster_key_param_t`: the members of
the structure and of its union, and the constructors, which store the tag and
the value. -/
structure KeymasterDefs where
  Param : Type
  tag : Param → Tag
  enumerated : Param → UInt32
  integer : Param → UInt32
  longInteger : Param → UInt64
  dateTime : Param → UInt64
  boolean : Param → Bool
  blob : Param → Bytes
  /-- An assignment to the member `tag`. -/
  setTag : Param → Tag → Param
  tagGetType : Tag → TagType
  paramEnum : Tag → UInt32 → Param
  paramInt : Tag → UInt32 → Param
  paramLong : Tag → UInt64 → Param
  paramDate : Tag → UInt64 → Param
  paramBool : Tag → Param
  paramBlob : Tag → Bytes → Param
  tag_setTag : ∀ p t, tag (setTag p t) = t
  tagGetType_eq : ∀ t, tagGetType t = typeBits t
  paramEnum_eq : ∀ t n, tag (paramEnum t n) = t ∧ enumerated (paramEnum t n) = n
  paramInt_eq : ∀ t n, tag (paramInt t n) = t ∧ integer (paramInt t n) = n
  paramLong_eq : ∀ t n, tag (paramLong t n) = t ∧ longInteger (paramLong t n) = n
  paramDate_eq : ∀ t n, tag (paramDate t n) = t ∧ dateTime (paramDate t n) = n
  paramBool_eq : ∀ t, tag (paramBool t) = t ∧ boolean (paramBool t) = true
  paramBlob_eq : ∀ t bs, tag (paramBlob t bs) = t ∧ blob (paramBlob t bs) = bs

/-- The union `f` of a HIDL `KeyParameter`: eight bytes, of which every member
takes the first. -/
structure IntegerParams where
  bits : UInt64
deriving DecidableEq

namespace IntegerParams

def integer (f : IntegerParams) : UInt32 := f.bits.toUInt32

def longInteger (f : IntegerParams) : UInt64 := f.bits

def dateTime (f : IntegerParams) : UInt64 := f.bits

def boolValue (f : IntegerParams) : Bool := f.bits.toUInt8 ≠ 0

def setInteger (f : IntegerParams) (n : UInt32) : IntegerParams :=
  ⟨.ofNat (f.bits.toNat / 2 ^ 32 * 2 ^ 32 + n.toNat)⟩

def setLongInteger (_ : IntegerParams) (n : UInt64) : IntegerParams := ⟨n⟩

def setDateTime (_ : IntegerParams) (n : UInt64) : IntegerParams := ⟨n⟩

def setBoolValue (f : IntegerParams) (b : Bool) : IntegerParams :=
  ⟨.ofNat (f.bits.toNat / 2 ^ 8 * 2 ^ 8 + b.toNat)⟩

end IntegerParams

/-- `KeyParameter`. -/
structure KeyParameter where
  tag : Tag
  f : IntegerParams
  blob : Bytes
deriving DecidableEq

/-! ## The conversions -/

variable (lib : KeymasterDefs)

/-- One round of the loop of `KmParamSet`, for an element the allocation left
as `old`. -/
def kmParam (old : lib.Param) (p : KeyParameter) : lib.Param :=
  match lib.tagGetType p.tag with
  | .enum | .enumRep => lib.paramEnum p.tag p.f.integer
  | .uint | .uintRep => lib.paramInt p.tag p.f.integer
  | .ulong | .ulongRep => lib.paramLong p.tag p.f.longInteger
  | .date => lib.paramDate p.tag p.f.dateTime
  | .bool => if p.f.boolValue then lib.paramBool p.tag else lib.setTag old tagInvalid
  | .bignum | .bytes => lib.paramBlob p.tag p.blob
  | .invalid | .other _ => lib.setTag old tagInvalid

/-- `KmParamSet`. `new` gives elements that are not initialised. -/
def kmParamSet (allocated : Nat → lib.Param) (keyParams : List KeyParameter) : List lib.Param :=
  keyParams.mapIdx fun i p => kmParam lib (allocated i) p

/-- One round of the loop of `kmParamSet2Hidl`, for an element `resize` made. -/
def hidlParam (fresh : KeyParameter) (q : lib.Param) : KeyParameter :=
  let r := { fresh with tag := lib.tag q }
  match lib.tagGetType (lib.tag q) with
  | .enum | .enumRep => { r with f := r.f.setInteger (lib.enumerated q) }
  | .uint | .uintRep => { r with f := r.f.setInteger (lib.integer q) }
  | .ulong | .ulongRep => { r with f := r.f.setLongInteger (lib.longInteger q) }
  | .date => { r with f := r.f.setDateTime (lib.dateTime q) }
  | .bool => { r with f := r.f.setBoolValue (lib.boolean q) }
  | .bignum | .bytes => { r with blob := lib.blob q }
  -- the tag of the source is cleared, and the result has it already
  | .invalid | .other _ => r

/-- `kmParamSet2Hidl`. -/
def kmParamSet2Hidl (fresh : Nat → KeyParameter) (set : List lib.Param) : List KeyParameter :=
  set.mapIdx fun i q => hidlParam lib (fresh i) q

/-! ## Round trips -/

/-- A value, as the type of the tag selects it. -/
inductive Value where
  | integer (n : UInt32)
  | longInteger (n : UInt64)
  | dateTime (n : UInt64)
  | boolean (b : Bool)
  | blob (bs : Bytes)
deriving DecidableEq

/-- The value of a parameter of one of the ten types. -/
def KeyParameter.value (p : KeyParameter) : Option Value :=
  match typeBits p.tag with
  | .enum | .enumRep | .uint | .uintRep => some (.integer p.f.integer)
  | .ulong | .ulongRep => some (.longInteger p.f.longInteger)
  | .date => some (.dateTime p.f.dateTime)
  | .bool => some (.boolean p.f.boolValue)
  | .bignum | .bytes => some (.blob p.blob)
  | .invalid | .other _ => none

/-- The type is one of the ten, and the parameter is not a false boolean. -/
def KeyParameter.carried (p : KeyParameter) : Prop := p.value ≠ none ∧ p.value ≠ some (.boolean false)

instance (p : KeyParameter) : Decidable p.carried := inferInstanceAs (Decidable (_ ∧ _))

namespace IntegerParams

theorem integer_setInteger (f : IntegerParams) (n : UInt32) : (f.setInteger n).integer = n := by
  apply UInt32.toNat_inj.mp
  have hf := f.bits.toNat_lt
  have hn := n.toNat_lt
  simp only [setInteger, integer, UInt64.toNat_toUInt32, UInt64.toNat_ofNat']
  omega

theorem longInteger_setLongInteger (f : IntegerParams) (n : UInt64) : (f.setLongInteger n).longInteger = n := rfl

theorem dateTime_setDateTime (f : IntegerParams) (n : UInt64) : (f.setDateTime n).dateTime = n := rfl

theorem boolValue_setBoolValue (f : IntegerParams) (b : Bool) : (f.setBoolValue b).boolValue = b := by
  have hf := f.bits.toNat_lt
  have hbits : ((f.setBoolValue b).bits.toUInt8).toNat = b.toNat := by
    have hb := b.toNat_le
    simp only [setBoolValue, UInt64.toNat_toUInt8, UInt64.toNat_ofNat']
    omega
  have hzero : (f.setBoolValue b).bits.toUInt8 = 0 ↔ b = false := by
    rw [← UInt8.toNat_inj, hbits]
    cases b <;> decide
  cases b <;> simp [boolValue, hzero]

end IntegerParams

variable {lib} {p : KeyParameter} (old : lib.Param) (fresh : KeyParameter)

/-- A parameter that is carried comes back with its tag and its value. -/
theorem hidlParam_kmParam (h : p.carried) :
    (hidlParam lib fresh (kmParam lib old p)).tag = p.tag ∧
      (hidlParam lib fresh (kmParam lib old p)).value = p.value := by
  have htype := lib.tagGetType_eq p.tag
  obtain ⟨hknown, htrue⟩ := h
  unfold KeyParameter.value at hknown htrue ⊢
  cases hty : typeBits p.tag <;> simp only [hty] at hknown htrue
  case invalid | other => exact absurd rfl hknown
  case enum | enumRep =>
    obtain ⟨htag, hval⟩ := lib.paramEnum_eq p.tag p.f.integer
    simp [kmParam, hidlParam, htype, hty, htag, hval, IntegerParams.integer_setInteger]
  case uint | uintRep =>
    obtain ⟨htag, hval⟩ := lib.paramInt_eq p.tag p.f.integer
    simp [kmParam, hidlParam, htype, hty, htag, hval, IntegerParams.integer_setInteger]
  case ulong | ulongRep =>
    obtain ⟨htag, hval⟩ := lib.paramLong_eq p.tag p.f.longInteger
    simp [kmParam, hidlParam, htype, hty, htag, hval, IntegerParams.longInteger_setLongInteger]
  case date =>
    obtain ⟨htag, hval⟩ := lib.paramDate_eq p.tag p.f.dateTime
    simp [kmParam, hidlParam, htype, hty, htag, hval, IntegerParams.dateTime_setDateTime]
  case bool =>
    have hb : p.f.boolValue = true := by
      cases hf : p.f.boolValue
      · rw [hf] at htrue
        exact absurd rfl htrue
      · rfl
    obtain ⟨htag, hval⟩ := lib.paramBool_eq p.tag
    simp [kmParam, hidlParam, htype, hty, hb, htag, hval, IntegerParams.boolValue_setBoolValue]
  case bignum | bytes =>
    obtain ⟨htag, hval⟩ := lib.paramBlob_eq p.tag p.blob
    simp [kmParam, hidlParam, htype, hty, htag, hval]

/-- The tag of what comes back is the one the library has. -/
theorem hidlParam_tag (q : lib.Param) : (hidlParam lib fresh q).tag = lib.tag q := by
  unfold hidlParam
  dsimp only
  split <;> rfl

/-- Any other parameter comes back with the tag INVALID. -/
theorem hidlParam_kmParam_tag (h : ¬ p.carried) : (hidlParam lib fresh (kmParam lib old p)).tag = tagInvalid := by
  have htype := lib.tagGetType_eq p.tag
  have hold := lib.tag_setTag old tagInvalid
  rw [hidlParam_tag]
  unfold KeyParameter.carried KeyParameter.value at h
  cases hty : typeBits p.tag <;> simp only [hty] at h
  case invalid | other => simpa only [kmParam, htype, hty] using hold
  case bool =>
    have hb : p.f.boolValue = false := by simpa using h
    simpa only [kmParam, htype, hty, hb, Bool.false_eq_true, if_false] using hold
  all_goals simp at h

/-- **Parameters survive the round trip**: there are as many, in the same order;
each with one of the ten types that is not a false boolean comes back with its
tag and its value, and each of the others with the tag INVALID. -/
theorem key_params_round_trip (lib : KeymasterDefs) (allocated : Nat → lib.Param) (fresh : Nat → KeyParameter)
    (keyParams : List KeyParameter) :
    (kmParamSet2Hidl lib fresh (kmParamSet lib allocated keyParams)).length = keyParams.length ∧
      ∀ (i : Nat) (p : KeyParameter), keyParams[i]? = some p →
        ∃ q : KeyParameter, (kmParamSet2Hidl lib fresh (kmParamSet lib allocated keyParams))[i]? = some q ∧
          (p.carried → q.tag = p.tag ∧ q.value = p.value) ∧ (¬ p.carried → q.tag = tagInvalid) := by
  refine ⟨?_, ?_⟩
  · rw [kmParamSet2Hidl, kmParamSet, List.length_mapIdx, List.length_mapIdx]
  · intro i p hp
    refine ⟨hidlParam lib (fresh i) (kmParam lib (allocated i) p), ?_, ?_, ?_⟩
    · rw [kmParamSet2Hidl, kmParamSet, List.getElem?_mapIdx, List.getElem?_mapIdx, hp]
      rfl
    · exact hidlParam_kmParam _ _
    · exact hidlParam_kmParam_tag _ _

/-- A parameter with a word and a blob for its union. -/
structure PlainParam where
  tag : Tag
  word : UInt64
  blob : Bytes
deriving DecidableEq

/-- The library, with such parameters. -/
def plainDefs : KeymasterDefs where
  Param := PlainParam
  tag := PlainParam.tag
  enumerated := fun p => p.word.toUInt32
  integer := fun p => p.word.toUInt32
  longInteger := PlainParam.word
  dateTime := PlainParam.word
  boolean := fun p => p.word ≠ 0
  blob := PlainParam.blob
  setTag := fun p t => { p with tag := t }
  tagGetType := typeBits
  paramEnum := fun t n => ⟨t, n.toUInt64, []⟩
  paramInt := fun t n => ⟨t, n.toUInt64, []⟩
  paramLong := fun t n => ⟨t, n, []⟩
  paramDate := fun t n => ⟨t, n, []⟩
  paramBool := fun t => ⟨t, 1, []⟩
  paramBlob := fun t bs => ⟨t, 0, bs⟩
  tag_setTag := fun _ _ => rfl
  tagGetType_eq := fun _ => rfl
  paramEnum_eq := fun _ n => ⟨rfl, n.toUInt32_toUInt64⟩
  paramInt_eq := fun _ n => ⟨rfl, n.toUInt32_toUInt64⟩
  paramLong_eq := fun _ _ => ⟨rfl, rfl⟩
  paramDate_eq := fun _ _ => ⟨rfl, rfl⟩
  paramBool_eq := fun _ => ⟨rfl, rfl⟩
  paramBlob_eq := fun _ _ => ⟨rfl, rfl⟩

/-- An algorithm, a false boolean and a blob. -/
example : (kmParamSet2Hidl plainDefs (fun _ => ⟨0, ⟨0⟩, []⟩) (kmParamSet plainDefs (fun _ => ⟨9, 9, [9]⟩)
    [⟨0x10000002, ⟨0xff00000001⟩, []⟩, ⟨0x70000001, ⟨0⟩, []⟩, ⟨0x90000007, ⟨0⟩, [1, 2]⟩])) =
    [⟨0x10000002, ⟨1⟩, []⟩, ⟨0, ⟨0⟩, []⟩, ⟨0x90000007, ⟨0⟩, [1, 2]⟩] := by decide

end Keymaster
