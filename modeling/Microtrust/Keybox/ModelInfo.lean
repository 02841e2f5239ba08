/-
The model string that goes with an attestation key (km4.1 kmsetkey,
ut_km_tac.cpp). Importing a key stores the model property in the keybox TA and
publishes it; checking the key reads it back and publishes what it found.

The TEEC calls of a function are taken by their results. The TA keeps the
bytes and the length it is given and reports them padded with zeros.
-/
import Microtrust.Lib.Bytes

namespace Keybox

open Lib

def kmMagic : UInt32 := 0xaf015838

def teePropValueMax : Nat := 84
def propValueMax : Nat := 92

def fail : Bytes := [0x66, 0x61, 0x69, 0x6c]
def ok : Bytes := [0x6f, 0x6b]
def unknown : Bytes := [0x75, 0x6e, 0x6b, 0x6e, 0x6f, 0x77, 0x6e]

/-- The commands of `kb_cmd_t` that are sent. -/
inductive Cmd where
  | importKeybox | getKeyboxStatus | writeKeyboxModelInfo
deriving DecidableEq

/-- The model information that the TA holds. -/
structure Ta where
  len : UInt32 := 0
  info : Bytes := []

def Ta.step (ta : Ta) (cmd : Cmd) (data : Bytes) : Ta :=
  match cmd with
  | .writeKeyboxModelInfo => ⟨.ofNat data.length, data⟩
  | _ => ta

/-- The fields of `key_status_t` that are read. -/
structure KeyStatus where
  googleKeyStaus : UInt32
  googleKeyModelInfoLen : UInt32
  googleKeyModelInfo : Bytes

def Ta.report (ta : Ta) (staus : UInt32) : KeyStatus where
  googleKeyStaus := staus
  googleKeyModelInfoLen := ta.len
  googleKeyModelInfo := (ta.info ++ List.replicate teePropValueMax 0).take teePropValueMax

/-- How the TEEC calls of one function end. -/
structure Link where
  initializeContext : UInt32 := 0
  openSession : UInt32 := 0
  allocateSharedMemory : UInt32 := 0
  /-- Whether the block has a buffer; one that was allocated does. -/
  buffer : Bool := true
  buffer_of_allocated : allocateSharedMemory = 0 → buffer = true := by simp
  invokeCommand : UInt32 := 0
  /-- `operation.params[0].value.a`. -/
  value : UInt32 := 0
  /-- Whether the TA did what it was told although the call failed. -/
  done : Bool := false
  /-- The key status that the TA reports. -/
  staus : UInt32 := kmMagic

/-- The result with which the call was given up before the TA was invoked. -/
def Link.setUp (l : Link) : Option UInt32 :=
  if l.initializeContext ≠ 0 then some l.initializeContext
  else if l.openSession ≠ 0 then some l.openSession
  else if l.allocateSharedMemory ≠ 0 ∨ l.buffer = false then some l.allocateSharedMemory
  else none

/-- The TA and the two properties, `GOOGLE_KEY_STATUS` and `GOOGLE_KEY_MODEL`. -/
structure State where
  ta : Ta := {}
  status : Bytes := []
  model : Bytes := []

/-- What `ut_km_import_google_key` and `ut_km_import_google_key_model` share. -/
def importData (s : State) (l : Link) (cmd : Cmd) (data : Bytes) : Int × State :=
  if data = [] then (-1, s)
  else match l.setUp with
    | some result => (toInt32 result.toNat, s)
    | none =>
      if l.invokeCommand ≠ 0 then
        (toInt32 l.invokeCommand.toNat, if l.done then { s with ta := s.ta.step cmd data } else s)
      else if l.value ≠ 0 then
        (toInt32 l.value.toNat, if l.done then { s with ta := s.ta.step cmd data } else s)
      else (0, { s with ta := s.ta.step cmd data })

def utKmImportGoogleKeyModel (s : State) (l : Link) (data : Bytes) : Int × State :=
  importData s l .writeKeyboxModelInfo data

def utKmImportGoogleKey (s : State) (l : Link) (data : Bytes) : Int × State := importData s l .importKeybox data

/-- `TEE_PROP_VALUE_MAX-1 > len > 0`: the truth value of the first comparison is
compared with zero. -/
def lenValid (len : UInt32) : Bool := 0 < (decide (len.toNat < teePropValueMax - 1)).toNat

def utKmCheckGoogleKey (s : State) (l : Link) : Int × State :=
  let s := { s with status := fail, model := fail }
  match l.setUp with
  | some result => (toInt32 result.toNat, s)
  | none =>
    if l.invokeCommand ≠ 0 then (toInt32 l.invokeCommand.toNat, s)
    else if l.value ≠ 0 then (-1, s)
    else
      let keyStatus := s.ta.report l.staus
      if keyStatus.googleKeyStaus = kmMagic then
        (0, { s with
          status := ok
          model := if lenValid keyStatus.googleKeyModelInfoLen then cstr keyStatus.googleKeyModelInfo else unknown })
      else (-1, { s with status := fail, model := fail })

/-- What the system keeps for a property; an empty value is that of one not set. -/
abbrev PropValue := { v : Bytes // v.length < propValueMax ∧ 0 ∉ v }

/-- `memset` with zeros. -/
def clear (buf : Bytes) (off n : Nat) : Bytes := splice buf off (List.replicate n 0)

/-- `property_get` into `property_value`. -/
def propertyGet (v : PropValue) : Bytes := splice (List.replicate propValueMax 0) 0 v.1

/-- The model goes to the TA, as much as it has room for, and the buffer is
cleared from there on. -/
def writeModel (s : State) (l : Link) (propertyValue : Bytes) : Int × State × Bytes :=
  let len := (cstr propertyValue).length
  if len < teePropValueMax then
    let (ret, s) := utKmImportGoogleKeyModel s l (propertyValue.take len)
    (ret, s, clear propertyValue len (propValueMax - len))
  else
    let (ret, s) := utKmImportGoogleKeyModel s l (propertyValue.take (teePropValueMax - 1))
    (ret, s, clear propertyValue (teePropValueMax - 1) (propValueMax - teePropValueMax - 1))

/-- `property` is the model property; `l₁` and `l₂` are the calls for the key
and for its model. -/
def utKmImportGoogleKeyAndModel (property : PropValue) (s : State) (l₁ l₂ : Link) (data : Bytes) : Int × State :=
  if data = [] then (-1, s)
  else match utKmImportGoogleKey s l₁ data with
    | (ret, s) =>
      if ret ≠ 0 then (ret, { s with status := fail })
      else if 0 < property.1.length then
        match writeModel s l₂ (propertyGet property) with
        | (ret, s, propertyValue) =>
          if ret ≠ 0 then (ret, s) else (ret, { s with status := ok, model := cstr propertyValue })
      else (-2, s)

variable {s s' : State} {l : Link} {ta : Ta} {data : Bytes}

/-! ## Importing -/

theorem toInt32_ne_zero {r : UInt32} (h : r ≠ 0) : toInt32 r.toNat ≠ 0 := fun hz => h (toInt32_eq_zero.mp hz)

theorem setUp_ne_zero {r : UInt32} (h : l.setUp = some r) : r ≠ 0 := by
  unfold Link.setUp at h
  split at h
  next hi =>
    cases h
    exact hi
  split at h
  next ho =>
    cases h
    exact ho
  split at h
  next ha =>
    cases h
    intro hz
    rcases ha with ha | ha
    · exact ha hz
    · rw [l.buffer_of_allocated hz] at ha
      cases ha
  next => cases h

theorem importData_zero {cmd : Cmd} (h : importData s l cmd data = (0, s')) :
    s' = { s with ta := s.ta.step cmd data } := by
  unfold importData at h
  split at h
  · exact absurd (Prod.mk.inj h).1 (by decide)
  split at h
  next r hr => exact absurd (Prod.mk.inj h).1 (toInt32_ne_zero (setUp_ne_zero hr))
  split at h
  next hi => exact absurd (Prod.mk.inj h).1 (toInt32_ne_zero hi)
  split at h
  next hv => exact absurd (Prod.mk.inj h).1 (toInt32_ne_zero hv)
  next => exact (Prod.mk.inj h).2.symm

theorem propertyGet_eq (v : PropValue) : ∃ n, propertyGet v = v.1 ++ 0 :: List.replicate n 0 := by
  refine ⟨propValueMax - v.1.length - 1, ?_⟩
  have hlen := v.2.1
  unfold propertyGet splice
  rw [← List.replicate_succ, List.take_zero, Nat.zero_sub, List.replicate_zero, List.nil_append, List.nil_append,
    Nat.zero_add, List.drop_replicate]
  congr 2
  omega

/-- A buffer cut short inside its string by zeros. -/
theorem cstr_clear {v rest : Bytes} {off n : Nat} (hv : 0 ∉ v) (hoff : off ≤ v.length) (hn : 0 < n) :
    cstr (clear (v ++ rest) off n) = v.take off := by
  have hlen : off - (v ++ rest).length = 0 := by
    rw [List.length_append]
    omega
  obtain ⟨m, rfl⟩ : ∃ m, n = m + 1 := ⟨n - 1, by omega⟩
  unfold clear splice
  rw [hlen, List.take_append_of_le_length hoff, List.replicate_zero, List.append_nil, List.replicate_succ,
    List.append_assoc, List.cons_append]
  exact cstr_append (fun h => hv (List.mem_of_mem_take h)) _

/-- As much of the property as the TA has room for. -/
def stored (v : PropValue) : Bytes := v.1.take (teePropValueMax - 1)

theorem writeModel_spec {v : PropValue} {buf : Bytes} (h : writeModel s l (propertyGet v) = (0, s', buf)) :
    s' = { s with ta := ⟨.ofNat (stored v).length, stored v⟩ } ∧ cstr buf = stored v := by
  obtain ⟨n, hget⟩ := propertyGet_eq v
  have hcstr : cstr (v.1 ++ 0 :: List.replicate n 0) = v.1 := cstr_append v.2.2 _
  have hmax := v.2.1
  unfold writeModel at h
  rw [hget, hcstr] at h
  dsimp only at h
  split at h
  next hshort =>
    have hstored : stored v = v.1 := List.take_of_length_le (by unfold teePropValueMax at *; omega)
    obtain ⟨hrc, hs, hbuf⟩ := by simpa only [Prod.mk.injEq] using h
    refine ⟨?_, ?_⟩
    · have himp := importData_zero (Prod.ext hrc hs)
      rwa [List.take_left, ← hstored] at himp
    · rw [← hbuf, cstr_clear v.2.2 le_rfl (by omega), List.take_length, hstored]
  next hlong =>
    have hle : teePropValueMax - 1 ≤ v.1.length := by omega
    obtain ⟨hrc, hs, hbuf⟩ := by simpa only [Prod.mk.injEq] using h
    refine ⟨?_, ?_⟩
    · have himp := importData_zero (Prod.ext hrc hs)
      rwa [List.take_append_of_le_length hle] at himp
    · rw [← hbuf, cstr_clear v.2.2 hle (by decide)]
      rfl

/-- What is stored is what is published. -/
theorem import_spec {v : PropValue} {l₁ l₂ : Link} (hv : v.1 ≠ [])
    (h : utKmImportGoogleKeyAndModel v s l₁ l₂ data = (0, s')) :
    s'.ta = ⟨.ofNat (stored v).length, stored v⟩ ∧ s'.model = stored v := by
  have hlen := List.length_pos_of_ne_nil hv
  unfold utKmImportGoogleKeyAndModel at h
  split at h
  · exact absurd (Prod.mk.inj h).1 (by decide)
  split at h
  next ret₁ s₁ hkey =>
    split at h
    next hne => exact absurd (Prod.mk.inj h).1 hne
    split at h
    next ret₂ s₂ buf hmodel =>
      split at h
      next hne => exact absurd (Prod.mk.inj h).1 hne
      next =>
        obtain ⟨rfl, rfl⟩ := Prod.mk.inj h
        obtain ⟨rfl, hbuf⟩ := writeModel_spec hmodel
        exact ⟨rfl, hbuf⟩

/-! ## Checking -/

/-- What a successful check publishes. -/
def published (ta : Ta) : Bytes :=
  if lenValid ta.len then cstr (ta.report kmMagic).googleKeyModelInfo else unknown

theorem check_ta (s : State) (l : Link) : (utKmCheckGoogleKey s l).2.ta = s.ta := by
  unfold utKmCheckGoogleKey
  dsimp only
  split
  · rfl
  split
  · rfl
  split
  · rfl
  split <;> rfl

theorem check_zero (h : utKmCheckGoogleKey s l = (0, s')) : s'.model = published s.ta := by
  unfold utKmCheckGoogleKey at h
  dsimp only at h
  split at h
  next r hr => exact absurd (Prod.mk.inj h).1 (toInt32_ne_zero (setUp_ne_zero hr))
  split at h
  next hi => exact absurd (Prod.mk.inj h).1 (toInt32_ne_zero hi)
  split at h
  · exact absurd (Prod.mk.inj h).1 (by decide)
  split at h
  next =>
    cases h
    rfl
  next => exact absurd (Prod.mk.inj h).1 (by decide)

theorem lenValid_iff (len : UInt32) : lenValid len = true ↔ len.toNat < teePropValueMax - 1 := by
  unfold lenValid
  by_cases h : len.toNat < teePropValueMax - 1 <;> simp [h]

/-- Checks made one after the other. -/
def checks (s : State) (ls : List Link) : State := ls.foldl (fun s l => (utKmCheckGoogleKey s l).2) s

theorem checks_ta (s : State) (ls : List Link) : (checks s ls).ta = s.ta := by
  induction ls generalizing s with
  | nil => rfl
  | cons l ls ih => exact (ih _).trans (check_ta s l)

theorem length_stored (v : PropValue) : (stored v).length = min (teePropValueMax - 1) v.1.length :=
  List.length_take ..

/-- The report has room for the string and the zero after it. -/
theorem cstr_report {len : UInt32} (v : PropValue) :
    cstr (Ta.report ⟨len, stored v⟩ kmMagic).googleKeyModelInfo = stored v := by
  have hle : (stored v).length < teePropValueMax := by
    rw [length_stored]
    exact lt_of_le_of_lt (min_le_left ..) (by decide)
  have hroom : teePropValueMax - (stored v).length = teePropValueMax - (stored v).length - 1 + 1 := by omega
  show cstr ((stored v ++ List.replicate teePropValueMax 0).take teePropValueMax) = stored v
  rw [List.take_append, List.take_of_length_le hle.le, hroom,
    show List.replicate teePropValueMax (0 : UInt8) = 0 :: List.replicate (teePropValueMax - 1) 0 from rfl,
    List.take_succ_cons]
  exact cstr_append (fun h => v.2.2 (List.mem_of_mem_take h)) _

/-- What a check publishes of an imported model. -/
theorem published_stored (v : PropValue) :
    published ⟨.ofNat (stored v).length, stored v⟩ = if v.1.length < teePropValueMax - 1 then stored v else unknown := by
  have hlen := length_stored v
  have hnat : (UInt32.ofNat (stored v).length).toNat = (stored v).length := by
    refine UInt32.toNat_ofNat_of_lt' ?_
    rw [hlen]
    exact lt_of_le_of_lt (min_le_left ..) (by decide)
  unfold published
  rw [cstr_report]
  refine if_congr ?_ rfl rfl
  rw [lenValid_iff, hnat, hlen]
  omega

/-! ## Import and check -/

/-- Every successful check after a successful import, with any other checks
between them, publishes the model string that the import published. -/
def Agrees (v : PropValue) : Prop :=
  ∀ (s s₁ s₂ : State) (l₁ l₂ l : Link) (data : Bytes) (between : List Link),
    utKmImportGoogleKeyAndModel v s l₁ l₂ data = (0, s₁) → utKmCheckGoogleKey (checks s₁ between) l = (0, s₂) →
      s₂.model = s₁.model

/-- The TA holds no model information, or some of a length that no import stores. -/
def Ta.Foreign (ta : Ta) : Prop := ta.len = 0 ∧ ta.info = [] ∨ teePropValueMax ≤ ta.len.toNat

/-- Every successful check of such a TA publishes "unknown". -/
def SaysUnknown (ta : Ta) : Prop :=
  ∀ (s s' : State) (l : Link), s.ta = ta → utKmCheckGoogleKey s l = (0, s') → s'.model = unknown

theorem importData_works {cmd : Cmd} (h : data ≠ []) (s : State) :
    importData s {} cmd data = (0, { s with ta := s.ta.step cmd data }) := if_neg h

theorem import_works {v : PropValue} (hv : v.1 ≠ []) (s : State) :
    ∃ s', utKmImportGoogleKeyAndModel v s {} {} [0] = (0, s') := by
  have hpos := List.length_pos_of_ne_nil hv
  obtain ⟨n, hget⟩ := propertyGet_eq v
  have hcstr : cstr (v.1 ++ 0 :: List.replicate n 0) = v.1 := cstr_append v.2.2 _
  have hdata {m : Nat} (hm : 0 < m) : (v.1 ++ 0 :: List.replicate n 0).take m ≠ [] := by
    rw [Ne, List.take_eq_nil_iff]
    simp [hv]
    omega
  have hmodel : (writeModel s {} (propertyGet v)).1 = 0 := by
    unfold writeModel utKmImportGoogleKeyModel
    rw [hget, hcstr]
    dsimp only
    split
    · rw [importData_works (hdata hpos)]
    · rw [importData_works (hdata (by decide))]
  unfold utKmImportGoogleKeyAndModel utKmImportGoogleKey
  rw [if_neg (by simp), importData_works (by simp)]
  dsimp only
  rw [if_neg (by simp), if_pos hpos, show Ta.step s.ta .importKeybox [0] = s.ta from rfl]
  rw [if_neg (not_not.mpr hmodel), hmodel]
  exact ⟨_, rfl⟩

theorem check_works (s : State) : ∃ s', utKmCheckGoogleKey s {} = (0, s') := ⟨_, rfl⟩

theorem agrees_iff_published {v : PropValue} (hv : v.1 ≠ []) :
    Agrees v ↔ published ⟨.ofNat (stored v).length, stored v⟩ = stored v := by
  constructor
  · intro h
    obtain ⟨s₁, himport⟩ := import_works hv {}
    obtain ⟨s₂, hcheck⟩ := check_works s₁
    obtain ⟨hta, hmodel⟩ := import_spec hv himport
    rw [← hta, ← check_zero hcheck, ← hmodel]
    exact h {} s₁ s₂ {} {} {} [0] [] himport hcheck
  · intro h s s₁ s₂ l₁ l₂ l data between himport hcheck
    obtain ⟨hta, hmodel⟩ := import_spec hv himport
    rw [check_zero hcheck, checks_ta, hta, h, hmodel]

theorem saysUnknown_iff_published (ta : Ta) : SaysUnknown ta ↔ published ta = unknown := by
  constructor
  · intro h
    obtain ⟨s', hcheck⟩ := check_works { ta }
    exact (check_zero hcheck).symm.trans (h _ _ _ rfl hcheck)
  · rintro h s s' l rfl hcheck
    exact (check_zero hcheck).trans h

/-- **When a check agrees with the import, and when it says "unknown".** The
reader's range test stops one short of what the writer stores, so that models
of 83 characters and more are lost; and it lets a length of zero pass, for
which it publishes an empty model. -/
theorem model_agrees_iff (v : PropValue) (hv : v.1 ≠ []) (ta : Ta) (hta : ta.Foreign) :
    (Agrees v ↔ v.1.length ≤ 82) ∧ (SaysUnknown ta ↔ ta.len ≠ 0) := by
  rw [agrees_iff_published hv, saysUnknown_iff_published, published_stored]
  refine ⟨?_, ?_⟩
  · split
    next hlt =>
      refine iff_of_true rfl ?_
      unfold teePropValueMax at hlt
      omega
    next hge =>
      have hlen := length_stored v
      unfold teePropValueMax at hge hlen
      refine iff_of_false (fun h => ?_) (by omega)
      rw [← h, show unknown.length = 7 from rfl] at hlen
      omega
  · rcases hta with ⟨hzero, hinfo⟩ | hlong
    · refine iff_of_false ?_ (not_not.mpr hzero)
      obtain ⟨len, info⟩ := ta
      subst hzero
      subst hinfo
      decide
    · have hinvalid : ¬ lenValid ta.len = true := by
        rw [lenValid_iff]
        omega
      refine iff_of_true (if_neg hinvalid) fun hzero => ?_
      rw [hzero] at hlong
      exact absurd hlong (by decide)

/-- A name of 83 letters. -/
def longModel : PropValue := ⟨List.replicate 83 65, by decide +kernel⟩

/-- The name of 83 letters is imported and published, and the next check
publishes "unknown"; a TA that holds no model information has an empty one
published. -/
theorem long_model_lost : ¬ Agrees longModel ∧ Ta.Foreign {} ∧ ¬ SaysUnknown {} := by
  refine ⟨?_, .inl ⟨rfl, rfl⟩, ?_⟩
  · rw [agrees_iff_published (by decide), published_stored]
    decide +kernel
  · intro h
    have heq := h {} (utKmCheckGoogleKey {} {}).2 {} rfl rfl
    exact absurd heq (by decide)

theorem model_agrees_iff_device : (Agrees ⟨[0x6b, 0x36], by decide⟩ ↔ 2 ≤ 82) ∧
    (SaysUnknown ⟨100, []⟩ ↔ (100 : UInt32) ≠ 0) :=
  model_agrees_iff ⟨[0x6b, 0x36], by decide⟩ (by decide) ⟨100, []⟩ (.inr (by decide))

end Keybox
