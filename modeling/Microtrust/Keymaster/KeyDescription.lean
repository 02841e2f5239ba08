/-
The description of a key on its way to the TA (BeanpodKeymaster::GenerateKey in
400/km4.1/common, lite/km4.1/common and 400/keymint1.0/common).

A key is to have a date of creation. The two copies of km4.1 append the current
time to a description that has none. The one in keymint1.0 has lost the
negation: it appends the time to a description that has a date.
-/
import Microtrust.Keymaster.KeyParams

namespace Keymaster

/-! ## Descriptions -/

/-- `TAG_CREATION_DATETIME`, of the type `KM_DATE`. -/
def creationDatetime : Tag := 0x600002bd

/-- What the keymaster library has for an `AuthorizationSet`, where memory for it
can be had: assigning one copies its entries, and `push_back` appends one. -/
structure AuthorizationSets (lib : KeymasterDefs) where
  Set : Type
  empty : Set
  entries : Set → List lib.Param
  assign : Set → Set
  contains : Set → Tag → Bool
  pushBack : Set → Tag → UInt64 → Set
  entries_empty : entries empty = []
  entries_assign : ∀ s, entries (assign s) = entries s
  contains_iff : ∀ s t, contains s t = true ↔ ∃ p ∈ entries s, lib.tag p = t
  entries_pushBack : ∀ s t n, entries (pushBack s t n) = entries s ++ [lib.paramDate t n]

variable {lib : KeymasterDefs} (sets : AuthorizationSets lib)

/-- `GenerateKeyRequest`. -/
structure GenerateKeyRequest where
  messageVersion : UInt32
  keyDescription : sets.Set
  attestationSigningKeyBlob : Lib.Bytes := []
  attestKeyParams : sets.Set := sets.empty
  issuerSubject : Lib.Bytes := []

/-! ## The methods -/

/-- A copy of the description, with the time if `appends` says so. -/
def dated (appends : Bool) (now : UInt64) (description : sets.Set) : sets.Set :=
  if appends then sets.pushBack (sets.assign description) creationDatetime now else sets.assign description

/-- `GenerateKey` in km4.1: the request it forwards. -/
def generateKeyKm41 (now : UInt64) (request : GenerateKeyRequest sets) : GenerateKeyRequest sets where
  messageVersion := request.messageVersion
  keyDescription := dated sets (!sets.contains request.keyDescription creationDatetime) now request.keyDescription

/-- `GenerateKey` in the lite tree. -/
def generateKeyLite (now : UInt64) (request : GenerateKeyRequest sets) : GenerateKeyRequest sets where
  messageVersion := request.messageVersion
  keyDescription := dated sets (!sets.contains request.keyDescription creationDatetime) now request.keyDescription

/-- `GenerateKey` in keymint1.0, which forwards nothing if `Initialize` fails. -/
def generateKeyKeymint10 (initialized : Bool) (now : UInt64) (request : GenerateKeyRequest sets) :
    Option (GenerateKeyRequest sets) :=
  if !initialized then none
  else some
    { messageVersion := request.messageVersion
      keyDescription := dated sets (sets.contains request.keyDescription creationDatetime) now request.keyDescription
      attestationSigningKeyBlob := request.attestationSigningKeyBlob
      attestKeyParams := sets.assign request.attestKeyParams
      issuerSubject := request.issuerSubject }

/-- The copies of the method. -/
inductive MethodCopy where
  | km41 | lite
  | keymint10 (initialized : Bool)
deriving DecidableEq

def generateKey (copy : MethodCopy) (now : UInt64) (request : GenerateKeyRequest sets) : Option (GenerateKeyRequest sets) :=
  match copy with
  | .km41 => some (generateKeyKm41 sets now request)
  | .lite => some (generateKeyLite sets now request)
  | .keymint10 initialized => generateKeyKeymint10 sets initialized now request

/-! ## What is forwarded -/

/-- The entry is a date of creation. -/
def isDate (lib : KeymasterDefs) (p : lib.Param) : Bool := lib.tag p = creationDatetime

/-- The caller's entries are forwarded, in order; there is at most one date of
creation, and where the caller gave one it is the caller's. -/
structure Faithful (lib : KeymasterDefs) (given forwarded : List lib.Param) : Prop where
  kept : given.Sublist forwarded
  once : (forwarded.filter (isDate lib)).length ≤ 1
  callers : ∀ p ∈ given, isDate lib p = true → ∀ q ∈ forwarded, isDate lib q = true → q = p

/-- Whatever is forwarded for the request is faithful. -/
def ForwardsFaithfully (copy : MethodCopy) (now : UInt64) (request : GenerateKeyRequest sets) : Prop :=
  ∀ fwd, generateKey sets copy now request = some fwd →
    Faithful lib (sets.entries request.keyDescription) (sets.entries fwd.keyDescription)

variable {sets} {now : UInt64}

theorem entries_dated (appends : Bool) (now : UInt64) (d : sets.Set) :
    sets.entries (dated sets appends now d) =
      sets.entries d ++ if appends then [lib.paramDate creationDatetime now] else [] := by
  cases appends
  · simp [dated, sets.entries_assign]
  · simp [dated, sets.entries_pushBack, sets.entries_assign]

theorem isDate_paramDate (now : UInt64) : isDate lib (lib.paramDate creationDatetime now) = true :=
  decide_eq_true (lib.paramDate_eq creationDatetime now).1

theorem contains_eq_any (d : sets.Set) : sets.contains d creationDatetime = (sets.entries d).any (isDate lib) := by
  rw [Bool.eq_iff_iff, sets.contains_iff, List.any_eq_true]
  simp only [isDate, decide_eq_true_eq]

/-- Entries that are copied are faithful. -/
theorem faithful_self {given : List lib.Param} (h : (given.filter (isDate lib)).length ≤ 1) : Faithful lib given given := by
  refine ⟨.refl given, h, fun p hp hdp q hq hdq => ?_⟩
  have hp' : p ∈ given.filter (isDate lib) := List.mem_filter.mpr ⟨hp, hdp⟩
  have hq' : q ∈ given.filter (isDate lib) := List.mem_filter.mpr ⟨hq, hdq⟩
  match hfilter : given.filter (isDate lib) with
  | [] => simp [hfilter] at hp'
  | [r] =>
    rw [hfilter, List.mem_singleton] at hp' hq'
    rw [hp', hq']
  | r :: r' :: rest =>
    rw [hfilter] at h
    simp at h

/-- A date behind the caller's entries is faithful if and only if they have none. -/
theorem faithful_append_iff {given : List lib.Param} :
    Faithful lib given (given ++ [lib.paramDate creationDatetime now]) ↔ given.any (isDate lib) = false := by
  have hdate : isDate lib (lib.paramDate creationDatetime now) = true := isDate_paramDate now
  have hfilter : (given ++ [lib.paramDate creationDatetime now]).filter (isDate lib) =
      given.filter (isDate lib) ++ [lib.paramDate creationDatetime now] := by
    simp [hdate]
  rw [List.any_eq_false]
  refine ⟨?_, ?_⟩
  · intro h p hp hd
    have honce := h.once
    have hmem : p ∈ given.filter (isDate lib) := List.mem_filter.mpr ⟨hp, hd⟩
    have hpos := List.length_pos_of_mem hmem
    rw [hfilter, List.length_append, List.length_singleton] at honce
    omega
  · intro h
    have hnil : given.filter (isDate lib) = [] := List.filter_eq_nil_iff.mpr h
    refine ⟨List.sublist_append_left _ _, ?_, fun p hp hd => absurd hd (h p hp)⟩
    rw [hfilter, hnil]
    rfl

/-- Whether the time is appended decides, given at most one date. -/
theorem faithful_dated_iff {d : sets.Set} (h : ((sets.entries d).filter (isDate lib)).length ≤ 1) (appends : Bool) :
    Faithful lib (sets.entries d) (sets.entries (dated sets appends now d)) ↔
      ¬ (appends = true ∧ sets.contains d creationDatetime = true) := by
  rw [entries_dated, contains_eq_any]
  cases appends
  · simpa using faithful_self h
  · simpa using faithful_append_iff

/-- **A description is forwarded faithfully unless keymint1.0 is given a date.**
Of descriptions with at most one date of creation, both copies of km4.1 forward
all; the copy in keymint1.0 forwards those without one, and to one with a date
it adds the current time. -/
theorem key_description_faithful_iff (copy : MethodCopy) (now : UInt64) (request : GenerateKeyRequest sets)
    (h : ((sets.entries request.keyDescription).filter (isDate lib)).length ≤ 1) :
    ForwardsFaithfully sets copy now request ↔
      ¬ (copy = .keymint10 true ∧ ∃ p ∈ sets.entries request.keyDescription, lib.tag p = creationDatetime) := by
  rw [← sets.contains_iff]
  unfold ForwardsFaithfully generateKey
  cases copy with
  | km41 => simp [generateKeyKm41, faithful_dated_iff h]
  | lite => simp [generateKeyLite, faithful_dated_iff h]
  | keymint10 initialized =>
    cases initialized
    · simp [generateKeyKeymint10]
    · simp [generateKeyKeymint10, faithful_dated_iff h]

/-- Sets that are their entries. -/
def plainSets : AuthorizationSets plainDefs where
  Set := List PlainParam
  empty := []
  entries := id
  assign := id
  contains := fun s t => s.any fun p => p.tag = t
  pushBack := fun s t n => s ++ [⟨t, n, []⟩]
  entries_empty := rfl
  entries_assign := fun _ => rfl
  contains_iff := by
    intro s t
    simp only [List.any_eq_true, decide_eq_true_eq]
    rfl
  entries_pushBack := fun _ _ _ => rfl

/-- A description with an algorithm and, if there is one, a date. -/
def describing (date : Option UInt64) : GenerateKeyRequest plainSets where
  messageVersion := 3
  keyDescription := ⟨0x10000002, 1, []⟩ :: date.toList.map fun n => (⟨creationDatetime, n, []⟩ : PlainParam)

/-- Without a date, keymint1.0 forwards the description as it is. -/
theorem undated_faithful : ForwardsFaithfully plainSets (.keymint10 true) 1700000000000 (describing none) :=
  (key_description_faithful_iff (.keymint10 true) 1700000000000 (describing none) (by decide)).mpr (by decide)

/-- The caller's date and the current time are both forwarded. -/
theorem date_forwarded_twice :
    ¬ ForwardsFaithfully plainSets (.keymint10 true) 1700000000000 (describing (some 1600000000000)) := by
  intro h
  exact absurd (h _ rfl).once (by decide)

end Keymaster
