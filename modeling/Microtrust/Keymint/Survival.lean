/-
Whether a call of the KeyMint service returns.

Three things can keep it from that: a response that does not fit the buffer it
is copied to, a token whose mac does not fit the token, and a `CHECK` that
fails. `convertKeyCharacteristics` has two of the last kind, both for a device
that is pure software.
-/
import Microtrust.Keymint.ServiceCalls

namespace Keymint

open Lib Keymaster

variable {lib : KeymasterDefs} {k : Libraries lib} {e : World} {r : Replies} {s : State} {m : Method} {req : Bytes}

/-! ## Key characteristics -/

section

variable (utils : KmUtils lib) (requestParams : List lib.Param)

/-- The place that the switch has for an entry. -/
def placeOf (entry : lib.Param) : Option Place := (utils.kmTag (lib.tag entry)).map KmTag.place

/-- The entry goes to the keystore's list. -/
def forKeystore (entry : lib.Param) : Bool :=
  placeOf utils entry = some .keystore ∨
    placeOf utils entry = some .echoed ∧ containsTag utils requestParams .creationDatetime = true

/-- The loop sorts the entries, in their order. -/
theorem enforcedLists_eq (entries : List lib.Param) (keyMint keystore : List utils.KeyParameter) :
    enforcedLists utils requestParams entries keyMint keystore =
      if entries.any (placeOf utils · = some .unexpected) then none
      else some (keyMint ++ (entries.filter (placeOf utils · = some .keyMint)).map utils.kmParam2Aidl,
        keystore ++ (entries.filter (forKeystore utils requestParams)).map utils.kmParam2Aidl) := by
  induction entries generalizing keyMint keystore with
  | nil => simp [enforcedLists]
  | cons entry entries ih =>
    have hplace : (utils.kmTag (lib.tag entry)).map KmTag.place = placeOf utils entry := rfl
    unfold enforcedLists
    rw [hplace, List.any_cons, List.filter_cons, List.filter_cons]
    cases hp : placeOf utils entry with
    | none => simp [ih, forKeystore, hp]
    | some place =>
      cases place with
      | unexpected => simp
      | leftOut => simp [ih, forKeystore, hp]
      | echoed =>
        -- the one entry whose place depends on the request
        cases hc : containsTag utils requestParams .creationDatetime <;> simp [ih, forKeystore, hp, hc]
      | keyMint => simp [ih, forKeystore, hp]
      | keystore => simp [ih, forKeystore, hp]

/-- When a `CHECK` fails. -/
theorem convertKeyCharacteristics_eq_none (level : SecurityLevel) (sw hw : List lib.Param) (includeKeystoreEnforced : Bool) :
    convertKeyCharacteristics utils level requestParams sw hw includeKeystoreEnforced = none ↔
      level = .software ∧ (hw ≠ [] ∨ ∃ entry ∈ sw, placeOf utils entry = some .unexpected) := by
  unfold convertKeyCharacteristics
  by_cases hlevel : level = .software
  · rw [if_neg (not_not.mpr hlevel), enforcedLists_eq]
    cases hw with
    | nil => simp [hlevel]
    | cons p hw => simp [hlevel]
  · simp only [if_pos hlevel, hlevel, false_and, iff_false]
    split <;> simp

end

/-- The device is no pure software. -/
theorem creationResult_isSome (m : Method) (requestParams : List lib.Param) (rsp : Bytes) :
    (k.creationResult m requestParams rsp).isSome = true := by
  unfold Libraries.creationResult
  rw [Option.isSome_map, Option.isSome_iff_ne_none]
  intro hnone
  cases ((convertKeyCharacteristics_eq_none ..).mp hnone).1

/-- The components never touch an operation, nor give up on a response. -/
theorem forwarding_spec {c : ComponentCall k.utils} {f : Forwarding k.utils} (h : c.forwarding k = .ok f) :
    f.m.aside = true ∧ ∀ rsp, (f.hands rsp).isSome = true := by
  cases c with
  | addRngEntropy data =>
    simp only [ComponentCall.forwarding] at h
    split at h
    · cases h
    · cases h
      exact ⟨rfl, fun _ => rfl⟩
  | computeSharedSecret params =>
    simp only [ComponentCall.forwarding] at h
    split at h
    · cases h
    · cases h
      exact ⟨rfl, fun _ => rfl⟩
  | destroyAttestationIds => cases h
  | convertStorageKeyToEphemeral blob => cases h
  | generateKey now ps attest =>
    cases h
    exact ⟨rfl, creationResult_isSome _ _⟩
  | importKey ps format data attest =>
    cases h
    exact ⟨rfl, creationResult_isSome _ _⟩
  | importWrappedKey wrapped wrapping masking ps password biometric =>
    cases h
    exact ⟨rfl, creationResult_isSome _ _⟩
  | getKeyCharacteristics blob appId appData =>
    cases h
    refine ⟨rfl, fun rsp => ?_⟩
    rw [KeyMintDevice.getKeyCharacteristics, Option.isSome_map, Option.isSome_iff_ne_none]
    intro hnone
    cases ((convertKeyCharacteristics_eq_none ..).mp hnone).1
  | _ =>
    cases h
    exact ⟨rfl, fun _ => rfl⟩

/-! ## Commands -/

/-- The token that a call copies, if it gets that far. -/
def OperationCall.token : OperationCall → Option AidlAuthToken
  | .update _ t output => if output then t else none
  | .finish _ _ t output => if output then t else none
  | .updateAad _ | .abort => none

/-- Its mac is too long. -/
def OperationCall.overruns (c : OperationCall) : Bool := c.token.any (32 < ·.mac.length)

/-- What a client must not do: hand a token with a mac that is too long to an
operation. -/
def Harmless (v : Service) {utils : KmUtils lib} : ServiceCall utils → Prop
  | .operation i c => (v.operation i).isSome = true → c.overruns = false
  | .component _ | .begin .. | .release _ => True

/-- Libraries with messages of few fields. -/
def plainLibraries : Libraries plainDefs where
  utils :=
    { KeyParameter := plainDefs.Param
      kmTag := fun _ => none
      kmParamSet := fun ps => ps
      kmParam2Aidl := fun p => p
      kmParamSet2Aidl := fun ps => ps
      authToken2AidlVec := fun t => t.elim [] (·.mac) }
  bytes :=
    { addEntropy := fun data => data
      generateKey := fun ps _ => ps.flatMap plainDefs.blob
      importKey := fun _ _ data _ => data
      importWrappedKey := fun r => r.wrappedMaterial
      upgradeKey := fun r => r.keyMaterial
      deleteKey := fun blob => blob
      deleteAllKeys := []
      getKeyCharacteristics := fun r => r.keyMaterial
      deviceLocked := fun _ t => t.elim [] (·.mac)
      beginOperation := fun r => r.keyMaterial
      updateOperation := fun r => r.input
      finishOperation := fun r => r.input ++ r.signature
      computeSharedHmac := fun ps => ps.flatMap (·.seed)
      generateTimestampToken := fun challenge => leBytes 8 challenge.toUInt64.toNat
      generateRkpKey := fun _ => []
      generateCsr := fun r => r.challenge }
  contents :=
    { created := fun _ bs => ⟨bs, [], [], []⟩
      upgradedKey := fun bs => bs
      characteristics := fun _ => ([], [])
      opHandle := fun bs => .ofNat (leAt bs 0 8)
      outputParams := fun _ => []
      sharing := fun bs => ⟨bs, []⟩
      sharingCheck := fun bs => bs
      timestampToken := fun bs => ⟨0, 0, bs⟩
      rkpKey := fun bs => (bs, [])
      csr := fun bs => (bs, [], []) }

theorem numbered_length (n : Nat) : (leBytes 8 n ++ List.replicate (keymint10.bufferLength - 8) 0).length =
    keymint10.bufferLength := by
  rw [List.length_append, length_leBytes, List.length_replicate]
  rfl

/-- A TA that grants everything, and gives an operation the number of the
invocation that began it for a handle. -/
def granting : World :=
  { bench fun _ => 0 with
    ipc := ⟨fun _ => ⟨0, 3, 0, true, true⟩, fun n => ⟨0, 0, 8, _, numbered_length n⟩⟩ }

end Keymint
