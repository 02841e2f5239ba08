/-
The authentication token an operation carries to the TA (SwapBytes, begin,
update and finish in 40/BeanpodKeymaster4Device.cpp, the same in the 400 and the
lite tree, and update and finish in keymint1.0/BeanpodKeyMintOperation.cpp).

Each of them fills a packed `hw_auth_token_t` on its stack: the fields are
stored as the processor does, the type and the timestamp are then turned round
in place, and the mac is copied to the last field, as long as the caller's
vector is.
-/
import Microtrust.Keymaster.KeyParams
import Microtrust.Lib.Copy

namespace Keymaster

open Lib

/-! ## The token -/

/-- `HardwareAuthToken`. -/
structure HardwareAuthToken where
  challenge : UInt64
  userId : UInt64
  authenticatorId : UInt64
  authenticatorType : UInt32
  timestamp : UInt64
  mac : Bytes

/-- `sizeof(hw_auth_token_t)`: the version, three ids of eight bytes, the type,
the timestamp and the mac. -/
def tokenSize : Nat := 1 + 8 + 8 + 8 + 4 + 8 + 32

/-- Where the fields lie that are not just stored. -/
def typeOffset : Nat := 25
def timestampOffset : Nat := 29
def hmacOffset : Nat := 37

/-- The loop of `SwapBytes`, with its two pointers. They meet, so half the size
bounds the rounds. -/
def swapLoop : Nat → Nat → Nat → (Nat → UInt8) → Nat → UInt8
  | 0, _, _, mem => mem
  | n + 1, first, last, mem =>
    if first < last then
      let temp := mem first
      let mem := Function.update mem first (mem last)
      swapLoop n (first + 1) (last - 1) (Function.update mem last temp)
    else mem

/-- `SwapBytes`. -/
def swapBytes (mem : Nat → UInt8) (bytes size : Nat) : Nat → UInt8 := swapLoop size bytes (bytes + size - 1) mem

/-- The bytes of the token; none for a mac that leaves it. -/
def buildToken (t : HardwareAuthToken) : Option Bytes :=
  let token : Nat → UInt8 := fun _ => 0
  let token := stored token 0 (leBytes 1 0)
  let token := stored token 1 (leBytes 8 t.challenge.toNat)
  let token := stored token 9 (leBytes 8 t.userId.toNat)
  let token := stored token 17 (leBytes 8 t.authenticatorId.toNat)
  let token := stored token typeOffset (leBytes 4 t.authenticatorType.toNat)
  let token := stored token timestampOffset (leBytes 8 t.timestamp.toNat)
  if tokenSize < hmacOffset + t.mac.length then none
  else
    let token := stored token hmacOffset t.mac
    let token := swapBytes token typeOffset 4
    let token := swapBytes token timestampOffset 8
    some (held token 0 tokenSize)

/-! ## The calls that carry one -/

/-- `TAG_AUTH_TOKEN`, of the type `KM_BYTES`. -/
def tagAuthToken : Tag := 0x900003ea

/-- `KM_ERROR_OUTPUT_PARAMETER_NULL`. -/
def kmErrorOutputParameterNull : Int := -27

/-- What a call comes to before it is forwarded: it is rejected, it has written
past the token, or it has a request. -/
inductive Built (ρ : Type) where
  | rejected (error : Int)
  | overrun
  | request (r : ρ)

def Built.map {ρ σ : Type} (f : ρ → σ) : Built ρ → Built σ
  | .rejected e => .rejected e
  | .overrun => .overrun
  | .request r => .request (f r)

theorem Built.map_map_cancel {ρ σ : Type} {f : ρ → σ} {g : σ → ρ} (h : ∀ r, g (f r) = r) (b : Built ρ) :
    (b.map f).map g = b := by
  cases b with
  | rejected e => rfl
  | overrun => rfl
  | request r => exact congrArg Built.request (h r)

variable (lib : KeymasterDefs)

/-- `BeginOperationRequest`. A set of parameters is the list of its entries. -/
structure BeginOperationRequest where
  purpose : UInt32
  keyMaterial : Bytes
  additionalParams : List lib.Param

/-- `UpdateOperationRequest`. -/
structure UpdateOperationRequest where
  opHandle : UInt64
  input : Bytes
  additionalParams : List lib.Param

/-- `FinishOperationRequest`. -/
structure FinishOperationRequest where
  opHandle : UInt64
  input : Bytes
  signature : Bytes
  additionalParams : List lib.Param

/-- The parameters with the token behind them. -/
def pushToken (t : HardwareAuthToken) (params : List lib.Param) : Built (List lib.Param) :=
  match buildToken t with
  | none => .overrun
  | some token => .request (params ++ [lib.paramBlob tagAuthToken token])

/-- `BeanpodKeymaster4Device::begin`. -/
def deviceBegin (allocated : Nat → lib.Param) (purpose : UInt32) (key : Bytes) (inParams : List KeyParameter)
    (authToken : HardwareAuthToken) : Built (BeginOperationRequest lib) :=
  (pushToken lib authToken (kmParamSet lib allocated inParams)).map fun params => ⟨purpose, key, params⟩

/-- `BeanpodKeymaster4Device::update`. -/
def deviceUpdate (allocated : Nat → lib.Param) (operationHandle : UInt64) (inParams : List KeyParameter)
    (input : Bytes) (authToken : HardwareAuthToken) : Built (UpdateOperationRequest lib) :=
  (pushToken lib authToken (kmParamSet lib allocated inParams)).map fun params => ⟨operationHandle, input, params⟩

/-- `BeanpodKeymaster4Device::finish`. -/
def deviceFinish (allocated : Nat → lib.Param) (operationHandle : UInt64) (inParams : List KeyParameter)
    (input signature : Bytes) (authToken : HardwareAuthToken) : Built (FinishOperationRequest lib) :=
  (pushToken lib authToken (kmParamSet lib allocated inParams)).map fun params =>
    ⟨operationHandle, input, signature, params⟩

/-- The `HardwareAuthToken` of KeyMint, with signed fields. -/
structure AidlAuthToken where
  challenge : Int64
  userId : Int64
  authenticatorId : Int64
  authenticatorType : Int32
  milliSeconds : Int64
  mac : Bytes

/-- Its fields as they are stored in the token. -/
def AidlAuthToken.values (t : AidlAuthToken) : HardwareAuthToken where
  challenge := t.challenge.toUInt64
  userId := t.userId.toUInt64
  authenticatorId := t.authenticatorId.toUInt64
  authenticatorType := t.authenticatorType.toUInt32
  timestamp := t.milliSeconds.toUInt64
  mac := t.mac

/-- What `update` and `finish` of KeyMint have for parameters: a token if there
is one. -/
def pushOptionalToken (authToken : Option AidlAuthToken) : Built (List lib.Param) :=
  match authToken with
  | none => .request []
  | some t => pushToken lib t.values []

/-- `BeanpodKeyMintOperation::update`; `output` says that the pointer is not null. -/
def operationUpdate (opHandle : UInt64) (input : Bytes) (authToken : Option AidlAuthToken) (output : Bool) :
    Built (UpdateOperationRequest lib) :=
  if !output then .rejected kmErrorOutputParameterNull
  else (pushOptionalToken lib authToken).map fun params => ⟨opHandle, input, params⟩

/-- `BeanpodKeyMintOperation::finish`. -/
def operationFinish (opHandle : UInt64) (input signature : Option Bytes) (authToken : Option AidlAuthToken)
    (output : Bool) : Built (FinishOperationRequest lib) :=
  if !output then .rejected kmErrorOutputParameterNull
  else (pushOptionalToken lib authToken).map fun params => ⟨opHandle, input.getD [], signature.getD [], params⟩

/-! ## Turning bytes round -/

theorem swapLoop_apply (n first last : Nat) (mem : Nat → UInt8) (hn : last + 1 ≤ first + 2 * n) (x : Nat) :
    swapLoop n first last mem x = if first ≤ x ∧ x ≤ last then mem (first + last - x) else mem x := by
  induction n generalizing first last mem with
  | zero =>
    rw [if_neg (by omega)]
    rfl
  | succ n ih =>
    rw [swapLoop]
    by_cases hlt : first < last
    · simp only [if_pos hlt]
      rw [ih _ _ _ (by omega)]
      by_cases hin : first < x ∧ x < last
      · -- inside, what the round swapped is not read
        rw [if_pos (by omega), if_pos (by omega), Function.update_of_ne (by omega), Function.update_of_ne (by omega)]
        congr 1
        omega
      · rw [if_neg (by omega)]
        by_cases hlast : x = last
        · subst hlast
          rw [Function.update_self, if_pos (by omega)]
          congr 1
          omega
        · rw [Function.update_of_ne hlast]
          by_cases hfirst : x = first
          · subst hfirst
            rw [Function.update_self, if_pos (by omega)]
            congr 1
            omega
          · rw [Function.update_of_ne hfirst, if_neg (by omega)]
    · simp only [if_neg hlt]
      by_cases hx : first ≤ x ∧ x ≤ last
      · rw [if_pos hx]
        congr 1
        omega
      · rw [if_neg hx]

theorem held_swapBytes (mem : Nat → UInt8) (a n : Nat) : held (swapBytes mem a n) a n = (held mem a n).reverse := by
  refine List.ext_getElem (by simp) fun i hi hi' => ?_
  rw [length_held] at hi
  simp only [held, List.getElem_map, List.getElem_range, List.getElem_reverse, List.length_map, List.length_range,
    swapBytes]
  rw [swapLoop_apply _ _ _ _ (by omega), if_pos (by omega)]
  congr 1
  omega

theorem held_swapBytes_apart {mem : Nat → UInt8} {a n b m : Nat} (hm : 0 < m) (h : a + n ≤ b ∨ b + m ≤ a) :
    held (swapBytes mem b m) a n = held mem a n := by
  refine List.map_congr_left fun i hi => ?_
  rw [List.mem_range] at hi
  rw [swapBytes, swapLoop_apply _ _ _ _ (by omega), if_neg (by omega)]

/-! ## The bytes of a token -/

theorem held_token (m : Nat → UInt8) : held m 0 tokenSize =
    held m 0 1 ++ held m 1 8 ++ held m 9 8 ++ held m 17 8 ++ held m 25 4 ++ held m 29 8 ++ held m 37 32 := rfl

/-- A mac that fits its field is padded with what the field was cleared to. -/
theorem held_mac {mem : Nat → UInt8} {a n : Nat} {mac : Bytes} (h : mac.length ≤ n) (hclear : ∀ x, a ≤ x → mem x = 0) :
    held (stored mem a mac) a n = padTake mac n := by
  have hrest : held (stored mem a mac) (a + mac.length) (n - mac.length) = List.replicate (n - mac.length) 0 := by
    rw [held_stored_apart (.inr (le_refl _)), held, List.map_eq_replicate_iff.mpr, List.length_range]
    intro i _
    exact hclear _ (by omega)
  rw [padTake, List.take_of_length_le h, ← hrest]
  nth_rewrite 1 [show n = mac.length + (n - mac.length) by omega]
  rw [held_add, held_stored]

/-- The token as it is laid out. -/
def wireToken (t : HardwareAuthToken) : Bytes :=
  leBytes 1 0 ++ leBytes 8 t.challenge.toNat ++ leBytes 8 t.userId.toNat ++ leBytes 8 t.authenticatorId.toNat ++
    (leBytes 4 t.authenticatorType.toNat).reverse ++ (leBytes 8 t.timestamp.toNat).reverse ++ padTake t.mac 32

/-- The token before the mac is copied and the fields are turned round. -/
def plainToken (t : HardwareAuthToken) : Nat → UInt8 :=
  stored (stored (stored (stored (stored (stored (fun _ => 0) 0 (leBytes 1 0)) 1 (leBytes 8 t.challenge.toNat))
    9 (leBytes 8 t.userId.toNat)) 17 (leBytes 8 t.authenticatorId.toNat)) 25 (leBytes 4 t.authenticatorType.toNat))
    29 (leBytes 8 t.timestamp.toNat)

theorem plainToken_clear (t : HardwareAuthToken) {x : Nat} (hx : 37 ≤ x) : plainToken t x = 0 := by
  have houtside {mem : Nat → UInt8} {a n v : Nat} (h : a + n ≤ 37) : stored mem a (leBytes n v) x = mem x := by
    refine stored_of_notMem ?_ mem
    rw [mem_cells, length_leBytes]
    omega
  unfold plainToken
  rw [houtside (by decide), houtside (by decide), houtside (by decide), houtside (by decide), houtside (by decide),
    houtside (by decide)]

theorem held_plainToken (t : HardwareAuthToken) :
    held (plainToken t) 0 1 = leBytes 1 0 ∧ held (plainToken t) 1 8 = leBytes 8 t.challenge.toNat ∧
      held (plainToken t) 9 8 = leBytes 8 t.userId.toNat ∧ held (plainToken t) 17 8 = leBytes 8 t.authenticatorId.toNat ∧
      held (plainToken t) 25 4 = leBytes 4 t.authenticatorType.toNat ∧
      held (plainToken t) 29 8 = leBytes 8 t.timestamp.toNat := by
  unfold plainToken
  refine ⟨?_, ?_, ?_, ?_, ?_, ?_⟩
  all_goals simp (disch := simp) only [held_stored_apart, held_stored_eq]

/-- What becomes of the token: nothing defined, if the mac leaves its field. -/
theorem buildToken_eq (t : HardwareAuthToken) :
    buildToken t = if t.mac.length ≤ 32 then some (wireToken t) else none := by
  have hsize : tokenSize < hmacOffset + t.mac.length ↔ ¬ t.mac.length ≤ 32 := by
    unfold tokenSize hmacOffset
    omega
  have hbuild : buildToken t = if tokenSize < hmacOffset + t.mac.length then none
      else some (held (swapBytes (swapBytes (stored (plainToken t) 37 t.mac) 25 4) 29 8) 0 tokenSize) := rfl
  rw [hbuild]
  by_cases hfits : t.mac.length ≤ 32
  · obtain ⟨hversion, hchallenge, huser, hauth, htype, htime⟩ := held_plainToken t
    have hmac := held_mac hfits fun x hx => plainToken_clear t hx
    rw [if_neg (by rw [hsize]; exact not_not.mpr hfits), if_pos hfits, held_token, wireToken]
    simp (disch := simp) only [held_swapBytes_apart, held_swapBytes, held_stored_apart, hversion, hchallenge, huser,
      hauth, htype, htime, hmac]
  · rw [if_pos (hsize.mpr hfits), if_neg hfits]

/-! ## Reading a token -/

/-- An unsigned big-endian field, in network order. -/
def beAt (bs : Bytes) (off n : Nat) : Nat := le ((bs.drop off).take n).reverse

/-- The fields of a packed `hw_auth_token_t`. -/
structure TokenFields where
  version : UInt8
  challenge : UInt64
  userId : UInt64
  authenticatorId : UInt64
  authenticatorType : UInt32
  timestamp : UInt64
  hmac : Bytes
deriving DecidableEq

/-- The type and the timestamp are in network order. -/
def decodeToken (token : Bytes) : TokenFields where
  version := .ofNat (leAt token 0 1)
  challenge := .ofNat (leAt token 1 8)
  userId := .ofNat (leAt token 9 8)
  authenticatorId := .ofNat (leAt token 17 8)
  authenticatorType := .ofNat (beAt token typeOffset 4)
  timestamp := .ofNat (beAt token timestampOffset 8)
  hmac := (token.drop hmacOffset).take 32

/-- The caller's fields, with the mac padded. -/
def HardwareAuthToken.fields (t : HardwareAuthToken) : TokenFields where
  version := 0
  challenge := t.challenge
  userId := t.userId
  authenticatorId := t.authenticatorId
  authenticatorType := t.authenticatorType
  timestamp := t.timestamp
  hmac := padTake t.mac 32

theorem length_wireToken (t : HardwareAuthToken) : (wireToken t).length = tokenSize := by
  simp [wireToken, tokenSize]

theorem decode_wireToken (t : HardwareAuthToken) : decodeToken (wireToken t) = t.fields := by
  have hversion : leAt (wireToken t) 0 1 = le (leBytes 1 0) := rfl
  have hchallenge : leAt (wireToken t) 1 8 = le (leBytes 8 t.challenge.toNat) := rfl
  have huser : leAt (wireToken t) 9 8 = le (leBytes 8 t.userId.toNat) := rfl
  have hauth : leAt (wireToken t) 17 8 = le (leBytes 8 t.authenticatorId.toNat) := rfl
  have htype : beAt (wireToken t) typeOffset 4 = le (leBytes 4 t.authenticatorType.toNat) := rfl
  have htime : beAt (wireToken t) timestampOffset 8 = le (leBytes 8 t.timestamp.toNat) := rfl
  have hmac : ((wireToken t).drop hmacOffset).take 32 = padTake t.mac 32 := by
    rw [wireToken, List.drop_left' (by simp [hmacOffset]), List.take_of_length_le (by simp)]
  have hword (n : UInt64) : UInt64.ofNat (le (leBytes 8 n.toNat)) = n := by
    rw [le_leBytes_of_lt n.toNat_lt, UInt64.ofNat_toNat]
  have hhalf (n : UInt32) : UInt32.ofNat (le (leBytes 4 n.toNat)) = n := by
    rw [le_leBytes_of_lt n.toNat_lt, UInt32.ofNat_toNat]
  rw [decodeToken, hversion, hchallenge, huser, hauth, htype, htime, hmac, hword, hword, hword, hhalf, hword]
  rfl

/-- A token whose mac fits is put behind the parameters. -/
theorem pushToken_of_le {t : HardwareAuthToken} (h : t.mac.length ≤ 32) (params : List lib.Param) :
    pushToken lib t params = .request (params ++ [lib.paramBlob tagAuthToken (wireToken t)]) := by
  rw [pushToken, buildToken_eq, if_pos h]

theorem pushToken_of_gt {t : HardwareAuthToken} (h : ¬ t.mac.length ≤ 32) (params : List lib.Param) :
    pushToken lib t params = .overrun := by
  rw [pushToken, buildToken_eq, if_neg h]

/-- **One wire format for five encoders**: a token whose mac fits goes out as the
same 69 bytes whichever call carries it, and they are read back as its fields. -/
theorem auth_token_wire_format (lib : KeymasterDefs) (t : HardwareAuthToken) (h : t.mac.length ≤ 32) :
    ∃ blob : Bytes, blob.length = 69 ∧ decodeToken blob = t.fields ∧
      (∀ allocated purpose key inParams, deviceBegin lib allocated purpose key inParams t =
        .request ⟨purpose, key, kmParamSet lib allocated inParams ++ [lib.paramBlob tagAuthToken blob]⟩) ∧
      (∀ allocated handle inParams input, deviceUpdate lib allocated handle inParams input t =
        .request ⟨handle, input, kmParamSet lib allocated inParams ++ [lib.paramBlob tagAuthToken blob]⟩) ∧
      (∀ allocated handle inParams input signature, deviceFinish lib allocated handle inParams input signature t =
        .request ⟨handle, input, signature, kmParamSet lib allocated inParams ++ [lib.paramBlob tagAuthToken blob]⟩) ∧
      ∀ a : AidlAuthToken, a.values = t →
        (∀ handle input, operationUpdate lib handle input (some a) true =
          .request ⟨handle, input, [lib.paramBlob tagAuthToken blob]⟩) ∧
        ∀ handle input signature, operationFinish lib handle input signature (some a) true =
          .request ⟨handle, input.getD [], signature.getD [], [lib.paramBlob tagAuthToken blob]⟩ := by
  refine ⟨wireToken t, length_wireToken t, decode_wireToken t, ?_, ?_, ?_, ?_⟩
  · intro allocated purpose key inParams
    rw [deviceBegin, pushToken_of_le lib h, Built.map]
  · intro allocated handle inParams input
    rw [deviceUpdate, pushToken_of_le lib h, Built.map]
  · intro allocated handle inParams input signature
    rw [deviceFinish, pushToken_of_le lib h, Built.map]
  · rintro a rfl
    have hpush : pushOptionalToken lib (some a) = .request [lib.paramBlob tagAuthToken (wireToken a.values)] := by
      rw [pushOptionalToken, pushToken_of_le lib h, List.nil_append]
    refine ⟨?_, ?_⟩
    · intro handle input
      simp only [operationUpdate, hpush, Built.map, Bool.not_true, Bool.false_eq_true, if_false]
    · intro handle input signature
      simp only [operationFinish, hpush, Built.map, Bool.not_true, Bool.false_eq_true, if_false]

/-- A password's token, with a mac of two bytes. -/
def passwordToken : HardwareAuthToken := ⟨7, 1, 2, 1, 1000, [5, 6]⟩

/-- Its begin carries the type and the timestamp turned round. -/
theorem passwordToken_on_the_wire :
    ∃ blob : Bytes, decodeToken blob = ⟨0, 7, 1, 2, 1, 1000, [5, 6] ++ List.replicate 30 0⟩ ∧
      deviceBegin plainDefs (fun _ => ⟨0, 0, []⟩) 2 [9] [] passwordToken =
        .request ⟨2, [9], [plainDefs.paramBlob tagAuthToken blob]⟩ := by
  obtain ⟨blob, -, hdecode, hbegin, -⟩ := auth_token_wire_format plainDefs passwordToken (by decide)
  refine ⟨blob, hdecode, ?_⟩
  exact hbegin _ _ _ _

/-! ## A mac of any length -/

/-- A call that can carry a token, with its arguments. -/
inductive TokenCall where
  | begin (purpose : UInt32) (key : Bytes) (inParams : List KeyParameter) (authToken : HardwareAuthToken)
  | update (operationHandle : UInt64) (inParams : List KeyParameter) (input : Bytes) (authToken : HardwareAuthToken)
  | finish (operationHandle : UInt64) (inParams : List KeyParameter) (input signature : Bytes)
      (authToken : HardwareAuthToken)
  | mintUpdate (opHandle : UInt64) (input : Bytes) (authToken : Option AidlAuthToken) (output : Bool)
  | mintFinish (opHandle : UInt64) (input signature : Option Bytes) (authToken : Option AidlAuthToken) (output : Bool)

namespace TokenCall

/-- The parameters it would forward. -/
def build (allocated : Nat → lib.Param) : TokenCall → Built (List lib.Param)
  | .begin purpose key inParams t => (deviceBegin lib allocated purpose key inParams t).map (·.additionalParams)
  | .update handle inParams input t => (deviceUpdate lib allocated handle inParams input t).map (·.additionalParams)
  | .finish handle inParams input signature t =>
    (deviceFinish lib allocated handle inParams input signature t).map (·.additionalParams)
  | .mintUpdate handle input t output => (operationUpdate lib handle input t output).map (·.additionalParams)
  | .mintFinish handle input signature t output =>
    (operationFinish lib handle input signature t output).map (·.additionalParams)

/-- The token it is given. -/
def token : TokenCall → Option HardwareAuthToken
  | .begin _ _ _ t => some t
  | .update _ _ _ t => some t
  | .finish _ _ _ _ t => some t
  | .mintUpdate _ _ t _ => t.map AidlAuthToken.values
  | .mintFinish _ _ _ t _ => t.map AidlAuthToken.values

/-- Whether there is somewhere to put the output, which only KeyMint asks. -/
def hasOutput : TokenCall → Bool
  | .mintUpdate _ _ _ output => output
  | .mintFinish _ _ _ _ output => output
  | _ => true

end TokenCall

/-- The fields but the hmac. -/
def TokenFields.others (f : TokenFields) : TokenFields := { f with hmac := [] }

/-- The token is built within its 69 bytes, and a mac does not change the other
fields; or the call is rejected. -/
def Confined (token : Option HardwareAuthToken) : Built (List lib.Param) → Prop
  | .rejected _ => True
  | .overrun => False
  | .request params => ∀ t ∈ token, ∃ (before : List lib.Param) (blob : Bytes),
      params = before ++ [lib.paramBlob tagAuthToken blob] ∧ blob.length = tokenSize ∧
        (decodeToken blob).others = t.fields.others

theorem confined_pushToken_iff (t : HardwareAuthToken) (params : List lib.Param) :
    Confined lib (some t) (pushToken lib t params) ↔ t.mac.length ≤ 32 := by
  by_cases h : t.mac.length ≤ 32
  · rw [pushToken_of_le lib h]
    refine iff_of_true ?_ h
    rintro t' ⟨⟩
    exact ⟨params, wireToken t, rfl, length_wireToken t, by rw [decode_wireToken]⟩
  · rw [pushToken_of_gt lib h]
    exact iff_of_false id h

theorem confined_pushOptionalToken_iff (t : Option AidlAuthToken) :
    Confined lib (t.map AidlAuthToken.values) (pushOptionalToken lib t) ↔
      ∀ v ∈ t.map AidlAuthToken.values, v.mac.length ≤ 32 := by
  cases t with
  | none => simp [pushOptionalToken, Confined]
  | some a => simpa [pushOptionalToken] using confined_pushToken_iff lib a.values []

/-- **A token is confined if its mac fits.** Every call that carries one builds
it inside its 69 bytes exactly if the mac has at most 32; only the KeyMint calls
reject anything, and that when there is nowhere to put the output. -/
theorem auth_token_confined_iff (lib : KeymasterDefs) (allocated : Nat → lib.Param) (call : TokenCall) :
    Confined lib call.token (call.build lib allocated) ↔
      (call.hasOutput = true → ∀ t ∈ call.token, t.mac.length ≤ 32) := by
  cases call with
  | begin purpose key inParams t =>
    rw [TokenCall.build, deviceBegin, Built.map_map_cancel (fun _ => rfl)]
    simpa [TokenCall.token, TokenCall.hasOutput] using confined_pushToken_iff lib t _
  | update handle inParams input t =>
    rw [TokenCall.build, deviceUpdate, Built.map_map_cancel (fun _ => rfl)]
    simpa [TokenCall.token, TokenCall.hasOutput] using confined_pushToken_iff lib t _
  | finish handle inParams input signature t =>
    rw [TokenCall.build, deviceFinish, Built.map_map_cancel (fun _ => rfl)]
    simpa [TokenCall.token, TokenCall.hasOutput] using confined_pushToken_iff lib t _
  | mintUpdate handle input t output =>
    cases output
    · exact iff_of_true trivial (by rintro ⟨⟩)
    · rw [TokenCall.build, operationUpdate, if_neg (by decide), Built.map_map_cancel (fun _ => rfl)]
      simpa [TokenCall.token, TokenCall.hasOutput] using confined_pushOptionalToken_iff lib t
  | mintFinish handle input signature t output =>
    cases output
    · exact iff_of_true trivial (by rintro ⟨⟩)
    · rw [TokenCall.build, operationFinish, if_neg (by decide), Built.map_map_cancel (fun _ => rfl)]
      simpa [TokenCall.token, TokenCall.hasOutput] using confined_pushOptionalToken_iff lib t

/-- A mac with a byte too many runs out of the token. -/
theorem mac_leaves_token : ¬ Confined plainDefs (some ⟨7, 1, 2, 1, 1000, List.replicate 33 5⟩)
    ((TokenCall.begin 2 [9] [] ⟨7, 1, 2, 1, 1000, List.replicate 33 5⟩).build plainDefs fun _ => ⟨0, 0, []⟩) := by
  have hoverrun : (TokenCall.begin 2 [9] [] ⟨7, 1, 2, 1, 1000, List.replicate 33 5⟩).build plainDefs
      (fun _ => ⟨0, 0, []⟩) = .overrun := rfl
  rw [hoverrun]
  exact id

end Keymaster
