/-
The Keymaster 4 device in the lite tree (40/BeanpodKeymaster4Device.cpp and
41/BeanpodKeymaster41Device.cpp over common/BeanpodKeymaster.cpp, all of them
the same in the 400 tree).

A method makes a request of its arguments, forwards it, and hands on what the
response has if all is well. A request that is too large never leaves the
process, and the TA keeps an operation whose client was told that it failed;
update and finish therefore abort it.

The messages are those of the keymaster library: a request is the bytes it
serializes to, one for an operation with the handle in front, and a response
is what `Deserialize` makes of the bytes that came back.
-/
import Microtrust.Lite.KeymasterPairing
import Microtrust.Keymaster.AuthToken
import Microtrust.Keymaster.KeyDescription
import Microtrust.Lib.Ledger

namespace LiteKeymaster

open Lib Keymaster

/-! ## Messages -/

/-- `KEYMASTER_REQ_SHIFT`. -/
def reqShift : UInt32 := 2

def kmGenerateKey : UInt32 := 0 <<< reqShift
def kmBeginOperation : UInt32 := 1 <<< reqShift
def kmUpdateOperation : UInt32 := 2 <<< reqShift
def kmFinishOperation : UInt32 := 3 <<< reqShift
def kmAbortOperation : UInt32 := 4 <<< reqShift
def kmImportKey : UInt32 := 5 <<< reqShift
def kmExportKey : UInt32 := 6 <<< reqShift
def kmAddRngEntropy : UInt32 := 8 <<< reqShift
def kmGetKeyCharacteristics : UInt32 := 15 <<< reqShift
def kmAttestKey : UInt32 := 16 <<< reqShift
def kmUpgradeKey : UInt32 := 17 <<< reqShift
def kmConfigure : UInt32 := 18 <<< reqShift
def kmGetHmacSharingParameters : UInt32 := 19 <<< reqShift
def kmComputeSharedHmac : UInt32 := 20 <<< reqShift
def kmVerifyAuthorization : UInt32 := 21 <<< reqShift
def kmImportWrappedKey : UInt32 := 25 <<< reqShift
def kmDeviceLocked : UInt32 := 26 <<< reqShift
def kmEarlyBootEnded : UInt32 := 27 <<< reqShift

/-- `KeymasterResponse`: the error, and what the message has beside it. -/
structure KeymasterResponse (α : Type) where
  error : Int
  rest : α

/-- A kind of response: how it is constructed, and what `Deserialize` returns
and leaves. -/
structure ResponseFormat (α : Type) where
  made : KeymasterResponse α
  deserialize : Bytes → Bool × KeymasterResponse α

/-- The error in a response that can be read. -/
def ResponseFormat.read {α : Type} (fmt : ResponseFormat α) (bs : Bytes) : Option Int :=
  if (fmt.deserialize bs).1 then some (fmt.deserialize bs).2.error else none

/-- What is in a response that says all is well. -/
def ResponseFormat.accepted {α : Type} (fmt : ResponseFormat α) (bs : Bytes) : Option α :=
  if fmt.read bs = some kmErrorOk then some (fmt.deserialize bs).2.rest else none

variable (lib : KeymasterDefs)

/-- `BeginOperationResponse`. -/
structure Begun where
  opHandle : UInt64
  outputParams : List lib.Param

/-- `UpdateOperationResponse`. -/
structure Updated where
  inputConsumed : UInt32
  outputParams : List lib.Param
  output : Bytes

/-- `FinishOperationResponse`. -/
structure Finished where
  outputParams : List lib.Param
  output : Bytes

/-- A request about a key: the key, and parameters. -/
structure KeyRequest where
  keyMaterial : Bytes
  params : List lib.Param

structure ImportKeyRequest where
  keyDescription : List lib.Param
  keyFormat : UInt32
  keyData : Bytes

structure ImportWrappedKeyRequest where
  wrappedMaterial : Bytes
  wrappingMaterial : Bytes
  maskingKeyMaterial : Bytes
  additionalParams : List lib.Param
  passwordSid : UInt64
  biometricSid : UInt64

structure VerifyAuthorizationRequest where
  challenge : UInt64
  parametersToVerify : List lib.Param
  authToken : HardwareAuthToken

/-- `HmacSharingParameters`. -/
structure SharingParameters where
  seed : Bytes
  nonce : Bytes

/-- `VerificationToken`, with the parameters of the library or of HIDL. -/
structure VerificationToken (π : Type) where
  challenge : UInt64
  timestamp : UInt64
  parametersVerified : List π
  securityLevel : UInt32
  mac : Bytes

/-- What a response has of a key that was made. -/
structure CreatedKey where
  keyBlob : Bytes
  enforced : List lib.Param
  unenforced : List lib.Param

/-- What the keymaster library has for the requests. Those for an operation have
the handle in front, which is left out here. -/
structure RequestBytes where
  beginOperation : BeginOperationRequest lib → Bytes
  updateOperation : UpdateOperationRequest lib → Bytes
  finishOperation : FinishOperationRequest lib → Bytes
  generateKey : List lib.Param → Bytes
  importKey : ImportKeyRequest lib → Bytes
  importWrappedKey : ImportWrappedKeyRequest lib → Bytes
  getKeyCharacteristics : KeyRequest lib → Bytes
  exportKey : UInt32 → KeyRequest lib → Bytes
  attestKey : KeyRequest lib → Bytes
  upgradeKey : KeyRequest lib → Bytes
  addEntropy : Bytes → Bytes
  computeSharedHmac : List SharingParameters → Bytes
  verifyAuthorization : VerifyAuthorizationRequest lib → Bytes
  deviceLocked : Bool → VerificationToken lib.Param → Bytes

/-- What it has for the responses. -/
structure ResponseFormats where
  begun : ResponseFormat (Begun lib)
  updated : ResponseFormat (Updated lib)
  finished : ResponseFormat (Finished lib)
  generated : ResponseFormat (CreatedKey lib)
  imported : ResponseFormat (CreatedKey lib)
  importedWrapped : ResponseFormat (CreatedKey lib)
  characteristics : ResponseFormat (List lib.Param × List lib.Param)
  exported : ResponseFormat Bytes
  attested : ResponseFormat (List Bytes)
  upgraded : ResponseFormat Bytes
  sharing : ResponseFormat SharingParameters
  sharingCheck : ResponseFormat Bytes
  verified : ResponseFormat (VerificationToken lib.Param)
  /-- Of an error and nothing else. -/
  plain : ResponseFormat Unit

/-- The messages, and what memory holds before it is written to: the elements
that `new` and `resize` make, and the nonce of a `HmacSharingParameters`. -/
structure Messages where
  bytes : RequestBytes lib
  formats : ResponseFormats lib
  allocated : Nat → lib.Param
  fresh : Nat → KeyParameter
  nonce : Bytes

/-- The handle that a request for an operation begins with. -/
def handleBytes (h : UInt64) : Bytes := leBytes 8 h.toNat

variable {lib} (env : Env) (msgs : Messages lib)

/-! ## The methods -/

/-- What a method hands back and leaves; for the statements only, whether its
last command failed on the way. -/
structure Forwarded (β : Type) where
  out : β
  broke : Bool
  st : State

/-- What a command leaves in its response. -/
def ResponseFormat.respond {α : Type} (fmt : ResponseFormat α) (o : Outcome) : KeymasterResponse α :=
  let rsp := match o.deserialized with
    | none => fmt.made
    | some bs => (fmt.deserialize bs).2
  if o.ret ≠ kmErrorOk then { rsp with error := o.ret } else rsp

/-- `ForwardCommand`. -/
def forwardCommand {α : Type} (fmt : ResponseFormat α) (s : State) (cmd : UInt32) (req : Bytes) :
    Forwarded (KeymasterResponse α) :=
  let o := bpKeymasterSend env fmt.read s cmd req
  ⟨fmt.respond o, o.deserialized.isNone && o.ret ≠ beanpodKmInvalidInputLength, o.st⟩

/-- `ForwardCommandNoRequest`. -/
def forwardCommandNoRequest {α : Type} (fmt : ResponseFormat α) (s : State) (cmd : UInt32) :
    Forwarded (KeymasterResponse α) :=
  let o := bpKeymasterSendNoRequest env fmt.read s cmd
  ⟨fmt.respond o, o.deserialized.isNone, o.st⟩

/-- `BeanpodKeymaster::Initialize`, with the request to configure the TA. -/
def bpInitialize (s : State) (configure : Bytes) : Int × State :=
  match bpKeymasterConnect env s with
  | (err, s) =>
    if err ≠ 0 then (err, s)
    else
      let f := forwardCommand env msgs.formats.plain s kmConfigure configure
      (if f.out.error ≠ kmErrorOk then -1 else 0, f.st)

namespace Device

/-- `abort`. -/
def abort (s : State) (operationHandle : UInt64) : Forwarded Int :=
  let f := forwardCommand env msgs.formats.plain s kmAbortOperation (handleBytes operationHandle)
  ⟨f.out.error, f.broke, f.st⟩

/-- What `update` and `finish` do with their request: they forward it, and abort
the operation if it was too large. -/
def forwardOrAbort {α : Type} (fmt : ResponseFormat α) (s : State) (cmd : UInt32) (operationHandle : UInt64)
    (bytes : Bytes) : Forwarded (KeymasterResponse α) :=
  let f := forwardCommand env fmt s cmd (handleBytes operationHandle ++ bytes)
  if f.out.error = beanpodKmInvalidInputLength then
    let a := abort env msgs f.st operationHandle
    ⟨{ f.out with error := kmErrorInvalidInputLength }, a.broke, a.st⟩
  else f

/-- What `begin` hands back. -/
structure BeginResult where
  error : Int
  outParams : List KeyParameter
  operationHandle : UInt64

/-- What `update` hands back, and `finish` but for `inputConsumed`. -/
structure UpdateResult where
  error : Int
  inputConsumed : UInt32 := 0
  outParams : List KeyParameter := []
  output : Bytes := []

/-- `begin`, once it has its request. -/
def begin (s : State) (req : BeginOperationRequest lib) : Forwarded BeginResult :=
  let f := forwardCommand env msgs.formats.begun s kmBeginOperation (msgs.bytes.beginOperation req)
  let resultParams :=
    if f.out.error = kmErrorOk then kmParamSet2Hidl lib msgs.fresh f.out.rest.outputParams else []
  ⟨⟨f.out.error, resultParams, f.out.rest.opHandle⟩, f.broke, f.st⟩

/-- `update`, once it has its request. -/
def update (s : State) (req : UpdateOperationRequest lib) : Forwarded UpdateResult :=
  let f := forwardOrAbort env msgs msgs.formats.updated s kmUpdateOperation req.opHandle (msgs.bytes.updateOperation req)
  if f.out.error = kmErrorOk then
    ⟨⟨f.out.error, f.out.rest.inputConsumed, kmParamSet2Hidl lib msgs.fresh f.out.rest.outputParams,
      f.out.rest.output⟩, f.broke, f.st⟩
  else ⟨{ error := f.out.error }, f.broke, f.st⟩

/-- `finish`, once it has its request. -/
def finish (s : State) (req : FinishOperationRequest lib) : Forwarded UpdateResult :=
  let f := forwardOrAbort env msgs msgs.formats.finished s kmFinishOperation req.opHandle (msgs.bytes.finishOperation req)
  if f.out.error = kmErrorOk then
    ⟨⟨f.out.error, 0, kmParamSet2Hidl lib msgs.fresh f.out.rest.outputParams, f.out.rest.output⟩, f.broke, f.st⟩
  else ⟨{ error := f.out.error }, f.broke, f.st⟩

end Device

/-! ## The methods about keys -/

/-- What these hand to their client beside the error. -/
inductive KeyAnswer where
  | nothing
  | created (keyBlob : Bytes) (hardwareEnforced softwareEnforced : List KeyParameter)
  | characteristics (hardwareEnforced softwareEnforced : List KeyParameter)
  | blob (bs : Bytes)
  | certChain (chain : List Bytes)
  | sharing (params : SharingParameters)
  | verified (token : VerificationToken KeyParameter)

/-- One of them: the command with its request, the response, and what is handed
out of it, also when it is an error. -/
structure Method where
  {α : Type}
  cmd : UInt32
  req : Option Bytes
  fmt : ResponseFormat α
  hands : α → KeyAnswer
  onError : α → KeyAnswer := fun _ => .nothing

def Method.run (m : Method) (s : State) : Forwarded (Int × KeyAnswer) :=
  let f := match m.req with
    | some req => forwardCommand env m.fmt s m.cmd req
    | none => forwardCommandNoRequest env m.fmt s m.cmd
  ⟨(f.out.error, if f.out.error = kmErrorOk then m.hands f.out.rest else m.onError f.out.rest), f.broke, f.st⟩

/-- `KmParamSet` and `kmParamSet2Hidl`. -/
def Messages.params (msgs : Messages lib) (ps : List KeyParameter) : List lib.Param := kmParamSet lib msgs.allocated ps

def Messages.hidl (msgs : Messages lib) (ps : List lib.Param) : List KeyParameter := kmParamSet2Hidl lib msgs.fresh ps

/-- `TAG_APPLICATION_ID` and `TAG_APPLICATION_DATA`, of the type `KM_BYTES`. -/
def tagApplicationId : Tag := 0x90000259
def tagApplicationData : Tag := 0x900002bc

/-- `addClientAndAppData`. -/
def addClientAndAppData (lib : KeymasterDefs) (clientId appData : Bytes) : List lib.Param :=
  (if clientId.length ≠ 0 then [lib.paramBlob tagApplicationId clientId] else []) ++
    if appData.length ≠ 0 then [lib.paramBlob tagApplicationData appData] else []

/-- What `generateKey`, `importKey` and `importWrappedKey` hand out. -/
def Messages.created (msgs : Messages lib) (r : CreatedKey lib) : KeyAnswer :=
  .created r.keyBlob (msgs.hidl r.enforced) (msgs.hidl r.unenforced)

/-- `GenerateKey` of `BeanpodKeymaster` dates a description that has no date. -/
def datedDescription (now : UInt64) (description : List lib.Param) : List lib.Param :=
  if !description.any (isDate lib) then description ++ [lib.paramDate creationDatetime now] else description

namespace Device

variable (msgs : Messages lib)

def generateKey (now : UInt64) (keyParams : List KeyParameter) : Method where
  cmd := kmGenerateKey
  req := some (msgs.bytes.generateKey (datedDescription now (msgs.params keyParams)))
  fmt := msgs.formats.generated
  hands := msgs.created
  onError := fun _ => .created [] [] []

def importKey (params : List KeyParameter) (keyFormat : UInt32) (keyData : Bytes) : Method where
  cmd := kmImportKey
  req := some (msgs.bytes.importKey ⟨msgs.params params, keyFormat, keyData⟩)
  fmt := msgs.formats.imported
  hands := msgs.created
  onError := fun _ => .created [] [] []

def importWrappedKey (wrappedKeyData wrappingKeyBlob maskingKey : Bytes) (unwrappingParams : List KeyParameter)
    (passwordSid biometricSid : UInt64) : Method where
  cmd := kmImportWrappedKey
  req := some (msgs.bytes.importWrappedKey
    ⟨wrappedKeyData, wrappingKeyBlob, maskingKey, msgs.params unwrappingParams, passwordSid, biometricSid⟩)
  fmt := msgs.formats.importedWrapped
  hands := msgs.created
  onError := fun _ => .created [] [] []

def getKeyCharacteristics (keyBlob clientId appData : Bytes) : Method where
  cmd := kmGetKeyCharacteristics
  req := some (msgs.bytes.getKeyCharacteristics ⟨keyBlob, addClientAndAppData lib clientId appData⟩)
  fmt := msgs.formats.characteristics
  hands := fun r => .characteristics (msgs.hidl r.1) (msgs.hidl r.2)
  onError := fun _ => .characteristics [] []

def exportKey (exportFormat : UInt32) (keyBlob clientId appData : Bytes) : Method where
  cmd := kmExportKey
  req := some (msgs.bytes.exportKey exportFormat ⟨keyBlob, addClientAndAppData lib clientId appData⟩)
  fmt := msgs.formats.exported
  hands := .blob
  onError := fun _ => .blob []

def attestKey (keyToAttest : Bytes) (attestParams : List KeyParameter) : Method where
  cmd := kmAttestKey
  req := some (msgs.bytes.attestKey ⟨keyToAttest, msgs.params attestParams⟩)
  fmt := msgs.formats.attested
  hands := .certChain
  onError := fun _ => .certChain []

def upgradeKey (keyBlobToUpgrade : Bytes) (upgradeParams : List KeyParameter) : Method where
  cmd := kmUpgradeKey
  req := some (msgs.bytes.upgradeKey ⟨keyBlobToUpgrade, msgs.params upgradeParams⟩)
  fmt := msgs.formats.upgraded
  hands := .blob
  onError := fun _ => .blob []

/-- The nonce is handed out as it was on the stack if there is none. -/
def getHmacSharingParameters : Method where
  cmd := kmGetHmacSharingParameters
  req := none
  fmt := msgs.formats.sharing
  hands := .sharing
  onError := fun _ => .sharing ⟨[], msgs.nonce⟩

def computeSharedHmac (params : List SharingParameters) : Method where
  cmd := kmComputeSharedHmac
  req := some (msgs.bytes.computeSharedHmac params)
  fmt := msgs.formats.sharingCheck
  hands := .blob
  onError := fun _ => .blob []

/-- The token is handed out whatever the error. -/
def verifyAuthorization (challenge : UInt64) (parametersToVerify : List KeyParameter)
    (authToken : HardwareAuthToken) : Method :=
  let token := fun r : VerificationToken lib.Param =>
    KeyAnswer.verified ⟨r.challenge, r.timestamp, msgs.hidl r.parametersVerified, r.securityLevel, r.mac⟩
  { cmd := kmVerifyAuthorization
    req := some (msgs.bytes.verifyAuthorization ⟨challenge, msgs.params parametersToVerify, authToken⟩)
    fmt := msgs.formats.verified
    hands := token
    onError := token }

def addRngEntropy (data : Bytes) : Method where
  cmd := kmAddRngEntropy
  req := some (msgs.bytes.addEntropy data)
  fmt := msgs.formats.plain
  hands := fun _ => .nothing

/-- `deviceLocked` of Keymaster 4.1. -/
def deviceLocked (passwordOnly : Bool) (token : VerificationToken KeyParameter) : Method where
  cmd := kmDeviceLocked
  req := some (msgs.bytes.deviceLocked passwordOnly
    ⟨token.challenge, token.timestamp, msgs.params token.parametersVerified, token.securityLevel, token.mac⟩)
  fmt := msgs.formats.plain
  hands := fun _ => .nothing

/-- `earlyBootEnded` of Keymaster 4.1. -/
def earlyBootEnded : Method where
  cmd := kmEarlyBootEnded
  req := none
  fmt := msgs.formats.plain
  hands := fun _ => .nothing

end Device

/-- The calls of these methods; `generateKey` looks at the clock. -/
inductive KeyCall where
  | generateKey (now : UInt64) (keyParams : List KeyParameter)
  | importKey (params : List KeyParameter) (keyFormat : UInt32) (keyData : Bytes)
  | importWrappedKey (wrappedKeyData wrappingKeyBlob maskingKey : Bytes) (unwrappingParams : List KeyParameter)
      (passwordSid biometricSid : UInt64)
  | getKeyCharacteristics (keyBlob clientId appData : Bytes)
  | exportKey (exportFormat : UInt32) (keyBlob clientId appData : Bytes)
  | attestKey (keyToAttest : Bytes) (attestParams : List KeyParameter)
  | upgradeKey (keyBlobToUpgrade : Bytes) (upgradeParams : List KeyParameter)
  | deleteKey (keyBlob : Bytes)
  | deleteAllKeys
  | destroyAttestationIds
  | getHmacSharingParameters
  | computeSharedHmac (params : List SharingParameters)
  | verifyAuthorization (challenge : UInt64) (parametersToVerify : List KeyParameter) (authToken : HardwareAuthToken)
  | addRngEntropy (data : Bytes)
  | deviceLocked (passwordOnly : Bool) (token : VerificationToken KeyParameter)
  | earlyBootEnded

/-- What a call forwards, or the error it is answered with at once. -/
def KeyCall.method : KeyCall → Except Int Method
  | .generateKey now ps => .ok (Device.generateKey msgs now ps)
  | .importKey ps format data => .ok (Device.importKey msgs ps format data)
  | .importWrappedKey wrapped wrapping masking ps password biometric =>
    .ok (Device.importWrappedKey msgs wrapped wrapping masking ps password biometric)
  | .getKeyCharacteristics blob id data => .ok (Device.getKeyCharacteristics msgs blob id data)
  | .exportKey format blob id data => .ok (Device.exportKey msgs format blob id data)
  | .attestKey blob ps => .ok (Device.attestKey msgs blob ps)
  | .upgradeKey blob ps => .ok (Device.upgradeKey msgs blob ps)
  | .deleteKey _ | .deleteAllKeys | .destroyAttestationIds => .error kmErrorUnimplemented
  | .getHmacSharingParameters => .ok (Device.getHmacSharingParameters msgs)
  | .computeSharedHmac ps => .ok (Device.computeSharedHmac msgs ps)
  | .verifyAuthorization challenge ps t => .ok (Device.verifyAuthorization msgs challenge ps t)
  | .addRngEntropy data =>
    if data.length = 0 then .error kmErrorOk else .ok (Device.addRngEntropy msgs data)
  | .deviceLocked passwordOnly token => .ok (Device.deviceLocked msgs passwordOnly token)
  | .earlyBootEnded => .ok (Device.earlyBootEnded msgs)

def KeyCall.run (s : State) (c : KeyCall) : Forwarded (Int × KeyAnswer) :=
  match c.method msgs with
  | .error e => ⟨(e, .nothing), false, s⟩
  | .ok m => m.run env s

/-- The size of the request fits 32 bits. -/
def Method.fits (m : Method) : Prop := (m.req.getD []).length < 2 ^ 32

instance (m : Method) : Decidable m.fits := inferInstanceAs (Decidable (_ < _))

/-- What is answered at once needs no request. -/
def Fits : Except Int Method → Prop
  | .error _ => True
  | .ok m => m.fits

instance : (m : Except Int Method) → Decidable (Fits m)
  | .error _ => inferInstanceAs (Decidable True)
  | .ok m => inferInstanceAs (Decidable m.fits)

/-! ## What the TA holds -/

/-- The handle in a request for an operation. -/
def Request.handle (req : Request) : UInt64 := .ofNat (leAt req.payload 0 8)

/-- The operation that a request began. -/
def begunBy (n : Nat) (req : Request) : Option UInt64 :=
  if req.cmd = kmBeginOperation then (msgs.formats.begun.accepted (env.answer n req).payload).map (·.opHandle) else none

/-- The operation that a request ended: an `UPDATE` ends it when it is answered
with an error, `FINISH` and `ABORT` always do. -/
def endedBy (n : Nat) (req : Request) : Option UInt64 :=
  if req.cmd = kmUpdateOperation then
    if (msgs.formats.updated.accepted (env.answer n req).payload).isSome then none else some req.handle
  else if req.cmd = kmFinishOperation ∨ req.cmd = kmAbortOperation then some req.handle
  else none

/-- What the TA holds after one more request. -/
def holding (held : Finset UInt64) (n : Nat) (req : Request) : Finset UInt64 :=
  let held := match begunBy env msgs n req with
    | none => held
    | some h => insert h held
  match endedBy env msgs n req with
  | none => held
  | some h => held.erase h

/-- The operations that the TA holds after the requests it completed. -/
def heldFrom : Nat → Finset UInt64 → List Request → Finset UInt64
  | _, held, [] => held
  | n, held, req :: reqs => heldFrom (n + 1) (holding env msgs held n req) reqs

def heldByTa (served : List Request) : Finset UInt64 := heldFrom env msgs 0 ∅ served

/-! ## Runs -/

/-- What clients call of the device. -/
inductive DeviceCall where
  | startUp (configure : Bytes)
  | begin (purpose : UInt32) (key : Bytes) (inParams : List KeyParameter) (authToken : HardwareAuthToken)
  | update (operationHandle : UInt64) (inParams : List KeyParameter) (input : Bytes) (authToken : HardwareAuthToken)
  | finish (operationHandle : UInt64) (inParams : List KeyParameter) (input signature : Bytes)
      (authToken : HardwareAuthToken)
  | abort (operationHandle : UInt64)
  | method (call : KeyCall)

/-- The device, and what its clients know from its answers. -/
structure DeviceState where
  ipc : State := {}
  ledger : Ledger UInt64 := ⟨∅, ∅⟩

/-- A command that is about no operation. -/
def Aside (cmd : UInt32) : Prop :=
  cmd ∉ [kmBeginOperation, kmUpdateOperation, kmFinishOperation, kmAbortOperation]

instance (cmd : UInt32) : Decidable (Aside cmd) := inferInstanceAs (Decidable (¬ _))

/-- The request was built, and is one of those. -/
def Ready {ρ : Type} (P : ρ → Prop) : Built ρ → Prop
  | .request r => P r
  | .rejected _ | .overrun => False

instance {ρ : Type} (P : ρ → Prop) [DecidablePred P] : (b : Built ρ) → Decidable (Ready P b)
  | .request r => inferInstanceAs (Decidable (P r))
  | .rejected _ | .overrun => inferInstanceAs (Decidable False)

/-- The token's mac fits, and the request its 32-bit size. -/
def DeviceCall.allowed : DeviceCall → Prop
  | .startUp configure => configure.length < 2 ^ 32
  | .begin purpose key ps t =>
    Ready (fun r => (msgs.bytes.beginOperation r).length < 2 ^ 32) (deviceBegin lib msgs.allocated purpose key ps t)
  | .update h ps input t =>
    Ready (fun r => (msgs.bytes.updateOperation r).length + 8 < 2 ^ 32) (deviceUpdate lib msgs.allocated h ps input t)
  | .finish h ps input sig t =>
    Ready (fun r => (msgs.bytes.finishOperation r).length + 8 < 2 ^ 32) (deviceFinish lib msgs.allocated h ps input sig t)
  | .abort _ => True
  | .method call => Fits (call.method msgs)

instance : (c : DeviceCall) → Decidable (c.allowed msgs)
  | .startUp _ => inferInstanceAs (Decidable (_ < _))
  | .begin .. | .update .. | .finish .. => inferInstanceAs (Decidable (Ready _ _))
  | .abort _ => inferInstanceAs (Decidable True)
  | .method call => inferInstanceAs (Decidable (Fits (call.method msgs)))

/-- What a client knows after `begin`: an operation it was given, or one that
may have begun unknown to it. -/
def DeviceState.begun (d : DeviceState) (req : BeginOperationRequest lib) : DeviceState :=
  let f := Device.begin env msgs d.ipc req
  let ledger :=
    if f.out.error = kmErrorOk then d.ledger.opens f.out.operationHandle
    else
      let unseen := begunBy env msgs d.ipc.served.length ⟨kmBeginOperation, msgs.bytes.beginOperation req⟩
      if f.broke then unseen.elim d.ledger d.ledger.misses else d.ledger
  ⟨f.st, ledger⟩

/-- What a client takes from a call: an operation ends with an `update` that is
answered with an error, with `finish` and with `abort`. -/
def DeviceState.next (d : DeviceState) : DeviceCall → DeviceState
  | .startUp configure => { d with ipc := (bpInitialize env msgs d.ipc configure).2 }
  | .begin purpose key ps t =>
    match deviceBegin lib msgs.allocated purpose key ps t with
    | .request r => d.begun env msgs r
    | .rejected _ | .overrun => d
  | .update h ps input t =>
    match deviceUpdate lib msgs.allocated h ps input t with
    | .request r =>
      let f := Device.update env msgs d.ipc r
      ⟨f.st, if f.out.error = kmErrorOk then d.ledger else d.ledger.ends h !f.broke⟩
    | .rejected _ | .overrun => d
  | .finish h ps input sig t =>
    match deviceFinish lib msgs.allocated h ps input sig t with
    | .request r =>
      let f := Device.finish env msgs d.ipc r
      ⟨f.st, d.ledger.ends h !f.broke⟩
    | .rejected _ | .overrun => d
  | .abort h =>
    let f := Device.abort env msgs d.ipc h
    ⟨f.st, d.ledger.ends h !f.broke⟩
  | .method call => { d with ipc := (call.run env msgs d.ipc).st }

end LiteKeymaster
