/-
The KeyMint service (keymint1.0/BeanpodKeyMintDevice.cpp, and the components
that share its BeanpodKeymaster: BeanpodSecureClock.cpp, BeanpodSharedSecret.cpp
and BeanpodRemotelyProvisionedComponent.cpp).

One thread serves all clients, a call after another. A call makes a request of
its arguments and has it forwarded; `begin` hands out an object for the
operation the TA began, which is destroyed once its client lets go of it. The
handle that the TA knows the operation by is in that object and nowhere else.

The conversions between AIDL and the keymaster library are those of the
library, and so are the bytes of the messages: a request is what it serializes
to, and a response is read off the bytes that came back.
-/
import Microtrust.Keymint.Operation
import Microtrust.Keymaster.AuthToken
import Microtrust.Keymaster.KeyDescription
import Microtrust.Lib.Ledger

namespace Keymint

open Lib Keymaster

/-! ## Key characteristics -/

/-- The tags that `convertKeyCharacteristics` has a case for. -/
inductive KmTag where
  | eciesSingleHashMode | invalid | kdf | rollbackResistance
  | allowWhileOnBody | bootloaderOnly | rollbackResistant | storageKey
  | creationDatetime
  | applicationData | attestationApplicationId
  | associatedData | attestationChallenge | attestationIdBrand | attestationIdDevice | attestationIdImei
  | attestationIdManufacturer | attestationIdMeid | attestationIdModel | attestationIdProduct | attestationIdSerial
  | authToken | certificateSerial | certificateSubject | certificateNotAfter | certificateNotBefore
  | confirmationToken | deviceUniqueAttestation | identityCredentialKey | macLength | nonce | resetSinceIdRotation
  | rootOfTrust | uniqueId
  | algorithm | applicationId | authTimeout | blobUsageRequirements | blockMode | bootPatchlevel | callerNonce | digest
  | earlyBootOnly | ecCurve | exportable | includeUniqueId | keySize | maxUsesPerBoot | minMacLength
  | minSecondsBetweenOps | noAuthRequired | origin | osPatchlevel | osVersion | padding | purpose | rsaOaepMgfDigest
  | rsaPublicExponent | trustedConfirmationRequired | trustedUserPresenceRequired | unlockedDeviceRequired
  | userAuthType | userSecureId | vendorPatchlevel
  | activeDatetime | allApplications | allUsers | maxBootLevel | originationExpireDatetime | usageExpireDatetime
  | userId | usageCountLimit
deriving DecidableEq

/-- What a case does with the entry. -/
inductive Place where
  | unexpected
  | leftOut
  /-- To the keystore's, if the request had it. -/
  | echoed
  | keyMint
  | keystore
deriving DecidableEq

def KmTag.place : KmTag → Place
  | .eciesSingleHashMode | .invalid | .kdf | .rollbackResistance => .unexpected
  | .allowWhileOnBody | .bootloaderOnly | .rollbackResistant | .storageKey => .leftOut
  | .creationDatetime => .echoed
  | .applicationData | .attestationApplicationId => .leftOut
  | .associatedData | .attestationChallenge | .attestationIdBrand | .attestationIdDevice | .attestationIdImei
  | .attestationIdManufacturer | .attestationIdMeid | .attestationIdModel | .attestationIdProduct
  | .attestationIdSerial | .authToken | .certificateSerial | .certificateSubject | .certificateNotAfter
  | .certificateNotBefore | .confirmationToken | .deviceUniqueAttestation | .identityCredentialKey | .macLength
  | .nonce | .resetSinceIdRotation | .rootOfTrust | .uniqueId => .leftOut
  | .algorithm | .applicationId | .authTimeout | .blobUsageRequirements | .blockMode | .bootPatchlevel
  | .callerNonce | .digest | .earlyBootOnly | .ecCurve | .exportable | .includeUniqueId | .keySize
  | .maxUsesPerBoot | .minMacLength | .minSecondsBetweenOps | .noAuthRequired | .origin | .osPatchlevel
  | .osVersion | .padding | .purpose | .rsaOaepMgfDigest | .rsaPublicExponent | .trustedConfirmationRequired
  | .trustedUserPresenceRequired | .unlockedDeviceRequired | .userAuthType | .userSecureId
  | .vendorPatchlevel => .keyMint
  | .activeDatetime | .allApplications | .allUsers | .maxBootLevel | .originationExpireDatetime
  | .usageExpireDatetime | .userId | .usageCountLimit => .keystore

/-- `SecurityLevel`. -/
inductive SecurityLevel where
  | software | trustedEnvironment | strongbox | keystore
deriving DecidableEq

/-- What the service takes from `km_utils`, and the names the library has for
tags. -/
structure KmUtils (lib : KeymasterDefs) where
  KeyParameter : Type
  kmTag : Tag → Option KmTag
  kmParamSet : List KeyParameter → List lib.Param
  kmParam2Aidl : lib.Param → KeyParameter
  kmParamSet2Aidl : List lib.Param → List KeyParameter
  authToken2AidlVec : Option AidlAuthToken → Bytes

variable {lib : KeymasterDefs} (utils : KmUtils lib)

/-- `KeyCharacteristics`. -/
structure KeyCharacteristics where
  securityLevel : SecurityLevel
  authorizations : List utils.KeyParameter

/-- `Contains`. -/
def containsTag (params : List lib.Param) (t : KmTag) : Bool := params.any fun p => utils.kmTag (lib.tag p) = some t

/-- The loop over the software-enforced entries: KeyMint's and the keystore's,
none where a `CHECK` fails. A tag without a case is left out. -/
def enforcedLists (requestParams : List lib.Param) :
    List lib.Param → List utils.KeyParameter → List utils.KeyParameter →
      Option (List utils.KeyParameter × List utils.KeyParameter)
  | [], keyMint, keystore => some (keyMint, keystore)
  | entry :: entries, keyMint, keystore =>
    match (utils.kmTag (lib.tag entry)).map KmTag.place with
    | some .unexpected => none
    | none | some .leftOut => enforcedLists requestParams entries keyMint keystore
    | some .echoed =>
      let keystore :=
        if containsTag utils requestParams .creationDatetime then keystore ++ [utils.kmParam2Aidl entry] else keystore
      enforcedLists requestParams entries keyMint keystore
    | some .keyMint => enforcedLists requestParams entries (keyMint ++ [utils.kmParam2Aidl entry]) keystore
    | some .keystore => enforcedLists requestParams entries keyMint (keystore ++ [utils.kmParam2Aidl entry])

/-- `convertKeyCharacteristics`. -/
def convertKeyCharacteristics (keyMintSecurityLevel : SecurityLevel) (requestParams swEnforced hwEnforced : List lib.Param)
    (includeKeystoreEnforced : Bool) : Option (List (KeyCharacteristics utils)) :=
  if keyMintSecurityLevel ≠ .software then
    let keyMintEnforced := ⟨keyMintSecurityLevel, utils.kmParamSet2Aidl hwEnforced⟩
    if includeKeystoreEnforced && !swEnforced.isEmpty
    then some [keyMintEnforced, ⟨.keystore, utils.kmParamSet2Aidl swEnforced⟩]
    else some [keyMintEnforced]
  else if !hwEnforced.isEmpty then none
  else
    (enforcedLists utils requestParams swEnforced [] []).map fun (keyMint, keystore) =>
      (if !keyMint.isEmpty then [⟨keyMintSecurityLevel, keyMint⟩] else []) ++
        if includeKeystoreEnforced && !keystore.isEmpty then [⟨.keystore, keystore⟩] else []

/-- `securityLevel_`. -/
def securityLevel : SecurityLevel := .trustedEnvironment

/-! ## Messages -/

/-- `AttestationKey`. -/
structure AttestationKey where
  keyBlob : Bytes
  attestKeyParams : List utils.KeyParameter
  issuerSubjectName : Bytes

/-- What a request has of the key to attest with. -/
structure AttestWith (lib : KeymasterDefs) where
  attestationSigningKeyBlob : Bytes := []
  attestKeyParams : List lib.Param := []
  issuerSubject : Bytes := []

/-- A request about a key: the key, and parameters. -/
structure AboutKey (lib : KeymasterDefs) where
  keyMaterial : Bytes
  params : List lib.Param

structure WrappedKeyRequest (lib : KeymasterDefs) where
  wrappedMaterial : Bytes
  wrappingMaterial : Bytes
  maskingKeyMaterial : Bytes
  additionalParams : List lib.Param
  passwordSid : UInt64
  biometricSid : UInt64

/-- `SharedSecretParameters` and `HmacSharingParameters`. -/
structure SharedSecretParameters where
  seed : Bytes
  nonce : Bytes

/-- `TimeStampToken`. -/
structure TimeStampToken where
  challenge : Int64
  milliSeconds : Int64
  mac : Bytes

structure CsrRequest where
  testMode : Bool
  keysToSign : List Bytes
  endpointEncCertChain : Bytes
  challenge : Bytes

/-- The bytes of the requests. Those for an operation have the handle in front,
which is left out here. -/
structure RequestBytes (lib : KeymasterDefs) where
  addEntropy : Bytes → Bytes
  generateKey : List lib.Param → AttestWith lib → Bytes
  importKey : List lib.Param → UInt32 → Bytes → AttestWith lib → Bytes
  importWrappedKey : WrappedKeyRequest lib → Bytes
  upgradeKey : AboutKey lib → Bytes
  deleteKey : Bytes → Bytes
  deleteAllKeys : Bytes
  getKeyCharacteristics : AboutKey lib → Bytes
  deviceLocked : Bool → Option TimeStampToken → Bytes
  beginOperation : BeginOperationRequest lib → Bytes
  updateOperation : UpdateOperationRequest lib → Bytes
  finishOperation : FinishOperationRequest lib → Bytes
  computeSharedHmac : List SharedSecretParameters → Bytes
  generateTimestampToken : Int64 → Bytes
  generateRkpKey : Bool → Bytes
  generateCsr : CsrRequest → Bytes

/-- What a response has of a key that was made. -/
structure CreatedKey (lib : KeymasterDefs) where
  keyBlob : Bytes
  enforced : List lib.Param
  unenforced : List lib.Param
  certificateChain : List Bytes

/-- What is in the responses beside the error. -/
structure Contents (lib : KeymasterDefs) where
  created : Method → Bytes → CreatedKey lib
  upgradedKey : Bytes → Bytes
  characteristics : Bytes → List lib.Param × List lib.Param
  opHandle : Bytes → UInt64
  outputParams : Bytes → List lib.Param
  sharing : Bytes → SharedSecretParameters
  sharingCheck : Bytes → Bytes
  timestampToken : Bytes → TimeStampToken
  rkpKey : Bytes → Bytes × Bytes
  csr : Bytes → Bytes × Bytes × Bytes

/-- All that is the libraries'. -/
structure Libraries (lib : KeymasterDefs) where
  utils : KmUtils lib
  bytes : RequestBytes lib
  contents : Contents lib

/-! ## Methods -/

/-- What a method of BeanpodKeymaster leaves: the error in the response, none
where there is no defined one, and the bytes the response was read from. -/
structure Called where
  error : Option Int
  response : Option Bytes
  st : State

variable (k : Libraries lib) (e : World)

/-- `forward`, with the response. -/
def forwarded (s : State) (m : Method) (req : Bytes) : Called :=
  let stack := e.stack s.ipc.invokes
  let out := if m.noRequest then bpKeymasterSendNoRequest e.ipc (e.deserialize m.command) s.ipc m.command stack
    else bpKeymasterSend e.ipc (e.deserialize m.command) s.ipc m.command req stack
  ⟨out.ret, out.deserialized, { s with ipc := out.st }⟩

/-- `call`, with the response. -/
def called (s : State) (m : Method) (req : Bytes) : Called :=
  if m.guarded then
    match beanpodInitialize e s with
    | (none, s) => ⟨none, none, s⟩
    | (some rc, s) => if rc ≠ 0 then ⟨some kmErrorUnknownError, none, s⟩ else forwarded e s m req
  else forwarded e s m req

/-- `ScopedAStatus`: the error, and the message that may be with it. -/
structure Status where
  code : Int
  message : String := ""
deriving DecidableEq

/-- What the methods hand to their clients. -/
inductive Answer (utils : KmUtils lib) where
  | nothing
  | created (keyBlob : Bytes) (keyCharacteristics : List (KeyCharacteristics utils)) (certificateChain : List Bytes)
  | keyBlob (blob : Bytes)
  | keyCharacteristics (list : List (KeyCharacteristics utils))
  | sharedSecretParameters (params : SharedSecretParameters)
  | sharingCheck (check : Bytes)
  | timeStamp (token : TimeStampToken)
  | keyPair (macedKey privateKeyHandle : Bytes)
  | certificateRequest (deviceInfo protectedData keysToSignMac : Bytes)

/-- A method that forwards one command: its request, what it hands out of a
response that says that all is well, none where a `CHECK` fails, and the status
for any other. -/
structure Forwarding (utils : KmUtils lib) where
  m : Method
  req : Bytes
  hands : Bytes → Option (Answer utils)
  failure : Int → Status := fun err => ⟨err, ""⟩

def Forwarding.run {utils : KmUtils lib} (f : Forwarding utils) (s : State) : Option (Status × Answer utils) × State :=
  let c := called e s f.m f.req
  match c.error with
  | none => (none, c.st)
  | some err =>
    if err ≠ kmErrorOk then (some (f.failure err, .nothing), c.st)
    else ((f.hands (c.response.getD [])).map fun a => (⟨kmErrorOk, ""⟩, a), c.st)

/-- What a new key is handed out with. -/
def Libraries.creationResult (m : Method) (requestParams : List lib.Param) (rsp : Bytes) : Option (Answer k.utils) :=
  let r := k.contents.created m rsp
  let includeKeystoreEnforced := !r.unenforced.isEmpty
  (convertKeyCharacteristics k.utils securityLevel requestParams r.unenforced r.enforced includeKeystoreEnforced).map
    fun cs => .created r.keyBlob cs r.certificateChain

def Libraries.attestWith (attestationKey : Option (AttestationKey k.utils)) : AttestWith lib :=
  match attestationKey with
  | none => {}
  | some a => ⟨a.keyBlob, k.utils.kmParamSet a.attestKeyParams, a.issuerSubjectName⟩

/-- `TAG_APPLICATION_ID`, `TAG_APPLICATION_DATA` and `TAG_ASSOCIATED_DATA`, of
the type `KM_BYTES`. -/
def applicationIdTag : Tag := 0x90000259
def applicationDataTag : Tag := 0x900002bc
def associatedDataTag : Tag := 0x900003e8

/-- `addClientAndAppData`. -/
def clientAndAppData (lib : KeymasterDefs) (appId appData : Bytes) : List lib.Param :=
  (if appId.length ≠ 0 then [lib.paramBlob applicationIdTag appId] else []) ++
    if appData.length ≠ 0 then [lib.paramBlob applicationDataTag appData] else []

/-- The description that `GenerateKey` of BeanpodKeymaster forwards: the time is
appended to one that has a date. -/
def datedCopy (now : UInt64) (description : List lib.Param) : List lib.Param :=
  if description.any (isDate lib) then description ++ [lib.paramDate creationDatetime now] else description

namespace KeyMintDevice

def addRngEntropy (data : Bytes) : Forwarding k.utils where
  m := .addRngEntropy
  req := k.bytes.addEntropy data
  hands := fun _ => some .nothing

def generateKey (now : UInt64) (keyParams : List k.utils.KeyParameter)
    (attestationKey : Option (AttestationKey k.utils)) : Forwarding k.utils where
  m := .generateKey
  req := k.bytes.generateKey (datedCopy now (k.utils.kmParamSet keyParams)) (k.attestWith attestationKey)
  hands := k.creationResult .generateKey (k.utils.kmParamSet keyParams)

def importKey (keyParams : List k.utils.KeyParameter) (keyFormat : UInt32) (keyData : Bytes)
    (attestationKey : Option (AttestationKey k.utils)) : Forwarding k.utils where
  m := .importKey
  req := k.bytes.importKey (k.utils.kmParamSet keyParams) keyFormat keyData (k.attestWith attestationKey)
  hands := k.creationResult .importKey (k.utils.kmParamSet keyParams)

def importWrappedKey (wrappedKeyData wrappingKeyBlob maskingKey : Bytes) (unwrappingParams : List k.utils.KeyParameter)
    (passwordSid biometricSid : Int64) : Forwarding k.utils where
  m := .importWrappedKey
  req := k.bytes.importWrappedKey ⟨wrappedKeyData, wrappingKeyBlob, maskingKey, k.utils.kmParamSet unwrappingParams,
    passwordSid.toUInt64, biometricSid.toUInt64⟩
  hands := k.creationResult .importWrappedKey (k.utils.kmParamSet unwrappingParams)

def upgradeKey (keyBlobToUpgrade : Bytes) (upgradeParams : List k.utils.KeyParameter) : Forwarding k.utils where
  m := .upgradeKey
  req := k.bytes.upgradeKey ⟨keyBlobToUpgrade, k.utils.kmParamSet upgradeParams⟩
  hands := fun rsp => some (.keyBlob (k.contents.upgradedKey rsp))

def deleteKey (keyBlob : Bytes) : Forwarding k.utils where
  m := .deleteKey
  req := k.bytes.deleteKey keyBlob
  hands := fun _ => some .nothing

def deleteAllKeys : Forwarding k.utils where
  m := .deleteAllKeys
  req := k.bytes.deleteAllKeys
  hands := fun _ => some .nothing

def deviceLocked (passwordOnly : Bool) (timestampToken : Option TimeStampToken) : Forwarding k.utils where
  m := .deviceLocked
  req := k.bytes.deviceLocked passwordOnly timestampToken
  hands := fun _ => some .nothing

def earlyBootEnded : Forwarding k.utils where
  m := .earlyBootEnded
  req := []
  hands := fun _ => some .nothing

/-- The keystore's list is left out. -/
def getKeyCharacteristics (keyBlob appId appData : Bytes) : Forwarding k.utils where
  m := .getKeyCharacteristics
  req := k.bytes.getKeyCharacteristics ⟨keyBlob, clientAndAppData lib appId appData⟩
  hands := fun rsp =>
    let (enforced, unenforced) := k.contents.characteristics rsp
    (convertKeyCharacteristics k.utils securityLevel [] unenforced enforced false).map .keyCharacteristics

end KeyMintDevice

namespace SharedSecret

def getSharedSecretParameters : Forwarding k.utils where
  m := .getHmacSharingParameters
  req := []
  hands := fun rsp => some (.sharedSecretParameters (k.contents.sharing rsp))

def computeSharedSecret (params : List SharedSecretParameters) : Forwarding k.utils where
  m := .computeSharedHmac
  req := k.bytes.computeSharedHmac params
  hands := fun rsp => some (.sharingCheck (k.contents.sharingCheck rsp))

/-- The size of the nonce in a `HmacSharingParameters`. -/
def nonceSize : Nat := 32

end SharedSecret

namespace SecureClock

def generateTimeStamp (challenge : Int64) : Forwarding k.utils where
  m := .generateTimestampToken
  req := k.bytes.generateTimestampToken challenge
  hands := fun rsp => some (.timeStamp (k.contents.timestampToken rsp))

end SecureClock

namespace RemotelyProvisionedComponent

def generateEcdsaP256KeyPair (testMode : Bool) : Forwarding k.utils where
  m := .generateRkpKey
  req := k.bytes.generateRkpKey testMode
  hands := fun rsp => some (.keyPair (k.contents.rkpKey rsp).1 (k.contents.rkpKey rsp).2)
  failure := fun err => ⟨-err, "Failure in key generation."⟩

def generateCertificateRequest (testMode : Bool) (keysToSign : List Bytes) (endpointEncCertChain challenge : Bytes) :
    Forwarding k.utils where
  m := .generateCsr
  req := k.bytes.generateCsr ⟨testMode, keysToSign, endpointEncCertChain, challenge⟩
  hands := fun rsp =>
    let (deviceInfo, protectedData, keysToSignMac) := k.contents.csr rsp
    some (.certificateRequest deviceInfo protectedData keysToSignMac)
  failure := fun err => ⟨-err, "Failure in CSR Generation."⟩

end RemotelyProvisionedComponent

/-! ## Calls -/

def kmErrorInvalidArgument : Int := -38

/-- The calls of the components that are about no operation; `generateKey` looks
at the clock. -/
inductive ComponentCall (utils : KmUtils lib) where
  | addRngEntropy (data : Bytes)
  | generateKey (now : UInt64) (keyParams : List utils.KeyParameter) (attestationKey : Option (AttestationKey utils))
  | importKey (keyParams : List utils.KeyParameter) (keyFormat : UInt32) (keyData : Bytes)
      (attestationKey : Option (AttestationKey utils))
  | importWrappedKey (wrappedKeyData wrappingKeyBlob maskingKey : Bytes) (unwrappingParams : List utils.KeyParameter)
      (passwordSid biometricSid : Int64)
  | upgradeKey (keyBlobToUpgrade : Bytes) (upgradeParams : List utils.KeyParameter)
  | deleteKey (keyBlob : Bytes)
  | deleteAllKeys
  | destroyAttestationIds
  | deviceLocked (passwordOnly : Bool) (timestampToken : Option TimeStampToken)
  | earlyBootEnded
  | convertStorageKeyToEphemeral (storageKeyBlob : Bytes)
  | getKeyCharacteristics (keyBlob appId appData : Bytes)
  | getSharedSecretParameters
  | computeSharedSecret (params : List SharedSecretParameters)
  | generateTimeStamp (challenge : Int64)
  | generateEcdsaP256KeyPair (testMode : Bool)
  | generateCertificateRequest (testMode : Bool) (keysToSign : List Bytes) (endpointEncCertChain challenge : Bytes)

/-- What a call forwards, or the error it is answered with at once. -/
def ComponentCall.forwarding : ComponentCall k.utils → Except Int (Forwarding k.utils)
  | .addRngEntropy data => if data.length = 0 then .error kmErrorOk else .ok (KeyMintDevice.addRngEntropy k data)
  | .generateKey now ps attest => .ok (KeyMintDevice.generateKey k now ps attest)
  | .importKey ps format data attest => .ok (KeyMintDevice.importKey k ps format data attest)
  | .importWrappedKey wrapped wrapping masking ps password biometric =>
    .ok (KeyMintDevice.importWrappedKey k wrapped wrapping masking ps password biometric)
  | .upgradeKey blob ps => .ok (KeyMintDevice.upgradeKey k blob ps)
  | .deleteKey blob => .ok (KeyMintDevice.deleteKey k blob)
  | .deleteAllKeys => .ok (KeyMintDevice.deleteAllKeys k)
  | .destroyAttestationIds | .convertStorageKeyToEphemeral _ => .error kmErrorUnimplemented
  | .deviceLocked passwordOnly token => .ok (KeyMintDevice.deviceLocked k passwordOnly token)
  | .earlyBootEnded => .ok (KeyMintDevice.earlyBootEnded k)
  | .getKeyCharacteristics blob id data => .ok (KeyMintDevice.getKeyCharacteristics k blob id data)
  | .getSharedSecretParameters => .ok (SharedSecret.getSharedSecretParameters k)
  | .computeSharedSecret ps =>
    if ps.any fun p => p.nonce.length ≠ SharedSecret.nonceSize then .error kmErrorInvalidArgument
    else .ok (SharedSecret.computeSharedSecret k ps)
  | .generateTimeStamp challenge => .ok (SecureClock.generateTimeStamp k challenge)
  | .generateEcdsaP256KeyPair testMode => .ok (RemotelyProvisionedComponent.generateEcdsaP256KeyPair k testMode)
  | .generateCertificateRequest testMode keys chain challenge =>
    .ok (RemotelyProvisionedComponent.generateCertificateRequest k testMode keys chain challenge)

def ComponentCall.run (s : State) (c : ComponentCall k.utils) : Option (Status × Answer k.utils) × State :=
  match c.forwarding k with
  | .error err => (some (⟨err, ""⟩, .nothing), s)
  | .ok f => f.run e s

/-- What `begin` hands out: the handle once more as the challenge, and the object
for the operation. -/
structure BeginResult where
  params : List utils.KeyParameter
  challenge : UInt64
  operation : Operation

/-- `BeanpodKeyMintDevice::begin`: the error, none where there is no defined one. -/
def KeyMintDevice.begin (s : State) (purpose : UInt32) (keyBlob : Bytes) (params : List k.utils.KeyParameter)
    (authToken : Option AidlAuthToken) : Option Int × Option (BeginResult k.utils) × State :=
  let vectorToken := k.utils.authToken2AidlVec authToken
  let additionalParams := k.utils.kmParamSet params ++ [lib.paramBlob tagAuthToken vectorToken]
  let c := called e s .beginOperation (k.bytes.beginOperation ⟨purpose, keyBlob, additionalParams⟩)
  if c.error ≠ some kmErrorOk then (c.error, none, c.st)
  else
    let rsp := c.response.getD []
    let handle := k.contents.opHandle rsp
    (c.error, some ⟨k.utils.kmParamSet2Aidl (k.contents.outputParams rsp), handle, { opHandle := handle }⟩, c.st)

/-- The calls on an operation; `output` says that the pointer is not null. -/
inductive OperationCall where
  | updateAad (input : Bytes)
  | update (input : Bytes) (authToken : Option AidlAuthToken) (output : Bool)
  | finish (input signature : Option Bytes) (authToken : Option AidlAuthToken) (output : Bool)
  | abort

/-- The call, once its request is there; none where a token's mac leaves the
token. -/
def OperationCall.built (opHandle : UInt64) : OperationCall → Option OpCall
  | .updateAad input =>
    some (.updateAad (k.bytes.updateOperation ⟨opHandle, [], [lib.paramBlob associatedDataTag input]⟩))
  | .update input t output =>
    match operationUpdate lib opHandle input t output with
    | .rejected _ => some (.update input [] false)
    | .overrun => none
    | .request r => some (.update input (k.bytes.updateOperation r) true)
  | .finish input signature t output =>
    match operationFinish lib opHandle input signature t output with
    | .rejected _ => some (.finish [] false)
    | .overrun => none
    | .request r => some (.finish (k.bytes.finishOperation r) true)
  | .abort => some .abort

/-! ## The service -/

/-- The state of the service: the connection, and the operations in the order
they were begun, none where the object is gone. -/
structure Service where
  st : State := {}
  operations : List (Option Operation) := []

/-- What clients do: they call a component, begin an operation, call one, or let
go of one. -/
inductive ServiceCall (utils : KmUtils lib) where
  | component (c : ComponentCall utils)
  | begin (purpose : UInt32) (keyBlob : Bytes) (params : List utils.KeyParameter) (authToken : Option AidlAuthToken)
  | operation (i : Nat) (c : OperationCall)
  | release (i : Nat)

/-- The `i`th operation, if it is still there. -/
def Service.operation (v : Service) (i : Nat) : Option Operation := v.operations.getD i none

variable (r : Replies)

/-- The service after a call, and whether the call returned. -/
def Service.serve (v : Service) : ServiceCall k.utils → Bool × Service
  | .component c =>
    let (out, st) := c.run k e v.st
    (out.isSome, { v with st })
  | .begin purpose keyBlob params authToken =>
    let (err, out, st) := KeyMintDevice.begin k e v.st purpose keyBlob params authToken
    (err.isSome, ⟨st, v.operations ++ (out.map fun b => some b.operation).toList⟩)
  | .operation i c =>
    match v.operation i with
    | none => (true, v)
    | some op =>
      match c.built k op.opHandle with
      | none => (false, v)
      | some c =>
        let out := op.step e r v.st c
        (out.status.isSome, ⟨out.st, v.operations.set i (some out.op)⟩)
  | .release i =>
    match v.operation i with
    | none => (true, v)
    | some op =>
      if op.opHandle ≠ 0 then
        let out := op.abort e v.st
        (out.status.isSome, ⟨out.st, v.operations.set i none⟩)
      else (true, { v with operations := v.operations.set i none })

def Service.next (v : Service) (c : ServiceCall k.utils) : Service := (v.serve k e r c).2

/-- The request fits its 32-bit size. -/
def OpCall.fits : OpCall → Prop
  | .updateAad body | .update _ body _ | .finish body _ => body.length + 8 < 2 ^ 32
  | .abort => True

instance : (c : OpCall) → Decidable c.fits
  | .updateAad _ | .update .. | .finish .. => inferInstanceAs (Decidable (_ < _))
  | .abort => inferInstanceAs (Decidable True)

/-- The request of a call on an operation fits. -/
def ServiceCall.fits (v : Service) : ServiceCall k.utils → Prop
  | .operation i c => ∀ op ∈ v.operation i, ∀ c' ∈ c.built k op.opHandle, c'.fits
  | .component _ | .begin .. | .release _ => True

instance (v : Service) : (c : ServiceCall k.utils) → Decidable (c.fits k v)
  | .operation _ _ => inferInstanceAs (Decidable (∀ _ ∈ _, ∀ _ ∈ _, _))
  | .component _ | .begin .. | .release _ => inferInstanceAs (Decidable True)

/-- A call that returns. -/
def Returns (v : Service) (c : ServiceCall k.utils) : Prop := c.fits k v ∧ (v.serve k e r c).1 = true

instance (v : Service) (c : ServiceCall k.utils) : Decidable (Returns k e r v c) := inferInstanceAs (Decidable (_ ∧ _))

/-! ## What the TA holds -/

/-- A method that is about no operation. -/
def Method.aside : Method → Bool
  | .beginOperation | .updateOperation | .finishOperation | .abortOperation => false
  | _ => true

/-- The handle in a request for an operation. -/
def handleIn (input : Option Bytes) : UInt64 := .ofNat (leAt (input.getD []) 0 8)

/-- What the TA holds in a session after one more command, the `n`th: it adds
what it began, drops an operation with an `UPDATE` that it does not grant, and
always with `FINISH` and `ABORT`. -/
def holding (n : Nat) (cmd : UInt32) (input : Option Bytes) (held : Finset UInt64) : Finset UInt64 :=
  if cmd = Method.beginOperation.command then
    let invoked := e.ipc.invoke n
    if Succeeded e n cmd input then insert (k.contents.opHandle (invoked.output.take invoked.outSize)) held else held
  else if cmd = Method.updateOperation.command then
    if Succeeded e n cmd input then held else held.erase (handleIn input)
  else if cmd = Method.finishOperation.command ∨ cmd = Method.abortOperation.command then held.erase (handleIn input)
  else held

/-- The TA as the calls made of the library tell of it: what it holds in the
session that was opened last, and in ones that were never closed. -/
structure TaView where
  invokes : Nat := 0
  held : Finset UInt64 := ∅
  orphaned : Finset UInt64 := ∅

def TaView.see (w : TaView) : Call → TaView
  | .openSession => { w with held := ∅, orphaned := w.orphaned ∪ w.held }
  | .closeSession | .finalizeContext => { w with held := ∅ }
  | .invoke cmd input => { w with invokes := w.invokes + 1, held := holding k e w.invokes cmd input w.held }
  | _ => w

def taView (calls : List Call) : TaView := calls.foldl (TaView.see k e) {}

/-- The operations that the TA holds. -/
def Service.heldByTa (v : Service) : Finset UInt64 :=
  let w := taView k e v.st.ipc.calls
  w.held ∪ w.orphaned

end Keymint
