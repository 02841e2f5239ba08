/-
The methods of BeanpodKeymaster (keymint1.0/common/BeanpodKeymaster.cpp). All
of them forward one command to the TA; most first see to it, with `INITIALIZE`,
that the TA is connected and configured.

Requests are the bytes they serialize to (`GenerateKey` forwards a dated copy of
its request: that copy). Waiting for a property to be set is left out, as is the
property the file reports its progress in. Responses are read by the libraries
of the TA's messages, which are an argument, as is what the receive buffer holds
before a response is copied to it.
-/
import Microtrust.Keymaster.Ipc

namespace Keymint

open Lib Keymaster

/-- The methods that forward a command. -/
inductive Method where
  | getVersion | supportedAlgorithms | supportedBlockModes | supportedPaddingModes | supportedDigests
  | supportedImportFormats | supportedExportFormats | addRngEntropy | configure | generateKey
  | getKeyCharacteristics | importKey | importWrappedKey | exportKey | attestKey | upgradeKey | deleteKey
  | deleteAllKeys | beginOperation | updateOperation | finishOperation | abortOperation
  | getHmacSharingParameters | computeSharedHmac | verifyAuthorization | deviceLocked | earlyBootEnded
  | generateRkpKey | generateCsr | generateTimestampToken | configureVendorPatchLevel | configureBootPatchLevel
deriving DecidableEq

/-- `KEYMASTER_REQ_SHIFT`. -/
def reqShift : UInt32 := 2

/-- The `keymaster_command` that a method forwards. -/
def Method.command : Method → UInt32
  | .generateKey => 0 <<< reqShift
  | .beginOperation => 1 <<< reqShift
  | .updateOperation => 2 <<< reqShift
  | .finishOperation => 3 <<< reqShift
  | .abortOperation => 4 <<< reqShift
  | .importKey => 5 <<< reqShift
  | .exportKey => 6 <<< reqShift
  | .getVersion => 7 <<< reqShift
  | .addRngEntropy => 8 <<< reqShift
  | .supportedAlgorithms => 9 <<< reqShift
  | .supportedBlockModes => 10 <<< reqShift
  | .supportedPaddingModes => 11 <<< reqShift
  | .supportedDigests => 12 <<< reqShift
  | .supportedImportFormats => 13 <<< reqShift
  | .supportedExportFormats => 14 <<< reqShift
  | .getKeyCharacteristics => 15 <<< reqShift
  | .attestKey => 16 <<< reqShift
  | .upgradeKey => 17 <<< reqShift
  | .configure => 18 <<< reqShift
  | .getHmacSharingParameters => 19 <<< reqShift
  | .computeSharedHmac => 20 <<< reqShift
  | .verifyAuthorization => 21 <<< reqShift
  | .deleteKey => 22 <<< reqShift
  | .deleteAllKeys => 23 <<< reqShift
  | .importWrappedKey => 25 <<< reqShift
  | .deviceLocked => 26 <<< reqShift
  | .earlyBootEnded => 27 <<< reqShift
  | .generateRkpKey => 29 <<< reqShift
  | .generateCsr => 30 <<< reqShift
  | .generateTimestampToken => 31 <<< reqShift
  | .configureVendorPatchLevel => 33 <<< reqShift
  | .configureBootPatchLevel => 0xd0000 <<< reqShift

/-- Whether the method begins with `INITIALIZE`. -/
def Method.guarded : Method → Bool
  | .configure | .configureVendorPatchLevel | .configureBootPatchLevel => false
  | .updateOperation | .finishOperation | .abortOperation => false
  | _ => true

/-- Whether the method forwards with `ForwardCommandNoRequest`. -/
def Method.noRequest : Method → Bool
  | .getHmacSharingParameters | .earlyBootEnded => true
  | _ => false

/-- A property that fits `MAX_ANDROID_PROP_LEN` with its zero. -/
abbrev Prop92 := { b : Bytes // b.length < 92 }

/-- What the requests for the configuration are made of. -/
structure Device where
  osVersion : UInt32
  osPatchlevel : UInt32
  vendorPatchlevel : UInt32
  brand : Prop92
  manufacturer : Prop92
  product : Prop92
  model : Prop92
  board : Prop92

/-- `BPConfigureRequest`. -/
def Device.configureRequest (d : Device) : Bytes :=
  leBytes 4 d.osVersion.toNat ++ leBytes 4 d.osPatchlevel.toNat ++
    [d.brand, d.manufacturer, d.product, d.model, d.board].flatMap fun p => splice (List.replicate 92 0) 0 p.1

def Device.vendorRequest (d : Device) : Bytes := leBytes 4 d.vendorPatchlevel.toNat

def Device.bootRequest (d : Device) : Bytes := leBytes 4 (d.osPatchlevel * 100 + 1).toNat

/-- What the methods depend on: the TA and the library, the readers of the
responses (by command), the receive buffer before each invocation, and the
device. -/
structure World where
  ipc : Env keymint10
  deserialize : UInt32 → Bytes → Option Int
  stack : Nat → Bytes
  device : Device

/-- The connection and the static `initialized`. -/
structure State where
  ipc : Keymaster.State := {}
  initialized : Bool := false

variable (e : World)

/-- `ForwardCommand` and `ForwardCommandNoRequest`: the error in the response,
none where there is no defined one. -/
def forward (s : State) (m : Method) (req : Bytes) : Option Int × State :=
  let stack := e.stack s.ipc.invokes
  let out := if m.noRequest then bpKeymasterSendNoRequest e.ipc (e.deserialize m.command) s.ipc m.command stack
    else bpKeymasterSend e.ipc (e.deserialize m.command) s.ipc m.command req stack
  (out.ret, { s with ipc := out.st })

/-- One of the configuration commands of `Initialize`, and what follows it if it
succeeds. -/
def configuring (s : State) (m : Method) (req : Bytes) (next : State → Option Int × State) : Option Int × State :=
  match forward e s m req with
  | (none, s) => (none, s)
  | (some err, s) => if err ≠ kmErrorOk then (some (-1), s) else next s

/-- `Initialize`. -/
def beanpodInitialize (s : State) : Option Int × State :=
  if s.initialized then (some 0, s)
  else
    match bpKeymasterConnect e.ipc s.ipc with
    | (err, ipc) =>
      let s := { s with ipc }
      if err ≠ 0 then (some err, s)
      else
        configuring e s .configure e.device.configureRequest fun s =>
          configuring e s .configureVendorPatchLevel e.device.vendorRequest fun s =>
            configuring e s .configureBootPatchLevel e.device.bootRequest fun s =>
              (some 0, { s with initialized := true })

/-- A method: the error in its response. -/
def call (s : State) (m : Method) (req : Bytes) : Option Int × State :=
  if m.guarded then
    match beanpodInitialize e s with
    | (none, s) => (none, s)
    | (some rc, s) => if rc ≠ 0 then (some kmErrorUnknownError, s) else forward e s m req
  else forward e s m req

/-- What a client can do with a BeanpodKeymaster. The flag and the connection
outlive the object. -/
inductive Op where
  | method (m : Method) (req : Bytes)
  | init
  | destroy

def step (s : State) : Op → State
  | .method m req => (call e s m req).2
  | .init => (beanpodInitialize e s).2
  | .destroy => { s with ipc := bpKeymasterDisconnect s.ipc }

end Keymint
