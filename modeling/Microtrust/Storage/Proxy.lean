/-
The storage proxy (proxy/proxy.c): starting it, handling a request, and the
runs of its main loop.

A run is seen with its history: the handles a client may still use, the
changes that were answered `STORAGE_NO_ERROR`, and the opens whose close was
answered with an error.
-/
import Microtrust.Storage.Rpmb

namespace Storage

open Lib

/-- The cases of the switch in `handle_req`. -/
def handler : Cmd → World → Msg → Bytes → Nat → Int × World
  | .fileDelete => storageFileDelete
  | .fileOpen => storageFileOpen
  | .fileClose => storageFileClose
  | .fileWrite => storageFileWrite
  | .fileRead => storageFileRead
  | .fileGetSize => storageFileGetSize
  | .fileSetSize => storageFileSetSize
  | .rpmbSend => rpmbSend
  | .initOk => storageInitOk
  | .initProinfoOk => storageInitProinfoOk
  | .initPersistOk => storageInitPersistOk

/-- `*msg` after a handler: what it responded with last. -/
def leftBy (w : World) (msg : Msg) : Msg := (w.sent.getLast?.map Resp.msg).getD msg

/-- The switch of `handle_req`, and the response that is still to be sent when
it leaves a positive number. -/
def dispatch (w : World) (msg : Msg) (r : Bytes) (reqLen : Nat) : Int × World :=
  let (rc, msg, w) :=
    match Cmd.ofCode msg.cmd with
    | some c =>
      let (rc, w) := handler c w msg r reqLen
      (rc, leftBy w msg, w)
    | none => (1, msg.answer .unimplemented, w)
  if rc > 0 then ipcRespond w msg none else (rc, w)

/-- `handle_req`. -/
def handleReq (w : World) (msg : Msg) (r : Bytes) (reqLen : Nat) : Int × World :=
  if msg.postCommit && msg.cmd != Cmd.rpmbSend.code then
    ipcRespond w (msg.answer .unimplemented) none
  else if msg.preCommit then
    match storageSyncCheckpoint w with
    | (rc, w) => if rc < 0 then ipcRespond w (msg.answer .generic) none else dispatch w msg r reqLen
  else dispatch w msg r reqLen

/-- A message `ipc_get_msg` admits, header and payload. -/
structure Request where
  msg : Msg
  payload : Bytes
  fits : payload.length ≤ reqBufferSize

/-- A request is read: its payload over what the buffer held, and a
terminator forced after it. -/
def receive (w : World) (q : Request) : World :=
  { w with st := { w.st with
    reqBuffer := q.payload ++ 0 :: w.st.reqBuffer.drop (q.payload.length + 1) } }

/-- One round of `proxy_loop`. -/
def serve (w : World) (q : Request) : Int × World :=
  let w := receive w q
  handleReq w q.msg w.st.reqBuffer q.payload.length

/-! ## Starting -/

/-- The command line of a proxy, and the build it was made in. -/
structure Config where
  dataRoot : Option Bytes
  persistentRoot : Option Bytes
  proinfo : Bool
  rpmbDev : Option Bytes
  trustyDev : Bytes
  proNode : Bytes
  abi : Abi

def roFlags : OpenFlags := ⟨false, false, false, false, false⟩

def World.setRoots (w : World) (r : Roots) : World := { w with st := { w.st with roots := r } }

/-- A root is opened for reading only and noted in the variables. -/
def initRoot (w : World) (path : Bytes) (note : Nat → Roots → Roots) : Option World :=
  match w.openPath path roFlags with
  | (.error _, _) => none
  | (.ok fd, w) => some (w.setRoots (note fd w.st.roots))

/-- `storage_init`. -/
def storageInit (w : World) (dir : Bytes) : Option World :=
  let w := w.setMarks { fsState := .clean, dirState := .clean, fdState := fun _ => .unused }
  initRoot w dir fun fd r => { r with ssdirFd := fd, ssdirName := some dir }

/-- `storage_persistent_init`. -/
def storagePersistentInit (w : World) (dir : Bytes) : Option World :=
  initRoot w dir fun fd r => { r with ssPersistentDirFd := fd, ssPersistentDirName := some dir }

/-- `storage_proinfo_init`. -/
def storageProinfoInit (w : World) (node : Bytes) : Option World :=
  initRoot w node fun fd r => { r with ssProinfoNodeFd := fd }

/-- `ipc_connect`, with `tries` attempts left: `tipc_connect` opens the device
and names the service to it, closing it again when that fails. -/
def ipcConnect : Nat → World → Bytes → Option World
  | 0, _, _ => none
  | tries + 1, w, dev =>
    match w.openPath dev ⟨true, false, false, false, false⟩ with
    | (.error _, w) => ipcConnect tries w dev
    | (.ok fd, w) =>
      let (ok, w) := w.touch (.ioctl fd) fd
      if ok then some { w with st := { w.st with tipcFd := fd } }
      else ipcConnect tries (w.close fd).2 dev

/-- A step of `main` that is taken when its option was given. -/
def given (opt : Option Bytes) (step : World → Bytes → Option World) (w : World) : Option World :=
  match opt with
  | some arg => step w arg
  | none => some w

/-- The process as it is started. The log of changes is that of the run. -/
def fresh (cfg : Config) (env : Nat → Syscall → Reply) (mmcRead : Nat → Bytes) (k : Kernel) : World :=
  { env, now := 0, mmcRead, abi := cfg.abi, kern := { k with made := [], pending := [] }
    st := { roots := { ssProinfoName := cfg.proNode } }, sent := [], mmc := [], props := [] }

/-- `main`, up to its loop: none when it exits. -/
def start (cfg : Config) (env : Nat → Syscall → Reply) (mmcRead : Nat → Bytes) (k : Kernel) : Option World := do
  let w ← given cfg.dataRoot storageInit (fresh cfg env mmcRead k)
  let w ← given cfg.persistentRoot storagePersistentInit w
  let w ← given (if cfg.proinfo then some cfg.proNode else none) storageProinfoInit w
  let w ← given cfg.rpmbDev rpmbOpen w
  ipcConnect 6 w cfg.trustyDev

/-! ## Runs -/

def Request.cmd (q : Request) : Option Cmd := Cmd.ofCode q.msg.cmd

/-- The name in an open or delete request, as the handlers read it. -/
def Request.name (q : Request) : Bytes := cstr (q.payload.drop 4 ++ [0])

/-- The flags of an open request. -/
def Request.openFlags (q : Request) : Nat := leAt q.payload 0 4

/-- The handle a request names, if it is one that names a handle. -/
def Request.handle (q : Request) : Option Nat :=
  match q.cmd with
  | some .fileClose | some .fileGetSize => if q.payload.length = 4 then some (leAt q.payload 0 4) else none
  | some .fileRead => if q.payload.length = 16 then some (leAt q.payload 0 4) else none
  | some .fileWrite => if q.payload.length < 16 then none else some (leAt q.payload 8 4)
  | some .fileSetSize => if q.payload.length = 16 then some (leAt q.payload 8 4) else none
  | _ => none

/-- The response to the request that took `w` to `w'`. -/
def response (w w' : World) : Option Resp := (w'.sent.drop w.sent.length).head?

def answered (w w' : World) (e : Err) : Bool := (response w w').any fun r => r.msg.result == e.code

/-- What a client knows after a run, and what it was promised. -/
structure Hist where
  /-- Handles returned by an open and not yet passed to a close. -/
  live : List Nat
  /-- Changes made while handling a request answered `STORAGE_NO_ERROR`. -/
  acked : List Change
  /-- The opens whose close was answered with an error. -/
  lost : List Nat

/-- The history after the request `q` that took `w` to `w'`. -/
def Hist.next (H : Hist) (q : Request) (w w' : World) : Hist where
  live :=
    match q.cmd, q.handle with
    | some .fileClose, some h => H.live.filter (· ≠ h)
    | some .fileOpen, _ =>
      match response w w' with
      | some ⟨_, some out, _⟩ => if answered w w' .noError then le out :: H.live else H.live
      | _ => H.live
    | _, _ => H.live
  acked := if answered w w' .noError then H.acked ++ w'.kern.made.drop w.kern.made.length else H.acked
  lost :=
    match q.cmd, q.handle with
    | some .fileClose, some h =>
      if answered w w' .noError then H.lost
      else match w.kern.desc (toInt32 h) with
        | some d => d.oid :: H.lost
        | none => H.lost
    | _, _ => H.lost

/-- A run of a proxy with configuration `cfg`, started on a disk that meets
`disk`, each request meeting `ok` on the history it finds. The loop goes on
while requests return 0. -/
inductive Run (cfg : Config) (disk : Kernel → Prop) (ok : Hist → Request → Prop) : Hist → World → Prop
  | start {env mmcRead k w} : disk k → start cfg env mmcRead k = some w → Run cfg disk ok ⟨[], [], []⟩ w
  | next {H w q w'} : Run cfg disk ok H w → ok H q → serve w q = (0, w') →
    Run cfg disk ok (H.next q w w') w'

/-- A property of the start and of every step holds along every run. -/
theorem Run.invariant {cfg disk ok} (I : Hist → World → Prop)
    (init : ∀ env mmcRead k w, disk k → Storage.start cfg env mmcRead k = some w → I ⟨[], [], []⟩ w)
    (step : ∀ H w q w', I H w → ok H q → serve w q = (0, w') → I (H.next q w w') w')
    {H w} (h : Run cfg disk ok H w) : I H w := by
  induction h with
  | start hd hs => exact init _ _ _ _ hd hs
  | next _ hok hs ih => exact step _ _ _ _ ih hok hs

end Storage
