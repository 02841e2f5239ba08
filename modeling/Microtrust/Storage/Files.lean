/-
The file commands of the storage proxy (proxy/storage.c) and its answers
(`ipc_respond` of proxy/ipc.c).

A handle is the raw descriptor number. What still has to reach the disk is
tracked by three kinds of mark: one per descriptor below 64 (`fdState`), one
for the directories (`dirState`) and one for everything else (`fsState`);
`storageSyncCheckpoint` clears them.
-/
import Microtrust.Storage.Interface

namespace Storage

open Lib

/-- `ipc_respond`. -/
def ipcRespond (w : World) (msg : Msg) (out : Option Bytes) : Int × World :=
  let msg := { msg with cmd := msg.cmd ||| respBit }
  let (ok, w) := w.touch (.writev w.st.tipcFd) w.st.tipcFd
  let rc : Int := if ok then 0 else -1
  (rc, { w with sent := w.sent ++ [⟨msg, out, rc⟩] })

/-! ## The marks -/

/-- `insert_fd`. The handle is the descriptor. -/
def insertFd (m : Marks) (fl : OpenFlags) (fd : Nat) : Nat × Marks :=
  let handle := fd
  let m := if fl.creat then { m with dirState := .dirty } else m
  let m :=
    if handle < fdTblSize then
      let m := { m with fdState := Function.update m.fdState fd .clean }
      if fl.trunc then { m with fdState := Function.update m.fdState fd .dirty } else m
    else if fl.trunc || fl.creat then { m with fsState := .dirty }
    else m
  (handle, m)

/-- `lookup_fd`. The handle is not checked: it is used as a descriptor. -/
def lookupFd (m : Marks) (handle : Nat) (dirty : Bool) : Int × Marks :=
  let m :=
    if dirty then
      if handle < fdTblSize then { m with fdState := Function.update m.fdState handle .dirty }
      else { m with fsState := .dirty }
    else m
  (toInt32 handle, m)

/-- `remove_fd`. -/
def removeFd (m : Marks) (handle : Nat) : Int × Marks :=
  let m :=
    if handle < fdTblSize then { m with fdState := Function.update m.fdState handle .unused } else m
  (toInt32 handle, m)

/-- `translate_errno`. -/
def translateErrno (e : Errno) : Err :=
  if e ∈ [Errno.EBADF, .EINVAL, .ENOTDIR, .EISDIR, .ENAMETOOLONG] then .notValid
  else if e = .ENOENT then .notFound
  else if e = .EEXIST then .exist
  else if e ∈ [Errno.EPERM, .EACCES] then .access
  else .generic

/-! ## Transfers -/

/-- `offset += n` in `off_t`, as the machine adds. -/
def advance (abi : Abi) (off : Int) (n : Nat) : Int := (off + n).bmod (2 ^ abi.offBits)

def writeLoop : Nat → World → Int → Bytes → Int → Except Errno Unit × World
  | 0, w, _, _, _ => (.ok (), w)
  | n + 1, w, fd, buf, off =>
    if buf = [] then (.ok (), w)
    else match w.pwrite fd buf off with
      | (.error e, w) => (.error e, w)
      | (.ok m, w) => writeLoop n w fd (buf.drop m) (advance w.abi off m)

/-- `write_with_retry`. Every `pwrite` moves at least a byte, so the loop
ends within as many rounds as there are bytes. -/
def writeWithRetry (w : World) (fd : Int) (buf : Bytes) (off : Int) : Except Errno Unit × World :=
  writeLoop buf.length w fd buf off

def readLoop : Nat → World → Int → Nat → Int → Nat → Except Errno Nat × World
  | 0, w, _, _, _, rcnt => (.ok rcnt, w)
  | n + 1, w, fd, size, off, rcnt =>
    if size = 0 then (.ok rcnt, w)
    else match w.pread fd size off with
      | (.error e, w) => (.error e, w)
      | (.ok [], w) => (.ok rcnt, w)
      | (.ok bs, w) =>
        let w := { w with st := { w.st with readRsp := splice w.st.readRsp rcnt bs } }
        readLoop n w fd (size - bs.length) (advance w.abi off bs.length) (rcnt + bs.length)

/-- `read_with_retry` into `read_rsp`: how many bytes were read. -/
def readWithRetry (w : World) (fd : Int) (size : Nat) (off : Int) : Except Errno Nat × World :=
  readLoop size w fd size off 0

/-! ## Names -/

/-- What `%s` prints for a pointer that may be null. -/
def printed (s : Option Bytes) : Bytes := s.getD [40, 110, 117, 108, 108, 41]

/-- `asprintf` of a string: none when it fails. -/
def asprintf (w : World) (s : Bytes) : Option Bytes × World :=
  let (ok, w) := w.alloc (s.length + 1)
  (if ok then some s else none, w)

/-- `"%s/%s"`. -/
def joined (dir : Option Bytes) (name : Bytes) : Bytes := printed dir ++ 47 :: name

/-- The index of the last `/`, or -1. -/
def lastSlash (path : Bytes) : Int :=
  path.zipIdx.foldl (fun last x => if x.1 = 47 then (x.2 : Int) else last) (-1)

/-- `prepare_floder`: one `mkdir`, of everything before the last `/`, its
result ignored. -/
def prepareFloder (w : World) (root : Option Bytes) (path : Bytes) : Int × World :=
  let last := lastSlash path
  if last > 0 then
    let (ok, w) := w.alloc (last.toNat + 1)
    if ok then
      match asprintf w (joined root (path.take last.toNat)) with
      | (some full, w) => (0, (w.mkdir full).2)
      | (none, w) => (0, w)
    else (-1, w)
  else (-1, w)

/-! ## The commands

`r` is the buffer a request was received into, `reqLen` how much of it is
the request's payload. -/

/-- `storage_file_delete`. -/
def storageFileDelete (w : World) (msg : Msg) (r : Bytes) (reqLen : Nat) : Int × World :=
  if reqLen < 4 then ipcRespond w (msg.answer .notValid) none
  else if (cstr (r.drop 4)).length ≠ reqLen - 4 then ipcRespond w (msg.answer .notValid) none
  else
    match asprintf w (joined w.st.roots.ssdirName (cstr (r.drop 4))) with
    | (none, w) => ipcRespond w (msg.answer .generic) none
    | (some path, w) =>
      let w := w.setMarks { w.st.marks with dirState := .dirty }
      match w.unlink path with
      | (.error e, w) => ipcRespond w (msg.answer (translateErrno e)) none
      | (.ok _, w) => ipcRespond w (msg.answer .noError) none

/-- The path an open names: in the persistent root, the proinfo node, or in
the data root (its folder prepared first for a VFS file). -/
def openTarget (w : World) (flags : Nat) (name : Bytes) : Option Bytes × World :=
  if flags.testBit openPersistentFile then
    asprintf w (joined w.st.roots.ssPersistentDirName name)
  else if flags.testBit openProinfoFile then
    asprintf w w.st.roots.ssProinfoName
  else if flags.testBit openVfs then
    let (path, w) := asprintf w (joined w.st.roots.ssdirName name)
    (path, (prepareFloder w w.st.roots.ssdirName name).2)
  else
    asprintf w (joined w.st.roots.ssdirName name)

/-- The opens of `storage_file_open`: what the last one answered and the
flags it was tried with. -/
def openTries (w : World) (flags : Nat) (path : Bytes) : Except Errno Nat × OpenFlags × World :=
  let fl : OpenFlags := ⟨true, true, false, false, flags.testBit openTruncate⟩
  if flags.testBit openCreate then
    if flags.testBit openCreateExclusive then
      let fl := { fl with creat := true, excl := true }
      let (res, w) := w.openPath path fl
      (res, fl, w)
    else
      -- open first, and create only when there is no such file
      match w.openPath path fl with
      | (.error e, w) =>
        if e = .ENOENT then
          let fl := { fl with creat := true }
          let (res, w) := w.openPath path fl
          (res, fl, w)
        else (.error e, fl, w)
      | (.ok fd, w) => (.ok fd, fl, w)
  else
    let (res, w) := w.openPath path fl
    (res, fl, w)

/-- `storage_file_open`. -/
def storageFileOpen (w : World) (msg : Msg) (r : Bytes) (reqLen : Nat) : Int × World :=
  if reqLen < 4 then ipcRespond w (msg.answer .notValid) none
  else if (cstr (r.drop 4)).length ≠ reqLen - 4 then ipcRespond w (msg.answer .notValid) none
  else
    let flags := leAt r 0 4
    match openTarget w flags (cstr (r.drop 4)) with
    | (none, w) => ipcRespond w (msg.answer .generic) none
    | (some path, w) =>
      match openTries w flags path with
      | (.error e, _, w) => ipcRespond w (msg.answer (translateErrno e)) none
      | (.ok fd, fl, w) =>
        let (handle, m) := insertFd w.st.marks fl fd
        ipcRespond (w.setMarks m) (msg.answer .noError) (some (leBytes 4 handle))

/-- `storage_file_close`. -/
def storageFileClose (w : World) (msg : Msg) (r : Bytes) (reqLen : Nat) : Int × World :=
  if reqLen ≠ 4 then ipcRespond w (msg.answer .notValid) none
  else
    let (fd, m) := removeFd w.st.marks (leAt r 0 4)
    match (w.setMarks m).fsync fd with
    | (.error e, w) => ipcRespond w (msg.answer (translateErrno e)) none
    | (.ok _, w) =>
      match w.close fd with
      | (.error e, w) => ipcRespond w (msg.answer (translateErrno e)) none
      | (.ok _, w) => ipcRespond w (msg.answer .noError) none

/-- `storage_file_write`: `offset` at 0, `handle` at 8, the data from 16. -/
def storageFileWrite (w : World) (msg : Msg) (r : Bytes) (reqLen : Nat) : Int × World :=
  if reqLen < 16 then ipcRespond w (msg.answer .notValid) none
  else
    let (fd, m) := lookupFd w.st.marks (leAt r 8 4) true
    let off := toSigned w.abi.offBits (leAt r 0 8)
    match writeWithRetry (w.setMarks m) fd ((r.take reqLen).drop 16) off with
    | (.error e, w) => ipcRespond w (msg.answer (translateErrno e)) none
    | (.ok _, w) => ipcRespond w (msg.answer .noError) none

/-- `storage_file_read`: `handle` at 0, `size` at 4, `offset` at 8. -/
def storageFileRead (w : World) (msg : Msg) (r : Bytes) (reqLen : Nat) : Int × World :=
  if reqLen ≠ 16 then ipcRespond w (msg.answer .notValid) none
  else if leAt r 4 4 > maxReadSize then ipcRespond w (msg.answer .notValid) none
  else
    let (fd, m) := lookupFd w.st.marks (leAt r 0 4) false
    match readWithRetry (w.setMarks m) fd (leAt r 4 4) (toSigned w.abi.offBits (leAt r 8 8)) with
    | (.error e, w) => ipcRespond w (msg.answer (translateErrno e)) none
    | (.ok n, w) => ipcRespond w (msg.answer .noError) (some (w.st.readRsp.take n))

/-- `storage_file_get_size`. -/
def storageFileGetSize (w : World) (msg : Msg) (r : Bytes) (reqLen : Nat) : Int × World :=
  if reqLen ≠ 4 then ipcRespond w (msg.answer .notValid) none
  else
    let (fd, m) := lookupFd w.st.marks (leAt r 0 4) false
    match (w.setMarks m).fstat fd with
    | (.error e, w) => ipcRespond w (msg.answer (translateErrno e)) none
    | (.ok size, w) => ipcRespond w (msg.answer .noError) (some (leBytes 8 size))

/-- `storage_file_set_size`: `size` at 0, `handle` at 8, padded to 16. -/
def storageFileSetSize (w : World) (msg : Msg) (r : Bytes) (reqLen : Nat) : Int × World :=
  if reqLen ≠ 16 then ipcRespond w (msg.answer .notValid) none
  else
    let (fd, m) := lookupFd w.st.marks (leAt r 8 4) true
    match (w.setMarks m).ftruncate fd (toSigned w.abi.offBits (leAt r 0 8)) with
    | (.error e, w) => ipcRespond w (msg.answer (translateErrno e)) none
    | (.ok _, w) => ipcRespond w (msg.answer .noError) none

/-- The three init commands, which tell the rest of the system that storage
is up by setting a property to `INIT_OK`. -/
def storageInitDone (prop : String) (w : World) (msg : Msg) (_r : Bytes) (reqLen : Nat) : Int × World :=
  if reqLen < 16 then ipcRespond w (msg.answer .notValid) none
  else ipcRespond { w with props := w.props ++ [(prop, "INIT_OK")] } (msg.answer .noError) none

/-- `storage_init_ok`. -/
def storageInitOk := storageInitDone "vendor.soter.teei.init"

/-- `storage_init_persist_ok`. -/
def storageInitPersistOk := storageInitDone "vendor.soter.teei.persist"

/-- `storage_init_proinfo_ok`. -/
def storageInitProinfoOk := storageInitDone "vendor.soter.teei.proinfo"

/-! ## The checkpoint -/

/-- `fd_state[fd] = SS_CLEAN`. -/
def markClean (w : World) (fd : Nat) : World :=
  w.setMarks { w.st.marks with fdState := Function.update w.st.marks.fdState fd .clean }

/-- The loop over the descriptor table. With `fsState` dirty the entries are
cleared unsynced: the sync of the whole file system follows. -/
def syncFds : List Nat → World → Except Errno Unit × World
  | [], w => (.ok (), w)
  | fd :: rest, w =>
    if w.st.marks.fdState fd = .dirty then
      if w.st.marks.fsState = .clean then
        match w.fsync fd with
        | (.error e, w) => (.error e, w)
        | (.ok _, w) => syncFds rest (markClean w fd)
      else syncFds rest (markClean w fd)
    else syncFds rest w

/-- A root that is optional is synced only when its descriptor is positive. -/
def syncOptional (sync : World → Int → Except Errno Unit × World) (w : World) (fd : Int) :
    Except Errno Unit × World :=
  if fd > 0 then sync w fd else (.ok (), w)

/-- One sync of each root: the data root whether it is there or not, the
others when they are. -/
def syncRoots (sync : World → Int → Except Errno Unit × World) (w : World) : Except Errno Unit × World :=
  match sync w w.st.roots.ssdirFd with
  | (.error e, w) => (.error e, w)
  | (.ok _, w) =>
    match syncOptional sync w w.st.roots.ssPersistentDirFd with
    | (.error e, w) => (.error e, w)
    | (.ok _, w) => syncOptional sync w w.st.roots.ssProinfoNodeFd

/-- The directory part of the checkpoint. -/
def syncDirs (w : World) : Except Errno Unit × World :=
  if w.st.marks.dirState = .dirty then
    if w.st.marks.fsState = .clean then
      match syncRoots World.fsync w with
      | (.error e, w) => (.error e, w)
      | (.ok _, w) => (.ok (), w.setMarks { w.st.marks with dirState := .clean })
    else (.ok (), w.setMarks { w.st.marks with dirState := .clean })
  else (.ok (), w)

/-- The whole-file-system part of the checkpoint. -/
def syncFs (w : World) : Except Errno Unit × World :=
  if w.st.marks.fsState = .dirty then
    match syncRoots World.syncfs w with
    | (.error e, w) => (.error e, w)
    | (.ok _, w) => (.ok (), w.setMarks { w.st.marks with fsState := .clean })
  else (.ok (), w)

/-- `storage_sync_checkpoint`. -/
def storageSyncCheckpoint (w : World) : Int × World :=
  match syncFds (List.range fdTblSize) w with
  | (.error _, w) => (-1, w)
  | (.ok _, w) =>
    match syncDirs w with
    | (.error _, w) => (-1, w)
    | (.ok _, w) =>
      match syncFs w with
      | (.error _, w) => (-1, w)
      | (.ok _, w) => (0, w)

end Storage
