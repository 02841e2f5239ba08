/-
What is left in the static buffers does not matter.

`req_buffer`, `read_rsp` and `read_buf` keep what earlier requests and reads
left in them. A handler looks at the payload of its request and at the
terminator forced after it, and sends back only bytes it has just read. The one
exception is a build whose `size_t` has 32 bits, where the lengths of an RPMB
request may wrap.
-/
import Microtrust.Storage.Durable
import Microtrust.Storage.Handles

namespace Storage

open Lib

/-- The same proxy with other bytes in its static buffers. -/
def World.stale (w : World) (req rsp buf : Bytes) : World :=
  { w with st := { w.st with reqBuffer := req, readRsp := rsp, readBuf := buf } }

/-- The two differ at most in the bytes of the static buffers. -/
def SameBut (w w' : World) : Prop := ∃ req rsp buf, w' = w.stale req rsp buf

/-- A result with other bytes in the buffers. -/
def stales {α} (req rsp buf : Bytes) (x : α × World) : α × World := (x.1, x.2.stale req rsp buf)

/-! ## Past the payload -/

section Rest

variable {w : World} {msg : Msg} {payload rest : Bytes}

/-- The data of an RPMB request lies in its payload. -/
theorem mmcCmds_rest {rel wr : Nat} (rd : Nat) (h : 16 + rel + wr ≤ payload.length) :
    mmcCmds (payload ++ 0 :: rest) rel wr rd = mmcCmds (payload ++ [0]) rel wr rd := by
  have hin {src size : Nat} (hs : src + size ≤ payload.length) (flag : UInt32) (tail : Bytes) :
      mmcWrite flag (payload ++ tail) src size = mmcWrite flag payload src size := by
    unfold mmcWrite
    rw [List.drop_append_of_le_length (by omega), List.take_append_of_le_length (by simp; omega)]
  unfold mmcCmds
  rw [hin (by omega), hin (by omega), hin (by omega), hin (by omega)]

/-- A handler does not look past the payload and its terminator. -/
theorem handler_rest (h64 : w.abi.sizeBits = 64) (c : Cmd) :
    handler c w msg (payload ++ 0 :: rest) payload.length = handler c w msg (payload ++ [0]) payload.length := by
  have hle {off n : Nat} (hl : off + n ≤ payload.length) :
      leAt (payload ++ 0 :: rest) off n = leAt (payload ++ [0]) off n := by
    rw [leAt_append hl, leAt_append hl]
  have hstr (hl : 4 ≤ payload.length) :
      cstr ((payload ++ 0 :: rest).drop 4) = cstr ((payload ++ [0]).drop 4) := by
    rw [cstr_drop hl, cstr_drop hl]
  cases c with
  | fileDelete =>
    dsimp only [handler, storageFileDelete]
    split
    · rfl
    next hn => rw [hstr (by omega)]
  | fileOpen =>
    dsimp only [handler, storageFileOpen]
    split
    · rfl
    next hn => rw [hstr (by omega), hle (by omega)]
  | fileClose =>
    dsimp only [handler, storageFileClose]
    split
    · rfl
    next hn => rw [hle (by omega)]
  | fileWrite =>
    dsimp only [handler, storageFileWrite]
    split
    · rfl
    next hn => rw [hle (by omega), hle (by omega), List.take_left, List.take_left]
  | fileRead =>
    dsimp only [handler, storageFileRead]
    split
    · rfl
    next hn => rw [hle (by omega), hle (by omega), hle (by omega)]
  | fileGetSize =>
    dsimp only [handler, storageFileGetSize]
    split
    · rfl
    next hn => rw [hle (by omega)]
  | fileSetSize =>
    dsimp only [handler, storageFileSetSize]
    split
    · rfl
    next hn => rw [hle (by omega), hle (by omega)]
  | rpmbSend =>
    dsimp only [handler, rpmbSend]
    split
    · rfl
    next hn =>
      rw [hle (by omega), hle (by omega), hle (by omega)]
      split
      · rfl
      next hlen =>
        -- the sum of two 32-bit lengths does not wrap in 64 bits
        have hrel := leAt_lt (payload ++ [0]) 0 4
        have hwr := leAt_lt (payload ++ [0]) 4 4
        rw [h64, not_not, Nat.mod_eq_of_lt (by omega)] at hlen
        rw [mmcCmds_rest _ (by omega)]
  | initOk => rfl
  | initProinfoOk => rfl
  | initPersistOk => rfl

end Rest

/-! ## Commands that leave the buffers alone -/

section Alone

variable (w : World) (msg : Msg) (r : Bytes) (n : Nat) (req rsp buf : Bytes)

@[simp] theorem stale_abi : (w.stale req rsp buf).abi = w.abi := rfl
@[simp] theorem stale_marks : (w.stale req rsp buf).st.marks = w.st.marks := rfl
@[simp] theorem stale_roots : (w.stale req rsp buf).st.roots = w.st.roots := rfl
@[simp] theorem stale_setMarks (m : Marks) :
    (w.stale req rsp buf).setMarks m = (w.setMarks m).stale req rsp buf := rfl

/-! The kernel is asked the same, and answers the same. -/

@[simp] theorem stale_alloc (size : Nat) :
    (w.stale req rsp buf).alloc size = stales req rsp buf (w.alloc size) := rfl
@[simp] theorem stale_asprintf (s : Bytes) :
    asprintf (w.stale req rsp buf) s = stales req rsp buf (asprintf w s) := rfl
@[simp] theorem stale_openPath (path : Bytes) (fl : OpenFlags) :
    (w.stale req rsp buf).openPath path fl = stales req rsp buf (w.openPath path fl) := rfl
@[simp] theorem stale_unlink (path : Bytes) :
    (w.stale req rsp buf).unlink path = stales req rsp buf (w.unlink path) := rfl
@[simp] theorem stale_fsync (fd : Int) : (w.stale req rsp buf).fsync fd = stales req rsp buf (w.fsync fd) := rfl
@[simp] theorem stale_close (fd : Int) : (w.stale req rsp buf).close fd = stales req rsp buf (w.close fd) := rfl
@[simp] theorem stale_fstat (fd : Int) : (w.stale req rsp buf).fstat fd = stales req rsp buf (w.fstat fd) := rfl
@[simp] theorem stale_ftruncate (fd size : Int) :
    (w.stale req rsp buf).ftruncate fd size = stales req rsp buf (w.ftruncate fd size) := rfl
@[simp] theorem stale_pread (fd : Int) (size : Nat) (off : Int) :
    (w.stale req rsp buf).pread fd size off = stales req rsp buf (w.pread fd size off) := rfl
@[simp] theorem stale_pwrite (fd : Int) (bs : Bytes) (off : Int) :
    (w.stale req rsp buf).pwrite fd bs off = stales req rsp buf (w.pwrite fd bs off) := rfl

theorem writeLoop_stale (fd : Int) (bs : Bytes) (off : Int) :
    writeLoop n (w.stale req rsp buf) fd bs off = stales req rsp buf (writeLoop n w fd bs off) := by
  induction n generalizing w bs off with
  | zero => rfl
  | succ n ih =>
    unfold writeLoop
    split
    · rfl
    · rw [stale_pwrite]
      cases w.pwrite fd bs off with
      | mk res w₁ =>
        cases res with
        | error e => rfl
        | ok m => exact ih w₁ (bs.drop m) (advance w₁.abi off m)

theorem prepareFloder_stale (root : Option Bytes) (path : Bytes) :
    prepareFloder (w.stale req rsp buf) root path = stales req rsp buf (prepareFloder w root path) := by
  unfold prepareFloder
  dsimp only
  split
  · rw [stale_alloc]
    cases w.alloc ((lastSlash path).toNat + 1) with
    | mk ok w₁ =>
      cases ok with
      | false => rfl
      | true =>
        dsimp only [stales, ite_true]
        rw [stale_asprintf]
        cases asprintf w₁ (joined root (path.take (lastSlash path).toNat)) with
        | mk full w₂ => cases full <;> rfl
  · rfl

theorem openTarget_stale (flags : Nat) (name : Bytes) :
    openTarget (w.stale req rsp buf) flags name = stales req rsp buf (openTarget w flags name) := by
  unfold openTarget
  split
  · rfl
  · split
    · rfl
    · split
      · dsimp only
        rw [stale_asprintf, stale_roots]
        cases asprintf w (joined w.st.roots.ssdirName name) with
        | mk path w₁ =>
          exact congrArg (Prod.mk path) (congrArg Prod.snd (prepareFloder_stale w₁ req rsp buf _ name))
      · rfl

theorem openTries_stale (flags : Nat) (path : Bytes) :
    openTries (w.stale req rsp buf) flags path =
      ((openTries w flags path).1, (openTries w flags path).2.1, (openTries w flags path).2.2.stale req rsp buf) := by
  unfold openTries
  dsimp only
  split
  · split
    · rfl
    · rw [stale_openPath]
      cases w.openPath path ⟨true, true, false, false, flags.testBit openTruncate⟩ with
      | mk res w₁ =>
        cases res with
        | error e =>
          dsimp only [stales]
          by_cases he : e = .ENOENT
          · rw [if_pos he, if_pos he]
            rfl
          · rw [if_neg he, if_neg he]
        | ok fd => rfl
  · rfl

theorem storageFileDelete_stale :
    storageFileDelete (w.stale req rsp buf) msg r n = stales req rsp buf (storageFileDelete w msg r n) := by
  unfold storageFileDelete
  split
  · rfl
  split
  · rfl
  simp only [stale_asprintf, stale_roots]
  cases asprintf w (joined w.st.roots.ssdirName (cstr (r.drop 4))) with
  | mk path w₁ =>
    cases path with
    | none => rfl
    | some path =>
      simp only [stales, stale_marks, stale_setMarks, stale_unlink]
      cases (w₁.setMarks { w₁.st.marks with dirState := .dirty }).unlink path with
      | mk res w₂ => cases res <;> rfl

theorem storageFileOpen_stale :
    storageFileOpen (w.stale req rsp buf) msg r n = stales req rsp buf (storageFileOpen w msg r n) := by
  unfold storageFileOpen
  split
  · rfl
  split
  · rfl
  simp only [openTarget_stale]
  cases openTarget w (leAt r 0 4) (cstr (r.drop 4)) with
  | mk path w₁ =>
    cases path with
    | none => rfl
    | some path =>
      simp only [stales, openTries_stale]
      obtain ⟨res, fl, w₂⟩ := openTries w₁ (leAt r 0 4) path
      cases res <;> rfl

theorem storageFileClose_stale :
    storageFileClose (w.stale req rsp buf) msg r n = stales req rsp buf (storageFileClose w msg r n) := by
  unfold storageFileClose
  split
  · rfl
  simp only [stale_marks, stale_setMarks, stale_fsync]
  obtain ⟨fd, marks⟩ := removeFd w.st.marks (leAt r 0 4)
  cases (w.setMarks marks).fsync fd with
  | mk res w₁ =>
    cases res with
    | error e => rfl
    | ok u =>
      simp only [stales, stale_close]
      cases w₁.close fd with
      | mk res w₂ => cases res <;> rfl

theorem storageFileWrite_stale :
    storageFileWrite (w.stale req rsp buf) msg r n = stales req rsp buf (storageFileWrite w msg r n) := by
  unfold storageFileWrite
  split
  · rfl
  simp only [writeWithRetry, stale_abi, stale_marks, stale_setMarks, writeLoop_stale]
  generalize writeLoop _ _ _ _ _ = x
  obtain ⟨res, w₁⟩ := x
  cases res <;> rfl

theorem storageFileGetSize_stale :
    storageFileGetSize (w.stale req rsp buf) msg r n = stales req rsp buf (storageFileGetSize w msg r n) := by
  unfold storageFileGetSize
  split
  · rfl
  simp only [stale_marks, stale_setMarks, stale_fstat]
  obtain ⟨fd, marks⟩ := lookupFd w.st.marks (leAt r 0 4) false
  cases (w.setMarks marks).fstat fd with
  | mk res w₁ => cases res <;> rfl

theorem storageFileSetSize_stale :
    storageFileSetSize (w.stale req rsp buf) msg r n = stales req rsp buf (storageFileSetSize w msg r n) := by
  unfold storageFileSetSize
  split
  · rfl
  simp only [stale_abi, stale_marks, stale_setMarks, stale_ftruncate]
  obtain ⟨fd, marks⟩ := lookupFd w.st.marks (leAt r 8 4) true
  cases (w.setMarks marks).ftruncate fd (toSigned w.abi.offBits (leAt r 0 8)) with
  | mk res w₁ => cases res <;> rfl

theorem storageInitDone_stale (prop : String) :
    storageInitDone prop (w.stale req rsp buf) msg r n = stales req rsp buf (storageInitDone prop w msg r n) := by
  unfold storageInitDone
  split <;> rfl

/-- Only reads use the buffers for more than the request. -/
theorem handler_alone {c : Cmd} (hread : c ≠ .fileRead) (hrpmb : c ≠ .rpmbSend) :
    handler c (w.stale req rsp buf) msg r n = stales req rsp buf (handler c w msg r n) := by
  cases c with
  | fileRead => exact absurd rfl hread
  | rpmbSend => exact absurd rfl hrpmb
  | fileDelete => exact storageFileDelete_stale w msg r n req rsp buf
  | fileOpen => exact storageFileOpen_stale w msg r n req rsp buf
  | fileClose => exact storageFileClose_stale w msg r n req rsp buf
  | fileWrite => exact storageFileWrite_stale w msg r n req rsp buf
  | fileGetSize => exact storageFileGetSize_stale w msg r n req rsp buf
  | fileSetSize => exact storageFileSetSize_stale w msg r n req rsp buf
  | initOk => exact storageInitDone_stale w msg r n req rsp buf _
  | initProinfoOk => exact storageInitDone_stale w msg r n req rsp buf _
  | initPersistOk => exact storageInitDone_stale w msg r n req rsp buf _

end Alone

/-! ## Commands that read -/

section Reads

variable {w : World} {msg : Msg} {r : Bytes} {n : Nat} {req rsp buf : Bytes}

/-- The bytes read so far are the same, whatever lies after them. -/
theorem readLoop_stale (w : World) (n : Nat) (req rsp buf : Bytes) (fd : Int) (size : Nat) (off : Int) {rcnt : Nat}
    (hlen : rcnt ≤ w.st.readRsp.length) (hlen' : rcnt ≤ rsp.length) (heq : rsp.take rcnt = w.st.readRsp.take rcnt) :
    ∃ rsp', readLoop n (w.stale req rsp buf) fd size off rcnt =
        stales req rsp' buf (readLoop n w fd size off rcnt) ∧
      ∀ m, (readLoop n w fd size off rcnt).1 = .ok m →
        rsp'.take m = (readLoop n w fd size off rcnt).2.st.readRsp.take m := by
  induction n generalizing w rsp size off rcnt with
  | zero => exact ⟨rsp, rfl, fun m hm => by cases hm; exact heq⟩
  | succ n ih =>
    unfold readLoop
    by_cases hs : size = 0
    · rw [if_pos hs, if_pos hs]
      exact ⟨rsp, rfl, fun m hm => by cases hm; exact heq⟩
    rw [if_neg hs, if_neg hs]
    rw [stale_pread]
    have hst : (w.pread fd size off).2.st = w.st := rfl
    generalize w.pread fd size off = x at hst
    obtain ⟨res, w₁⟩ := x
    cases res with
    | error e => exact ⟨rsp, rfl, fun m hm => by cases hm⟩
    | ok bs =>
      have hst : w₁.st = w.st := hst
      cases bs with
      | nil => exact ⟨rsp, rfl, fun m hm => by cases hm; rw [hst]; exact heq⟩
      | cons b bs =>
        rw [← hst] at hlen heq
        refine ih { w₁ with st := { w₁.st with readRsp := splice w₁.st.readRsp rcnt (b :: bs) } }
          (splice rsp rcnt (b :: bs)) _ _ (le_length_splice _ _ _) (le_length_splice _ _ _) ?_
        rw [take_splice _ hlen', heq, take_splice _ hlen]

/-- A read sends back only what it has just read. -/
theorem storageFileRead_stale :
    ∃ rsp', storageFileRead (w.stale req rsp buf) msg r n = stales req rsp' buf (storageFileRead w msg r n) := by
  unfold storageFileRead
  split
  · exact ⟨rsp, rfl⟩
  split
  · exact ⟨rsp, rfl⟩
  dsimp only [readWithRetry]
  obtain ⟨rsp', hloop, htake⟩ := readLoop_stale (w.setMarks (lookupFd w.st.marks (leAt r 0 4) false).2)
    (leAt r 4 4) req rsp buf (lookupFd w.st.marks (leAt r 0 4) false).1 (leAt r 4 4)
    (toSigned w.abi.offBits (leAt r 8 8)) (Nat.zero_le _) (Nat.zero_le _) rfl
  refine ⟨rsp', ?_⟩
  simp only [stale_abi, stale_marks, stale_setMarks, hloop]
  generalize readLoop _ _ _ _ _ _ = x at htake
  obtain ⟨res, w₁⟩ := x
  cases res with
  | error e => rfl
  | ok m =>
    dsimp only [stales]
    rw [show ((w₁.stale req rsp' buf).st.readRsp).take m = w₁.st.readRsp.take m from htake m rfl]
    rfl

/-- The blocks the device read out are sent as they are. -/
theorem take_filled (old dev : Bytes) (rd : Nat) :
    (splice old 0 ((dev ++ List.replicate rd 0).take rd)).take rd = (dev ++ List.replicate rd 0).take rd := by
  have htake := take_splice ((dev ++ List.replicate rd 0).take rd) (Nat.zero_le old.length)
  have hrd : ((dev ++ List.replicate rd 0).take rd).length = rd := by simp
  rwa [hrd, Nat.zero_add, List.take_zero, List.nil_append] at htake

theorem rpmbSend_stale :
    ∃ buf', rpmbSend (w.stale req rsp buf) msg r n = stales req rsp buf' (rpmbSend w msg r n) := by
  unfold rpmbSend
  split
  · exact ⟨buf, rfl⟩
  dsimp only
  rw [stale_abi]
  split
  · exact ⟨buf, rfl⟩
  cases mmcCmds r (leAt r 0 4) (leAt r 4 4) (leAt r 8 4) with
  | none => exact ⟨buf, rfl⟩
  | some cmds =>
    dsimp only [World.touch, World.sys, World.stale]
    rcases Bool.eq_false_or_eq_true
      ((w.kern.desc w.st.rpmbFd).isSome && (w.env w.now (.ioctl w.st.rpmbFd)).toBool) with hok | hok
    · simp only [hok, Bool.not_true, Bool.false_eq_true, if_false, take_filled]
      exact ⟨splice buf 0 ((w.mmcRead w.now ++ List.replicate (leAt r 8 4) 0).take (leAt r 8 4)), rfl⟩
    · simp only [hok, Bool.not_false, if_true]
      exact ⟨buf, rfl⟩

/-- Whatever a handler leaves in the buffers, it does and sends the same. -/
theorem handler_stale (c : Cmd) :
    ∃ rsp' buf', handler c (w.stale req rsp buf) msg r n = stales req rsp' buf' (handler c w msg r n) := by
  by_cases hread : c = .fileRead
  · subst hread
    exact storageFileRead_stale.imp fun _ h => ⟨buf, h⟩
  by_cases hrpmb : c = .rpmbSend
  · subst hrpmb
    exact ⟨rsp, rpmbSend_stale⟩
  · exact ⟨rsp, buf, handler_alone w msg r n req rsp buf hread hrpmb⟩

end Reads

/-! ## A request -/

section Request

variable {w : World} {req rsp buf : Bytes}

/-- A checkpoint does not look at the buffers. -/
theorem checkpoint_stale {w₁ : World} {rc : Int} (h : storageSyncCheckpoint w = (rc, w₁)) :
    storageSyncCheckpoint (w.stale req rsp buf) = stales req rsp buf (rc, w₁) := by
  have hself := checkpoint_graft w w
  have hother := checkpoint_graft w (w.stale req rsp buf)
  rw [show w.graft w = w from rfl, h] at hself
  rw [show w.graft (w.stale req rsp buf) = w.stale req rsp buf from rfl, h] at hother
  have hw : w₁ = w₁.graft w := congrArg Prod.snd hself
  rw [hother, hw]
  rfl

theorem dispatch_stale (msg : Msg) (r : Bytes) (n : Nat) :
    ∃ rsp' buf', dispatch (w.stale req rsp buf) msg r n = stales req rsp' buf' (dispatch w msg r n) := by
  cases hc : Cmd.ofCode msg.cmd with
  | none =>
    rw [dispatch_none hc, dispatch_none hc]
    exact ⟨rsp, buf, rfl⟩
  | some c =>
    rw [dispatch_some hc, dispatch_some hc]
    exact handler_stale c

theorem dispatch_rest (h64 : w.abi.sizeBits = 64) (msg : Msg) (payload rest : Bytes) :
    dispatch w msg (payload ++ 0 :: rest) payload.length = dispatch w msg (payload ++ [0]) payload.length := by
  cases hc : Cmd.ofCode msg.cmd with
  | none => rw [dispatch_none hc, dispatch_none hc]
  | some c =>
    rw [dispatch_some hc, dispatch_some hc]
    exact handler_rest h64 c

theorem handleReq_stale (h64 : w.abi.sizeBits = 64) (req rsp buf : Bytes) (msg : Msg)
    (payload rest rest' : Bytes) :
    ∃ rsp' buf', handleReq (w.stale req rsp buf) msg (payload ++ 0 :: rest') payload.length =
      stales req rsp' buf' (handleReq w msg (payload ++ 0 :: rest) payload.length) := by
  unfold handleReq
  split
  · exact ⟨rsp, buf, rfl⟩
  split
  · cases hc : storageSyncCheckpoint w with
    | mk rc w₁ =>
      rw [checkpoint_stale hc]
      have h64' : w₁.abi.sizeBits = 64 := by rw [(checkpoint_synced hc).frame.abi]; exact h64
      dsimp only [stales]
      split
      · exact ⟨rsp, buf, rfl⟩
      · rw [dispatch_rest h64', dispatch_rest (w := w₁.stale req rsp buf) h64']
        exact dispatch_stale msg _ _
  · rw [dispatch_rest h64, dispatch_rest (w := w.stale req rsp buf) h64]
    exact dispatch_stale msg _ _

/-- Bytes left over from earlier requests and reads change neither what is
done nor what is answered: two proxies that differ only in them answer alike
and still differ only in them. -/
theorem stale_bytes_irrelevant (w : World) (h64 : w.abi.sizeBits = 64) (req rsp buf : Bytes) (q : Request) :
    (serve (w.stale req rsp buf) q).1 = (serve w q).1 ∧ SameBut (serve w q).2 (serve (w.stale req rsp buf) q).2 := by
  have h64' : (receive w q).abi.sizeBits = 64 := h64
  let req' := q.payload ++ 0 :: req.drop (q.payload.length + 1)
  obtain ⟨rsp', buf', h⟩ := handleReq_stale h64' req' rsp buf q.msg q.payload
    (w.st.reqBuffer.drop (q.payload.length + 1)) (req.drop (q.payload.length + 1))
  have hserve : serve (w.stale req rsp buf) q = stales req' rsp' buf' (serve w q) := h
  rw [hserve]
  exact ⟨rfl, req', rsp', buf', rfl⟩

/-- The buffer may go on with more letters: it is `x` that is deleted. -/
theorem stale_bytes_irrelevant_delete :
    dataStarted.abi.sizeBits = 64 ∧
      (serve (dataStarted.stale (List.replicate 9 120) [1] [1]) deleteData).1 = (serve dataStarted deleteData).1 ∧
      SameBut (serve dataStarted deleteData).2
        (serve (dataStarted.stale (List.replicate 9 120) [1] [1]) deleteData).2 :=
  ⟨by decide, stale_bytes_irrelevant dataStarted (by decide) (List.replicate 9 120) [1] [1] deleteData⟩

end Request

end Storage
