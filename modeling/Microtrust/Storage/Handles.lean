/-
Handles are descriptor numbers that nobody checks.

`storage.h` promises `STORAGE_ERR_NOT_VALID` for a handle that is not valid.
The proxy has no record of the handles it gave out: it marks, and then asks
the kernel. So the promise is kept exactly when the kernel refuses the
number for the call at hand and the mark that was made changed nothing.
-/
import Microtrust.Storage.Launch

namespace Storage

open Lib

/-! ## A checkpoint looks only at some of the state -/

/-- The state of `w` that a checkpoint looks at, in a world that is
otherwise `o`. -/
def World.graft (w o : World) : World :=
  { o with env := w.env, now := w.now, kern := w.kern
           st := { o.st with marks := w.st.marks, roots := w.st.roots } }

/-- A result in a grafted world. -/
def grafted {α} (o : World) (x : α × World) : α × World := (x.1, x.2.graft o)

theorem syncFds_graft (l : List Nat) (w o : World) : syncFds l (w.graft o) = grafted o (syncFds l w) := by
  induction l generalizing w with
  | nil => rfl
  | cons n l ih =>
    have hsync : (w.graft o).fsync n = grafted o (w.fsync n) := rfl
    unfold syncFds
    simp only [hsync]
    by_cases hd : w.st.marks.fdState n = .dirty
    · simp only [World.graft, hd, ite_true]
      by_cases hc : w.st.marks.fsState = .clean
      · simp only [hc, ite_true]
        cases hw : w.fsync n with
        | mk res w₁ =>
          cases res with
          | error e => rfl
          | ok u => exact ih (markClean w₁ n)
      · simp only [hc, ite_false]
        exact ih (markClean w n)
    · simp only [World.graft, hd, ite_false]
      exact ih w

section Roots

variable {sync : World → Int → Except Errno Unit × World} {o : World}

theorem syncOptional_graft (hs : ∀ w fd, sync (w.graft o) fd = grafted o (sync w fd)) (w : World) (fd : Int) :
    syncOptional sync (w.graft o) fd = grafted o (syncOptional sync w fd) := by
  unfold syncOptional
  split
  · exact hs w fd
  · rfl

theorem syncRoots_graft (hs : ∀ w fd, sync (w.graft o) fd = grafted o (sync w fd)) (w : World) :
    syncRoots sync (w.graft o) = grafted o (syncRoots sync w) := by
  unfold syncRoots
  rw [show (w.graft o).st.roots = w.st.roots from rfl, hs]
  cases h₁ : sync w w.st.roots.ssdirFd with
  | mk res w₁ =>
    cases res with
    | error e => rfl
    | ok u =>
      simp only [grafted]
      rw [show (w₁.graft o).st.roots = w₁.st.roots from rfl, syncOptional_graft hs]
      cases h₂ : syncOptional sync w₁ w₁.st.roots.ssPersistentDirFd with
      | mk res₂ w₂ =>
        cases res₂ with
        | error e => rfl
        | ok u => exact syncOptional_graft hs w₂ _

end Roots

theorem syncDirs_graft (w o : World) : syncDirs (w.graft o) = grafted o (syncDirs w) := by
  unfold syncDirs
  rw [show (w.graft o).st.marks = w.st.marks from rfl, syncRoots_graft (fun _ _ => rfl)]
  split
  · split
    · cases h : syncRoots World.fsync w with
      | mk res w₁ => cases res <;> rfl
    · rfl
  · rfl

theorem syncFs_graft (w o : World) : syncFs (w.graft o) = grafted o (syncFs w) := by
  unfold syncFs
  rw [show (w.graft o).st.marks = w.st.marks from rfl, syncRoots_graft (fun _ _ => rfl)]
  split
  · cases h : syncRoots World.syncfs w with
    | mk res w₁ => cases res <;> rfl
  · rfl

/-- What a checkpoint returns does not depend on the rest of the state. -/
theorem checkpoint_graft (w o : World) :
    storageSyncCheckpoint (w.graft o) = grafted o (storageSyncCheckpoint w) := by
  unfold storageSyncCheckpoint
  rw [syncFds_graft]
  cases h₁ : syncFds (List.range fdTblSize) w with
  | mk res w₁ =>
    cases res with
    | error e => rfl
    | ok u =>
      simp only [grafted]
      rw [syncDirs_graft]
      cases h₂ : syncDirs w₁ with
      | mk res w₂ =>
        cases res with
        | error e => rfl
        | ok u =>
          simp only [grafted]
          rw [syncFs_graft]
          cases h₃ : syncFs w₂ with
          | mk res w₃ => cases res <;> rfl

/-! ## Refused requests -/

/-- The proxy after the command of `q` was carried out. -/
def handled (w : World) (q : Request) : World :=
  (dispatch (receive w q) q.msg (receive w q).st.reqBuffer q.payload.length).2

/-- The proxy after a round of its loop. -/
def round (w : World) (q : Request) : World := (serve w q).2

/-- The request asks for no commit, before or after its command. -/
def Request.plain (q : Request) : Prop := q.msg.preCommit = false ∧ q.msg.postCommit = false

instance (q : Request) : Decidable q.plain := inferInstanceAs (Decidable (_ ∧ _))

/-- Then its command is all that is carried out. -/
theorem round_plain {q : Request} (h : q.plain) (w : World) : round w q = handled w q := by
  unfold round serve handleReq
  simp only [h.1, h.2, Bool.false_and, Bool.false_eq_true, if_false]
  rfl

/-- The request is answered `STORAGE_ERR_NOT_VALID` and changes nothing: no
mark, no descriptor, no file, and no later checkpoint. -/
structure Rejected (run : World → Request → World) (w : World) (q : Request) : Prop where
  answer : answered (receive w q) (run w q) .notValid = true
  marks : (run w q).st.marks = w.st.marks
  kern : (run w q).kern = w.kern
  later : ∀ t, (storageSyncCheckpoint { run w q with now := t }).1 =
    (storageSyncCheckpoint { w with now := t }).1

theorem Rejected.congr {run run' : World → Request → World} {w : World} {q : Request} (he : run' w q = run w q)
    (h : Rejected run w q) : Rejected run' w q := by
  refine ⟨?_, ?_, ?_, ?_⟩ <;> rw [he]
  · exact h.answer
  · exact h.marks
  · exact h.kern
  · exact h.later

theorem rejected_iff {w : World} {q : Request} {e : Err} {out : Option Bytes} {m : Marks} {k : Kernel}
    (h : Answers (receive w q) q.msg e out m k (handled w q)) :
    Rejected handled w q ↔ e = .notValid ∧ m = w.st.marks ∧ k = w.kern := by
  constructor
  · intro hr
    have ha := hr.answer
    rw [h.answered, decide_eq_true_eq] at ha
    exact ⟨ha, h.marks.symm.trans hr.marks, h.kern.symm.trans hr.kern⟩
  · intro h
    obtain ⟨rfl, rfl, rfl⟩ := h
    refine ⟨by rw [h.answered]; rfl, h.marks, h.kern, fun t => ?_⟩
    have hgraft : { handled w q with now := t } = World.graft { w with now := t } (handled w q) := by
      have henv : (handled w q).env = w.env := h.env
      have hroots : (handled w q).st.roots = w.st.roots := h.roots
      simp only [World.graft, ← henv, ← hroots, ← h.marks, ← h.kern]
    rw [hgraft, checkpoint_graft]
    rfl

/-! ## Marks that change nothing -/

theorem removeFd_eq_iff (m : Marks) (h : Nat) :
    (removeFd m h).2 = m ↔ (h < fdTblSize → m.fdState h = .unused) := by
  obtain ⟨fs, dir, fd⟩ := m
  simp only [removeFd]
  split
  · next hlt => simp [hlt, eq_comm]
  · next hge => simp [hge]

/-- What a lookup for writing would mark is marked. -/
def Marked (m : Marks) (h : Nat) : Prop :=
  if h < fdTblSize then m.fdState h = .dirty else m.fsState = .dirty

theorem lookupFd_eq_iff (m : Marks) (h : Nat) : (lookupFd m h true).2 = m ↔ Marked m h := by
  obtain ⟨fs, dir, fd⟩ := m
  simp only [lookupFd, Marked, ite_true]
  split
  · simp [eq_comm]
  · simp [eq_comm]

/-! ## Each command, as the kernel refuses its call or the call fails -/

/-- An environment in which every call fails that the kernel does not refuse. -/
def broken : Nat → Syscall → Reply := fun _ _ => .error .ioErr

theorem respond_answers {w w₁ w' : World} {msg : Msg} {e : Err} {out : Option Bytes} {rc : Int} {m : Marks}
    {k : Kernel} (h : ipcRespond w₁ (msg.answer e) out = (rc, w')) (hf : Frame w w₁)
    (hm : w₁.st.marks = m) (hk : w₁.kern = k) : Answers w msg e out m k w' :=
  hf.respond hm hk h

section Commands

variable {w w' : World} {msg : Msg} {r : Bytes} {n : Nat} {rc : Int} {d : Desc}

theorem storageFileClose_refused (h : storageFileClose w msg r n = (rc, w')) (hn : n = 4)
    (hd : w.kern.desc (toInt32 (leAt r 0 4)) = none) :
    Answers w msg .notValid none (removeFd w.st.marks (leAt r 0 4)).2 w.kern w' := by
  simp only [storageFileClose, hn, ne_eq, not_true_eq_false, ite_false, World.fsync, World.sys, removeFd,
    World.setMarks, Kernel.fsync, hd] at h
  exact respond_answers h ⟨rfl, rfl, rfl, rfl⟩ rfl rfl

theorem storageFileClose_broken (h : storageFileClose w msg r n = (rc, w')) (hn : n = 4)
    (hw : w.env w.now (.fsync (toInt32 (leAt r 0 4))) = .error .ioErr)
    (hd : w.kern.desc (toInt32 (leAt r 0 4)) = some d) :
    Answers w msg .generic none (removeFd w.st.marks (leAt r 0 4)).2 w.kern w' := by
  simp only [storageFileClose, hn, ne_eq, not_true_eq_false, ite_false, World.fsync, World.sys, removeFd,
    World.setMarks, Kernel.fsync, hd, hw] at h
  exact respond_answers h ⟨rfl, rfl, rfl, rfl⟩ rfl rfl

theorem storageFileGetSize_refused (h : storageFileGetSize w msg r n = (rc, w')) (hn : n = 4)
    (hd : w.kern.desc (toInt32 (leAt r 0 4)) = none) : Refused w msg .notValid w' := by
  simp only [storageFileGetSize, hn, ne_eq, not_true_eq_false, ite_false, World.fstat, World.sys, lookupFd,
    World.setMarks, Kernel.fstat, hd] at h
  exact respond_answers h ⟨rfl, rfl, rfl, rfl⟩ rfl rfl

theorem storageFileGetSize_broken (h : storageFileGetSize w msg r n = (rc, w')) (hn : n = 4)
    (hw : w.env = broken) (hd : w.kern.desc (toInt32 (leAt r 0 4)) = some d) : Refused w msg .generic w' := by
  simp only [storageFileGetSize, hn, ne_eq, not_true_eq_false, ite_false, World.fstat, World.sys, lookupFd,
    World.setMarks, Kernel.fstat, hd, hw, broken] at h
  exact respond_answers h ⟨rfl, rfl, by rw [hw], rfl⟩ rfl rfl

/-- The kernel refuses to read what is not open, and directories. -/
def Unreadable (k : Kernel) (fd : Int) : Prop := ∀ d, k.desc fd = some d → ∃ p, d.obj = .dir p

theorem pread_refused {k : Kernel} {fd : Int} (h : Unreadable k fd) (rep : Reply) (len : Nat) (off : Int) :
    ∃ e, k.pread rep fd len off = .error e ∧ translateErrno e = .notValid := by
  unfold Kernel.pread
  cases hd : k.desc fd with
  | none => exact ⟨_, rfl, rfl⟩
  | some d =>
    obtain ⟨p, hp⟩ := h d hd
    simp only [hp]
    exact ⟨_, rfl, rfl⟩

theorem pread_broken {k : Kernel} {fd : Int} (h : ¬ Unreadable k fd) (len : Nat) (off : Int) :
    k.pread (.error .ioErr) fd len off = .error .ioErr := by
  simp only [Unreadable, not_forall] at h
  obtain ⟨d, hd, hobj⟩ := h
  unfold Kernel.pread
  simp only [hd]
  cases ho : d.obj with
  | dir p => exact absurd ⟨p, ho⟩ hobj
  | file ino => rfl
  | blk ino => rfl
  | chr => rfl

theorem storageFileRead_refused (h : storageFileRead w msg r n = (rc, w')) (hn : n = 16)
    (hsize : leAt r 4 4 ≠ 0) (hmax : leAt r 4 4 ≤ maxReadSize) (hd : Unreadable w.kern (toInt32 (leAt r 0 4))) :
    Refused w msg .notValid w' := by
  obtain ⟨s, hs⟩ := Nat.exists_eq_succ_of_ne_zero hsize
  obtain ⟨e, he, ht⟩ := pread_refused hd (w.env w.now (.pread (toInt32 (leAt r 0 4)) (s + 1)
    (toSigned w.abi.offBits (leAt r 8 8)))) (s + 1) (toSigned w.abi.offBits (leAt r 8 8))
  rw [hs] at hmax
  simp only [storageFileRead, hn, ne_eq, not_true_eq_false, ite_false, hs, Nat.not_lt.mpr hmax, readWithRetry,
    readLoop, Nat.succ_ne_zero, World.pread, World.sys, lookupFd, World.setMarks, he,
    Bool.false_eq_true, ht] at h
  exact respond_answers h ⟨rfl, rfl, rfl, rfl⟩ rfl rfl

theorem storageFileRead_broken (h : storageFileRead w msg r n = (rc, w')) (hn : n = 16) (hw : w.env = broken)
    (hsize : leAt r 4 4 ≠ 0) (hmax : leAt r 4 4 ≤ maxReadSize) (hd : ¬ Unreadable w.kern (toInt32 (leAt r 0 4))) :
    Refused w msg .generic w' := by
  obtain ⟨s, hs⟩ := Nat.exists_eq_succ_of_ne_zero hsize
  rw [hs] at hmax
  simp only [storageFileRead, hn, ne_eq, not_true_eq_false, ite_false, hs, Nat.not_lt.mpr hmax, readWithRetry,
    readLoop, Nat.succ_ne_zero, World.pread, World.sys, lookupFd, World.setMarks, hw, broken, pread_broken hd,
    Bool.false_eq_true] at h
  exact respond_answers h ⟨rfl, rfl, by rw [hw], rfl⟩ rfl rfl

theorem storageFileRead_empty (h : storageFileRead w msg r n = (rc, w')) (hn : n = 16) (hsize : leAt r 4 4 = 0) :
    Answers w msg .noError (some []) w.st.marks w.kern w' := by
  simp only [storageFileRead, hn, ne_eq, not_true_eq_false, ite_false, hsize, readWithRetry, readLoop, lookupFd,
    World.setMarks, gt_iff_lt, Nat.not_lt_zero, List.take_zero, Bool.false_eq_true] at h
  exact respond_answers h ⟨rfl, rfl, rfl, rfl⟩ rfl rfl

theorem storageFileRead_large (h : storageFileRead w msg r n = (rc, w')) (hn : n = 16)
    (hmax : maxReadSize < leAt r 4 4) : Refused w msg .notValid w' := by
  simp only [storageFileRead, hn, ne_eq, not_true_eq_false, ite_false, gt_iff_lt, hmax, ite_true] at h
  exact refused h

/-- The kernel refuses to write what is not open for writing. -/
def Unwritable (k : Kernel) (fd : Int) : Prop := ∀ d, k.desc fd = some d → d.rdwr = false

theorem pwrite_refused {k : Kernel} {fd : Int} (h : Unwritable k fd) (rep : Reply) (buf : Bytes) (off : Int) :
    k.pwrite rep fd buf off = (.error .EBADF, k) := by
  unfold Kernel.pwrite
  cases hd : k.desc fd with
  | none => rfl
  | some d => simp [h d hd]

theorem pwrite_broken {k : Kernel} {fd : Int} (h : ¬ Unwritable k fd) (buf : Bytes) (off : Int) :
    k.pwrite (.error .ioErr) fd buf off = (.error .ioErr, k) := by
  simp only [Unwritable, not_forall] at h
  obtain ⟨d, hd, hrw⟩ := h
  unfold Kernel.pwrite
  simp [hd, hrw]

theorem storageFileWrite_refused (h : storageFileWrite w msg r n = (rc, w')) (hn : 16 ≤ n)
    (hdata : (r.take n).drop 16 ≠ []) (hd : Unwritable w.kern (toInt32 (leAt r 8 4))) :
    Answers w msg .notValid none (lookupFd w.st.marks (leAt r 8 4) true).2 w.kern w' := by
  obtain ⟨b, bs, hb⟩ := List.exists_cons_of_ne_nil hdata
  simp only [storageFileWrite, Nat.not_lt.mpr hn, ite_false, hb, writeWithRetry, List.length_cons, writeLoop,
    reduceCtorEq, World.pwrite, World.sys, World.setMarks, lookupFd, ite_true, pwrite_refused hd] at h
  exact respond_answers h ⟨rfl, rfl, rfl, rfl⟩ rfl rfl

theorem storageFileWrite_broken (h : storageFileWrite w msg r n = (rc, w')) (hn : 16 ≤ n) (hw : w.env = broken)
    (hdata : (r.take n).drop 16 ≠ []) (hd : ¬ Unwritable w.kern (toInt32 (leAt r 8 4))) :
    Answers w msg .generic none (lookupFd w.st.marks (leAt r 8 4) true).2 w.kern w' := by
  obtain ⟨b, bs, hb⟩ := List.exists_cons_of_ne_nil hdata
  simp only [storageFileWrite, Nat.not_lt.mpr hn, ite_false, hb, writeWithRetry, List.length_cons, writeLoop,
    reduceCtorEq, World.pwrite, World.sys, World.setMarks, lookupFd, ite_true, hw, broken,
    pwrite_broken hd] at h
  exact respond_answers h ⟨rfl, rfl, by rw [hw], rfl⟩ rfl rfl

theorem storageFileWrite_empty (h : storageFileWrite w msg r n = (rc, w')) (hn : 16 ≤ n)
    (hdata : (r.take n).drop 16 = []) :
    Answers w msg .noError none (lookupFd w.st.marks (leAt r 8 4) true).2 w.kern w' := by
  simp only [storageFileWrite, Nat.not_lt.mpr hn, ite_false, hdata, writeWithRetry, List.length_nil, writeLoop,
    World.setMarks, lookupFd, ite_true] at h
  exact respond_answers h ⟨rfl, rfl, rfl, rfl⟩ rfl rfl

/-- The kernel refuses to cut what is not a regular file open for writing,
and any file to a negative length. -/
def Uncuttable (k : Kernel) (fd len : Int) : Prop :=
  ∀ d, k.desc fd = some d → (∀ ino, d.obj ≠ .file ino) ∨ d.rdwr = false ∨ len < 0

theorem ftruncate_refused {k : Kernel} {fd len : Int} (h : Uncuttable k fd len) (rep : Reply) :
    ∃ e, k.ftruncate rep fd len = (.error e, k) ∧ translateErrno e = .notValid := by
  unfold Kernel.ftruncate
  cases hd : k.desc fd with
  | none => exact ⟨_, rfl, rfl⟩
  | some d =>
    cases ho : d.obj with
    | file ino =>
      rcases h d hd with hf | hc
      · exact absurd ho (hf ino)
      · have : (!d.rdwr || decide (len < 0)) = true := by
          rcases hc with hc | hc <;> simp [hc]
        simp only [ho, this, ite_true]
        exact ⟨_, rfl, rfl⟩
    | blk ino => simp only [ho]; exact ⟨_, rfl, rfl⟩
    | dir p => simp only [ho]; exact ⟨_, rfl, rfl⟩
    | chr => simp only [ho]; exact ⟨_, rfl, rfl⟩

theorem ftruncate_broken {k : Kernel} {fd len : Int} (h : ¬ Uncuttable k fd len) :
    k.ftruncate (.error .ioErr) fd len = (.error .ioErr, k) := by
  simp only [Uncuttable, not_forall, not_or, not_lt] at h
  obtain ⟨d, hd, ⟨ino, hobj⟩, hrw, hlen⟩ := h
  unfold Kernel.ftruncate
  simp only [not_not] at hobj
  simp [hd, hobj, hrw, hlen]

theorem storageFileSetSize_refused (h : storageFileSetSize w msg r n = (rc, w')) (hn : n = 16)
    (hd : Uncuttable w.kern (toInt32 (leAt r 8 4)) (toSigned w.abi.offBits (leAt r 0 8))) :
    Answers w msg .notValid none (lookupFd w.st.marks (leAt r 8 4) true).2 w.kern w' := by
  obtain ⟨e, he, ht⟩ := ftruncate_refused hd (w.env w.now (.ftruncate (toInt32 (leAt r 8 4))
    (toSigned w.abi.offBits (leAt r 0 8))))
  simp only [storageFileSetSize, hn, ne_eq, not_true_eq_false, ite_false, World.ftruncate, World.sys,
    World.setMarks, lookupFd, ite_true, he, ht] at h
  exact respond_answers h ⟨rfl, rfl, rfl, rfl⟩ rfl rfl

theorem storageFileSetSize_broken (h : storageFileSetSize w msg r n = (rc, w')) (hn : n = 16)
    (hw : w.env = broken)
    (hd : ¬ Uncuttable w.kern (toInt32 (leAt r 8 4)) (toSigned w.abi.offBits (leAt r 0 8))) :
    Answers w msg .generic none (lookupFd w.st.marks (leAt r 8 4) true).2 w.kern w' := by
  simp only [storageFileSetSize, hn, ne_eq, not_true_eq_false, ite_false, World.ftruncate, World.sys,
    World.setMarks, lookupFd, ite_true, hw, broken, ftruncate_broken hd] at h
  exact respond_answers h ⟨rfl, rfl, by rw [hw], rfl⟩ rfl rfl

end Commands

/-! ## The law -/

/-- The kernel refuses the call the request makes on `h`, the request gets as
far as making it, and the mark it makes first is there already. -/
def Harmless (w : World) (q : Request) (h : Nat) : Prop :=
  match q.cmd with
  | some .fileClose => w.kern.desc (toInt32 h) = none ∧ (h < fdTblSize → w.st.marks.fdState h = .unused)
  | some .fileRead =>
    maxReadSize < leAt q.payload 4 4 ∨ leAt q.payload 4 4 ≠ 0 ∧ Unreadable w.kern (toInt32 h)
  | some .fileWrite => 16 < q.payload.length ∧ Marked w.st.marks h ∧ Unwritable w.kern (toInt32 h)
  | some .fileGetSize => w.kern.desc (toInt32 h) = none
  | some .fileSetSize =>
    Marked w.st.marks h ∧ Uncuttable w.kern (toInt32 h) (toSigned w.abi.offBits (leAt q.payload 0 8))
  | _ => False

/-- A request refused whatever the environment answers. -/
def AlwaysRejected (run : World → Request → World) (w : World) (q : Request) : Prop :=
  ∀ env, Rejected run { w with env := env } q

section Law

variable {w : World} {q : Request} {h : Nat} {c : Cmd}

/-- The handler of a command, on the buffer as it was received. -/
theorem handled_eq {f : World → Msg → Bytes → Nat → Int × World}
    (hf : ∀ w r n, dispatch w q.msg r n = f w q.msg r n) (w : World) :
    ∃ rest, ∀ env, ∃ rc, f (receive { w with env := env } q) q.msg (q.payload ++ 0 :: rest) q.payload.length =
      (rc, handled { w with env := env } q) := by
  refine ⟨w.st.reqBuffer.drop (q.payload.length + 1), fun env => ?_⟩
  simp only [handled, hf]
  exact ⟨_, rfl⟩

theorem alwaysRejected_close (hc : q.cmd = some .fileClose) (hh : q.handle = some h) :
    AlwaysRejected handled w q ↔ Harmless w q h := by
  obtain ⟨hn, rfl⟩ : q.payload.length = 4 ∧ leAt q.payload 0 4 = h := by
    simpa [Request.handle, hc] using hh
  obtain ⟨rest, hrun⟩ := handled_eq (f := storageFileClose) (q := q)
    (dispatch_some hc) w
  have hle : leAt (q.payload ++ 0 :: rest) 0 4 = leAt q.payload 0 4 := leAt_append (by omega)
  simp only [Harmless, hc]
  constructor
  · intro hall
    obtain ⟨rc, he⟩ := hrun broken
    cases hd : w.kern.desc (toInt32 (leAt q.payload 0 4)) with
    | some d =>
      have ha := storageFileClose_broken (d := d) he hn rfl (by rw [hle]; exact hd)
      exact absurd ((rejected_iff ha).mp (hall broken)).1 (by simp)
    | none =>
      have ha := storageFileClose_refused he hn (by rw [hle]; exact hd)
      rw [hle] at ha
      exact ⟨rfl, (removeFd_eq_iff _ _).mp ((rejected_iff ha).mp (hall broken)).2.1⟩
  · intro hok env
    obtain ⟨hd, hm⟩ := hok
    obtain ⟨rc, he⟩ := hrun env
    have ha := storageFileClose_refused he hn (by rw [hle]; exact hd)
    rw [hle] at ha
    exact (rejected_iff ha).mpr ⟨rfl, (removeFd_eq_iff _ _).mpr hm, rfl⟩

theorem alwaysRejected_getSize (hc : q.cmd = some .fileGetSize) (hh : q.handle = some h) :
    AlwaysRejected handled w q ↔ Harmless w q h := by
  obtain ⟨hn, rfl⟩ : q.payload.length = 4 ∧ leAt q.payload 0 4 = h := by
    simpa [Request.handle, hc] using hh
  obtain ⟨rest, hrun⟩ := handled_eq (f := storageFileGetSize) (q := q)
    (dispatch_some hc) w
  have hle : leAt (q.payload ++ 0 :: rest) 0 4 = leAt q.payload 0 4 := leAt_append (by omega)
  simp only [Harmless, hc]
  constructor
  · intro hall
    obtain ⟨rc, he⟩ := hrun broken
    cases hd : w.kern.desc (toInt32 (leAt q.payload 0 4)) with
    | some d =>
      have ha := storageFileGetSize_broken (d := d) he hn rfl (by rw [hle]; exact hd)
      exact absurd ((rejected_iff ha).mp (hall broken)).1 (by simp)
    | none => rfl
  · intro hd env
    obtain ⟨rc, he⟩ := hrun env
    have ha := storageFileGetSize_refused he hn (by rw [hle]; exact hd)
    exact (rejected_iff ha).mpr ⟨rfl, rfl, rfl⟩

theorem alwaysRejected_read (hc : q.cmd = some .fileRead) (hh : q.handle = some h) :
    AlwaysRejected handled w q ↔ Harmless w q h := by
  obtain ⟨hn, rfl⟩ : q.payload.length = 16 ∧ leAt q.payload 0 4 = h := by
    simpa [Request.handle, hc] using hh
  obtain ⟨rest, hrun⟩ := handled_eq (f := storageFileRead) (q := q)
    (dispatch_some hc) w
  have hle : leAt (q.payload ++ 0 :: rest) 0 4 = leAt q.payload 0 4 := leAt_append (by omega)
  have hsz : leAt (q.payload ++ 0 :: rest) 4 4 = leAt q.payload 4 4 := leAt_append (by omega)
  simp only [Harmless, hc]
  constructor
  · intro hall
    obtain ⟨rc, he⟩ := hrun broken
    by_cases hmax : maxReadSize < leAt q.payload 4 4
    · exact .inl hmax
    refine .inr ?_
    by_cases hsize : leAt q.payload 4 4 = 0
    · have ha := storageFileRead_empty he hn (hsz.trans hsize)
      exact absurd ((rejected_iff ha).mp (hall broken)).1 (by simp)
    · refine ⟨hsize, ?_⟩
      by_contra hd
      have ha := storageFileRead_broken he hn rfl (by rw [hsz]; exact hsize) (by rw [hsz]; omega)
        (by rw [hle]; exact hd)
      exact absurd ((rejected_iff ha).mp (hall broken)).1 (by simp)
  · intro hcond env
    obtain ⟨rc, he⟩ := hrun env
    by_cases hmax : maxReadSize < leAt q.payload 4 4
    · exact (rejected_iff (storageFileRead_large he hn (by rw [hsz]; exact hmax))).mpr ⟨rfl, rfl, rfl⟩
    · obtain ⟨hsize, hd⟩ := hcond.resolve_left hmax
      have ha := storageFileRead_refused he hn (by rw [hsz]; exact hsize) (by rw [hsz]; omega)
        (by rw [hle]; exact hd)
      exact (rejected_iff ha).mpr ⟨rfl, rfl, rfl⟩

theorem alwaysRejected_write (hc : q.cmd = some .fileWrite) (hh : q.handle = some h) :
    AlwaysRejected handled w q ↔ Harmless w q h := by
  obtain ⟨hn, rfl⟩ : 16 ≤ q.payload.length ∧ leAt q.payload 8 4 = h := by
    simpa [Request.handle, hc] using hh
  obtain ⟨rest, hrun⟩ := handled_eq (f := storageFileWrite) (q := q)
    (dispatch_some hc) w
  have hle : leAt (q.payload ++ 0 :: rest) 8 4 = leAt q.payload 8 4 := leAt_append (by omega)
  have hdata : ((q.payload ++ 0 :: rest).take q.payload.length).drop 16 = q.payload.drop 16 := by
    rw [List.take_left]
  simp only [Harmless, hc]
  constructor
  · intro hall
    obtain ⟨rc, he⟩ := hrun broken
    by_cases hlen : 16 < q.payload.length
    · have hne : q.payload.drop 16 ≠ [] := by simpa using hlen
      by_cases hd : Unwritable w.kern (toInt32 (leAt q.payload 8 4))
      · have ha := storageFileWrite_refused he hn (by rw [hdata]; exact hne) (by rw [hle]; exact hd)
        rw [hle] at ha
        exact ⟨hlen, (lookupFd_eq_iff _ _).mp ((rejected_iff ha).mp (hall broken)).2.1, hd⟩
      · have ha := storageFileWrite_broken he hn rfl (by rw [hdata]; exact hne) (by rw [hle]; exact hd)
        exact absurd ((rejected_iff ha).mp (hall broken)).1 (by simp)
    · have hnil : q.payload.drop 16 = [] := by simpa using hlen
      have ha := storageFileWrite_empty he hn (hdata.trans hnil)
      exact absurd ((rejected_iff ha).mp (hall broken)).1 (by simp)
  · intro hok env
    obtain ⟨hlen, hm, hd⟩ := hok
    obtain ⟨rc, he⟩ := hrun env
    have hne : q.payload.drop 16 ≠ [] := by simpa using hlen
    have ha := storageFileWrite_refused he hn (by rw [hdata]; exact hne) (by rw [hle]; exact hd)
    rw [hle] at ha
    exact (rejected_iff ha).mpr ⟨rfl, (lookupFd_eq_iff _ _).mpr hm, rfl⟩

theorem alwaysRejected_setSize (hc : q.cmd = some .fileSetSize) (hh : q.handle = some h) :
    AlwaysRejected handled w q ↔ Harmless w q h := by
  obtain ⟨hn, rfl⟩ : q.payload.length = 16 ∧ leAt q.payload 8 4 = h := by
    simpa [Request.handle, hc] using hh
  obtain ⟨rest, hrun⟩ := handled_eq (f := storageFileSetSize) (q := q)
    (dispatch_some hc) w
  have hle : leAt (q.payload ++ 0 :: rest) 8 4 = leAt q.payload 8 4 := leAt_append (by omega)
  have hsz : leAt (q.payload ++ 0 :: rest) 0 8 = leAt q.payload 0 8 := leAt_append (by omega)
  simp only [Harmless, hc]
  constructor
  · intro hall
    obtain ⟨rc, he⟩ := hrun broken
    by_cases hd : Uncuttable w.kern (toInt32 (leAt q.payload 8 4)) (toSigned w.abi.offBits (leAt q.payload 0 8))
    · have ha := storageFileSetSize_refused he hn (by rw [hle, hsz]; exact hd)
      rw [hle] at ha
      exact ⟨(lookupFd_eq_iff _ _).mp ((rejected_iff ha).mp (hall broken)).2.1, hd⟩
    · have ha := storageFileSetSize_broken he hn rfl (by rw [hle, hsz]; exact hd)
      exact absurd ((rejected_iff ha).mp (hall broken)).1 (by simp)
  · intro hok env
    obtain ⟨hm, hd⟩ := hok
    obtain ⟨rc, he⟩ := hrun env
    have ha := storageFileSetSize_refused he hn (by rw [hle, hsz]; exact hd)
    rw [hle] at ha
    exact (rejected_iff ha).mpr ⟨rfl, (lookupFd_eq_iff _ _).mpr hm, rfl⟩

/-- In any state: a request on the number `h` is refused without a trace
exactly when it is harmless. -/
theorem alwaysRejected_iff (hh : q.handle = some h) : AlwaysRejected handled w q ↔ Harmless w q h := by
  cases hc : q.cmd with
  | none => simp [Request.handle, hc] at hh
  | some c =>
    cases c with
    | fileClose => exact alwaysRejected_close hc hh
    | fileRead => exact alwaysRejected_read hc hh
    | fileWrite => exact alwaysRejected_write hc hh
    | fileGetSize => exact alwaysRejected_getSize hc hh
    | fileSetSize => exact alwaysRejected_setSize hc hh
    | _ => simp [Request.handle, hc] at hh

end Law

/-- **A request on a handle that is not open is answered
`STORAGE_ERR_NOT_VALID` and leaves no trace exactly when it is harmless**, in
every state of every run. This is said of its command, and of the whole round
if no commit is asked for with it. -/
theorem unheld_rejected_iff {cfg : Config} :
    ∀ H w, Run cfg (fun _ => True) (fun _ _ => True) H w → ∀ q h, q.handle = some h → h ∉ H.live →
      (AlwaysRejected handled w q ↔ Harmless w q h) ∧
        (q.plain → (AlwaysRejected round w q ↔ Harmless w q h)) := by
  intro H w _ q h hh _
  refine ⟨alwaysRejected_iff hh, fun hplain => ?_⟩
  rw [← alwaysRejected_iff hh]
  exact forall_congr' fun env => ⟨.congr (round_plain hplain _).symm, .congr (round_plain hplain _)⟩

theorem dataStarted_run {ok} : Run dataOnly (fun _ => True) ok ⟨[], [], []⟩ dataStarted :=
  .start trivial (Option.some_get _).symm

/-- The size of handle 40. -/
def sizeStray : Request := request .fileGetSize 0 [40, 0, 0, 0] (by decide)

theorem unheld_rejected_at_start : AlwaysRejected round dataStarted sizeStray :=
  ((unheld_rejected_iff _ _ dataStarted_run sizeStray 40 (by decide) (by simp)).2 (by decide)).mpr
    (by decide : dataStarted.kern.desc (toInt32 40) = none)

/-- One byte through handle 40. -/
def writeStray : Request :=
  request .fileWrite 0 [0, 0, 0, 0, 0, 0, 0, 0, 40, 0, 0, 0, 0, 0, 0, 0, 7] (by decide)

/-- Right after the start, a write through handle 40 is answered as it
should be, but leaves a mark on which the next checkpoint fails. -/
theorem unheld_write_fails_checkpoint :
    Run dataOnly (fun _ => True) (fun _ _ => True) ⟨[], [], []⟩ dataStarted ∧ writeStray.handle = some 40 ∧
      ¬ Rejected round dataStarted writeStray ∧
      answered (receive dataStarted writeStray) (round dataStarted writeStray) .notValid = true ∧
      (storageSyncCheckpoint dataStarted).1 = 0 ∧
      (storageSyncCheckpoint (round dataStarted writeStray)).1 = -1 := by
  refine ⟨dataStarted_run, by decide, fun hr => ?_, by decide, by decide, by decide⟩
  have hmark := congrArg (fun m => m.fdState 40) hr.marks
  revert hmark
  decide

end Storage
