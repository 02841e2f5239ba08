/-
What a failed open, close or delete leaves behind.

The handlers change things before the call that may fail: a close clears the
mark of its descriptor and then syncs it, an open of a VFS file makes the
folder and then opens. So a failure is without trace exactly when there was
no mark to clear, and no folder to make.
-/
import Microtrust.Storage.Durable
import Microtrust.Storage.Handles

namespace Storage

open Lib

/-- Nothing of what a client sees has changed: the tree of names, the open
descriptors and their marks. Directories may have become dirty. -/
structure Intact (w w' : World) : Prop where
  tree : w'.kern.tree = w.kern.tree
  handles : w'.kern.fds = w.kern.fds
  marks : ∀ h, w.kern.fds h ≠ none → w'.st.marks.fdState h = w.st.marks.fdState h
  dir : w'.st.marks.dirState ≠ w.st.marks.dirState →
    w.st.marks.dirState = .clean ∧ w'.st.marks.dirState = .dirty
  fs : w'.st.marks.fsState ≠ w.st.marks.fsState →
    w.st.marks.fsState = .clean ∧ w'.st.marks.fsState = .dirty

/-- However its calls turn out, `q` leaves things intact if it is answered with
an error. -/
def FailsIntact (run : World → Request → World) (w : World) (q : Request) : Prop :=
  ∀ env, ClosesSucceed env →
    answered (receive { w with env } q) (run { w with env } q) .noError = false →
    Intact w (run { w with env } q)

/-- The open prepares a folder that is not there. -/
structure MakesFolder (w : World) (q : Request) : Prop where
  names : q.payload.length = 4 + q.name.length
  vfs : q.openFlags.testBit openVfs = true ∧ q.openFlags.testBit openPersistentFile = false ∧
    q.openFlags.testBit openProinfoFile = false
  missing : ∃ p, FolderAt w.kern w.st.roots.ssdirName q.name p ∧ w.kern.node p = none

/-- The close clears the mark of an open descriptor. -/
def ClearsMark (w : World) (q : Request) : Prop :=
  ∃ h < fdTblSize, q.handle = some h ∧ w.kern.fds h ≠ none ∧ w.st.marks.fdState h ≠ .unused

/-! ## Folders -/

/-- An environment in which opens and syncs fail, and nothing else. -/
def opensFail : Nat → Syscall → Reply
  | _, .open _ => .error .ioErr
  | _, .fsync _ => .error .ioErr
  | _, _ => .ok 1

theorem opensFail_closes : ClosesSucceed opensFail := fun _ _ => ⟨1, rfl⟩

section OpensFail

variable {w : World} (hw : w.env = opensFail)

include hw

theorem prepareFloder_makes {root : Option Bytes} {path : Bytes} {p : Path} (hp : FolderAt w.kern root path p)
    (hnone : w.kern.node p = none) :
    (prepareFloder w root path).2.kern.tree = Function.update w.kern.tree p (some .dir) ∧
      Frame w (prepareFloder w root path).2 := by
  have halloc (t size) : w.env t (.alloc size) = .ok 1 := by rw [hw]; rfl
  have hmkdir (t full) : w.env t (.mkdir full) = .ok 1 := by rw [hw]; rfl
  obtain ⟨hpos, hp⟩ := hp
  simp only [folder] at hp
  simp only [prepareFloder, if_pos (show lastSlash path > 0 from hpos), World.alloc, World.sys, halloc, Except.toBool,
    asprintf, if_true, World.mkdir, hmkdir, Kernel.mkdir, hp, hnone]
  exact ⟨rfl, rfl, rfl, rfl, rfl⟩

theorem openPath_opensFail (path : Bytes) (fl : OpenFlags) :
    w.openPath path fl = (.error .ioErr, { w with now := w.now + 1 }) := by
  have hopen : w.env w.now (.open path) = .error .ioErr := by rw [hw]; rfl
  simp only [World.openPath, World.sys, hopen, Kernel.openPath]

theorem openTries_opensFail (flags : Nat) (path : Bytes) :
    ∃ fl, openTries w flags path = (.error .ioErr, fl, { w with now := w.now + 1 }) := by
  have hne : Errno.ioErr ≠ .ENOENT := by decide
  unfold openTries
  simp only [openPath_opensFail hw, hne, if_false]
  split
  · split <;> exact ⟨_, rfl⟩
  · exact ⟨_, rfl⟩

/-- The folder is made, and then the file is not opened. -/
theorem storageFileOpen_opensFail {w' : World} {msg : Msg} {r : Bytes} {n : Nat} {rc : Int} {name : Bytes} {p : Path}
    (h : storageFileOpen w msg r n = (rc, w')) (hname : cstr (r.drop 4) = name) (hlen : n = 4 + name.length)
    (hvfs : (leAt r 0 4).testBit openVfs = true) (hpers : (leAt r 0 4).testBit openPersistentFile = false)
    (hpro : (leAt r 0 4).testBit openProinfoFile = false) (hp : FolderAt w.kern w.st.roots.ssdirName name p)
    (hnone : w.kern.node p = none) :
    ∃ m k, Answers w msg .generic none m k w' ∧ k.tree = Function.update w.kern.tree p (some .dir) := by
  unfold storageFileOpen at h
  rw [hname, if_neg (by omega), if_neg (by omega)] at h
  dsimp only at h
  simp only [openTarget, hvfs, hpers, hpro, Bool.false_eq_true, if_false, if_true] at h
  rw [asprintf_ok (fun t size => ⟨1, by rw [hw]; rfl⟩)] at h
  dsimp only at h
  obtain ⟨htree, hf⟩ := prepareFloder_makes (w := { w with now := w.now + 1 }) hw hp hnone
  generalize prepareFloder _ _ _ = x at h htree hf
  obtain ⟨_, w₁⟩ := x
  obtain ⟨fl, ho⟩ := openTries_opensFail (hf.env.trans hw) (leAt r 0 4) (joined w.st.roots.ssdirName name)
  have hf' : Frame w { w₁ with now := w₁.now + 1 } := ⟨hf.sent, hf.roots, hf.env, hf.abi⟩
  have hgeneric : translateErrno .ioErr = .generic := by decide
  dsimp only at h ho
  rw [ho] at h
  dsimp only at h
  rw [hgeneric] at h
  exact ⟨_, _, hf'.respond rfl rfl h, htree⟩

end OpensFail

/-! ## The three commands -/

section Commands

variable {w : World} {q : Request}

theorem Intact.of_answers {o w' : World} {msg : Msg} {e : Err} {out : Option Bytes} {m : Marks} {k : Kernel}
    (ha : Answers o msg e out m k w') (hunused : w.st.marks.dirState ≠ .unused) (htree : k.tree = w.kern.tree)
    (hfds : k.fds = w.kern.fds) (hm : ∀ h, w.kern.fds h ≠ none → m.fdState h = w.st.marks.fdState h)
    (hdir : m.dirState = w.st.marks.dirState ∨ m.dirState = .dirty) (hfs : m.fsState = w.st.marks.fsState) :
    Intact w w' := by
  refine ⟨by rw [ha.kern, htree], by rw [ha.kern, hfds], by rw [ha.marks]; exact hm, fun hne => ?_, fun hne => ?_⟩
  · rw [ha.marks] at hne ⊢
    rcases hdir with he | he
    · exact absurd he hne
    · refine ⟨?_, he⟩
      rw [he] at hne
      by_contra hclean
      exact hne (eq_dirty hunused hclean).symm
  · rw [ha.marks] at hne
    exact absurd hfs hne

theorem failsIntact_delete (hunused : w.st.marks.dirState ≠ .unused) (hc : q.cmd = some .fileDelete) :
    FailsIntact handled w q := by
  intro env _ hfail
  obtain ⟨rest, hrun⟩ := handled_eq (f := storageFileDelete) (q := q) (dispatch_some hc) w
  obtain ⟨rc, he⟩ := hrun env
  rcases storageFileDelete_cases he with ⟨e, _, ha⟩ | ⟨_, e, k, ha, ⟨_, rfl⟩ | ⟨rfl, _⟩⟩
  · exact .of_answers ha hunused rfl rfl (fun _ _ => rfl) (.inl rfl) rfl
  · exact .of_answers ha hunused rfl rfl (fun _ _ => rfl) (.inr rfl) rfl
  · rw [ha.answered] at hfail
    cases hfail

theorem failsIntact_open (hunused : w.st.marks.dirState ≠ .unused) (hc : q.cmd = some .fileOpen) :
    FailsIntact handled w q ↔ ¬ MakesFolder w q := by
  obtain ⟨rest, hrun⟩ := handled_eq (f := storageFileOpen) (q := q) (dispatch_some hc) w
  have hname (h : 4 ≤ q.payload.length) : cstr ((q.payload ++ 0 :: rest).drop 4) = q.name := cstr_drop h
  have hflags (h : 4 ≤ q.payload.length) : leAt (q.payload ++ 0 :: rest) 0 4 = q.openFlags := leAt_append (by omega)
  constructor
  · intro hintact hmakes
    obtain ⟨p, hp, hnone⟩ := hmakes.missing
    obtain ⟨rc, he⟩ := hrun opensFail
    have hlen := hmakes.names
    have h4 : 4 ≤ q.payload.length := by omega
    obtain ⟨m, k, ha, htree⟩ := storageFileOpen_opensFail (w := receive { w with env := opensFail } q) rfl he
      (hname h4) hlen (by rw [hflags h4]; exact hmakes.vfs.1) (by rw [hflags h4]; exact hmakes.vfs.2.1)
      (by rw [hflags h4]; exact hmakes.vfs.2.2) hp hnone
    have hsame := (hintact opensFail opensFail_closes (by rw [ha.answered]; rfl)).tree
    rw [ha.kern, htree] at hsame
    have hat : w.kern.tree p = some .dir := by rw [← congrFun hsame p]; exact Function.update_self ..
    rw [Kernel.node, hat] at hnone
    split at hnone <;> cases hnone
  · intro hmakes env _ hfail
    obtain ⟨rc, he⟩ := hrun env
    rcases storageFileOpen_cases he with ⟨e, _, ha⟩ | ⟨hlen, ⟨e, k, _, ha, hfolder⟩ | ⟨_, _, _, _, _, _, _, _, _, _, ha⟩⟩
    · exact .of_answers ha hunused rfl rfl (fun _ _ => rfl) (.inl rfl) rfl
    · rcases hfolder with rfl | ⟨hvfs, p, hp, hnone, _⟩
      · exact .of_answers ha hunused rfl rfl (fun _ _ => rfl) (.inl rfl) rfl
      · have h4 : 4 ≤ q.payload.length := by omega
        rw [hname h4] at hlen hp
        rw [hflags h4] at hvfs
        exact absurd ⟨hlen, hvfs, p, hp, hnone⟩ hmakes
    · rw [ha.answered] at hfail
      cases hfail

theorem failsIntact_close (hunused : w.st.marks.dirState ≠ .unused) (hc : q.cmd = some .fileClose) :
    FailsIntact handled w q ↔ ¬ ClearsMark w q := by
  obtain ⟨rest, hrun⟩ := handled_eq (f := storageFileClose) (q := q) (dispatch_some hc) w
  have hle (h : q.payload.length = 4) : leAt (q.payload ++ 0 :: rest) 0 4 = leAt q.payload 0 4 :=
    leAt_append (by omega)
  constructor
  · intro hintact hclears
    obtain ⟨h, hlt, hh, hopen, hmark⟩ := hclears
    obtain ⟨hn, rfl⟩ : q.payload.length = 4 ∧ leAt q.payload 0 4 = h := by
      simpa [Request.handle, hc] using hh
    obtain ⟨rc, he⟩ := hrun opensFail
    obtain ⟨d, hd⟩ := Option.ne_none_iff_exists'.mp hopen
    have hfd : toInt32 (leAt q.payload 0 4) = leAt q.payload 0 4 := toInt32_of_lt (lt_trans hlt (by decide))
    have ha := storageFileClose_broken (d := d) he hn rfl (by rw [hle hn, hfd, Kernel.desc_natCast]; exact hd)
    have hsame := (hintact opensFail opensFail_closes (by rw [ha.answered]; rfl)).marks _ hopen
    rw [ha.marks, hle hn] at hsame
    simp only [removeFd, hlt, if_true, Function.update_self] at hsame
    exact hmark hsame.symm
  · intro hclears env hcloses hfail
    obtain ⟨rc, he⟩ := hrun env
    rcases storageFileClose_cases he with ⟨_, ha⟩ | ⟨hn, e, k, ha, hk⟩
    · exact .of_answers ha hunused rfl rfl (fun _ _ => rfl) (.inl rfl) rfl
    rw [ha.answered, decide_eq_false_iff_not] at hfail
    rcases hk with ⟨_, rfl⟩ | ⟨hok, _⟩
    · rw [hle hn] at ha
      have hh : q.handle = some (leAt q.payload 0 4) := by simp [Request.handle, hc, hn]
      refine .of_answers ha hunused rfl rfl (fun x hx => ?_) (.inl ?_) ?_
      · -- the only mark that is cleared was none
        simp only [removeFd]
        split
        · next hlt =>
          by_cases hxh : x = leAt q.payload 0 4
          · subst hxh
            by_contra hne
            refine hclears ⟨_, hlt, hh, hx, fun hu => hne ?_⟩
            exact (Function.update_self ..).trans hu.symm
          · exact Function.update_of_ne hxh ..
        · rfl
      · simp only [removeFd]
        split <;> rfl
      · simp only [removeFd]
        split <;> rfl
    · exact absurd (hok hcloses) hfail

end Commands

/-! ## Every state of a run -/

theorem Effect.dirState {roots : Roots} {q : Request} {m m' : Marks} {k k' : Kernel} {e : Err} {out : Option Bytes}
    (h : Effect roots q m k e out m' k') (hm : m.dirState ≠ .unused) : m'.dirState ≠ .unused := by
  cases h with
  | quiet => exact hm
  | write =>
    simp only [lookupFd, if_true]
    split <;> exact hm
  | closeFailed =>
    simp only [removeFd]
    split <;> exact hm
  | closed =>
    simp only [removeFd]
    split <;> exact hm
  | deleteFailed => simp
  | deleted => simp
  | openFailed => exact hm
  | opened =>
    simp only [insertFd]
    split <;> split <;> split <;> simp [hm]

theorem Run.dirState {cfg : Config} {disk ok} {H : Hist} {w : World} (h : Run cfg disk ok H w) :
    w.st.marks.dirState ≠ .unused := by
  refine h.invariant (fun _ w => w.st.marks.dirState ≠ .unused) ?_ ?_
  · intro env mmcRead k w _ hs
    obtain ⟨R, hl, _⟩ := start_launched hs
    rw [hl.boot.dir]
    simp
  · intro H w q w' hw _ hserve
    obtain ⟨w₁, e, out, m, k, hc, ha, heff⟩ := serve_effect hserve
    rw [ha.marks]
    refine heff.dirState fun hu => ?_
    rcases hc.synced.dir with he | he
    · exact hw (he ▸ hu)
    · rw [he] at hu
      cases hu

/-- In every state in which a command is carried out, a failed open, close or
delete leaves things intact exactly when it is no open that makes a folder
and no close that clears a mark. The same is so of the whole round if no commit
is asked for with it. -/
theorem fails_intact_iff {cfg : Config} {disk ok} {H : Hist} {w₀ w : World} (hrun : Run cfg disk ok H w₀)
    (hcheck : Checkpointed w₀ w) (q : Request)
    (hq : q.cmd = some .fileOpen ∨ q.cmd = some .fileClose ∨ q.cmd = some .fileDelete) :
    (FailsIntact handled w q ↔
        ¬ (q.cmd = some .fileOpen ∧ MakesFolder w q) ∧ ¬ (q.cmd = some .fileClose ∧ ClearsMark w q)) ∧
      (q.plain → (FailsIntact round w q ↔
        ¬ (q.cmd = some .fileOpen ∧ MakesFolder w q) ∧ ¬ (q.cmd = some .fileClose ∧ ClearsMark w q))) := by
  have hcommand : FailsIntact handled w q ↔
      ¬ (q.cmd = some .fileOpen ∧ MakesFolder w q) ∧ ¬ (q.cmd = some .fileClose ∧ ClearsMark w q) := by
    have hunused : w.st.marks.dirState ≠ .unused := by
      intro hu
      rcases hcheck.synced.dir with he | he
      · exact hrun.dirState (he ▸ hu)
      · rw [he] at hu
        cases hu
    rcases hq with hc | hc | hc
    · rw [failsIntact_open hunused hc]
      simp [hc]
    · rw [failsIntact_close hunused hc]
      simp [hc]
    · simp [hc, failsIntact_delete hunused hc]
  refine ⟨hcommand, fun hplain => ?_⟩
  rw [← hcommand]
  unfold FailsIntact
  simp only [round_plain hplain]

/-- Open the VFS file `a/b`, if there is one. -/
def openVfsMissing : Request := request .fileOpen 0 [32, 0, 0, 0, 97, 47, 98] (by decide)

/-- An open that is answered `STORAGE_ERR_NOT_FOUND` leaves the folder `a`
behind, and a close that fails to sync a dirty file leaves it open and no
longer marked. -/
theorem failed_requests_leave_traces :
    ((∃ disk ok H, Run dataOnly disk ok H dataStarted) ∧
      answered (receive dataStarted openVfsMissing) (round dataStarted openVfsMissing) .notFound = true ∧
      dataStarted.kern.tree [[100], [97]] = none ∧
      (round dataStarted openVfsMissing).kern.tree [[100], [97]] = some .dir ∧
      ¬ FailsIntact round dataStarted openVfsMissing) ∧
    ((∃ disk ok H, Run dataOnly disk ok H dataWritten) ∧
      answered (receive { dataWritten with env := opensFail } (closeHandle 5))
        (round { dataWritten with env := opensFail } (closeHandle 5)) .generic = true ∧
      dataWritten.st.marks.fdState 5 = .dirty ∧ (dataWritten.kern.fds 5).isSome ∧
      (round { dataWritten with env := opensFail } (closeHandle 5)).st.marks.fdState 5 = .unused ∧
      ¬ FailsIntact round dataWritten (closeHandle 5)) := by
  refine ⟨⟨⟨_, fun _ _ => True, _, dataStarted_run⟩, by decide, by decide, by decide, fun h => ?_⟩,
    ⟨_, _, _, dataWritten_run⟩, by decide, by decide, by decide, by decide, fun h => ?_⟩
  · have htree := congrFun (h calm (fun _ _ => ⟨1, rfl⟩) (by decide)).tree [[100], [97]]
    revert htree
    decide
  · have hmark := (h opensFail opensFail_closes (by decide)).marks 5 (by decide)
    revert hmark
    decide

theorem fails_intact_iff_delete : FailsIntact round dataStarted deleteData :=
  ((fails_intact_iff (dataStarted_run : Run _ _ (fun _ _ => True) _ _) (.inl rfl) deleteData (by decide)).2
    (by decide)).mpr ⟨fun h => absurd h.1 (by decide), fun h => absurd h.1 (by decide)⟩

end Storage
