/-
What a checkpoint can do, whole and in part, and how a request goes.

A sync call settles the changes its descriptor covers or fails and changes
nothing; a checkpoint is a run of such calls that cleans marks as it goes.
-/
import Microtrust.Storage.Facts

namespace Storage

open Lib

/-- Some syncs went by: changes were settled and marks cleaned. -/
structure Synced (w w' : World) : Prop where
  frame : Frame w w'
  kern : ∃ p, w'.kern = w.kern.settle p
  fd : ∀ n, w'.st.marks.fdState n = w.st.marks.fdState n ∨ w'.st.marks.fdState n = .clean
  dir : w'.st.marks.dirState = w.st.marks.dirState ∨ w'.st.marks.dirState = .clean
  fs : w'.st.marks.fsState = w.st.marks.fsState ∨ w'.st.marks.fsState = .clean
  buf : w'.st.reqBuffer = w.st.reqBuffer

theorem settle_false (k : Kernel) : k.settle (fun _ => false) = k := by
  simp [Kernel.settle]

theorem settle_settle (k : Kernel) (p q : Change → Bool) :
    (k.settle p).settle q = k.settle fun c => p c || q c := by
  simp only [Kernel.settle, List.filter_filter]
  congr 1
  refine List.filter_congr fun c _ => ?_
  rw [Bool.and_comm, Bool.not_or]

theorem Synced.refl (w : World) : Synced w w :=
  ⟨Frame.refl w, ⟨_, (settle_false w.kern).symm⟩, fun _ => .inl rfl, .inl rfl, .inl rfl, rfl⟩

theorem Synced.trans {w w₁ w₂ : World} (h : Synced w w₁) (h' : Synced w₁ w₂) : Synced w w₂ := by
  obtain ⟨p, hp⟩ := h.kern
  obtain ⟨q, hq⟩ := h'.kern
  have hmark {a b c : SyncState} (h : b = a ∨ b = .clean) (h' : c = b ∨ c = .clean) :
      c = a ∨ c = .clean := by
    rcases h' with rfl | h'
    · exact h
    · exact .inr h'
  exact ⟨h.frame.trans h'.frame, ⟨_, by rw [hq, hp, settle_settle]⟩, fun n => hmark (h.fd n) (h'.fd n),
    hmark h.dir h'.dir, hmark h.fs h'.fs, h'.buf.trans h.buf⟩

/-- A sync call either failed, or settled what `covers` says its descriptor covers. -/
def SyncCall (covers : Desc → Change → Bool) (sync : World → Int → Except Errno Unit × World) : Prop :=
  ∀ w fd res w', sync w fd = (res, w') → Frame w w' ∧ w'.st = w.st ∧
    match res with
    | .error _ => w'.kern = w.kern
    | .ok _ => ∃ d, w.kern.desc fd = some d ∧ w'.kern = w.kern.settle (covers d)

theorem syncCall_fsync : SyncCall Desc.syncs World.fsync := by
  intro w fd res w' h
  obtain ⟨hk, hst, hf⟩ := World.sys_inv h
  refine ⟨hf, hst, ?_⟩
  cases res with
  | error e => exact Kernel.fsync_error hk
  | ok u => exact Kernel.fsync_ok hk

theorem syncCall_syncfs : SyncCall (fun d c => c.target.fs == d.fs) World.syncfs := by
  intro w fd res w' h
  obtain ⟨hk, hst, hf⟩ := World.sys_inv h
  refine ⟨hf, hst, ?_⟩
  cases res with
  | error e => exact Kernel.syncfs_error hk
  | ok u => exact Kernel.syncfs_ok hk

theorem SyncCall.synced {covers sync} (hs : SyncCall covers sync) {w w' : World} {fd : Int} {res}
    (h : sync w fd = (res, w')) : Synced w w' ∧ w'.st = w.st := by
  obtain ⟨hf, hst, hk⟩ := hs w fd res w' h
  have hkern : ∃ p, w'.kern = w.kern.settle p := by
    cases res with
    | error e =>
      have hsame : w'.kern = w.kern := hk
      exact ⟨_, hsame.trans (settle_false w.kern).symm⟩
    | ok u =>
      obtain ⟨d, _, hd⟩ := hk
      exact ⟨_, hd⟩
  exact ⟨⟨hf, hkern, fun n => .inl (by rw [hst]), .inl (by rw [hst]), .inl (by rw [hst]), by rw [hst]⟩, hst⟩

theorem synced_markClean (w : World) (n : Nat) : Synced w (markClean w n) := by
  refine ⟨⟨rfl, rfl, rfl, rfl⟩, ⟨_, (settle_false w.kern).symm⟩, fun m => ?_, .inl rfl, .inl rfl, rfl⟩
  by_cases h : m = n
  · subst h
    exact .inr (Function.update_self ..)
  · exact .inl (Function.update_of_ne h ..)

/-! ## Its parts -/

theorem syncFds_synced {l : List Nat} {w w' : World} {res} (h : syncFds l w = (res, w')) : Synced w w' := by
  induction l generalizing w with
  | nil =>
    obtain ⟨_, rfl⟩ := Prod.mk.inj h
    exact Synced.refl w
  | cons fd l ih =>
    unfold syncFds at h
    split at h
    · split at h
      · split at h
        · next he =>
          obtain ⟨_, rfl⟩ := Prod.mk.inj h
          exact (syncCall_fsync.synced he).1
        · next w₁ he =>
          exact ((syncCall_fsync.synced he).1.trans (synced_markClean w₁ fd)).trans (ih h)
      · exact (synced_markClean w fd).trans (ih h)
    · exact ih h

section Roots

variable {covers : Desc → Change → Bool} {sync : World → Int → Except Errno Unit × World}

theorem syncOptional_synced (hs : SyncCall covers sync) {w w' : World} {fd : Int} {res}
    (h : syncOptional sync w fd = (res, w')) : Synced w w' ∧ w'.st = w.st := by
  unfold syncOptional at h
  split at h
  · exact hs.synced h
  · obtain ⟨_, rfl⟩ := Prod.mk.inj h
    exact ⟨Synced.refl w, rfl⟩

theorem syncRoots_synced (hs : SyncCall covers sync) {w w' : World} {res}
    (h : syncRoots sync w = (res, w')) : Synced w w' ∧ w'.st = w.st := by
  unfold syncRoots at h
  split at h
  · next h₁ =>
    obtain ⟨_, rfl⟩ := Prod.mk.inj h
    exact hs.synced h₁
  · next w₁ h₁ =>
    obtain ⟨hy₁, hst₁⟩ := hs.synced h₁
    split at h
    · next h₂ =>
      obtain ⟨_, rfl⟩ := Prod.mk.inj h
      obtain ⟨hy₂, hst₂⟩ := syncOptional_synced hs h₂
      exact ⟨hy₁.trans hy₂, hst₂.trans hst₁⟩
    · next w₂ h₂ =>
      obtain ⟨hy₂, hst₂⟩ := syncOptional_synced hs h₂
      obtain ⟨hy₃, hst₃⟩ := syncOptional_synced hs h
      exact ⟨(hy₁.trans hy₂).trans hy₃, (hst₃.trans hst₂).trans hst₁⟩

/-- The descriptors a sync of the roots goes through. -/
def rootFds (r : Roots) : List Int :=
  r.ssdirFd :: ((if r.ssPersistentDirFd > 0 then [r.ssPersistentDirFd] else []) ++
    if r.ssProinfoNodeFd > 0 then [r.ssProinfoNodeFd] else [])

/-- What a root that was synced covers is no longer pending. -/
theorem syncOptional_ok (hs : SyncCall covers sync) {w w' : World} {fd : Int} {d : Desc} {u}
    (h : syncOptional sync w fd = (.ok u, w')) (hfd : fd > 0) (hd : w.kern.desc fd = some d) :
    ∀ c ∈ w'.kern.pending, covers d c = false := by
  simp only [syncOptional, hfd, ite_true] at h
  obtain ⟨_, _, d', hd', hk⟩ := hs w fd _ w' h
  intro c hc
  rw [hk, Kernel.mem_pending_settle] at hc
  rw [hd, Option.some.injEq] at hd'
  exact hd' ▸ hc.2

theorem Synced.desc {w w' : World} (h : Synced w w') (fd : Int) : w'.kern.desc fd = w.kern.desc fd := by
  obtain ⟨p, hp⟩ := h.kern
  rw [hp]
  rfl

theorem Synced.pending {w w' : World} (h : Synced w w') : ∀ c ∈ w'.kern.pending, c ∈ w.kern.pending := by
  obtain ⟨p, hp⟩ := h.kern
  intro c hc
  rw [hp, Kernel.mem_pending_settle] at hc
  exact hc.1

/-- After the roots were synced, nothing that one of them covers is pending. -/
theorem syncRoots_ok (hs : SyncCall covers sync) {w w' : World} {u} (h : syncRoots sync w = (.ok u, w'))
    {fd : Int} {d : Desc} (hfd : fd ∈ rootFds w.st.roots) (hd : w.kern.desc fd = some d) :
    ∀ c ∈ w'.kern.pending, covers d c = false := by
  unfold syncRoots at h
  split at h
  · cases h
  next w₁ h₁ =>
    obtain ⟨hy₁, hst₁⟩ := hs.synced h₁
    split at h
    · cases h
    next w₂ h₂ =>
      obtain ⟨hy₂, hst₂⟩ := syncOptional_synced hs h₂
      obtain ⟨hy₃, _⟩ := syncOptional_synced hs h
      intro c hc
      simp only [rootFds, List.mem_cons, List.mem_append] at hfd
      rcases hfd with rfl | hfd | hfd
      · obtain ⟨_, _, d', hd', hk⟩ := hs w _ _ w₁ h₁
        have hc₁ := hy₂.pending c (hy₃.pending c hc)
        rw [hk, Kernel.mem_pending_settle] at hc₁
        rw [hd, Option.some.injEq] at hd'
        exact hd' ▸ hc₁.2
      · split at hfd
        · next hpos =>
          obtain rfl := List.mem_singleton.mp hfd
          rw [← hst₁] at hpos hd
          exact syncOptional_ok hs h₂ hpos (by rw [hy₁.desc]; exact hd) c (hy₃.pending c hc)
        · cases hfd
      · split at hfd
        · next hpos =>
          obtain rfl := List.mem_singleton.mp hfd
          rw [← hst₁, ← hst₂] at hpos hd
          exact syncOptional_ok hs h hpos (by rw [(hy₁.trans hy₂).desc]; exact hd) c hc
        · cases hfd

end Roots

theorem syncDirs_synced {w w' : World} {res} (h : syncDirs w = (res, w')) : Synced w w' := by
  have hclean (w : World) : Synced w (w.setMarks { w.st.marks with dirState := .clean }) :=
    ⟨⟨rfl, rfl, rfl, rfl⟩, ⟨_, (settle_false w.kern).symm⟩, fun _ => .inl rfl, .inr rfl, .inl rfl, rfl⟩
  unfold syncDirs at h
  split at h
  · split at h
    · split at h
      · next he =>
        obtain ⟨_, rfl⟩ := Prod.mk.inj h
        exact (syncRoots_synced syncCall_fsync he).1
      · next w₁ he =>
        obtain ⟨_, rfl⟩ := Prod.mk.inj h
        exact (syncRoots_synced syncCall_fsync he).1.trans (hclean w₁)
    · obtain ⟨_, rfl⟩ := Prod.mk.inj h
      exact hclean w
  · obtain ⟨_, rfl⟩ := Prod.mk.inj h
    exact Synced.refl w

theorem syncFs_synced {w w' : World} {res} (h : syncFs w = (res, w')) : Synced w w' := by
  unfold syncFs at h
  split at h
  · split at h
    · next he =>
      obtain ⟨_, rfl⟩ := Prod.mk.inj h
      exact (syncRoots_synced syncCall_syncfs he).1
    · next w₁ he =>
      obtain ⟨_, rfl⟩ := Prod.mk.inj h
      refine (syncRoots_synced syncCall_syncfs he).1.trans ?_
      exact ⟨⟨rfl, rfl, rfl, rfl⟩, ⟨_, (settle_false w₁.kern).symm⟩, fun _ => .inl rfl, .inl rfl, .inr rfl, rfl⟩
  · obtain ⟨_, rfl⟩ := Prod.mk.inj h
    exact Synced.refl w

/-- The checkpoint in three parts: it returns 0 when all went well, and
stops at the first that did not. -/
theorem checkpoint_cases {w w' : World} {rc : Int} (h : storageSyncCheckpoint w = (rc, w')) :
    (rc = -1 ∧ ∃ e, syncFds (List.range fdTblSize) w = (.error e, w')) ∨
      ∃ w₁, syncFds (List.range fdTblSize) w = (.ok (), w₁) ∧
        ((rc = -1 ∧ ∃ e, syncDirs w₁ = (.error e, w')) ∨
          ∃ w₂, syncDirs w₁ = (.ok (), w₂) ∧
            ((rc = -1 ∧ ∃ e, syncFs w₂ = (.error e, w')) ∨ rc = 0 ∧ syncFs w₂ = (.ok (), w'))) := by
  unfold storageSyncCheckpoint at h
  split at h
  · next e w₁ h₁ =>
    obtain ⟨rfl, rfl⟩ := Prod.mk.inj h
    exact .inl ⟨rfl, e, h₁⟩
  · next w₁ h₁ =>
    refine .inr ⟨w₁, h₁, ?_⟩
    split at h
    · next e w₂ h₂ =>
      obtain ⟨rfl, rfl⟩ := Prod.mk.inj h
      exact .inl ⟨rfl, e, h₂⟩
    · next w₂ h₂ =>
      refine .inr ⟨w₂, h₂, ?_⟩
      split at h
      · next e w₃ h₃ =>
        obtain ⟨rfl, rfl⟩ := Prod.mk.inj h
        exact .inl ⟨rfl, e, h₃⟩
      · next w₃ h₃ =>
        obtain ⟨rfl, rfl⟩ := Prod.mk.inj h
        exact .inr ⟨rfl, h₃⟩

theorem checkpoint_synced {w w' : World} {rc : Int} (h : storageSyncCheckpoint w = (rc, w')) : Synced w w' := by
  rcases checkpoint_cases h with ⟨_, _, h₁⟩ | ⟨w₁, h₁, ⟨_, _, h₂⟩ | ⟨w₂, h₂, ⟨_, _, h₃⟩ | ⟨_, h₃⟩⟩⟩
  · exact syncFds_synced h₁
  · exact (syncFds_synced h₁).trans (syncDirs_synced h₂)
  · exact ((syncFds_synced h₁).trans (syncDirs_synced h₂)).trans (syncFs_synced h₃)
  · exact ((syncFds_synced h₁).trans (syncDirs_synced h₂)).trans (syncFs_synced h₃)

/-! ## Nothing to sync -/

/-- No mark is dirty. -/
structure Marks.Settled (m : Marks) : Prop where
  fd : ∀ n, m.fdState n ≠ .dirty
  dir : m.dirState ≠ .dirty
  fs : m.fsState ≠ .dirty

theorem syncFds_settled {w : World} (h : w.st.marks.Settled) (l : List Nat) : syncFds l w = (.ok (), w) := by
  induction l with
  | nil => rfl
  | cons n l ih =>
    rw [syncFds, if_neg (h.fd n)]
    exact ih

/-- A checkpoint then does nothing. -/
theorem checkpoint_settled {w : World} (h : w.st.marks.Settled) : storageSyncCheckpoint w = (0, w) := by
  unfold storageSyncCheckpoint
  rw [syncFds_settled h]
  dsimp only
  rw [syncDirs, if_neg h.dir]
  dsimp only
  rw [syncFs, if_neg h.fs]

/-! ## A request -/

/-- Nothing happened, or a checkpoint was run, to its end or not. -/
def Checkpointed (w w₁ : World) : Prop := w₁ = w ∨ ∃ rc, storageSyncCheckpoint w = (rc, w₁)

theorem Checkpointed.synced {w w₁ : World} (h : Checkpointed w w₁) : Synced w w₁ := by
  rcases h with rfl | ⟨rc, hc⟩
  · exact Synced.refl _
  · exact checkpoint_synced hc

/-- A request is refused, or its command is carried out; a checkpoint may
come first. -/
theorem serve_cases {w w' : World} {q : Request} {rc : Int} (h : serve w q = (rc, w')) :
    ∃ w₁, Checkpointed (receive w q) w₁ ∧ (q.msg.preCommit = false → w₁ = receive w q) ∧
      ((∃ e, e ≠ .noError ∧ Refused w₁ q.msg e w') ∨
      dispatch w₁ q.msg w₁.st.reqBuffer q.payload.length = (rc, w')) := by
  simp only [serve, handleReq] at h
  split at h
  · exact ⟨_, .inl rfl, fun _ => rfl, .inl ⟨_, by simp, refused h⟩⟩
  split at h
  · next hpre =>
    have hno {w₁ : World} (hf : q.msg.preCommit = false) : w₁ = receive w q := by
      rw [hpre] at hf
      cases hf
    generalize hc : storageSyncCheckpoint (receive w q) = x at h
    obtain ⟨rc₁, w₁⟩ := x
    dsimp only at h
    split at h
    · exact ⟨w₁, .inr ⟨rc₁, hc⟩, hno, .inl ⟨_, by simp, refused h⟩⟩
    · refine ⟨w₁, .inr ⟨rc₁, hc⟩, hno, .inr ?_⟩
      rw [(checkpoint_synced hc).buf]
      exact h
  · exact ⟨_, .inl rfl, fun _ => rfl, .inr h⟩

end Storage
