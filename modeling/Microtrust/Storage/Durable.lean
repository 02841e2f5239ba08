/-
Durability: what a checkpoint that returned 0 leaves unwritten.

Every part of a checkpoint, also one that stops half way, keeps each pending
change covered by a mark that is set; a checkpoint that returns 0 leaves no
mark set. So all that can still be pending then is what was written through
a handle whose close was answered with an error.
-/
import Microtrust.Storage.Cover
import Microtrust.Storage.Homes

namespace Storage

open Lib

/-! ## The checkpoint -/

section

variable {R : List (Nat × Desc)} {live lost : List Nat} {w w' : World}

/-- Syncs alone, with every mark left as it is. -/
theorem Safe.synced (hs : Safe R live lost w.st.marks w.kern) (hy : Synced w w') (hst : w'.st = w.st) :
    Safe R live lost w'.st.marks w'.kern := by
  obtain ⟨p, hp⟩ := hy.kern
  have hfds : w'.kern.fds = w.kern.fds := by rw [hp]; rfl
  rw [hst]
  exact hs.mono (fun _ hx => hx) (fun _ ho => ho) subset_rfl hfds hy.pending

/-- A mark is cleared once another mark that is set answers in its place, or
nothing it answers for is pending. -/
theorem Safe.clear {m m' : Marks} {k : Kernel} {x : Mark} (hs : Safe R live lost m k)
    (hm : m.set \ {x} ⊆ m'.set)
    (hx : ∀ c ∈ k.pending, covers R k x c → ∃ y ∈ m.set, y ≠ x ∧ covers R k y c) :
    Safe R live lost m' k := by
  refine ⟨hs.onRoots, ?_, hs.live⟩
  have hclear : Tracked (covers R k) (m.set \ {x}) {c | c ∈ k.pending ∧ ¬ Lost lost c} :=
    hs.tracked.clear subset_rfl fun c hc hcov => hx c hc.1 hcov
  exact hclear.mono subset_rfl hm fun _ _ _ _ hc => hc

theorem set_markClean (w : World) (n : Nat) : w.st.marks.set \ {.fd n} ⊆ (markClean w n).st.marks.set := by
  intro x hmem
  obtain ⟨hx, hne⟩ := hmem
  cases x with
  | fd y =>
    have he : y ≠ n := fun he => hne (by rw [he]; rfl)
    exact ⟨hx.1, (Function.update_of_ne he ..).trans hx.2⟩
  | dir => exact hx
  | fs => exact hx

/-- The file systems' mark answers for everything. -/
theorem Safe.fs {m : Marks} {k : Kernel} {x : Mark} (hs : Safe R live lost m k) (hfs : m.fsState = .dirty)
    (hx : x ≠ .fs) : ∀ c ∈ k.pending, covers R k x c → ∃ y ∈ m.set, y ≠ x ∧ covers R k y c :=
  fun c hc _ => ⟨.fs, hfs, hx.symm, hs.onRoots c hc⟩

theorem eq_dirty {s : SyncState} (hu : s ≠ .unused) (hc : s ≠ .clean) : s = .dirty := by
  cases s with
  | unused => exact absurd rfl hu
  | clean => exact absurd rfl hc
  | dirty => rfl

theorem syncFds_safe {l : List Nat} {res} (hs : Safe R live lost w.st.marks w.kern)
    (hfs : w.st.marks.fsState ≠ .unused) (h : syncFds l w = (res, w')) :
    Safe R live lost w'.st.marks w'.kern := by
  induction l generalizing w with
  | nil =>
    obtain ⟨_, rfl⟩ := Prod.mk.inj h
    exact hs
  | cons n l ih =>
    unfold syncFds at h
    split at h
    · split at h
      · split at h
        · next he =>
          obtain ⟨_, rfl⟩ := Prod.mk.inj h
          obtain ⟨hy, hst⟩ := syncCall_fsync.synced he
          exact hs.synced hy hst
        · next w₁ he =>
          obtain ⟨hy, hst⟩ := syncCall_fsync.synced he
          obtain ⟨_, _, d, hd, hk⟩ := syncCall_fsync w n _ w₁ he
          refine ih ?_ (by simp only [markClean, World.setMarks, hst]; exact hfs) h
          refine (hs.synced hy hst).clear (set_markClean w₁ n) ?_
          -- what the descriptor's mark covers was just settled
          intro c hc hcov
          obtain ⟨d', hd', hsync, _⟩ := hcov
          rw [hk] at hc hd'
          rw [Kernel.desc_natCast] at hd
          have he : d = d' := Option.some.inj (hd.symm.trans hd')
          rw [← he, (Kernel.mem_pending_settle.mp hc).2] at hsync
          cases hsync
      · next hclean =>
        refine ih (w := markClean w n) ?_ hfs h
        exact hs.clear (set_markClean w n) (hs.fs (eq_dirty hfs hclean) (by simp))
    · exact ih hs hfs h

theorem syncFds_clean {l : List Nat} {u} (h : syncFds l w = (.ok u, w')) {n : Nat}
    (hn : w'.st.marks.fdState n = .dirty) : w.st.marks.fdState n = .dirty ∧ n ∉ l := by
  induction l generalizing w with
  | nil =>
    obtain ⟨_, rfl⟩ := Prod.mk.inj h
    exact ⟨hn, by simp⟩
  | cons i l ih =>
    have hstep {w₁ : World} (hst : w₁.st = w.st) (h : syncFds l (markClean w₁ i) = (.ok u, w')) :
        w.st.marks.fdState n = .dirty ∧ n ∉ i :: l := by
      obtain ⟨hd, hnl⟩ := ih h
      simp only [markClean, World.setMarks, hst] at hd
      have hne : n ≠ i := by
        rintro rfl
        simp at hd
      rw [Function.update_of_ne hne] at hd
      exact ⟨hd, by simp [hne, hnl]⟩
    unfold syncFds at h
    split at h
    · split at h
      · split at h
        · cases h
        · next he => exact hstep (syncCall_fsync.synced he).2 h
      · exact hstep rfl h
    · next hi =>
      obtain ⟨hd, hnl⟩ := ih h
      have hne : n ≠ i := by
        rintro rfl
        exact hi hd
      exact ⟨hd, by simp [hne, hnl]⟩

/-- The roots that are synced are the open descriptors of `R`. -/
def SyncsAll (R : List (Nat × Desc)) (w : World) : Prop :=
  ∀ x ∈ R, (x.1 : Int) ∈ rootFds w.st.roots ∧ w.kern.fds x.1 = some x.2

theorem syncDirs_safe {res} (hs : Safe R live lost w.st.marks w.kern) (hall : SyncsAll R w)
    (hfs : w.st.marks.fsState ≠ .unused) (h : syncDirs w = (res, w')) :
    Safe R live lost w'.st.marks w'.kern := by
  have hset (w : World) : w.st.marks.set \ {.dir} ⊆
      (w.setMarks { w.st.marks with dirState := .clean }).st.marks.set := by
    intro x hmem
    obtain ⟨hx, hne⟩ := hmem
    cases x with
    | fd y => exact hx
    | dir => exact absurd rfl hne
    | fs => exact hx
  unfold syncDirs at h
  split at h
  · split at h
    · split at h
      · next he =>
        obtain ⟨_, rfl⟩ := Prod.mk.inj h
        obtain ⟨hy, hst⟩ := syncRoots_synced syncCall_fsync he
        exact hs.synced hy hst
      · next w₁ he =>
        obtain ⟨_, rfl⟩ := Prod.mk.inj h
        obtain ⟨hy, hst⟩ := syncRoots_synced syncCall_fsync he
        refine (hs.synced hy hst).clear (hset w₁) ?_
        intro c hc hcov
        obtain ⟨x, hx, hsync⟩ := hcov
        obtain ⟨hroot, hopen⟩ := hall x hx
        rw [syncRoots_ok syncCall_fsync he hroot ((Kernel.desc_natCast ..).trans hopen) c hc] at hsync
        cases hsync
    · next hclean =>
      obtain ⟨_, rfl⟩ := Prod.mk.inj h
      exact hs.clear (hset w) (hs.fs (eq_dirty hfs hclean) (by simp))
  · obtain ⟨_, rfl⟩ := Prod.mk.inj h
    exact hs

theorem syncFs_safe {res} (hs : Safe R live lost w.st.marks w.kern) (hall : SyncsAll R w)
    (h : syncFs w = (res, w')) : Safe R live lost w'.st.marks w'.kern := by
  unfold syncFs at h
  split at h
  · split at h
    · next he =>
      obtain ⟨_, rfl⟩ := Prod.mk.inj h
      obtain ⟨hy, hst⟩ := syncRoots_synced syncCall_syncfs he
      exact hs.synced hy hst
    · next w₁ he =>
      obtain ⟨_, rfl⟩ := Prod.mk.inj h
      obtain ⟨hy, hst⟩ := syncRoots_synced syncCall_syncfs he
      have hs₁ := hs.synced hy hst
      have hnone : ∀ c ∈ w₁.kern.pending, False := by
        intro c hc
        obtain ⟨x, hx, hfs⟩ := hs₁.onRoots c hc
        obtain ⟨hroot, hopen⟩ := hall x hx
        have hno := syncRoots_ok syncCall_syncfs he hroot ((Kernel.desc_natCast ..).trans hopen) c hc
        simp only [beq_eq_false_iff_ne] at hno
        exact hno hfs
      refine ⟨fun c hc => (hnone c hc).elim, fun c hc => (hnone c hc.1).elim, hs₁.live⟩
  · obtain ⟨_, rfl⟩ := Prod.mk.inj h
    exact hs

theorem syncDirs_clean {u} (h : syncDirs w = (.ok u, w')) :
    w'.st.marks.dirState ≠ .dirty ∧ w'.st.marks.fdState = w.st.marks.fdState := by
  unfold syncDirs at h
  split at h
  · split at h
    · split at h
      · cases h
      · next w₁ he =>
        obtain ⟨_, rfl⟩ := Prod.mk.inj h
        have hst := (syncRoots_synced syncCall_fsync he).2
        exact ⟨by simp [World.setMarks], by simp only [World.setMarks, hst]⟩
    · obtain ⟨_, rfl⟩ := Prod.mk.inj h
      exact ⟨by simp [World.setMarks], rfl⟩
  · next hd =>
    obtain ⟨_, rfl⟩ := Prod.mk.inj h
    exact ⟨hd, rfl⟩

theorem syncFs_clean {u} (h : syncFs w = (.ok u, w')) :
    w'.st.marks.fsState ≠ .dirty ∧ w'.st.marks.dirState = w.st.marks.dirState ∧
      w'.st.marks.fdState = w.st.marks.fdState := by
  unfold syncFs at h
  split at h
  · split at h
    · cases h
    · next w₁ he =>
      obtain ⟨_, rfl⟩ := Prod.mk.inj h
      have hst := (syncRoots_synced syncCall_syncfs he).2
      exact ⟨by simp [World.setMarks], by simp only [World.setMarks, hst], by simp only [World.setMarks, hst]⟩
  · next hd =>
    obtain ⟨_, rfl⟩ := Prod.mk.inj h
    exact ⟨hd, rfl, rfl⟩

/-- What each part of a checkpoint keeps, a checkpoint keeps. -/
theorem checkpoint_keeps {rc : Int} {I : Marks → Kernel → Prop}
    (hfds : ∀ w w' l res, I w.st.marks w.kern → w.st.marks.fsState ≠ .unused → syncFds l w = (res, w') →
      I w'.st.marks w'.kern)
    (hdirs : ∀ w w' res, I w.st.marks w.kern → SyncsAll R w → w.st.marks.fsState ≠ .unused →
      syncDirs w = (res, w') → I w'.st.marks w'.kern)
    (hsys : ∀ w w' res, I w.st.marks w.kern → SyncsAll R w → syncFs w = (res, w') → I w'.st.marks w'.kern)
    (hs : I w.st.marks w.kern) (hall : SyncsAll R w) (hfs : w.st.marks.fsState ≠ .unused)
    (h : storageSyncCheckpoint w = (rc, w')) : I w'.st.marks w'.kern := by
  have hall' {w₁ : World} (hy : Synced w w₁) : SyncsAll R w₁ := by
    intro x hx
    obtain ⟨hroot, hopen⟩ := hall x hx
    refine ⟨by rw [hy.frame.roots]; exact hroot, ?_⟩
    rw [← Kernel.desc_natCast, hy.desc, Kernel.desc_natCast]
    exact hopen
  rcases checkpoint_cases h with ⟨_, e, h₁⟩ | ⟨w₁, h₁, h⟩
  · exact hfds _ _ _ _ hs hfs h₁
  have hs₁ := hfds _ _ _ _ hs hfs h₁
  have hy₁ := syncFds_synced h₁
  have hfs₁ : w₁.st.marks.fsState ≠ .unused := by rw [(syncFds_marks h₁).1]; exact hfs
  rcases h with ⟨_, e, h₂⟩ | ⟨w₂, h₂, h⟩
  · exact hdirs _ _ _ hs₁ (hall' hy₁) hfs₁ h₂
  have hs₂ := hdirs _ _ _ hs₁ (hall' hy₁) hfs₁ h₂
  have hy₂ := hy₁.trans (syncDirs_synced h₂)
  rcases h with ⟨_, e, h₃⟩ | ⟨_, h₃⟩
  · exact hsys _ _ _ hs₂ (hall' hy₂) h₃
  · exact hsys _ _ _ hs₂ (hall' hy₂) h₃

/-- A checkpoint keeps the pending changes covered, wherever it stops. -/
theorem checkpoint_safe {rc : Int} (hs : Safe R live lost w.st.marks w.kern) (hall : SyncsAll R w)
    (hfs : w.st.marks.fsState ≠ .unused) (h : storageSyncCheckpoint w = (rc, w')) :
    Safe R live lost w'.st.marks w'.kern :=
  checkpoint_keeps (I := Safe R live lost) (fun _ _ _ _ hs hfs h => syncFds_safe hs hfs h)
    (fun _ _ _ hs hall hfs h => syncDirs_safe hs hall hfs h) (fun _ _ _ hs hall h => syncFs_safe hs hall h) hs hall hfs h

/-- A checkpoint that returned 0 left no mark set. -/
theorem checkpoint_clean (h : storageSyncCheckpoint w = (0, w')) : ∀ x, x ∉ w'.st.marks.set := by
  rcases checkpoint_cases h with ⟨he, _⟩ | ⟨w₁, h₁, ⟨he, _⟩ | ⟨w₂, h₂, ⟨he, _⟩ | ⟨_, h₃⟩⟩⟩
  · cases he
  · cases he
  · cases he
  obtain ⟨hfs, hdir, hfd⟩ := syncFs_clean h₃
  obtain ⟨hdir₂, hfd₂⟩ := syncDirs_clean h₂
  intro x hx
  cases x with
  | fd n =>
    obtain ⟨hn, hd⟩ := hx
    rw [hfd, hfd₂] at hd
    exact (syncFds_clean h₁ hd).2 (List.mem_range.mpr hn)
  | dir => exact hdir₂ (hdir ▸ hx)
  | fs => exact hfs hx

end

/-! ## Requests -/

/-- A client that uses only handles it holds, opens files of configured
roots only, and names them without a slash. -/
structure Legit (cfg : Config) (H : Hist) (q : Request) : Prop where
  live : UsesLive H q
  opens : OpensConfigured cfg q
  name : q.cmd = some .fileOpen ∨ q.cmd = some .fileDelete → 47 ∉ q.name

theorem next_lost (H : Hist) (q : Request) (w w' : World) : ∀ o ∈ H.lost, o ∈ (H.next q w w').lost := by
  intro o ho
  simp only [Hist.next]
  split
  · split
    · exact ho
    · split
      · exact List.mem_cons_of_mem _ ho
      · exact ho
  · exact ho

theorem next_lost_close {H : Hist} {q : Request} {w w' : World} {msg e out m k} {x : Nat} {d : Desc}
    (ha : Answers w msg e out m k w') (hcmd : q.cmd = some .fileClose) (hx : q.handle = some x)
    (he : e ≠ .noError) (hd : w.kern.desc (toInt32 x) = some d) : d.oid ∈ (H.next q w w').lost := by
  simp [Hist.next, hcmd, hx, ha.answered, he, hd]

theorem Prepared.eq {name : Bytes} {k k' : Kernel} (h : Prepared name k k') (hname : 47 ∉ name) : k' = k := by
  rcases h with h | ⟨hmem, _⟩
  · exact h
  · exact absurd hmem hname

theorem Writes.tree {fd : Int} {k k' : Kernel} (h : Writes fd k k') : k'.tree = k.tree ∧ k'.fsOf = k.fsOf := by
  induction h with
  | refl => exact ⟨rfl, rfl⟩
  | tail _ hw ih =>
    obtain ⟨_, _, _, _, _, rfl⟩ := hw
    exact ih

/-- One request keeps the pending changes covered and the roots in place. -/
theorem Safe.effect {cfg : Config} {R : List (Nat × Desc)} {H : Hist} {q : Request} {r : Roots}
    {m m' : Marks} {k k' : Kernel} {e : Err} {out : Option Bytes} {w w' : World}
    (hs : Safe R H.live H.lost m k) (hh : Held R H.live m k) (hr : Rooted cfg R r) (hhome : Homes cfg R k)
    (hdata : cfg.dataRoot.isSome) (hq : Legit cfg H q) (hdesc : ∀ fd, k.desc fd = w.kern.desc fd)
    (heff : Effect r q m k e out m' k') (ha : Answers w q.msg e out m' k' w') :
    Safe R (H.next q w w').live (H.next q w w').lost m' k' ∧ Homes cfg R k' := by
  have hlost := next_lost H q w w'
  have hdir (m : Marks) : m.set ⊆ Marks.set { m with dirState := .dirty } := by
    intro x hx
    cases x with
    | fd n => exact hx
    | dir => exact rfl
    | fs => exact hx
  cases heff with
  | quiet hopen _ =>
    exact ⟨hs.mono (next_live ha hopen) hlost subset_rfl rfl fun _ hc => hc, hhome⟩
  | @write x _ _ hopen _ hx hw =>
    rw [hh.toInt32 (hq.live x hx)] at hw
    refine ⟨?_, hhome.congr hw.tree.1 hw.tree.2⟩
    exact (hs.writes (hq.live x hx) hw).mono (next_live ha fun hc => absurd hc hopen) hlost subset_rfl rfl
      fun _ hc => hc
  | @closeFailed x _ hcmd hx he =>
    obtain ⟨_, _, d, hd⟩ := hh.live x (hq.live x hx)
    have hd' : w.kern.desc (toInt32 x) = some d := by
      rw [← hdesc, hh.toInt32 (hq.live x hx), Kernel.desc_natCast]
      exact hd
    exact ⟨hs.closeFailed hd (next_live ha (by simp [hcmd])) hlost (next_lost_close ha hcmd hx he hd'), hhome⟩
  | @closed x _ d hcmd hx hd =>
    rw [hh.toInt32 (hq.live x hx)] at hd ⊢
    rw [Kernel.desc_natCast] at hd
    refine ⟨hs.closed hd (fun y hy => ?_) hlost, hhome.congr rfl rfl⟩
    rw [next_live_close hcmd hx] at hy
    simpa using hy
  | deleteFailed hcmd _ =>
    exact ⟨hs.mono (next_live ha (by simp [hcmd])) hlost (hdir m) rfl fun _ hc => hc, hhome⟩
  | deleted hcmd hu =>
    obtain ⟨p, nd, hp, hnd, hnd', rfl⟩ := Kernel.unlink_ok hu
    obtain ⟨dir, hdir'⟩ := Option.isSome_iff_exists.mp hdata
    rw [hr.ssdirName, hdir'] at hp
    have hroot : RootDir cfg k p.dropLast := by
      rcases hhome.child (.inl hdir') (hq.name (.inr hcmd)) hp with hn | hn
      · rw [hnd, Option.some.injEq] at hn
        exact absurd hn hnd'
      · exact hn
    obtain ⟨x, hx, hobj, hfs⟩ := hhome.placed _ hroot
    refine ⟨?_, hhome.update rfl rfl hroot (by rw [hnd]; simpa using hnd') (.inl rfl)⟩
    have hs₁ : Safe R (H.next q w w').live (H.next q w w').lost { m with dirState := .dirty } k :=
      hs.mono (next_live ha (by simp [hcmd])) hlost (hdir m) rfl fun _ hc => hc
    exact hs₁.logged (x := .dir) rfl ⟨rfl, rfl⟩ ⟨x, hx, hfs.symm⟩ rfl ⟨x, hx, by simp [Desc.syncs, hobj]⟩
  | openFailed hcmd he hp =>
    rw [hp.eq (hq.name (.inl hcmd))]
    exact ⟨hs.mono (next_live ha fun _ => he) hlost subset_rfl rfl fun _ hc => hc, hhome⟩
  | @opened fl p n d k₁ _ hcmd hp hrw hloc ho =>
    obtain rfl := hp.eq (hq.name (.inl hcmd))
    obtain ⟨hfs, hnew⟩ := hhome.opened hr hq.opens hcmd (hq.name (.inl hcmd)) hrw hloc ho
    rw [next_live_open ha hcmd (lt_of_lt_of_le ho.lt k₁.limit_le)]
    constructor
    · refine (hs.opened ho hfs fun hn => ?_).mono (fun _ hx => hx) hlost subset_rfl rfl fun _ hc => hc
      obtain ⟨x, hx, hobj, _⟩ := hhome.placed _ (hnew hn)
      exact ⟨x, hx, hobj⟩
    · rcases ho.place with ⟨nd, _, _, _, _, htree, _⟩ | ⟨hnone, _, _, _, htree, _⟩
      · exact hhome.congr htree ho.fsOf
      · exact hhome.update htree ho.fsOf (hnew hnone) (by simp [hnone]) (.inr ⟨_, rfl⟩)

/-! ## Runs -/

theorem Writes.grows {fd : Int} {k k' : Kernel} (h : Writes fd k k') : k.Grows k' := by
  induction h with
  | refl => exact .refl _
  | tail _ hw ih =>
    obtain ⟨_, _, _, _, _, rfl⟩ := hw
    exact ih.trans (Kernel.Logged.grows ⟨rfl, rfl⟩ rfl)

theorem Prepared.grows {name : Bytes} {k k' : Kernel} (h : Prepared name k k') : k.Grows k' := by
  rcases h with rfl | ⟨_, p, _, rfl⟩
  · exact .refl _
  · exact Kernel.Logged.grows ⟨rfl, rfl⟩ rfl

/-- No request takes a change out of the log. -/
theorem Effect.grows {r : Roots} {q : Request} {m m' : Marks} {k k' : Kernel} {e : Err} {out : Option Bytes}
    (h : Effect r q m k e out m' k') : k.Grows k' := by
  cases h with
  | quiet _ _ => exact .refl _
  | write _ _ _ hw => exact hw.grows
  | closeFailed _ _ _ => exact .refl _
  | closed _ _ _ => exact .fewer rfl (fun c hc => (Kernel.mem_pending_settle.mp hc).1) rfl
  | deleteFailed _ _ => exact .refl _
  | deleted _ hu =>
    obtain ⟨_, _, _, _, _, rfl⟩ := Kernel.unlink_ok hu
    exact Kernel.Logged.grows ⟨rfl, rfl⟩ rfl
  | openFailed _ _ hp => exact hp.grows
  | opened _ hp _ _ ho => exact hp.grows.trans ho.grows

/-- The invariant of a run. -/
structure Sound (cfg : Config) (R : List (Nat × Desc)) (H : Hist) (w : World) : Prop where
  rooted : Rooted cfg R w.st.roots
  held : Held R H.live w.st.marks w.kern
  safe : Safe R H.live H.lost w.st.marks w.kern
  homes : Homes cfg R w.kern
  synced : ∀ x ∈ R, (x.1 : Int) ∈ rootFds w.st.roots
  acked : ∀ c ∈ H.acked, c ∈ w.kern.made

theorem Sound.syncsAll {cfg : Config} {R : List (Nat × Desc)} {H : Hist} {w : World} (h : Sound cfg R H w)
    (q : Request) : SyncsAll R (receive w q) :=
  fun x hx => ⟨h.synced x hx, h.held.roots x hx⟩

theorem start_sound {cfg : Config} (hd : cfg.dataRoot.isSome) {env mmcRead k w} (hn : NoDevices cfg k)
    (h : start cfg env mmcRead k = some w) : ∃ R, Sound cfg R ⟨[], [], []⟩ w := by
  obtain ⟨R₀, hl₀, _⟩ := start_launched h
  have hl := hl₀.restrict hd
  refine ⟨_, hl.rooted, ⟨hl.boot.held, by simp, fun n _ hdirty => absurd hdirty (hl.boot.fd n), ?_⟩,
    ⟨?_, ?_, by simp⟩, hl.homes hn, ?_, by simp⟩
  · rw [hl.boot.fs]
    simp
  · rw [hl.boot.pending]
    simp
  · intro c hc
    obtain ⟨hc, _⟩ := hc
    rw [hl.boot.pending] at hc
    cases hc
  · intro x hx
    simpa using (List.mem_filter.mp hx).2

theorem Sound.step {cfg : Config} (hd : cfg.dataRoot.isSome) {R : List (Nat × Desc)} {H : Hist} {w w' : World}
    {q : Request} (h : Sound cfg R H w) (hq : Legit cfg H q) (hserve : serve w q = (0, w')) :
    Sound cfg R (H.next q w w') w' := by
  obtain ⟨w₁, e, out, m, k, hc, ha, heff⟩ := serve_effect hserve
  have hy := hc.synced
  have hheld : Held R H.live w₁.st.marks w₁.kern := Held.synced (w := receive w q) h.held hy
  have hsafe : Safe R H.live H.lost w₁.st.marks w₁.kern := by
    rcases hc with rfl | ⟨rc, hc⟩
    · exact h.safe
    · exact checkpoint_safe (w := receive w q) h.safe (h.syncsAll q) h.held.fs hc
  have hhomes : Homes cfg R w₁.kern := by
    obtain ⟨p, hp⟩ := hy.kern
    rw [hp]
    exact h.homes.congr rfl rfl
  have hdesc (fd : Int) : w₁.kern.desc fd = w.kern.desc fd := hy.desc fd
  obtain ⟨hsafe', hhomes'⟩ := hsafe.effect hheld h.rooted hhomes hd hq hdesc heff ha
  have hmade : w.kern.made <+: k.made := by
    obtain ⟨p, hp⟩ := hy.kern
    have hgrows := heff.grows.made
    rw [hp] at hgrows
    exact hgrows
  refine ⟨ha.roots ▸ h.rooted, ?_, ?_, ?_, ha.roots ▸ h.synced, fun c hc => ?_⟩
  · rw [ha.marks, ha.kern]
    exact hheld.effect hq.live heff ha
  · rw [ha.marks, ha.kern]
    exact hsafe'
  · rw [ha.kern]
    exact hhomes'
  · simp only [Hist.next] at hc
    rw [ha.kern] at hc ⊢
    have hold (hc : c ∈ H.acked) : c ∈ k.made := hmade.subset (h.acked c hc)
    split at hc
    · rcases List.mem_append.mp hc with hc | hc
      · exact hold hc
      · exact List.mem_of_mem_drop hc
    · exact hold hc

theorem Run.sound {cfg : Config} (hd : cfg.dataRoot.isSome) {H : Hist} {w : World}
    (h : Run cfg (NoDevices cfg) (Legit cfg) H w) : ∃ R, Sound cfg R H w := by
  refine h.invariant (fun H w => ∃ R, Sound cfg R H w) ?_ ?_
  · intro env mmcRead k w hn hs
    exact start_sound hd hn hs
  · intro H w q w' hsound hq hserve
    obtain ⟨R, hs⟩ := hsound
    exact ⟨R, hs.step hd hq hserve⟩

/-- The change was made and has reached the disk. -/
def Durable (k : Kernel) (c : Change) : Prop := c ∈ k.made ∧ c ∉ k.pending

def createData : Request := request .fileOpen 0 [1, 0, 0, 0, 120] (by decide)

/-- Delete it. -/
def deleteData : Request := request .fileDelete 0 [0, 0, 0, 0, 120] (by decide)

def closeHandle (h : UInt8) : Request := request .fileClose 0 [h, 0, 0, 0] (by simp [reqBufferSize])

/-- One byte at offset 0, through handle 5. -/
def writeData : Request :=
  request .fileWrite 0 [0, 0, 0, 0, 0, 0, 0, 0, 5, 0, 0, 0, 0, 0, 0, 0, 7] (by decide)

def dataCreated : World := (serve dataStarted createData).2

def dataWritten : World := (serve dataCreated writeData).2

def histCreated : Hist := Hist.next ⟨[], [], []⟩ createData dataStarted dataCreated

theorem bench_noDevices : NoDevices dataOnly bench := by
  intro p _ ino dev
  simp only [Kernel.node, bench]
  split
  · simp
  · split
    · simp
    · split <;> simp

theorem dataWritten_run :
    Run dataOnly (NoDevices dataOnly) (Legit dataOnly) (histCreated.next writeData dataCreated dataWritten)
      dataWritten := by
  have hcreate : Legit dataOnly ⟨[], [], []⟩ createData := by
    refine ⟨fun h hh => ?_, fun _ => rfl, fun _ => by decide⟩
    cases hh
  have hwrite : Legit dataOnly histCreated writeData := by
    refine ⟨fun h hh => ?_, fun hc => ?_, fun hc => ?_⟩
    · obtain rfl : 5 = h := Option.some.inj ((by decide : writeData.handle = some 5).symm.trans hh)
      decide
    · exact absurd hc (by decide)
    · exact absurd hc (by decide)
  exact ((Run.start bench_noDevices (Option.some_get _).symm).next hcreate rfl).next hwrite rfl

/-- One more request of a run. -/
def served (x : Hist × World) (q : Request) : Hist × World :=
  (x.1.next q x.2 (serve x.2 q).2, (serve x.2 q).2)

theorem Run.served {cfg : Config} {disk : Kernel → Prop} {ok : Hist → Request → Prop} {x : Hist × World} {q : Request}
    (h : Run cfg disk ok x.1 x.2) (hq : ok x.1 q) (hs : (serve x.2 q).1 = 0) :
    Run cfg disk ok (served x q).1 (served x q).2 :=
  h.next hq (Prod.ext hs rfl)

end Storage
