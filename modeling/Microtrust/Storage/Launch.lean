/-
Descriptors along a run, and when a checkpoint can succeed.

Along every run whose clients use only handles they hold, the roots stay
open, a handle in use is open and is no root, and a marked slot of the table
is an open descriptor. So no sync of a checkpoint can fail for want of a
descriptor, but for one: the data root is synced whether it was opened or
not, while the other roots are synced only when they were.
-/
import Microtrust.Storage.Step

namespace Storage

open Lib

/-- The requests of a client that uses only handles it holds. -/
def UsesLive (H : Hist) (q : Request) : Prop := ∀ h, q.handle = some h → h ∈ H.live

/-- The requests that open files of configured roots only. -/
def OpensConfigured (cfg : Config) (q : Request) : Prop :=
  q.cmd = some .fileOpen →
    if q.openFlags.testBit openPersistentFile then cfg.persistentRoot.isSome
    else if q.openFlags.testBit openProinfoFile then cfg.proinfo
    else cfg.dataRoot.isSome

structure Held (R : List (Nat × Desc)) (live : List Nat) (m : Marks) (k : Kernel) : Prop where
  roots : ∀ x ∈ R, k.fds x.1 = some x.2
  live : ∀ h ∈ live, h < 2 ^ 31 ∧ (∀ x ∈ R, x.1 ≠ h) ∧ ∃ d, k.fds h = some d
  dirty : ∀ n < fdTblSize, m.fdState n = .dirty → ∃ d, k.fds n = some d
  fs : m.fsState ≠ .unused

section

variable {R : List (Nat × Desc)} {live live' : List Nat} {m : Marks} {k k' : Kernel}

theorem Held.fds (h : Held R live m k) (hk : k'.fds = k.fds) : Held R live m k' :=
  ⟨by rw [hk]; exact h.roots, by rw [hk]; exact h.live, by rw [hk]; exact h.dirty, h.fs⟩

theorem Held.mono (h : Held R live m k) (hl : ∀ x ∈ live', x ∈ live) : Held R live' m k :=
  ⟨h.roots, fun x hx => h.live x (hl x hx), h.dirty, h.fs⟩

/-- A handle in use is its descriptor. -/
theorem Held.toInt32 (h : Held R live m k) {x : Nat} (hx : x ∈ live) : toInt32 x = x :=
  toInt32_of_lt (h.live x hx).1

theorem Held.synced {w w' : World} (h : Held R live w.st.marks w.kern) (hs : Synced w w') :
    Held R live w'.st.marks w'.kern := by
  obtain ⟨p, hp⟩ := hs.kern
  have hfds : w'.kern.fds = w.kern.fds := by rw [hp]; rfl
  have h' := h.fds hfds
  refine ⟨h'.roots, h'.live, fun n hn hd => ?_, fun hu => ?_⟩
  · rcases hs.fd n with he | he
    · exact h'.dirty n hn (he ▸ hd)
    · rw [he] at hd
      cases hd
  · rcases hs.fs with he | he
    · exact h.fs (he ▸ hu)
    · rw [he] at hu
      cases hu

theorem Held.lookupFd (h : Held R live m k) {x : Nat} (hx : x ∈ live) :
    Held R live (Storage.lookupFd m x true).2 k := by
  obtain ⟨_, _, d, hd⟩ := h.live x hx
  simp only [Storage.lookupFd, ite_true]
  split
  · refine ⟨h.roots, h.live, fun n hn hdirty => ?_, h.fs⟩
    by_cases he : n = x
    · exact ⟨d, he ▸ hd⟩
    · exact h.dirty n hn (by simpa [Function.update_of_ne he] using hdirty)
  · exact ⟨h.roots, h.live, h.dirty, by simp⟩

theorem Held.removeFd (h : Held R live m k) (x : Nat) : Held R live (Storage.removeFd m x).2 k := by
  simp only [Storage.removeFd]
  split
  · refine ⟨h.roots, h.live, fun n hn hdirty => ?_, h.fs⟩
    by_cases he : n = x
    · subst he
      simp at hdirty
    · exact h.dirty n hn (by simpa [Function.update_of_ne he] using hdirty)
  · exact h

theorem Held.release (h : Held R live m k) {x : Nat} (hx : x ∈ live) (hl : ∀ y ∈ live', y ∈ live ∧ y ≠ x) :
    Held R live' (Storage.removeFd m x).2 (k.release x) := by
  have hne {n : Nat} (he : n ≠ x) : (k.release x).fds n = k.fds n := Function.update_of_ne he ..
  refine ⟨fun y hy => ?_, fun y hy => ?_, fun n hn hdirty => ?_, (h.removeFd x).fs⟩
  · rw [hne ((h.live x hx).2.1 y hy)]
    exact h.roots y hy
  · rw [hne (hl y hy).2]
    exact h.live y (hl y hy).1
  · have hnx : n ≠ x := by
      rintro rfl
      simp [Storage.removeFd, hn] at hdirty
    rw [hne hnx]
    exact (h.removeFd x).dirty n hn hdirty

theorem Held.opened {fl : OpenFlags} {p : Path} {n : Nat} {d : Desc} (h : Held R live m k)
    (ho : k.Opened fl p n d k') : Held R (n :: live) (insertFd m fl n).2 k' := by
  have hlt : n < 2 ^ 31 := lt_of_lt_of_le ho.lt k.limit_le
  have hne {y : Nat} {d'} (hy : k.fds y = some d') : k'.fds y = some d' := by
    rw [ho.fds, Function.update_of_ne]
    · exact hy
    · rintro rfl
      rw [ho.free] at hy
      cases hy
  have hself : k'.fds n = some d := by rw [ho.fds, Function.update_self]
  refine ⟨fun y hy => hne (h.roots y hy), fun y hy => ?_, fun y hy hdirty => ?_, ?_⟩
  · rcases List.mem_cons.mp hy with rfl | hy
    · refine ⟨hlt, fun x hx he => ?_, d, hself⟩
      have := h.roots x hx
      rw [he, ho.free] at this
      cases this
    · obtain ⟨hl, hr, d', hd'⟩ := h.live y hy
      exact ⟨hl, hr, d', hne hd'⟩
  · by_cases he : y = n
    · exact ⟨d, he ▸ hself⟩
    · have hold : m.fdState y = .dirty := by
        simp only [insertFd] at hdirty
        split at hdirty <;> split at hdirty <;> split at hdirty <;>
          simpa [Function.update_of_ne he] using hdirty
      obtain ⟨d', hd'⟩ := h.dirty y hy hold
      exact ⟨d', hne hd'⟩
  · have := h.fs
    simp only [insertFd]
    split <;> split <;> split <;> simp_all

end

theorem Writes.fds {fd : Int} {k k' : Kernel} (h : Writes fd k k') : k'.fds = k.fds := by
  induction h with
  | refl => rfl
  | tail _ hw ih =>
    obtain ⟨d, ino, data, _, _, rfl⟩ := hw
    exact ih

theorem Prepared.fds {name : Bytes} {k k' : Kernel} (h : Prepared name k k') : k'.fds = k.fds := by
  rcases h with rfl | ⟨_, p, _, rfl⟩
  · rfl
  · rfl

/-! ## The history -/

section

variable {w w' : World} {msg : Msg} {e : Err} {out : Option Bytes} {m : Marks} {k : Kernel} {H : Hist}
  {q : Request}

/-- No handle is gained but by an open that was answered well. -/
theorem next_live (ha : Answers w msg e out m k w') (hq : q.cmd = some .fileOpen → e ≠ .noError) :
    ∀ h ∈ (H.next q w w').live, h ∈ H.live := by
  intro h hh
  obtain ⟨rc, hr⟩ := ha.response
  simp only [Hist.next, hr, ha.answered] at hh
  split at hh
  · exact List.mem_of_mem_filter hh
  · next hcmd =>
    split at hh
    · simp only [hq hcmd, decide_false, Bool.false_eq_true, ite_false] at hh
      exact hh
    · exact hh
  · exact hh

theorem next_live_close {x : Nat} (hcmd : q.cmd = some .fileClose) (hx : q.handle = some x) :
    (H.next q w w').live = H.live.filter (· ≠ x) := by
  simp only [Hist.next, hcmd, hx]

theorem next_live_open {n : Nat} (ha : Answers w msg .noError (some (leBytes 4 n)) m k w')
    (hcmd : q.cmd = some .fileOpen) (hn : n < 2 ^ 31) : (H.next q w w').live = n :: H.live := by
  obtain ⟨rc, hr⟩ := ha.response
  have hle : le (leBytes 4 n) = n := le_leBytes_of_lt (by omega)
  simp only [Hist.next, hr, ha.answered, hcmd, decide_true, ite_true, hle]

end

/-- One request keeps the descriptors in order. -/
theorem Held.effect {R : List (Nat × Desc)} {H : Hist} {q : Request} {roots : Roots} {m m' : Marks}
    {k k' : Kernel} {e : Err} {out : Option Bytes} {w w' : World} (h : Held R H.live m k)
    (hq : UsesLive H q) (heff : Effect roots q m k e out m' k') (ha : Answers w q.msg e out m' k' w') :
    Held R (H.next q w w').live m' k' := by
  cases heff with
  | quiet hopen _ => exact h.mono (next_live ha hopen)
  | write hopen _ hx hw =>
    exact ((h.lookupFd (hq _ hx)).fds hw.fds).mono (next_live ha fun hc => absurd hc hopen)
  | @closeFailed x _ hcmd hx he =>
    exact (h.removeFd x).mono (next_live ha (by simp [hcmd]))
  | @closed x _ d hcmd hx hd =>
    rw [next_live_close hcmd hx, h.toInt32 (hq x hx)]
    have hs : Held R H.live m (k.settle d.syncs) := h.fds rfl
    exact hs.release (hq x hx) fun y hy => by simpa using hy
  | deleteFailed hcmd _ =>
    refine Held.mono ⟨h.roots, h.live, h.dirty, h.fs⟩ (next_live ha (by simp [hcmd]))
  | deleted hcmd hu =>
    obtain ⟨p, nd, _, _, _, rfl⟩ := Kernel.unlink_ok hu
    refine Held.mono ⟨h.roots, h.live, h.dirty, h.fs⟩ (next_live ha (by simp [hcmd]))
  | openFailed hcmd he hp => exact (h.fds hp.fds).mono (next_live ha fun _ => he)
  | @opened fl p fd d k₁ _ hcmd hp _ _ ho =>
    rw [next_live_open ha hcmd (lt_of_lt_of_le ho.lt k₁.limit_le)]
    exact (h.fds hp.fds).opened ho

/-! ## Runs -/

/-- The variables of the roots say what was configured, and with a data root
every root that is synced is one of `R`. -/
structure Rooted (cfg : Config) (R : List (Nat × Desc)) (r : Roots) : Prop where
  ssdirName : r.ssdirName = cfg.dataRoot
  ssPersistentDirName : r.ssPersistentDirName = cfg.persistentRoot
  ssProinfoName : r.ssProinfoName = cfg.proNode
  all : cfg.dataRoot.isSome → ∀ fd ∈ rootFds r, ∃ x ∈ R, fd = (x.1 : Nat)
  noData : cfg.dataRoot = none → r.ssdirFd = -1

/-- With a data root, every root that is synced was opened at its path. -/
theorem Launched.placed {cfg : Config} {k : Kernel} {R : List (Nat × Desc)} {w : World} (h : Launched cfg k R w)
    (hd : cfg.dataRoot.isSome) {fd : Int} (hfd : fd ∈ rootFds w.st.roots) : ∃ path, Placed k R path fd := by
  simp only [rootFds, List.mem_cons, List.mem_append] at hfd
  rcases hfd with rfl | hfd | hfd
  · obtain ⟨dir, hdir⟩ := Option.isSome_iff_exists.mp hd
    exact ⟨_, h.data dir hdir⟩
  · split at hfd
    · next hpos =>
      obtain rfl := List.mem_singleton.mp hfd
      cases hcfg : cfg.persistentRoot with
      | none => rw [h.noPersistent hcfg] at hpos; omega
      | some dir => exact ⟨_, (h.persistent dir hcfg).1⟩
    · cases hfd
  · split at hfd
    · next hpos =>
      obtain rfl := List.mem_singleton.mp hfd
      cases hcfg : cfg.proinfo with
      | false => rw [h.noProinfo hcfg] at hpos; omega
      | true => exact ⟨_, (h.proinfo hcfg).1⟩
    · cases hfd

theorem Launched.rooted {cfg : Config} {k : Kernel} {R : List (Nat × Desc)} {w : World}
    (h : Launched cfg k R w) : Rooted cfg R w.st.roots := by
  refine ⟨h.ssdirName, h.ssPersistentDirName, h.ssProinfoName, fun hd fd hfd => ?_, h.noData⟩
  obtain ⟨_, _, _, n, d, _, _, hmem, hn, _⟩ := h.placed hd hfd
  exact ⟨(n, d), hmem, hn⟩

/-- Along a run whose clients use only handles they hold, the descriptors
stay in order. -/
theorem Run.held {cfg : Config} {disk ok} (hok : ∀ H q, ok H q → UsesLive H q) {H : Hist} {w : World}
    (h : Run cfg disk ok H w) : ∃ R, Rooted cfg R w.st.roots ∧ Held R H.live w.st.marks w.kern := by
  refine h.invariant (fun H w => ∃ R, Rooted cfg R w.st.roots ∧ Held R H.live w.st.marks w.kern) ?_ ?_
  · intro env mmcRead k w _ hs
    obtain ⟨R, hl, _⟩ := start_launched hs
    refine ⟨R, hl.rooted, hl.boot.held, by simp, fun n _ hd => absurd hd (hl.boot.fd n), ?_⟩
    rw [hl.boot.fs]
    simp
  · intro H w q w' hheld hq hserve
    obtain ⟨R, hr, hh⟩ := hheld
    obtain ⟨w₁, e, out, m, k, hc, ha, heff⟩ := serve_effect hserve
    have hh₁ : Held R H.live w₁.st.marks w₁.kern := Held.synced (w := receive w q) hh hc.synced
    refine ⟨R, ha.roots ▸ hr, ?_⟩
    rw [ha.marks, ha.kern]
    exact hh₁.effect (hok H q hq) heff ha

/-! ## When a checkpoint succeeds -/

/-- Every sync of an open descriptor succeeds. -/
def SyncsSucceed (w : World) : Prop :=
  ∀ t fd, (w.env t (.fsync fd)).toBool = true ∧ (w.env t (.syncfs fd)).toBool = true

/-- A sync call that succeeds on every open descriptor. -/
def Works (env : Nat → Syscall → Reply) (sync : World → Int → Except Errno Unit × World) : Prop :=
  ∀ w fd d, w.env = env → w.kern.desc fd = some d → ∃ w', sync w fd = (.ok (), w')

theorem SyncsSucceed.fsync {w : World} (h : SyncsSucceed w) : Works w.env World.fsync := by
  intro w' fd d he hd
  have hr := (h w'.now fd).1
  rw [← he] at hr
  simp only [World.fsync, World.sys, Kernel.fsync, hd]
  cases hrep : w'.env w'.now (.fsync fd) with
  | error e => rw [hrep] at hr; cases hr
  | ok n => exact ⟨_, rfl⟩

theorem SyncsSucceed.syncfs {w : World} (h : SyncsSucceed w) : Works w.env World.syncfs := by
  intro w' fd d he hd
  have hr := (h w'.now fd).2
  rw [← he] at hr
  simp only [World.syncfs, World.sys, Kernel.syncfs, hd]
  cases hrep : w'.env w'.now (.syncfs fd) with
  | error e => rw [hrep] at hr; cases hr
  | ok n => exact ⟨_, rfl⟩

theorem syncFds_marks {l : List Nat} {w w' : World} {res} (h : syncFds l w = (res, w')) :
    w'.st.marks.fsState = w.st.marks.fsState ∧ w'.st.marks.dirState = w.st.marks.dirState := by
  induction l generalizing w with
  | nil =>
    obtain ⟨_, rfl⟩ := Prod.mk.inj h
    exact ⟨rfl, rfl⟩
  | cons fd l ih =>
    unfold syncFds at h
    split at h
    · split at h
      · split at h
        · next he =>
          obtain ⟨_, rfl⟩ := Prod.mk.inj h
          have hst := (syncCall_fsync.synced he).2
          exact ⟨by rw [hst], by rw [hst]⟩
        · next w₁ he =>
          have hst := (syncCall_fsync.synced he).2
          obtain ⟨hfs, hdir⟩ := ih h
          exact ⟨hfs.trans (by simp [markClean, World.setMarks, hst]),
            hdir.trans (by simp [markClean, World.setMarks, hst])⟩
      · obtain ⟨hfs, hdir⟩ := ih h
        exact ⟨hfs, hdir⟩
    · exact ih h

/-- The marked descriptors are open, so their syncs succeed. -/
theorem syncFds_succeeds {R : List (Nat × Desc)} {live : List Nat} {l : List Nat} {w : World}
    (hl : ∀ n ∈ l, n < fdTblSize) (hh : Held R live w.st.marks w.kern) (hw : Works w.env World.fsync) :
    ∃ w', syncFds l w = (.ok (), w') := by
  induction l generalizing w with
  | nil => exact ⟨w, rfl⟩
  | cons n l ih =>
    have ih' {w₁ : World} (hs : Synced w w₁) : ∃ w', syncFds l w₁ = (.ok (), w') :=
      ih (fun n hn => hl n (by simp [hn])) (hh.synced hs) (hs.frame.env ▸ hw)
    simp only [syncFds]
    split
    · next hdirty =>
      split
      · obtain ⟨d, hd⟩ := hh.dirty n (hl n (by simp)) hdirty
        obtain ⟨w₁, h₁⟩ := hw w n d rfl (by simpa using hd)
        simp only [h₁]
        exact ih' ((syncCall_fsync.synced h₁).1.trans (synced_markClean w₁ n))
      · exact ih' (synced_markClean w n)
    · exact ih' (Synced.refl w)

theorem syncRoots_succeeds {covers sync} {w : World} (hc : SyncCall covers sync) (hs : Works w.env sync)
    (hopen : ∀ fd ∈ rootFds w.st.roots, ∃ d, w.kern.desc fd = some d) :
    ∃ w', syncRoots sync w = (.ok (), w') := by
  have hopt {w₁ : World} (hy : Synced w w₁) (fd : Int) (hfd : fd > 0 → fd ∈ rootFds w.st.roots) :
      ∃ w', syncOptional sync w₁ fd = (.ok (), w') := by
    simp only [syncOptional]
    split
    · next hpos =>
      obtain ⟨d, hd⟩ := hopen fd (hfd hpos)
      exact hs w₁ fd d hy.frame.env (by rw [hy.desc]; exact hd)
    · exact ⟨w₁, rfl⟩
  obtain ⟨d, hd⟩ := hopen w.st.roots.ssdirFd (by simp [rootFds])
  obtain ⟨w₁, h₁⟩ := hs w _ d rfl hd
  obtain ⟨hy₁, hst₁⟩ := hc.synced h₁
  obtain ⟨w₂, h₂⟩ := hopt hy₁ w₁.st.roots.ssPersistentDirFd fun hp => by
    rw [hst₁] at hp ⊢
    simp [rootFds, hp]
  obtain ⟨hy₂, hst₂⟩ := syncOptional_synced hc h₂
  obtain ⟨w₃, h₃⟩ := hopt (hy₁.trans hy₂) w₂.st.roots.ssProinfoNodeFd fun hp => by
    rw [hst₂, hst₁] at hp ⊢
    simp [rootFds, hp]
  exact ⟨w₃, by simp only [syncRoots, h₁, h₂, h₃]⟩

/-- Without a data root, syncing the roots fails at once. -/
theorem syncRoots_fails {covers sync} {w : World} (hc : SyncCall covers sync)
    (hneg : w.st.roots.ssdirFd = -1) {u w'} : syncRoots sync w ≠ (.ok u, w') := by
  intro h
  unfold syncRoots at h
  split at h
  · cases h
  next w₁ h₁ =>
    obtain ⟨_, _, d, hd, _⟩ := hc w _ _ w₁ h₁
    rw [hneg] at hd
    cases hd

theorem syncDirs_marks {w w' : World} {u} (h : syncDirs w = (.ok u, w')) :
    w'.st.marks.fsState = w.st.marks.fsState := by
  unfold syncDirs at h
  split at h
  · split at h
    · split at h
      · cases h
      · next w₁ h₁ =>
        obtain ⟨_, rfl⟩ := Prod.mk.inj h
        have hst := (syncRoots_synced syncCall_fsync h₁).2
        simp only [World.setMarks, hst]
    · obtain ⟨_, rfl⟩ := Prod.mk.inj h
      rfl
  · obtain ⟨_, rfl⟩ := Prod.mk.inj h
    rfl

/-- With every root open, or nothing but descriptors marked, a checkpoint
gets through. -/
theorem checkpoint_succeeds {R : List (Nat × Desc)} {live : List Nat} {w : World}
    (hh : Held R live w.st.marks w.kern) (hs : SyncsSucceed w)
    (hroots : (∀ fd ∈ rootFds w.st.roots, ∃ d, w.kern.desc fd = some d) ∨
      (w.st.marks.dirState ≠ .dirty ∧ w.st.marks.fsState ≠ .dirty)) : (storageSyncCheckpoint w).1 = 0 := by
  obtain ⟨w₁, h₁⟩ := syncFds_succeeds (l := List.range fdTblSize) (fun n hn => List.mem_range.mp hn) hh hs.fsync
  have hy₁ := syncFds_synced h₁
  obtain ⟨hfs₁, hdir₁⟩ := syncFds_marks h₁
  have hopen {w₂ : World} (hy : Synced w w₂) (ho : ∀ fd ∈ rootFds w.st.roots, ∃ d, w.kern.desc fd = some d) :
      ∀ fd ∈ rootFds w₂.st.roots, ∃ d, w₂.kern.desc fd = some d := by
    intro fd hfd
    rw [hy.frame.roots] at hfd
    rw [hy.desc]
    exact ho fd hfd
  obtain ⟨w₂, h₂⟩ : ∃ w₂, syncDirs w₁ = (.ok (), w₂) := by
    unfold syncDirs
    split
    · next hd =>
      split
      · rcases hroots with ho | hn
        · obtain ⟨w₂, h₂⟩ := syncRoots_succeeds syncCall_fsync (hy₁.frame.env ▸ hs.fsync) (hopen hy₁ ho)
          simp only [h₂]
          exact ⟨_, rfl⟩
        · exact absurd (hdir₁ ▸ hd) hn.1
      · exact ⟨_, rfl⟩
    · exact ⟨_, rfl⟩
  have hy₂ := hy₁.trans (syncDirs_synced h₂)
  obtain ⟨w₃, h₃⟩ : ∃ w₃, syncFs w₂ = (.ok (), w₃) := by
    unfold syncFs
    split
    · next hd =>
      rcases hroots with ho | hn
      · obtain ⟨w₃, h₃⟩ := syncRoots_succeeds syncCall_syncfs (hy₂.frame.env ▸ hs.syncfs) (hopen hy₂ ho)
        simp only [h₃]
        exact ⟨_, rfl⟩
      · rw [syncDirs_marks h₂, hfs₁] at hd
        exact absurd hd hn.2
    · exact ⟨_, rfl⟩
  simp only [storageSyncCheckpoint, h₁, h₂, h₃]

/-- Without a data root, a checkpoint that has directories or a whole file
system to sync fails. -/
theorem checkpoint_fails {w : World} (hneg : w.st.roots.ssdirFd = -1) (hfs : w.st.marks.fsState ≠ .unused)
    (hd : w.st.marks.dirState = .dirty ∨ w.st.marks.fsState = .dirty) : (storageSyncCheckpoint w).1 ≠ 0 := by
  intro hzero
  obtain ⟨rc, w', hc⟩ : ∃ rc w', storageSyncCheckpoint w = (rc, w') := ⟨_, _, rfl⟩
  rw [hc] at hzero
  obtain rfl : rc = 0 := hzero
  rcases checkpoint_cases hc with ⟨he, _⟩ | ⟨w₁, h₁, ⟨he, _⟩ | ⟨w₂, h₂, ⟨he, _⟩ | ⟨_, h₃⟩⟩⟩
  · cases he
  · cases he
  · cases he
  obtain ⟨hfs₁, hdir₁⟩ := syncFds_marks h₁
  have hy₁ := syncFds_synced h₁
  by_cases hdirty : w.st.marks.fsState = .dirty
  · have hroot₂ : w₂.st.roots.ssdirFd = -1 := by
      rw [(hy₁.trans (syncDirs_synced h₂)).frame.roots]; exact hneg
    have hfs₂ : w₂.st.marks.fsState = .dirty := by rw [syncDirs_marks h₂, hfs₁]; exact hdirty
    simp only [syncFs, hfs₂, ite_true] at h₃
    split at h₃
    · cases h₃
    · next h => exact syncRoots_fails syncCall_syncfs hroot₂ h
  · have hclean : w₁.st.marks.fsState = .clean := by
      rw [hfs₁]
      cases hst : w.st.marks.fsState with
      | unused => exact absurd hst hfs
      | clean => rfl
      | dirty => exact absurd hst hdirty
    have hdir : w₁.st.marks.dirState = .dirty := by
      rw [hdir₁]
      exact hd.resolve_right hdirty
    have hroot₁ : w₁.st.roots.ssdirFd = -1 := by rw [hy₁.frame.roots]; exact hneg
    simp only [syncDirs, hdir, hclean, ite_true] at h₂
    split at h₂
    · cases h₂
    · next h => exact syncRoots_fails syncCall_fsync hroot₁ h

/-- **A checkpoint succeeds in every configuration with a data root; without
one it succeeds exactly while no directory and no untracked handle is
marked.** -/
theorem checkpoint_zero_iff {cfg : Config} {H : Hist} {w : World} (h : Run cfg (fun _ => True) UsesLive H w)
    (hs : SyncsSucceed w) (q : Request) : (storageSyncCheckpoint (receive w q)).1 = 0 ↔
      cfg.dataRoot.isSome ∨ (w.st.marks.dirState ≠ .dirty ∧ w.st.marks.fsState ≠ .dirty) := by
  obtain ⟨R, hr, hh⟩ := h.held fun _ _ hq => hq
  have hh' : Held R H.live (receive w q).st.marks (receive w q).kern := hh
  have hs' : SyncsSucceed (receive w q) := hs
  constructor
  · intro hzero
    by_contra hcon
    simp only [not_or, not_and_or, not_not, Option.not_isSome_iff_eq_none] at hcon
    exact checkpoint_fails (w := receive w q) (hr.noData hcon.1) hh.fs hcon.2 hzero
  · intro hor
    rcases hor with hd | hn
    · refine checkpoint_succeeds hh' hs' (.inl fun fd hfd => ?_)
      obtain ⟨x, hx, rfl⟩ := hr.all hd fd hfd
      exact ⟨x.2, (Kernel.desc_natCast _ x.1).trans (hh'.roots x hx)⟩
    · exact checkpoint_succeeds hh' hs' (.inr hn)

/-! A machine with a data root `/d`, a persistent root `/p` on a file system
of its own and the service's device `/t`, and a proxy launched without `-f`,
as the shipped `storage_persist` service is. -/

def bench : Kernel where
  fds := fun n => if n < 3 then some ⟨.chr, 0, n, true⟩ else none
  limit := 128
  limit_le := by decide
  tree := fun p => if p = [[100]] ∨ p = [[112]] then some .dir else if p = [[116]] then some .chr else none
  fsOf := fun p => if p.head? = some [112] then 1 else 0
  data := fun _ => []
  nextIno := 0
  nextOid := 3
  made := []
  pending := []

/-- An environment in which every call succeeds, a transfer moving one byte. -/
def calm : Nat → Syscall → Reply := fun _ _ => .ok 1

def dataOnly : Config := ⟨some [47, 100], none, false, none, [47, 116], [47, 110], ⟨64, 64⟩⟩

def persistOnly : Config := ⟨none, some [47, 112], false, none, [47, 116], [47, 110], ⟨64, 64⟩⟩

def dataStarted : World := (start dataOnly calm (fun _ => []) bench).get (by decide)

def request (cmd : Cmd) (flags : UInt32) (payload : Bytes) (fits : payload.length ≤ reqBufferSize) : Request :=
  ⟨⟨cmd.code, 0, flags, 0, 0, 0⟩, payload, fits⟩

/-- Create the file `x` in the persistent root. -/
def createPersistent : Request := request .fileOpen 0 [9, 0, 0, 0, 120] (by decide)

def persistStarted : World := (start persistOnly calm (fun _ => []) bench).get (by decide)

theorem persistStarted_run {ok} : Run persistOnly (fun _ => True) ok ⟨[], [], []⟩ persistStarted :=
  .start trivial (Option.some_get _).symm

/-- One file created through the shipped persistent service, and its next
checkpoint fails though every sync of an open descriptor succeeds. -/
theorem checkpoint_fails_without_data_root :
    ∃ H w, Run persistOnly (fun _ => True) (fun H q => UsesLive H q ∧ OpensConfigured persistOnly q) H w ∧
      SyncsSucceed w ∧ ∃ q : Request, q.msg.preCommit = true ∧ (storageSyncCheckpoint (receive w q)).1 ≠ 0 := by
  have hlive : UsesLive ⟨[], [], []⟩ createPersistent := by
    intro h hh
    cases hh
  refine ⟨_, (serve persistStarted createPersistent).2,
    persistStarted_run.next (q := createPersistent) ⟨hlive, fun _ => rfl⟩ rfl, ?_,
    request .fileRead flagPreCommit [] (by decide), by decide, by decide⟩
  intro t fd
  exact ⟨rfl, rfl⟩

theorem checkpoint_zero_iff_at_start :
    (storageSyncCheckpoint (receive persistStarted createPersistent)).1 = 0 :=
  (checkpoint_zero_iff persistStarted_run (fun _ _ => ⟨rfl, rfl⟩) createPersistent).mpr
    (.inr ⟨by decide, by decide⟩)

end Storage
