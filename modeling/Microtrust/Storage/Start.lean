/-
The state a proxy starts its loop in: the roots are open, nothing is marked
and no change has been made.

With a data root the other roots have positive descriptors, since descriptor
0 is in use when they are opened; the checkpoint's test `fd > 0` then finds
every root that was opened.
-/
import Microtrust.Storage.Checkpoint

namespace Storage

open Lib

/-- `w` was reached from the kernel `k` by opening things; `R` are the roots
that are open. -/
structure Boot (k : Kernel) (R : List (Nat × Desc)) (w : World) : Prop where
  tree : w.kern.tree = k.tree
  fsOf : w.kern.fsOf = k.fsOf
  made : w.kern.made = []
  pending : w.kern.pending = []
  held : ∀ x ∈ R, w.kern.fds x.1 = some x.2
  fd : ∀ n, w.st.marks.fdState n ≠ .dirty
  dir : w.st.marks.dirState = .clean
  fs : w.st.marks.fsState = .clean

/-- Descriptor `fd` is the root that was opened at `path`. -/
def Placed (k : Kernel) (R : List (Nat × Desc)) (path : Bytes) (fd : Int) : Prop :=
  ∃ D nd n d, k.locate path = .ok D ∧ k.node D = some nd ∧ (n, d) ∈ R ∧ fd = (n : Nat) ∧
    d.obj = nd.obj D ∧ d.fs = k.nodeFs D nd

theorem Placed.mono {k : Kernel} {R R' : List (Nat × Desc)} {path : Bytes} {fd : Int}
    (h : Placed k R path fd) (hs : ∀ x ∈ R, x ∈ R') : Placed k R' path fd := by
  obtain ⟨D, nd, n, d, hD, hnd, hmem, hfd, hobj, hfs⟩ := h
  exact ⟨D, nd, n, d, hD, hnd, hs _ hmem, hfd, hobj, hfs⟩

theorem Boot.setRoots {k : Kernel} {R : List (Nat × Desc)} {w : World} (h : Boot k R w) (r : Roots) :
    Boot k R (w.setRoots r) :=
  ⟨h.tree, h.fsOf, h.made, h.pending, h.held, h.fd, h.dir, h.fs⟩

theorem nodeFs_congr {k k' : Kernel} (h : k'.fsOf = k.fsOf) (p : Path) (nd : Node) :
    k'.nodeFs p nd = k.nodeFs p nd := by
  cases nd <;> simp only [Kernel.nodeFs, h]

/-- Opening what is there, without cutting it. -/
theorem Boot.openPath {k : Kernel} {R : List (Nat × Desc)} {w w₁ : World} {path : Bytes} {fl : OpenFlags}
    {n : Nat} (hb : Boot k R w) (hc : fl.creat = false) (ht : fl.trunc = false)
    (h : w.openPath path fl = (.ok n, w₁)) :
    ∃ d, Boot k ((n, d) :: R) w₁ ∧ Placed k ((n, d) :: R) path n ∧ Frame w w₁ ∧ w₁.st = w.st ∧
      w.kern.fds n = none ∧ w₁.kern.fds = Function.update w.kern.fds n (some d) ∧ w₁.kern.fds 0 ≠ none := by
  obtain ⟨hf, hst, p, d, hp, ho⟩ := openPath_spec h
  have hsame : Kernel.SameDirs k w.kern := Kernel.SameDirs.of_tree hb.tree
  have hnode : w.kern.node p = k.node p := by simp only [Kernel.node, hb.tree]
  have hzero : w₁.kern.fds 0 ≠ none := by
    rw [ho.fds]
    by_cases h0 : n = 0
    · subst h0
      simp
    · rw [Function.update_of_ne (Ne.symm h0)]
      exact ho.used 0 (by omega)
  rcases ho.place with ⟨nd, hnd, _, hobj, hfs, htree, hq | ⟨htr, _⟩⟩ | ⟨_, hcr, _⟩
  · refine ⟨d, ⟨htree.trans hb.tree, ho.fsOf.trans hb.fsOf, hq.1.trans hb.made, hq.2.trans hb.pending, ?_,
      by rw [hst]; exact hb.fd, by rw [hst]; exact hb.dir, by rw [hst]; exact hb.fs⟩, ?_, hf, hst,
      ho.free, ho.fds, hzero⟩
    · intro x hx
      rw [ho.fds]
      rcases List.mem_cons.mp hx with rfl | hx
      · exact Function.update_self ..
      · have hheld := hb.held x hx
        rw [Function.update_of_ne]
        · exact hheld
        · rintro rfl
          rw [ho.free] at hheld
          cases hheld
    · exact ⟨p, nd, n, d, hsame.locate.mp hp, hnode ▸ hnd, List.mem_cons_self, rfl, hobj,
        hfs.trans (nodeFs_congr hb.fsOf p nd)⟩
  · rw [ht] at htr
    cases htr
  · rw [hc] at hcr
    cases hcr

/-- The connection to the service touches no root. -/
theorem Boot.ipcConnect {k : Kernel} {R : List (Nat × Desc)} {tries : Nat} {w w' : World} {dev : Bytes}
    (hb : Boot k R w) (h : ipcConnect tries w dev = some w') :
    Boot k R w' ∧ w'.st.roots = w.st.roots ∧ w'.env = w.env ∧ w'.sent = w.sent := by
  induction tries generalizing w with
  | zero => cases h
  | succ tries ih =>
    unfold Storage.ipcConnect at h
    split at h
    · next e w₁ ho =>
      obtain ⟨hf, hst, hk⟩ := openPath_spec ho
      have hk' : w₁.kern = w.kern := hk
      have hb₁ : Boot k R w₁ :=
        ⟨by rw [hk']; exact hb.tree, by rw [hk']; exact hb.fsOf, by rw [hk']; exact hb.made,
          by rw [hk']; exact hb.pending, by rw [hk']; exact hb.held, by rw [hst]; exact hb.fd,
          by rw [hst]; exact hb.dir, by rw [hst]; exact hb.fs⟩
      obtain ⟨hb', hr, he, hs⟩ := ih hb₁ h
      exact ⟨hb', hr.trans hf.roots, he.trans hf.env, hs.trans hf.sent⟩
    · next fd w₁ ho =>
      obtain ⟨d, hb₁, _, hf, hst, hfree, hfds, _⟩ := hb.openPath rfl rfl ho
      dsimp only at h
      split at h
      · cases h
        exact ⟨⟨hb₁.tree, hb₁.fsOf, hb₁.made, hb₁.pending, fun x hx => hb₁.held x (by simp [hx]),
          hb₁.fd, hb₁.dir, hb₁.fs⟩, hf.roots, hf.env, hf.sent⟩
      · generalize hcl : (w₁.touch (.ioctl fd) fd).2.close fd = y at h
        obtain ⟨res, w₂⟩ := y
        obtain ⟨hk₂, hst₂, hf₂⟩ := World.sys_inv hcl
        have hd : (w₁.touch (.ioctl fd) fd).2.kern.desc fd = some d := by
          change w₁.kern.desc fd = some d
          simp [hfds]
        have hk' : w₂.kern = w₁.kern.release fd := Kernel.close_kern hd hk₂
        have hst' : w₂.st = w₁.st := hst₂
        have hb₂ : Boot k R w₂ := by
          refine ⟨by rw [hk']; exact hb₁.tree, by rw [hk']; exact hb₁.fsOf, by rw [hk']; exact hb₁.made,
            by rw [hk']; exact hb₁.pending, fun x hx => ?_, by rw [hst']; exact hb₁.fd,
            by rw [hst']; exact hb₁.dir, by rw [hst']; exact hb₁.fs⟩
          have hheld := hb.held x hx
          have hne : x.1 ≠ fd := by
            intro he
            rw [he, hfree] at hheld
            cases hheld
          rw [hk']
          simp only [Kernel.release, hfds, Function.update_of_ne hne]
          exact hheld
        obtain ⟨hb', hr, he, hs⟩ := ih hb₂ h
        exact ⟨hb', hr.trans (hf₂.roots.trans hf.roots), he.trans (hf₂.env.trans hf.env),
          hs.trans (hf₂.sent.trans hf.sent)⟩

/-- The proxy's state when its loop begins. -/
structure Launched (cfg : Config) (k : Kernel) (R : List (Nat × Desc)) (w : World) : Prop where
  boot : Boot k R w
  ssdirName : w.st.roots.ssdirName = cfg.dataRoot
  ssPersistentDirName : w.st.roots.ssPersistentDirName = cfg.persistentRoot
  ssProinfoName : w.st.roots.ssProinfoName = cfg.proNode
  data : ∀ dir, cfg.dataRoot = some dir → Placed k R dir w.st.roots.ssdirFd
  noData : cfg.dataRoot = none → w.st.roots.ssdirFd = -1
  persistent : ∀ dir, cfg.persistentRoot = some dir → Placed k R dir w.st.roots.ssPersistentDirFd ∧
    (cfg.dataRoot.isSome → 0 < w.st.roots.ssPersistentDirFd)
  noPersistent : cfg.persistentRoot = none → w.st.roots.ssPersistentDirFd = -1
  proinfo : cfg.proinfo = true → Placed k R cfg.proNode w.st.roots.ssProinfoNodeFd ∧
    (cfg.dataRoot.isSome → 0 < w.st.roots.ssProinfoNodeFd)
  noProinfo : cfg.proinfo = false → w.st.roots.ssProinfoNodeFd = -1

theorem Boot.initRoot {k : Kernel} {R : List (Nat × Desc)} {w w₁ : World} {path : Bytes}
    {note : Nat → Roots → Roots} (hb : Boot k R w) (h : initRoot w path note = some w₁) :
    ∃ n d, Boot k ((n, d) :: R) w₁ ∧ Placed k ((n, d) :: R) path n ∧ w₁.st.roots = note n w.st.roots ∧
      w₁.env = w.env ∧ w₁.sent = w.sent ∧ (w.kern.fds 0 ≠ none → 0 < (n : Int)) ∧ w₁.kern.fds 0 ≠ none := by
  unfold Storage.initRoot at h
  split at h
  · cases h
  next n w₂ ho =>
    obtain ⟨d, hb₂, hpl, hf, hst, hfree, _, hzero⟩ := hb.openPath rfl rfl ho
    cases h
    refine ⟨n, d, hb₂.setRoots _, hpl, ?_, hf.env, hf.sent, fun h0 => ?_, hzero⟩
    · change note n w₂.st.roots = _
      rw [hst]
    · rcases Nat.eq_zero_or_pos n with rfl | hpos
      · exact absurd hfree h0
      · exact_mod_cast hpos

/-- Between the steps of `main`; with a data root, descriptor 0 is in use. -/
structure Starting (cfg : Config) (env : Nat → Syscall → Reply) (k : Kernel) (R : List (Nat × Desc))
    (w : World) : Prop where
  boot : Boot k R w
  env : w.env = env
  sent : w.sent = []
  zero : cfg.dataRoot.isSome → w.kern.fds 0 ≠ none

section
variable {cfg : Config} {env : Nat → Syscall → Reply} {mmcRead : Nat → Bytes} {k : Kernel}
  {R : List (Nat × Desc)} {w w₁ : World}

theorem starting_data (h : given cfg.dataRoot storageInit (fresh cfg env mmcRead k) = some w) :
    ∃ R fd, Starting cfg env k R w ∧
      w.st.roots = { ssProinfoName := cfg.proNode, ssdirName := cfg.dataRoot, ssdirFd := fd } ∧
      (∀ dir, cfg.dataRoot = some dir → Placed k R dir fd) ∧ (cfg.dataRoot = none → fd = -1) := by
  cases hcfg : cfg.dataRoot with
  | none =>
    rw [hcfg] at h
    cases h
    have hb : Boot k [] (fresh cfg env mmcRead k) :=
      ⟨rfl, rfl, rfl, rfl, by simp, by simp [fresh], rfl, rfl⟩
    exact ⟨[], -1, ⟨hb, rfl, rfl, by simp [hcfg]⟩, rfl, by simp, fun _ => rfl⟩
  | some dir =>
    simp only [hcfg, given, storageInit] at h
    have hb₀ : Boot k [] ((fresh cfg env mmcRead k).setMarks ⟨.clean, .clean, fun _ => .unused⟩) :=
      ⟨rfl, rfl, rfl, rfl, by simp, by simp [World.setMarks], rfl, rfl⟩
    obtain ⟨n, d, hb, hpl, hr, he, hs, _, hz⟩ := hb₀.initRoot h
    refine ⟨_, n, ⟨hb, he, hs, fun _ => hz⟩, hr, fun dir' hdir => ?_, by simp⟩
    cases hdir
    exact hpl

/-- A further root, if there is one, is opened beside the others. -/
theorem Starting.given {opt : Option Bytes} {init : World → Bytes → Option World}
    {note : Bytes → Nat → Roots → Roots} (hw : Starting cfg env k R w)
    (hinit : ∀ dir, init w dir = initRoot w dir (note dir)) (h : given opt init w = some w₁) :
    ∃ R₁, Starting cfg env k R₁ w₁ ∧ (∀ x ∈ R, x ∈ R₁) ∧
      (opt = none ∧ w₁.st.roots = w.st.roots ∨
        ∃ dir n, opt = some dir ∧ w₁.st.roots = note dir n w.st.roots ∧ Placed k R₁ dir (n : Nat) ∧
          (cfg.dataRoot.isSome → 0 < ((n : Nat) : Int))) := by
  cases opt with
  | none =>
    cases h
    exact ⟨R, hw, fun _ hx => hx, .inl ⟨rfl, rfl⟩⟩
  | some dir =>
    simp only [Storage.given, hinit] at h
    obtain ⟨n, d, hb, hpl, hr, he, hs, hpos, hz⟩ := hw.boot.initRoot h
    exact ⟨_, ⟨hb, he.trans hw.env, hs.trans hw.sent, fun _ => hz⟩, fun x hx => by simp [hx],
      .inr ⟨dir, n, rfl, hr, hpl, fun hd => hpos (hw.zero hd)⟩⟩

/-- The RPMB device is no root. -/
theorem Starting.rpmb (hw : Starting cfg env k R w) (h : Storage.given cfg.rpmbDev rpmbOpen w = some w₁) :
    Boot k R w₁ ∧ w₁.env = env ∧ w₁.sent = [] ∧ w₁.st.roots = w.st.roots := by
  cases hcfg : cfg.rpmbDev with
  | none =>
    rw [hcfg] at h
    cases h
    exact ⟨hw.boot, hw.env, hw.sent, rfl⟩
  | some dev =>
    rw [hcfg] at h
    simp only [Storage.given, rpmbOpen] at h
    split at h
    · cases h
    next n w₅ ho =>
      obtain ⟨d, hb, _, hf, hst, _⟩ := hw.boot.openPath rfl rfl ho
      cases h
      exact ⟨⟨hb.tree, hb.fsOf, hb.made, hb.pending, fun x hx => hb.held x (by simp [hx]), hb.fd, hb.dir, hb.fs⟩,
        hf.env.trans hw.env, hf.sent.trans hw.sent, hf.roots⟩

/-- What `main` leaves behind when it gets to its loop. -/
theorem start_launched (h : start cfg env mmcRead k = some w) :
    ∃ R, Launched cfg k R w ∧ w.env = env ∧ w.sent = [] := by
  unfold start at h
  obtain ⟨w₁, h₁, h⟩ := Option.bind_eq_some_iff.mp h
  obtain ⟨w₂, h₂, h⟩ := Option.bind_eq_some_iff.mp h
  obtain ⟨w₃, h₃, h⟩ := Option.bind_eq_some_iff.mp h
  obtain ⟨w₄, h₄, h₅⟩ := Option.bind_eq_some_iff.mp h
  obtain ⟨R₁, fd, hw₁, hr₁, hdata, hnoData⟩ := starting_data h₁
  obtain ⟨R₂, hw₂, hsub₂, hpers⟩ := hw₁.given (fun _ => rfl) h₂
  obtain ⟨R₃, hw₃, hsub₃, hpro⟩ := hw₂.given (fun _ => rfl) h₃
  obtain ⟨hb₄, he₄, hs₄, hr₄⟩ := hw₃.rpmb h₄
  obtain ⟨hb₅, hr₅, he₅, hs₅⟩ := hb₄.ipcConnect h₅
  obtain ⟨fd₂, hr₂, hpersistent, hnoPersistent⟩ : ∃ fd₂,
      w₂.st.roots = { w₁.st.roots with ssPersistentDirName := cfg.persistentRoot, ssPersistentDirFd := fd₂ } ∧
      (∀ dir, cfg.persistentRoot = some dir → Placed k R₂ dir fd₂ ∧ (cfg.dataRoot.isSome → 0 < fd₂)) ∧
      (cfg.persistentRoot = none → fd₂ = -1) := by
    rcases hpers with ⟨hnone, hr⟩ | ⟨dir, n, hsome, hr, hpl, hpos⟩
    · exact ⟨-1, by rw [hr, hr₁, hnone], by simp [hnone], fun _ => rfl⟩
    · refine ⟨n, by rw [hr, hsome], fun dir' hdir => ?_, by simp [hsome]⟩
      cases hsome.symm.trans hdir
      exact ⟨hpl, hpos⟩
  obtain ⟨fd₃, hr₃, hproinfo, hnoProinfo⟩ : ∃ fd₃,
      w₃.st.roots = { w₂.st.roots with ssProinfoNodeFd := fd₃ } ∧
      (cfg.proinfo = true → Placed k R₃ cfg.proNode fd₃ ∧ (cfg.dataRoot.isSome → 0 < fd₃)) ∧
      (cfg.proinfo = false → fd₃ = -1) := by
    rcases hpro with ⟨hnone, hr⟩ | ⟨node, n, hsome, hr, hpl, hpos⟩
    · exact ⟨-1, by rw [hr, hr₂, hr₁], fun hp => by simp [hp] at hnone, fun _ => rfl⟩
    · split at hsome
      · cases hsome
        exact ⟨n, hr, fun _ => ⟨hpl, hpos⟩, fun hp => by simp_all⟩
      · cases hsome
  have hroots : w.st.roots = ⟨fd, cfg.dataRoot, fd₂, cfg.persistentRoot, fd₃, cfg.proNode⟩ := by
    rw [hr₅, hr₄, hr₃, hr₂, hr₁]
  refine ⟨R₃, ⟨hb₅, ?_, ?_, ?_, ?_, ?_, ?_, ?_, ?_, ?_⟩, he₅.trans he₄, hs₅.trans hs₄⟩
  all_goals rw [hroots]
  · exact fun dir hdir => (hdata dir hdir).mono fun x hx => hsub₃ x (hsub₂ x hx)
  · exact hnoData
  · exact fun dir hdir => ⟨(hpersistent dir hdir).1.mono hsub₃, (hpersistent dir hdir).2⟩
  · exact hnoPersistent
  · exact hproinfo
  · exact hnoProinfo

end

/-- With a data root, the descriptors a sync of the roots goes through are
all the roots there are. -/
theorem Launched.restrict {cfg : Config} {k : Kernel} {R : List (Nat × Desc)} {w : World}
    (h : Launched cfg k R w) (hd : cfg.dataRoot.isSome) :
    Launched cfg k (R.filter fun x => (x.1 : Int) ∈ rootFds w.st.roots) w := by
  have hplaced {path : Bytes} {fd : Int} (hfd : fd ∈ rootFds w.st.roots) (hp : Placed k R path fd) :
      Placed k (R.filter fun x => (x.1 : Int) ∈ rootFds w.st.roots) path fd := by
    obtain ⟨D, nd, n, d, hD, hnd, hmem, rfl, hobj, hfs⟩ := hp
    exact ⟨D, nd, n, d, hD, hnd, by simp [hmem, hfd], rfl, hobj, hfs⟩
  have hb := h.boot
  refine ⟨⟨hb.tree, hb.fsOf, hb.made, hb.pending, fun x hx => hb.held x (List.mem_of_mem_filter hx), hb.fd,
    hb.dir, hb.fs⟩, h.ssdirName, h.ssPersistentDirName, h.ssProinfoName, fun dir hdir => ?_, h.noData,
    fun dir hdir => ?_, h.noPersistent, fun hpro => ?_, h.noProinfo⟩
  · exact hplaced (by simp [rootFds]) (h.data dir hdir)
  · obtain ⟨hp, hpos⟩ := h.persistent dir hdir
    exact ⟨hplaced (by simp [rootFds, hpos hd]) hp, hpos⟩
  · obtain ⟨hp, hpos⟩ := h.proinfo hpro
    exact ⟨hplaced (by simp [rootFds, hpos hd]) hp, hpos⟩

end Storage
