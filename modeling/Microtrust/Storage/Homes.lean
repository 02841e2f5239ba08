/-
Where the files of a proxy live: in the directories of its roots, whose
places and file systems never change, or at the proinfo node.
-/
import Microtrust.Storage.Launch

namespace Storage

open Lib

/-- `D` is the directory of the data root or of the persistent root. -/
def RootDir (cfg : Config) (k : Kernel) (D : Path) : Prop :=
  ∃ dir, (cfg.dataRoot = some dir ∨ cfg.persistentRoot = some dir) ∧ k.locate dir = .ok D ∧
    k.node D = some .dir

/-- The roots hold no block devices: what is written to a name in a root is
on the root's file system. -/
def NoDevices (cfg : Config) (k : Kernel) : Prop :=
  ∀ p, RootDir cfg k p.dropLast → ∀ ino dev, k.node p ≠ some (.blk ino dev)

/-- The roots are where they were configured, and open descriptors answer
for what is in them. -/
structure Homes (cfg : Config) (R : List (Nat × Desc)) (k : Kernel) : Prop where
  located : ∀ dir, cfg.dataRoot = some dir ∨ cfg.persistentRoot = some dir → ∃ D, k.locate dir = .ok D
  placed : ∀ D, RootDir cfg k D → ∃ x ∈ R, x.2.obj = .dir D ∧ x.2.fs = k.fsOf D
  proinfo : cfg.proinfo = true → ∀ p, k.locate cfg.proNode = .ok p →
    (∃ nd, k.node p = some nd ∧ ∃ x ∈ R, k.nodeFs p nd = x.2.fs) ∨ RootDir cfg k p.dropLast
  noDevices : NoDevices cfg k

section

variable {cfg : Config} {R : List (Nat × Desc)} {k k' : Kernel}

theorem RootDir.congr (hd : k.SameDirs k') {D : Path} : RootDir cfg k' D ↔ RootDir cfg k D := by
  simp only [RootDir, hd.locate, hd D]

theorem Homes.congr (h : Homes cfg R k) (htree : k'.tree = k.tree) (hfs : k'.fsOf = k.fsOf) :
    Homes cfg R k' := by
  have hd : k.SameDirs k' := Kernel.SameDirs.of_tree htree
  have hnode (p : Path) : k'.node p = k.node p := by simp only [Kernel.node, htree]
  refine ⟨fun dir hdir => ?_, fun D hD => ?_, fun hp p hloc => ?_, fun p hp => ?_⟩
  · obtain ⟨D, hD⟩ := h.located dir hdir
    exact ⟨D, hd.locate.mpr hD⟩
  · rw [hfs]
    exact h.placed D ((RootDir.congr hd).mp hD)
  · rw [hnode, RootDir.congr hd]
    simp only [nodeFs_congr hfs]
    exact h.proinfo hp p (hd.locate.mp hloc)
  · rw [hnode]
    exact h.noDevices p ((RootDir.congr hd).mp hp)

/-- A name in a root comes or goes. -/
theorem Homes.update (h : Homes cfg R k) {p : Path} {nd : Option Node}
    (htree : k'.tree = Function.update k.tree p nd) (hfs : k'.fsOf = k.fsOf)
    (hp : RootDir cfg k p.dropLast) (hold : k.node p ≠ some .dir) (hnew : nd = none ∨ ∃ ino, nd = some (.file ino)) :
    Homes cfg R k' := by
  have hd : k.SameDirs k' :=
    Kernel.SameDirs.update htree hold (by rcases hnew with rfl | ⟨_, rfl⟩ <;> simp)
  have hpne : p ≠ [] := by
    rintro rfl
    exact hold rfl
  have hnode {q : Path} (hq : q ≠ p) : k'.node q = k.node q := by
    simp only [Kernel.node, htree, Function.update_of_ne hq]
  have hself : k'.node p = nd := by
    simp only [Kernel.node, htree, Function.update_self, hpne, ite_false]
  refine ⟨fun dir hdir => ?_, fun D hD => ?_, fun hpro q hloc => ?_, fun q hq => ?_⟩
  · obtain ⟨D, hD⟩ := h.located dir hdir
    exact ⟨D, hd.locate.mpr hD⟩
  · rw [hfs]
    exact h.placed D ((RootDir.congr hd).mp hD)
  · by_cases he : q = p
    · exact .inr ((RootDir.congr hd).mpr (he ▸ hp))
    · rw [hnode he, RootDir.congr hd]
      simp only [nodeFs_congr hfs]
      exact h.proinfo hpro q (hd.locate.mp hloc)
  · by_cases he : q = p
    · rw [he, hself]
      rcases hnew with rfl | ⟨_, rfl⟩ <;> simp
    · rw [hnode he]
      exact h.noDevices q ((RootDir.congr hd).mp hq)

/-- A name without a slash in a root leads to a directory or to an entry of
the root. -/
theorem Homes.child (h : Homes cfg R k) {dir name : Bytes} {p : Path}
    (hdir : cfg.dataRoot = some dir ∨ cfg.persistentRoot = some dir) (hname : 47 ∉ name)
    (hp : k.locate (joined (some dir) name) = .ok p) : k.node p = some .dir ∨ RootDir cfg k p.dropLast := by
  obtain ⟨D, hD⟩ := h.located dir hdir
  obtain ⟨hnode, hp' | rfl⟩ := Kernel.locate_child hD hname hp
  · exact .inl hp'
  · rw [List.dropLast_concat]
    exact .inr ⟨dir, hdir, hD, hnode⟩

/-- What an open of a configured root opens is on a root's file system, and
what it creates is an entry of a root. -/
theorem Homes.opened (h : Homes cfg R k) {r : Roots} (hr : Rooted cfg R r) {q : Request}
    (hq : OpensConfigured cfg q) (hcmd : q.cmd = some .fileOpen) (hname : 47 ∉ q.name) {fl : OpenFlags}
    {p : Path} {n : Nat} {d : Desc} (hrw : fl.rdwr = true)
    (hp : k.locate (openName r q.openFlags q.name) = .ok p) (ho : k.Opened fl p n d k') :
    (∃ x ∈ R, d.fs = x.2.fs) ∧ (k.node p = none → RootDir cfg k p.dropLast) := by
  have hplace : (∃ nd, k.node p = some nd ∧ (nd = .dir ∨ ∃ x ∈ R, k.nodeFs p nd = x.2.fs)) ∨
      RootDir cfg k p.dropLast := by
    have hroot {dir : Option Bytes} (hd : dir.isSome) (hdir : dir = cfg.dataRoot ∨ dir = cfg.persistentRoot)
        (hp : k.locate (joined dir q.name) = .ok p) :
        (∃ nd, k.node p = some nd ∧ (nd = .dir ∨ ∃ x ∈ R, k.nodeFs p nd = x.2.fs)) ∨
          RootDir cfg k p.dropLast := by
      obtain ⟨dir, rfl⟩ := Option.isSome_iff_exists.mp hd
      rcases h.child (hdir.imp Eq.symm Eq.symm) hname hp with hn | hn
      · exact .inl ⟨_, hn, .inl rfl⟩
      · exact .inr hn
    have hcfg := hq hcmd
    unfold openName at hp
    split at hp
    · next hpers =>
      simp only [hpers, ite_true] at hcfg
      rw [hr.ssPersistentDirName] at hp
      exact hroot hcfg (.inr rfl) hp
    next hpers =>
      simp only [hpers] at hcfg
      split at hp
      · next hpro =>
        simp only [hpro, ite_true] at hcfg
        rw [hr.ssProinfoName] at hp
        rcases h.proinfo hcfg p hp with ⟨nd, hnd, hx⟩ | hd
        · exact .inl ⟨nd, hnd, .inr hx⟩
        · exact .inr hd
      · next hpro =>
        simp only [hpro] at hcfg
        rw [hr.ssdirName] at hp
        exact hroot hcfg (.inl rfl) hp
  rcases ho.place with ⟨nd, hnd, hro, _, hfs, _, _⟩ | ⟨hnone, _, _, hfs, _, _⟩
  · refine ⟨?_, fun hn => by rw [hnd] at hn; cases hn⟩
    rcases hplace with ⟨nd', hnd', hgood⟩ | hroot
    · rw [hnd, Option.some.injEq] at hnd'
      subst hnd'
      rcases hgood with hdir | ⟨x, hx, he⟩
      · rw [hro hdir] at hrw
        cases hrw
      · exact ⟨x, hx, hfs.trans he⟩
    · obtain ⟨x, hx, _, hxfs⟩ := h.placed _ hroot
      refine ⟨x, hx, hfs.trans ?_⟩
      cases nd with
      | file ino => exact hxfs.symm
      | blk ino dev => exact absurd hnd (h.noDevices p hroot ino dev)
      | dir => rw [hro rfl] at hrw; cases hrw
      | chr => exact hxfs.symm
  · rcases hplace with ⟨nd, hnd, _⟩ | hroot
    · rw [hnone] at hnd
      cases hnd
    · obtain ⟨x, hx, _, hxfs⟩ := h.placed _ hroot
      exact ⟨⟨x, hx, hfs.trans hxfs.symm⟩, fun _ => hroot⟩

/-- The roots as they are found at the start. -/
theorem Launched.homes {w : World} (h : Launched cfg k R w) (hn : NoDevices cfg k) : Homes cfg R w.kern := by
  have hplaced (dir : Bytes) (hdir : cfg.dataRoot = some dir ∨ cfg.persistentRoot = some dir) :
      ∃ fd, Placed k R dir fd := by
    rcases hdir with hd | hp
    · exact ⟨_, h.data dir hd⟩
    · exact ⟨_, (h.persistent dir hp).1⟩
  have hhomes : Homes cfg R k := by
    refine ⟨fun dir hdir => ?_, ?_, fun hp p hloc => ?_, hn⟩
    · obtain ⟨_, D, _, _, _, hD, _⟩ := hplaced dir hdir
      exact ⟨D, hD⟩
    · intro D hdirs
      obtain ⟨dir, hdir, hD, hnode⟩ := hdirs
      obtain ⟨_, D', nd, n, d, hD', hnd, hmem, _, hobj, hfs⟩ := hplaced dir hdir
      obtain rfl : D = D' := Except.ok.inj (hD.symm.trans hD')
      obtain rfl : Node.dir = nd := Option.some.inj (hnode.symm.trans hnd)
      exact ⟨(n, d), hmem, hobj, hfs⟩
    · obtain ⟨D, nd, n, d, hD, hnd, hmem, _, _, hfs⟩ := (h.proinfo hp).1
      obtain rfl : p = D := Except.ok.inj (hloc.symm.trans hD)
      exact .inl ⟨nd, hnd, (n, d), hmem, hfs.symm⟩
  exact hhomes.congr h.boot.tree h.boot.fsOf

end

end Storage
