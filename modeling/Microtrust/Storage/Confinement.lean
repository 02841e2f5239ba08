/-
What the proxy keeps its hands off.

The paths of requests are put together from a root and a name, and the name is
taken as it comes. A name whose components never lead above where they start
stays below its root; as long as clients use no others, whatever lies outside
the roots keeps its place and its content.
-/
import Microtrust.Storage.ReadBack
import Microtrust.Storage.Vfs

namespace Storage

open Lib

/-- Below one of the roots, or the proinfo node. -/
def Config.inside (cfg : Config) (p : Path) : Prop :=
  placeOf (printed cfg.dataRoot) <+: p ∨ placeOf (printed cfg.persistentRoot) <+: p ∨ p = placeOf cfg.proNode

/-- The name never leads above where it starts. -/
def Request.nameLevel (q : Request) : Prop := (depth 0 (q.name.splitOn 47)).isSome

/-- The name is level, if it is used: the proinfo node has a path of its own. -/
def Request.level (q : Request) : Prop :=
  (q.cmd = some .fileOpen → q.nameLevel ∨
      q.openFlags.testBit openPersistentFile = false ∧ q.openFlags.testBit openProinfoFile = true) ∧
    (q.cmd = some .fileDelete → q.nameLevel)

instance (q : Request) : Decidable q.nameLevel := inferInstanceAs (Decidable (_ = true))

instance (q : Request) : Decidable q.level := inferInstanceAs (Decidable (_ ∧ _))

/-! ## Where a request goes -/

theorem inside_joined {root : Option Bytes} {name : Bytes} (h : (depth 0 (name.splitOn 47)).isSome) :
    placeOf (printed root) <+: placeOf (joined root name) := by
  rw [joined, placeOf_append]
  have hpre : placeOf (printed root) <+: (name.splitOn 47).foldl walk (placeOf (printed root) ++ []) :=
    prefix_of_depth h
  rwa [List.append_nil] at hpre

theorem inside_pathOf {cfg : Config} {q : Request} (hc : q.cmd = some .fileOpen) (h : q.level) :
    cfg.inside (placeOf (cfg.pathOf q.openFlags q.name)) := by
  replace h := h.1 hc
  unfold Config.pathOf openName
  split
  · next hpers =>
    rcases h with h | h
    · exact .inr (.inl (inside_joined h))
    · rw [hpers] at h
      exact absurd h.1 (by simp)
  split
  · exact .inr (.inr rfl)
  · next hpro =>
    rcases h with h | h
    · exact .inl (inside_joined h)
    · exact absurd h.2 hpro

theorem within_inside {cfg : Config} {q : Request} (h : q.level) : FileStore.within cfg.inside (q.op cfg) := by
  cases hc : q.cmd with
  | none => simp [Request.op, hc, FileStore.within]
  | some c =>
    cases c with
    | fileOpen =>
      simp only [Request.op, hc, FileStore.within]
      exact inside_pathOf hc h
    | fileDelete =>
      simp only [Request.op, hc, FileStore.within]
      exact .inl (inside_joined (h.2 hc))
    | fileClose | fileRead | fileWrite | fileGetSize | fileSetSize =>
      cases hx : q.handle <;> simp [Request.op, hc, hx, FileStore.within]
    | rpmbSend | initOk | initProinfoOk | initPersistOk => simp [Request.op, hc, FileStore.within]

/-- A folder that is made for a level name is below the root too. -/
theorem inside_folder {k : Kernel} {root : Option Bytes} {name : Bytes} {p : Path}
    (h : (depth 0 (name.splitOn 47)).isSome) (hp : FolderAt k root name p) : placeOf (printed root) <+: p := by
  obtain ⟨hpos, hp⟩ := hp
  obtain ⟨base, _, hname⟩ := lastSlash_split hpos.le
  rw [Kernel.locate_place hp, placeOf_rdropWhile, folder]
  refine inside_joined ?_
  rw [hname, List.splitOn_append_cons_self, depth_append] at h
  cases hd : depth 0 ((name.take (lastSlash name).toNat).splitOn 47) with
  | some n => rfl
  | none =>
    rw [hd] at h
    cases h

/-! ## Names outside -/

theorem node_update {k k' : Kernel} {p r : Path} {nd : Option Node} (htree : k'.tree = Function.update k.tree r nd)
    (hne : p ≠ r) : k'.node p = k.node p := by
  simp only [Kernel.node, htree, Function.update_of_ne hne]

theorem node_congr {k k' : Kernel} (htree : k'.tree = k.tree) (p : Path) : k'.node p = k.node p := by
  simp only [Kernel.node, htree]

section Step

variable {cfg : Config} {dev : Nat → Bool} {R : List (Nat × Desc)} {H : Hist} {w : World} {q : Request} {p : Path}

theorem delete_outside (h : Viewed cfg dev R H w) (hc : q.cmd = some .fileDelete) (hq : q.level)
    (hp : ¬ cfg.inside p) : (serve w q).2.kern.node p = w.kern.node p := by
  replace hq := hq.2 hc
  rcases serve_handled hc (Prod.mk.eta (p := serve w q)).symm with ⟨_, e, m, s, _, ha⟩ | ⟨w₁, rest, s, hf, hk, hs⟩
  · rw [ha.kern]
    rfl
  · rcases storageFileDelete_cases hs with ⟨e, _, ha⟩ | ⟨hn, e, k, ha, hres⟩
    · rw [ha.kern, hk]
      rfl
    · rw [ha.kern]
      rw [hk, hf.roots, cstr_drop hn, h.rooted.ssdirName] at hres
      rcases hres with ⟨_, rfl⟩ | ⟨_, rep, hu⟩
      · rfl
      · obtain ⟨r, nd, hr, _, _, rfl⟩ := Kernel.unlink_ok hu
        refine node_update (k := w.kern) (r := r) rfl ?_
        intro he
        subst he
        rw [Kernel.locate_place hr] at hp
        exact hp (.inl (inside_joined hq))

/-- The folder of an open is no place outside. -/
theorem folder_outside {k k' : Kernel} {r : Roots} (hr : Rooted cfg R r) (hc : q.cmd = some .fileOpen) (hq : q.level)
    (hp : ¬ cfg.inside p) (h : Foldered r q.openFlags q.name k k') : k'.node p = k.node p := by
  rcases h with rfl | ⟨⟨_, _, hpro⟩, d, hd, _, rfl⟩
  · rfl
  · have hlevel : q.nameLevel := (hq.1 hc).resolve_right fun hx => by simp [hpro] at hx
    rw [hr.ssdirName] at hd
    refine node_update (r := d) rfl ?_
    intro he
    subst he
    exact hp (.inl (inside_folder hlevel hd))

theorem open_outside (h : Viewed cfg dev R H w) (hc : q.cmd = some .fileOpen) (hq : q.level)
    (hp : ¬ cfg.inside p) : (serve w q).2.kern.node p = w.kern.node p := by
  rcases serve_handled hc (Prod.mk.eta (p := serve w q)).symm with ⟨_, e, m, s, _, ha⟩ | ⟨w₁, rest, s, hf, hk, hs⟩
  · rw [ha.kern]
    rfl
  · have hflags (hn : 4 ≤ q.payload.length) : leAt (q.payload ++ 0 :: rest) 0 4 = q.openFlags := leAt_append hn
    rcases storageFileOpen_opened hs with ⟨e, k, _, ha, rfl | ⟨hn, hfolder⟩⟩ |
      ⟨hn, k, fl, fd, k', m, w₂, w₃, hfolder, ho, hk₂, hk₃, ha⟩
    · rw [ha.kern, hk]
      rfl
    · rw [hflags hn, cstr_drop hn, hf.roots, hk] at hfolder
      rw [ha.kern, folder_outside h.rooted hc hq hp hfolder]
      rfl
    · rw [hflags hn, cstr_drop hn, hf.roots] at hfolder ho
      rw [h.rooted.pathOf] at ho
      obtain ⟨⟨rep, hopen⟩, _⟩ := openTries_opened ho
      rw [hk₂, hk₃] at hopen
      rw [hk] at hfolder
      have hfirst := folder_outside h.rooted hc hq hp hfolder
      rw [ha.kern, show w.kern.node p = (w.kern.settle s).node p from rfl, ← hfirst]
      obtain ⟨r, d, hr, _, _, ⟨_, _, _, _, _, htree, _⟩ | ⟨_, _, _, htree, _⟩⟩ := Kernel.openPath_inv hopen
      · exact node_congr htree p
      · refine node_update htree ?_
        intro he
        subst he
        rw [Kernel.locate_place hr] at hp
        exact hp (inside_pathOf hc hq)

theorem close_outside (hc : q.cmd = some .fileClose) : (serve w q).2.kern.node p = w.kern.node p := by
  obtain ⟨w₁, e, out, m, k, hcheck, ha, heff⟩ := serve_effect (Prod.mk.eta (p := serve w q)).symm
  obtain ⟨htree, _, _⟩ := hcheck.tree
  rw [ha.kern]
  cases heff with
  | quiet => exact node_congr htree p
  | write _ hclose => exact absurd hc hclose
  | closeFailed => exact node_congr htree p
  | closed => exact node_congr htree p
  | deleteFailed hcmd => simp [hc] at hcmd
  | deleted hcmd => simp [hc] at hcmd
  | openFailed hcmd => simp [hc] at hcmd
  | opened hcmd => simp [hc] at hcmd

theorem serve_outside (h : Viewed cfg dev R H w) (hq : q.level) (hp : ¬ cfg.inside p) :
    (serve w q).2.kern.node p = w.kern.node p := by
  by_cases hopen : q.cmd = some .fileOpen
  · exact open_outside h hopen hq hp
  by_cases hdelete : q.cmd = some .fileDelete
  · exact delete_outside h hdelete hq hp
  by_cases hclose : q.cmd = some .fileClose
  · exact close_outside hclose
  · exact node_congr (serve_still hopen hclose hdelete).1 p

end Step

/-! ## Runs -/

section Runs

variable {cfg : Config} {dev : Nat → Bool} {env : Nat → Syscall → Reply} {mmcRead : Nat → Bytes} {k : Kernel}
  {w : World} {s : Served}

/-- No file or block device has two names. -/
def Unlinked (k : Kernel) : Prop :=
  ∀ p r f, f.keeps = true → k.named p = some f → k.named r = some f → p = r

/-- What a run keeps: the state since its start at `w`, seen from outside. -/
structure Confined (cfg : Config) (dev : Nat → Bool) (R : List (Nat × Desc)) (w : World) (s : Served) : Prop where
  viewed : Viewed cfg dev R s.hist s.world
  guarded : (s.view dev).Guarded Obj.keeps cfg.inside
  spared : FileStore.Spared Obj.keeps cfg.inside ((Served.begun w).view dev) (s.view dev)
  nodes : ∀ p, ¬ cfg.inside p → s.world.kern.node p = w.kern.node p

theorem start_confined (hk : k.Sound dev) (hone : Unlinked k) (hs : start cfg env mmcRead k = some w) :
    ∃ R, Confined cfg dev R w (Served.begun w) := by
  obtain ⟨R, hviewed⟩ := start_viewed hk hs
  obtain ⟨_, hl, _⟩ := start_launched hs
  have hnamed : w.kern.named = k.named := by
    funext p
    simp only [Kernel.named, node_congr hl.boot.tree]
  refine ⟨R, hviewed, ⟨fun p f hp => ?_, fun p r f hf hp hr => ?_, fun h p f _ hh _ => ?_⟩,
    FileStore.Spared.refl _ _ _, fun _ _ => rfl⟩
  · have hp : w.kern.named p = some f := hp
    unfold Kernel.named at hp
    split at hp
    · cases hp
    · cases hp
    · next nd _ hnd =>
      obtain rfl := Option.some.inj hp
      exact hviewed.sound.node hnd
  · refine hone p r f hf ?_ ?_
    · rw [← hnamed]
      exact hp
    · rw [← hnamed]
      exact hr
  · simp [Served.begun, Served.view, Kernel.view] at hh

theorem Confined.step {R : List (Nat × Desc)} {q : Request} (h : Confined cfg dev R w s) (h64 : cfg.abi.offBits = 64)
    (hq : s.allows q) (hlevel : q.level) : Confined cfg dev R w (s.next q) := by
  obtain ⟨hguarded, hspared⟩ := (served_step h64 h.viewed hq).spared h.guarded (within_inside hlevel)
  refine ⟨h.viewed.step h64 hq, hguarded, h.spared.trans hspared, fun p hp => ?_⟩
  exact (serve_outside h.viewed hlevel hp).trans (h.nodes p hp)

/-- **Nothing outside the roots is touched.** In every run whose names never
lead above where they start, what lies outside the roots stays what it was,
with the content it had. The disk has no links of either kind: symbolic ones are
not modelled, and no file has two names. -/
theorem outside_untouched (h64 : cfg.abi.offBits = 64) (hk : k.Sound dev) (hone : Unlinked k)
    (hs : start cfg env mmcRead k = some w)
    (hrun : Reach Served.next (fun s q => s.allows q ∧ q.level) (Served.begun w) s) {p : Path}
    (hp : ¬ cfg.inside p) : s.world.kern.node p = w.kern.node p ∧
      ∀ nd ino, w.kern.node p = some nd → (nd.obj p = .file ino ∨ nd.obj p = .blk ino) →
        s.world.kern.data ino = w.kern.data ino := by
  obtain ⟨R, hstart⟩ := start_confined hk hone hs
  have hc : Confined cfg dev R w s :=
    hrun.invariant (P := Confined cfg dev R w) hstart fun s q h hq => h.step h64 hq.1 hq.2
  refine ⟨hc.nodes p hp, fun nd ino hnd ho => ?_⟩
  have hfit : (nd.obj p).Fits dev w.kern.nextIno := hstart.viewed.sound.node hnd
  have hfit' := hc.viewed.sound.node ((hc.nodes p hp).trans hnd)
  have hnamed : ((Served.begun w).view dev).named p = some (nd.obj p) := by
    show w.kern.named p = some (nd.obj p)
    cases nd with
    | dir => rcases ho with ho | ho <;> cases ho
    | file i => simp only [Kernel.named, hnd]
    | blk i d => simp only [Kernel.named, hnd]
    | chr => rcases ho with ho | ho <;> cases ho
  have hkeeps : (nd.obj p).keeps = true := by
    rcases ho with ho | ho <;> rw [ho] <;> rfl
  have hcontent := (hc.spared p hp).2 (nd.obj p) hkeeps hnamed
  rw [← Kernel.content_obj ho hfit, ← Kernel.content_obj ho hfit']
  exact hcontent

end Runs

/-! A disk with a file `/p/y` beside the data root `/d`. -/

def shared : Kernel :=
  { bench with
    tree := fun p => if p = [[112], [121]] then some (.file 0) else bench.tree p
    data := fun _ => [1, 2]
    nextIno := 1 }

theorem shared_sound : shared.Sound fun _ => false := by
  refine ⟨fun p nd hp => ?_, fun n d hd => ?_, fun _ _ => rfl, fun _ => by simp [shared]⟩
  · simp only [shared] at hp
    split at hp
    · obtain rfl := Option.some.inj hp
      exact ⟨by decide, rfl⟩
    · cases hn : nd with
      | file ino => exact absurd (bench_sound.tree p nd hp) (by simp [hn, Node.obj, Obj.Fits, bench])
      | blk ino d => exact absurd (bench_sound.tree p nd hp) (by simp [hn, Node.obj, Obj.Fits])
      | dir => trivial
      | chr => trivial
  · cases hn : d.obj with
    | file ino => exact absurd (bench_sound.fds n d hd) (by simp [hn, Obj.Fits, bench])
    | blk ino => exact absurd (bench_sound.fds n d hd) (by simp [hn, Obj.Fits])
    | dir p => trivial
    | chr => trivial

theorem shared_file {p : Path} {f : Obj} (hf : f.keeps = true) (hp : shared.named p = some f) :
    p = [[112], [121]] := by
  by_contra hne
  have hnode : shared.node p = bench.node p := by
    simp [Kernel.node, shared, hne]
  simp only [Kernel.named, hnode] at hp
  split at hp
  · cases hp
  · cases hp
  · next nd _ hnd =>
    obtain rfl := Option.some.inj hp
    have hfit := bench_sound.node hnd
    obtain ⟨ino, ho | ho⟩ := keeps_inode hf
    · rw [ho] at hfit
      exact absurd hfit.1 (Nat.not_lt_zero ino)
    · rw [ho] at hfit
      exact absurd hfit.2 (by simp)

def sharedStarted : World := (start dataOnly calm (fun _ => []) shared).get (by decide)

/-- The session leaves `/p/y` as it is. -/
theorem session_outside :
    (session.foldl Served.next (Served.begun sharedStarted)).world.kern.node [[112], [121]] = some (.file 0) ∧
      (session.foldl Served.next (Served.begun sharedStarted)).world.kern.data 0 = [1, 2] := by
  have hallowed : allowedAlong Served.next (fun s q => s.allows q ∧ q.level) (Served.begun sharedStarted) session := by
    decide
  have hout : ¬ dataOnly.inside [[112], [121]] := by
    unfold Config.inside
    decide
  have hnode : sharedStarted.kern.node [[112], [121]] = some (.file 0) := by decide
  obtain ⟨hsame, hdata⟩ := outside_untouched (s := session.foldl Served.next (Served.begun sharedStarted)) rfl
    shared_sound (fun p r f hf hp hr => (shared_file hf hp).trans (shared_file hf hr).symm) (Option.some_get _).symm
    (Reach.start.run hallowed) hout
  exact ⟨hsame.trans hnode, (hdata _ 0 hnode (.inl rfl)).trans (by decide)⟩

/-- The name `../p/y` leads there. -/
example : placeOf (dataOnly.pathOf 0 [46, 46, 47, 112, 47, 121]) = [[112], [121]] := by decide

end Storage
