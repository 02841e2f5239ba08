/-
Files created through the VFS, and what a checkpoint does for them.

An open with the VFS and CREATE flags may make a folder and a file in it. A
checkpoint syncs the roots: their own entries, or everything on their file
systems when a descriptor of 64 or more was given out. An entry of a folder is
none of the first, so it reaches the disk only in the second case.
-/
import Microtrust.Lib.Reach
import Microtrust.Storage.Durable

namespace Storage

open Lib

/-! ## Folders and what is in them -/

theorem lastSlash_concat (s : Bytes) (b : UInt8) :
    lastSlash (s ++ [b]) = if b = 47 then (s.length : Int) else lastSlash s := by
  simp [lastSlash, List.zipIdx_append]

/-- A name is its folder, a slash, and a name without one. -/
theorem lastSlash_split {name : Bytes} (h : 0 ≤ lastSlash name) :
    ∃ base, 47 ∉ base ∧ name = name.take (lastSlash name).toNat ++ 47 :: base := by
  induction name using List.reverseRecOn with
  | nil => simp [lastSlash] at h
  | append_singleton s b ih =>
    rw [lastSlash_concat] at h ⊢
    split
    · next hb =>
      refine ⟨[], by simp, ?_⟩
      rw [Int.toNat_natCast, List.take_left, hb]
    · next hb =>
      rw [if_neg hb] at h
      obtain ⟨base, hbase, hs⟩ := ih h
      have hlen := congrArg List.length hs
      simp only [List.length_append, List.length_take, List.length_cons] at hlen
      refine ⟨base ++ [b], by simp [hbase, Ne.symm hb], ?_⟩
      rw [List.take_append_of_le_length (by omega), ← List.cons_append, ← List.append_assoc, ← hs]

/-- In a folder just made, a name leads to a directory or to an entry of it. -/
theorem folder_child {k k₁ : Kernel} {root : Option Bytes} {name : Bytes} {pf p : Path}
    (hf : FolderAt k root name pf) (hm : k.MadeDir pf k₁) (hp : k₁.locate (joined root name) = .ok p) :
    ∃ base, k₁.node p = some .dir ∨ p = pf ++ [base] := by
  obtain ⟨hpos, hloc⟩ := hf
  obtain ⟨base, hbase, hname⟩ := lastSlash_split hpos.le
  have hfolder := Kernel.locate_rdropWhile (Kernel.locate_mono hm.mono hloc) hm.self
  rw [show joined root name = folder root name ++ 47 :: base by
    unfold folder joined
    nth_rewrite 1 [hname]
    simp] at hp
  exact ⟨base, (Kernel.locate_child hfolder hbase hp).2⟩

/-! ## Creations -/

def Target.isEntry : Target → Bool
  | .entry _ _ => true
  | .data _ _ => false

def Request.createsVfs (q : Request) : Bool :=
  q.cmd = some .fileOpen && q.openFlags.testBit openVfs && q.openFlags.testBit openCreate

/-- The entries made by the request `q` that took `w` to `w'`, if it is a VFS
creation that was answered well. -/
def createdBy (q : Request) (w w' : World) : List Change :=
  if q.createsVfs && answered w w' .noError then
    (w'.kern.made.drop w.kern.made.length).filter fun c => Target.isEntry c.target
  else []

/-- The directories in which `q` may make an entry: the one its folder is
missing from and that folder, or the one its file is missing from. -/
def EntersIn (w : World) (q : Request) (P : Path) : Prop :=
  (q.openFlags.testBit openPersistentFile = false ∧ q.openFlags.testBit openProinfoFile = false ∧
    ∃ p, FolderAt w.kern w.st.roots.ssdirName q.name p ∧ w.kern.node p = none ∧ (P = p.dropLast ∨ P = p)) ∨
  ∃ p, w.kern.locate (openName w.st.roots q.openFlags q.name) = .ok p ∧ w.kern.node p = none ∧ P = p.dropLast

/-- A root that a checkpoint syncs, as it is open now. -/
def SyncedRoot (w : World) (d : Desc) : Prop := ∃ fd ∈ rootFds w.st.roots, w.kern.desc fd = some d

/-- The mark of the file systems is set and stays, or the next descriptor is
one that sets it. -/
def MarksFs (w : World) (q : Request) : Prop :=
  w.st.marks.fsState = .dirty ∧ q.msg.preCommit = false ∨ ∃ n, w.kern.lowest = some n ∧ fdTblSize ≤ n

/-- Whatever entries the creation makes are in a root's own directory, or on
a root's file system while that is marked. -/
def CoversEntries (w : World) (q : Request) : Prop :=
  q.createsVfs = true → ∀ P, EntersIn w q P →
    (∃ d, SyncedRoot w d ∧ d.obj = .dir P) ∨ MarksFs w q ∧ ∃ d, SyncedRoot w d ∧ d.fs = w.kern.fsOf P

/-! ## What an open makes -/

/-- An open, seen with its folder. -/
theorem serve_open {w w' : World} {q : Request} {rc : Int} (h : serve w q = (rc, w')) (hc : q.cmd = some .fileOpen) :
    ∃ w₁ e out m k k₁, Checkpointed (receive w q) w₁ ∧ (q.msg.preCommit = false → w₁ = receive w q) ∧
      Answers w q.msg e out m k w' ∧ Foldered w.st.roots q.openFlags q.name w₁.kern k₁ ∧
      (e ≠ .noError ∧ k = k₁ ∨ ∃ fl p fd d, fl.rdwr = true ∧
        k₁.locate (openName w.st.roots q.openFlags q.name) = .ok p ∧ k₁.Opened fl p fd d k ∧
        m = (insertFd w₁.st.marks fl fd).2) := by
  have hf₀ : Frame w (receive w q) := ⟨rfl, rfl, rfl, rfl⟩
  obtain ⟨w₁, hcheck, hpre, ⟨e, he, ha⟩ | hd⟩ := serve_cases h
  · exact ⟨w₁, _, _, _, _, _, hcheck, hpre, (hf₀.trans hcheck.synced.frame).answers ha, .inl rfl, .inl ⟨he, rfl⟩⟩
  have hs := hcheck.synced
  have hframe := hf₀.trans hs.frame
  obtain ⟨rest, hrest⟩ := receive_buffer w q
  rw [hs.buf, hrest, dispatch_some hc] at hd
  rcases storageFileOpen_cases hd with ⟨e, he, ha⟩ | ⟨hlen, hk⟩
  · exact ⟨w₁, _, _, _, _, _, hcheck, hpre, hframe.answers ha, .inl rfl, .inl ⟨he, rfl⟩⟩
  have h4 : 4 ≤ q.payload.length := by omega
  rw [cstr_drop h4, leAt_append (show 0 + 4 ≤ q.payload.length by omega), hframe.roots] at hk
  rcases hk with ⟨e, k, he, ha, hfolder⟩ | ⟨k₁, fl, p, fd, d, k, hfolder, hrw, hp, ho, ha⟩
  · exact ⟨w₁, _, _, _, _, k, hcheck, hpre, hframe.answers ha, hfolder, .inl ⟨he, rfl⟩⟩
  · exact ⟨w₁, _, _, _, _, k₁, hcheck, hpre, hframe.answers ha, hfolder, .inr ⟨fl, p, fd, d, hrw, hp, ho, rfl⟩⟩

/-- Every entry an open makes is in one of the directories it may enter, and
it makes one only with `O_CREAT`. -/
theorem opened_entries {w w₁ : World} {q : Request} {k₁ k : Kernel} {fl : OpenFlags} {p : Path} {fd : Nat} {d : Desc}
    (htree : w₁.kern.tree = w.kern.tree) (hfs : w₁.kern.fsOf = w.kern.fsOf) (hmade : w₁.kern.made = w.kern.made)
    (ht : w.kern.Treed) (hfolder : Foldered w.st.roots q.openFlags q.name w₁.kern k₁) (hrw : fl.rdwr = true)
    (hp : k₁.locate (openName w.st.roots q.openFlags q.name) = .ok p) (ho : k₁.Opened fl p fd d k) :
    ∀ c ∈ k.made.drop w.kern.made.length, Target.isEntry c.target = true →
      fl.creat = true ∧ ∃ P, EntersIn w q P ∧ c.target = .entry P (w.kern.fsOf P) := by
  have hdirs : w.kern.SameDirs w₁.kern := .of_tree htree
  have hnode (x : Path) : w₁.kern.node x = w.kern.node x := by simp only [Kernel.node, htree]
  intro c hc hentry
  rcases hfolder with rfl | ⟨⟨_, hpers, hpro⟩, pf, hpf, hnone, hmk⟩
  · rcases ho.place with ⟨_, _, _, _, _, _, hq | ⟨_, ino, _, hlog⟩⟩ | ⟨hnone, hcreat, _, hdfs, _, hlog⟩
    · rw [hq.1, hmade, List.drop_length] at hc
      cases hc
    · rw [hlog.1, hmade, List.drop_left, List.mem_singleton] at hc
      rw [hc] at hentry
      cases hentry
    · rw [hlog.1, hmade, List.drop_left, List.mem_singleton] at hc
      refine ⟨hcreat, p.dropLast, .inr ⟨p, hdirs.locate.mp hp, by rw [← hnode]; exact hnone, rfl⟩, ?_⟩
      rw [hc, hdfs, hfs]
  · have hname : openName w.st.roots q.openFlags q.name = joined w.st.roots.ssdirName q.name := by
      simp [openName, hpers, hpro]
    have hmk₁ : k₁.tree = Function.update w.kern.tree pf (some .dir) := by rw [hmk, ← htree]; rfl
    have hnone' : w.kern.node pf = none := by rw [← hnode]; exact hnone
    have hin {P : Path} (hP : P = pf.dropLast ∨ P = pf) : EntersIn w q P :=
      .inl ⟨hpers, hpro, pf, ⟨hpf.1, hdirs.locate.mp hpf.2⟩, hnone', hP⟩
    rw [hname] at hp
    obtain ⟨base, hdir | rfl⟩ := folder_child hpf ⟨hnone, hmk⟩ hp
    · rcases ho.place with ⟨nd, hnd, hro, _⟩ | ⟨hnone₁, _⟩
      · rw [hdir, Option.some.injEq] at hnd
        rw [hro hnd.symm] at hrw
        cases hrw
      · rw [hdir] at hnone₁
        cases hnone₁
    · rcases ho.place with ⟨nd, hnd, _⟩ | ⟨_, hcreat, _, hdfs, _, hlog⟩
      · -- nothing was in the folder, which was not there
        rw [Kernel.node, if_neg (by simp), hmk₁, Function.update_of_ne (by simp)] at hnd
        have hparent := ht _ _ hnd
        rw [List.dropLast_concat, hnone'] at hparent
        cases hparent
      · have hmade₁ : k₁.made = w.kern.made ++ [⟨w.kern.made.length, .entry pf.dropLast (w.kern.fsOf pf.dropLast), none⟩] := by
          rw [hmk, ← hmade, ← hfs]
          rfl
        refine ⟨hcreat, ?_⟩
        rw [hlog.1, hmade₁, List.append_assoc, List.drop_left] at hc
        simp only [List.cons_append, List.nil_append, List.mem_cons, List.not_mem_nil, or_false] at hc
        rcases hc with rfl | rfl
        · exact ⟨pf.dropLast, hin (.inl rfl), rfl⟩
        · refine ⟨pf, hin (.inr rfl), ?_⟩
          have hfs₁ : k₁.fsOf = w.kern.fsOf := by rw [hmk, ← hfs]; rfl
          rw [hdfs, List.dropLast_concat, hfs₁]

/-! ## What a checkpoint does for them -/

/-- Each of the changes `T` that is pending is on a root's file system, and a
mark answers for it. -/
def Kept (R : List (Nat × Desc)) (T : List Change) (m : Marks) (k : Kernel) : Prop :=
  ∀ c ∈ T, c ∈ k.pending → (∃ x ∈ R, c.target.fs = x.2.fs) ∧
    (m.fsState = .dirty ∨ m.dirState = .dirty ∧ ∃ x ∈ R, x.2.syncs c = true)

section

variable {R : List (Nat × Desc)} {T : List Change} {w w' : World}

theorem Kept.mono {m m' : Marks} {k k' : Kernel} (h : Kept R T m k) (hp : ∀ c ∈ T, c ∈ k'.pending → c ∈ k.pending)
    (hfs : m.fsState = .dirty → m'.fsState = .dirty) (hdir : m.dirState = .dirty → m'.dirState = .dirty) :
    Kept R T m' k' := by
  intro c hc hpending
  obtain ⟨hroot, hmark⟩ := h c hc (hp c hc hpending)
  exact ⟨hroot, hmark.imp hfs fun hd => ⟨hdir hd.1, hd.2⟩⟩

theorem syncFds_kept {l : List Nat} {res} (h : Kept R T w.st.marks w.kern) (hs : syncFds l w = (res, w')) :
    Kept R T w'.st.marks w'.kern := by
  obtain ⟨hfs, hdir⟩ := syncFds_marks hs
  refine h.mono (fun c _ hc => (syncFds_synced hs).pending c hc) (fun he => ?_) fun he => ?_
  · rw [hfs]; exact he
  · rw [hdir]; exact he

theorem syncDirs_kept {res} (h : Kept R T w.st.marks w.kern) (hall : SyncsAll R w)
    (hfs : w.st.marks.fsState ≠ .unused) (hs : syncDirs w = (res, w')) : Kept R T w'.st.marks w'.kern := by
  unfold syncDirs at hs
  split at hs
  · split at hs
    · next hclean =>
      split at hs
      · next he =>
        obtain ⟨_, rfl⟩ := Prod.mk.inj hs
        obtain ⟨hy, hst⟩ := syncRoots_synced syncCall_fsync he
        rw [hst]
        exact h.mono (fun c _ hc => hy.pending c hc) id id
      · next w₁ he =>
        obtain ⟨_, rfl⟩ := Prod.mk.inj hs
        obtain ⟨hy, hst⟩ := syncRoots_synced syncCall_fsync he
        -- what the directories' mark answered for has been synced
        intro c hc hpending
        obtain ⟨_, hmark | ⟨_, x, hx, hsync⟩⟩ := h c hc (hy.pending c hpending)
        · rw [hclean] at hmark
          cases hmark
        · obtain ⟨hroot, hopen⟩ := hall x hx
          rw [syncRoots_ok syncCall_fsync he hroot ((Kernel.desc_natCast ..).trans hopen) c hpending] at hsync
          cases hsync
    · next hclean =>
      obtain ⟨_, rfl⟩ := Prod.mk.inj hs
      intro c hc hpending
      exact ⟨(h c hc hpending).1, .inl (eq_dirty hfs hclean)⟩
  · obtain ⟨_, rfl⟩ := Prod.mk.inj hs
    exact h

theorem syncFs_kept {res} (h : Kept R T w.st.marks w.kern) (hall : SyncsAll R w) (hs : syncFs w = (res, w')) :
    Kept R T w'.st.marks w'.kern := by
  unfold syncFs at hs
  split at hs
  · split at hs
    · next he =>
      obtain ⟨_, rfl⟩ := Prod.mk.inj hs
      obtain ⟨hy, hst⟩ := syncRoots_synced syncCall_syncfs he
      rw [hst]
      exact h.mono (fun c _ hc => hy.pending c hc) id id
    · next w₁ he =>
      obtain ⟨_, rfl⟩ := Prod.mk.inj hs
      obtain ⟨hy, _⟩ := syncRoots_synced syncCall_syncfs he
      intro c hc hpending
      obtain ⟨⟨x, hx, hfs⟩, _⟩ := h c hc (hy.pending c hpending)
      obtain ⟨hroot, hopen⟩ := hall x hx
      have hno := syncRoots_ok syncCall_syncfs he hroot ((Kernel.desc_natCast ..).trans hopen) c hpending
      simp only [beq_eq_false_iff_ne] at hno
      exact absurd hfs hno
  · obtain ⟨_, rfl⟩ := Prod.mk.inj hs
    exact h

theorem checkpoint_kept {rc : Int} (h : Kept R T w.st.marks w.kern) (hall : SyncsAll R w)
    (hfs : w.st.marks.fsState ≠ .unused) (hs : storageSyncCheckpoint w = (rc, w')) : Kept R T w'.st.marks w'.kern :=
  checkpoint_keeps (I := Kept R T) (fun _ _ _ _ h _ hs => syncFds_kept h hs)
    (fun _ _ _ h hall hfs hs => syncDirs_kept h hall hfs hs) (fun _ _ _ h hall hs => syncFs_kept h hall hs) h hall hfs hs

/-- After a checkpoint that returned 0 no mark is left, so nothing is pending. -/
theorem Kept.settled {m : Marks} {k : Kernel} (h : Kept R T m k) (hm : ∀ x, x ∉ m.set) : ∀ c ∈ T, c ∉ k.pending := by
  intro c hc hpending
  rcases (h c hc hpending).2 with hfs | ⟨hdir, _⟩
  · exact hm .fs hfs
  · exact hm .dir hdir

end

/-! ## One request -/

theorem Effect.marks {roots : Roots} {q : Request} {m m' : Marks} {k k' : Kernel} {e : Err} {out : Option Bytes}
    (h : Effect roots q m k e out m' k') :
    (m.fsState = .dirty → m'.fsState = .dirty) ∧ (m.dirState = .dirty → m'.dirState = .dirty) := by
  cases h with
  | quiet => exact ⟨id, id⟩
  | write =>
    simp only [lookupFd, if_true]
    split
    · exact ⟨id, id⟩
    · exact ⟨fun _ => rfl, id⟩
  | closeFailed =>
    simp only [removeFd]
    split <;> exact ⟨id, id⟩
  | closed =>
    simp only [removeFd]
    split <;> exact ⟨id, id⟩
  | deleteFailed => exact ⟨id, fun _ => rfl⟩
  | deleted => exact ⟨id, fun _ => rfl⟩
  | openFailed => exact ⟨id, id⟩
  | opened =>
    simp only [insertFd]
    split <;> split <;> split <;> simp_all

theorem Checkpointed.grows {w w₁ : World} {q : Request} (h : Checkpointed (receive w q) w₁) :
    w.kern.Grows w₁.kern ∧ w₁.kern.tree = w.kern.tree ∧ w₁.kern.made = w.kern.made ∧
      w₁.kern.fds = w.kern.fds := by
  obtain ⟨s, hs⟩ := h.synced.kern
  rw [hs]
  exact ⟨.fewer rfl (fun c hc => (Kernel.mem_pending_settle.mp hc).1) rfl, rfl, rfl, rfl⟩

theorem Foldered.treed {roots : Roots} {flags : Nat} {name : Bytes} {k k' : Kernel}
    (h : Foldered roots flags name k k') (ht : k.Treed) : k'.Treed := by
  rcases h with rfl | ⟨_, p, hp, hnone, rfl⟩
  · exact ht
  · exact ht.update rfl (by rw [hnone]; simp) fun _ => Kernel.locate_parent hp.2 hnone

/-- The names form a tree after a request if they did before. -/
theorem serve_treed {w w' : World} {q : Request} {rc : Int} (h : serve w q = (rc, w')) (ht : w.kern.Treed) :
    w'.kern.Treed := by
  by_cases hopen : q.cmd = some .fileOpen
  · obtain ⟨w₁, e, out, m, k, k₁, hc, _, ha, hfolder, hk⟩ := serve_open h hopen
    have ht₁ := hfolder.treed (ht.of_tree hc.grows.2.1)
    rw [ha.kern]
    rcases hk with ⟨_, rfl⟩ | ⟨fl, p, fd, d, hrw, hp, ho, _⟩
    · exact ht₁
    · rcases ho.place with ⟨_, _, _, _, _, htree, _⟩ | ⟨hnone, _, _, _, htree, _⟩
      · exact ht₁.of_tree htree
      · exact ht₁.update htree (by rw [hnone]; simp) fun _ => Kernel.locate_parent hp hnone
  · obtain ⟨w₁, e, out, m, k, hc, ha, heff⟩ := serve_effect h
    have ht₁ : w₁.kern.Treed := ht.of_tree hc.grows.2.1
    rw [ha.kern]
    cases heff with
    | quiet => exact ht₁
    | write _ _ _ hw => exact ht₁.of_tree hw.tree.1
    | closeFailed => exact ht₁
    | closed => exact ht₁.of_tree rfl
    | deleteFailed => exact ht₁
    | deleted _ hu =>
      obtain ⟨p, nd, _, hnd, hdir, rfl⟩ := Kernel.unlink_ok hu
      exact ht₁.update rfl (by rw [hnd]; simpa using hdir) (by simp)
    | openFailed hc => exact absurd hc hopen
    | opened hc => exact absurd hc hopen

/-! ## Runs -/

/-- A state of a run: its history, the entries made by VFS creations so far,
and the proxy. -/
structure VfsState where
  hist : Hist
  created : List Change
  world : World

def VfsState.next (s : VfsState) (q : Request) : VfsState :=
  let w' := (serve s.world q).2
  ⟨s.hist.next q s.world w', s.created ++ createdBy q s.world w', w'⟩

/-- The requests of a run: the loop goes on, the client uses only handles it
holds, and where it creates through the VFS, and is answered well, its entries are
covered. Nothing is asked of an open that is refused or fails. -/
structure VfsOk (s : VfsState) (q : Request) : Prop where
  goes : (serve s.world q).1 = 0
  live : UsesLive s.hist q
  covers : answered s.world (serve s.world q).2 .noError = true → CoversEntries s.world q

structure VfsSound (cfg : Config) (R : List (Nat × Desc)) (s : VfsState) : Prop where
  rooted : Rooted cfg R s.world.st.roots
  held : Held R s.hist.live s.world.st.marks s.world.kern
  synced : ∀ x ∈ R, (x.1 : Int) ∈ rootFds s.world.st.roots
  dirs : ∀ x ∈ R, ∀ P, x.2.obj = .dir P → x.2.fs = s.world.kern.fsOf P
  treed : s.world.kern.Treed
  numbered : s.world.kern.Numbered
  made : ∀ c ∈ s.created, c ∈ s.world.kern.made
  kept : Kept R s.created s.world.st.marks s.world.kern

/-- A root that is a directory is on the file system of that directory. -/
theorem Launched.dirs {cfg : Config} {k : Kernel} {R : List (Nat × Desc)} {w : World} (h : Launched cfg k R w)
    (hd : cfg.dataRoot.isSome) {x : Nat × Desc} (hx : x ∈ R) (hfd : (x.1 : Int) ∈ rootFds w.st.roots) {P : Path}
    (hP : x.2.obj = .dir P) : x.2.fs = w.kern.fsOf P := by
  obtain ⟨_, D, nd, n, d, _, _, hmem, hn, hobj, hfs⟩ := h.placed hd hfd
  obtain rfl : x.1 = n := by exact_mod_cast hn
  obtain rfl : d = x.2 := by
    have hopen := h.boot.held _ hmem
    rw [h.boot.held x hx, Option.some.injEq] at hopen
    exact hopen.symm
  rw [hobj] at hP
  cases nd with
  | dir =>
    obtain rfl : D = P := Obj.dir.inj hP
    rw [hfs, h.boot.fsOf]
    rfl
  | file ino => cases hP
  | blk ino dev => cases hP
  | chr => cases hP

theorem start_vfsSound {cfg : Config} (hd : cfg.dataRoot.isSome) {env mmcRead k w} (hk : k.Treed)
    (h : start cfg env mmcRead k = some w) : ∃ R, VfsSound cfg R ⟨⟨[], [], []⟩, [], w⟩ := by
  obtain ⟨R₀, hl₀, _⟩ := start_launched h
  have hl := hl₀.restrict hd
  have hsynced : ∀ x ∈ R₀.filter fun x => (x.1 : Int) ∈ rootFds w.st.roots, (x.1 : Int) ∈ rootFds w.st.roots := by
    intro x hx
    simpa using (List.mem_filter.mp hx).2
  refine ⟨_, hl.rooted, ⟨hl.boot.held, by simp, fun n _ hdirty => absurd hdirty (hl.boot.fd n), ?_⟩, hsynced,
    fun x hx P hP => hl.dirs hd hx (hsynced x hx) hP, hk.of_tree hl.boot.tree, ?_, by simp, ?_⟩
  · rw [hl.boot.fs]
    simp
  · intro c hc
    rw [hl.boot.made] at hc
    cases hc
  · intro c hc
    cases hc

/-- The mark of the file systems after a creation that sets it. -/
theorem MarksFs.marked {w w₁ : World} {q : Request} {k₁ k : Kernel} {fl : OpenFlags} {p : Path} {fd : Nat} {d : Desc}
    (h : MarksFs w q) (hpre : q.msg.preCommit = false → w₁ = receive w q) (hfds : k₁.fds = w.kern.fds)
    (ho : k₁.Opened fl p fd d k) (hcreat : fl.creat = true) : (insertFd w₁.st.marks fl fd).2.fsState = .dirty := by
  rcases h with ⟨hdirty, hno⟩ | ⟨n, hn, hlarge⟩
  · rw [hpre hno]
    simp only [insertFd, hcreat, if_true, Bool.or_true]
    split
    · split <;> exact hdirty
    · rfl
  · obtain ⟨_, hfree, hbelow⟩ := Kernel.lowest_spec hn
    have hge : n ≤ fd := by
      by_contra hlt
      refine hbelow fd (by omega) ?_
      rw [← hfds]
      exact ho.free
    simp only [insertFd, hcreat, if_true, Bool.or_true, if_neg (show ¬ fd < fdTblSize by omega)]

/-- The entries of a creation are kept as long as they are covered. -/
theorem VfsSound.created {cfg : Config} (hd : cfg.dataRoot.isSome) {R : List (Nat × Desc)} {s : VfsState}
    (h : VfsSound cfg R s) {q : Request} {w' : World}
    (hq : answered s.world w' .noError = true → CoversEntries s.world q) (hserve : serve s.world q = (0, w')) :
    Kept R (createdBy q s.world w') w'.st.marks w'.kern := by
  intro c hc _
  simp only [createdBy] at hc
  split at hc
  · next hvfs =>
    rw [Bool.and_eq_true] at hvfs
    obtain ⟨hcreates, hwell⟩ := hvfs
    obtain ⟨hcmd, _⟩ : q.cmd = some .fileOpen ∧ _ := by
      simpa [Request.createsVfs, and_assoc] using hcreates
    obtain ⟨w₁, e, out, m, k, k₁, hcheck, hpre, ha, hfolder, hk⟩ := serve_open hserve hcmd
    obtain ⟨hgrows, htree, hmade, hfds⟩ := hcheck.grows
    rcases hk with ⟨he, _⟩ | ⟨fl, p, fd, d, hrw, hp, ho, rfl⟩
    · rw [ha.answered, decide_eq_true_eq] at hwell
      exact absurd hwell he
    · obtain ⟨hmem, hentry⟩ := List.mem_filter.mp hc
      rw [ha.kern] at hmem
      obtain ⟨hcreat, P, hP, htarget⟩ := opened_entries htree hgrows.fsOf hmade h.treed hfolder hrw hp ho c hmem hentry
      -- a root that is open is one of `R`
      have hroot {d : Desc} (hsr : SyncedRoot s.world d) : ∃ x ∈ R, x.2 = d := by
        obtain ⟨n, hn, hdesc⟩ := hsr
        obtain ⟨x, hx, rfl⟩ := h.rooted.all hd n hn
        rw [Kernel.desc_natCast, h.held.roots x hx, Option.some.injEq] at hdesc
        exact ⟨x, hx, hdesc⟩
      rw [ha.marks]
      rcases hq hwell hcreates P hP with ⟨d, hsr, hobj⟩ | ⟨hmarks, d, hsr, hfs⟩
      · obtain ⟨x, hx, rfl⟩ := hroot hsr
        refine ⟨⟨x, hx, ?_⟩, .inr ⟨?_, x, hx, ?_⟩⟩
        · rw [htarget, h.dirs x hx P hobj]
          rfl
        · exact insertFd_dir hcreat
        · simp [Desc.syncs, hobj, htarget]
      · obtain ⟨x, hx, rfl⟩ := hroot hsr
        refine ⟨⟨x, hx, ?_⟩, .inl (hmarks.marked hpre ?_ ho hcreat)⟩
        · rw [htarget, hfs]
          rfl
        · rw [hfolder.prepared.fds, hfds]
  · cases hc

theorem VfsSound.step {cfg : Config} (hd : cfg.dataRoot.isSome) {R : List (Nat × Desc)} {s : VfsState}
    (h : VfsSound cfg R s) {q : Request} (hq : VfsOk s q) : VfsSound cfg R (s.next q) := by
  obtain ⟨hist, T, w⟩ := s
  have hserve : serve w q = (0, (serve w q).2) := Prod.ext hq.goes rfl
  simp only [VfsState.next]
  have hnew := h.created hd hq.covers hserve
  have htreed := serve_treed hserve h.treed
  obtain ⟨w₁, e, out, m, k, hc, ha, heff⟩ := serve_effect hserve
  obtain ⟨hgrows, _, hmade, _⟩ := hc.grows
  have hall := hgrows.trans heff.grows
  rw [← ha.kern] at hall
  have hheld : Held R hist.live w₁.st.marks w₁.kern := Held.synced (w := receive w q) h.held hc.synced
  have hkept : Kept R T w₁.st.marks w₁.kern := by
    rcases hc with rfl | ⟨rc, hc⟩
    · exact h.kept
    · exact checkpoint_kept (w := receive w q) h.kept (fun x hx => ⟨h.synced x hx, h.held.roots x hx⟩) h.held.fs hc
  refine ⟨ha.roots ▸ h.rooted, ?_, ha.roots ▸ h.synced, ?_, htreed, hall.numbered h.numbered, ?_, ?_⟩
  · rw [ha.marks, ha.kern]
    exact hheld.effect hq.live heff ha
  · rw [hall.fsOf]
    exact h.dirs
  · intro c hc
    rcases List.mem_append.mp hc with hc | hc
    · exact hall.made.subset (h.made c hc)
    · simp only [createdBy] at hc
      split at hc
      · exact List.mem_of_mem_drop (List.mem_of_mem_filter hc)
      · cases hc
  · have hold : Kept R T (serve w q).2.st.marks (serve w q).2.kern := by
      rw [ha.marks, ha.kern]
      refine hkept.mono (fun c hc => ?_) heff.marks.1 heff.marks.2
      exact heff.grows.pending (hgrows.numbered h.numbered) c (hmade ▸ h.made c hc)
    intro c hc
    rcases List.mem_append.mp hc with hc | hc
    · exact hold c hc
    · exact hnew c hc

/-- **A checkpoint that returns 0 makes durable every entry of the VFS
creations before it, in every run in which each of them that was answered well was
covered.** -/
theorem vfs_creations_durable {cfg : Config} (hd : cfg.dataRoot.isSome) {env : Nat → Syscall → Reply}
    {mmcRead : Nat → Bytes} {k : Kernel} {w : World} (hk : k.Treed) (hs : start cfg env mmcRead k = some w)
    {s : VfsState} (hrun : Reach VfsState.next VfsOk ⟨⟨[], [], []⟩, [], w⟩ s) (q : Request) {w' : World}
    (hc : storageSyncCheckpoint (receive s.world q) = (0, w')) : ∀ c ∈ s.created, Durable w'.kern c := by
  obtain ⟨R, hstart⟩ := start_vfsSound hd hk hs
  have hsound : VfsSound cfg R s := hrun.invariant hstart fun s q hsound hq => hsound.step hd hq
  have hkept : Kept R s.created w'.st.marks w'.kern :=
    checkpoint_kept (w := receive s.world q) hsound.kept
      (fun x hx => ⟨hsound.synced x hx, hsound.held.roots x hx⟩) hsound.held.fs hc
  have hmade : w'.kern.made = s.world.kern.made := by
    obtain ⟨p, hp⟩ := (checkpoint_synced hc).kern
    rw [hp]
    rfl
  intro c hmem
  exact ⟨hmade ▸ hsound.made c hmem, hkept.settled (checkpoint_clean hc) c hmem⟩

/-! A proxy on the data root `/d` creates `a/b`, or `x`. -/

def vfsStarted : VfsState := ⟨⟨[], [], []⟩, [], dataStarted⟩

def createFoldered : Request := request .fileOpen 0 [33, 0, 0, 0, 97, 47, 98] (by decide)

def createPlain : Request := request .fileOpen 0 [33, 0, 0, 0, 120] (by decide)

/-- The folder's entry is synced with the root, the file's entry is not. -/
theorem vfs_entry_not_durable :
    (serve vfsStarted.world createFoldered).1 = 0 ∧ UsesLive vfsStarted.hist createFoldered ∧
      (vfsStarted.next createFoldered).created.length = 2 ∧
      (storageSyncCheckpoint (receive (vfsStarted.next createFoldered).world createFoldered)).1 = 0 ∧
      ∃ c ∈ (vfsStarted.next createFoldered).created, c.target = .entry [[100], [97]] 0 ∧
        ¬ Durable (storageSyncCheckpoint (receive (vfsStarted.next createFoldered).world createFoldered)).2.kern c := by
  refine ⟨by decide, fun h hh => ?_, by decide, by decide,
    ⟨1, .entry [[100], [97]] 0, some 5⟩, by decide, by decide, fun h => h.2 (by decide)⟩
  cases hh

theorem bench_treed : bench.Treed := by
  intro p nd hp
  simp only [bench] at hp
  split at hp
  · next h => rcases h with rfl | rfl <;> rfl
  · split at hp
    · next h => subst h; rfl
    · cases hp

/-- Create `a/b`, with a byte behind the name. -/
def createMalformed : Request := request .fileOpen 0 [33, 0, 0, 0, 97, 47, 98, 0] (by decide)

/-- `x` is created after an open that was refused. -/
theorem vfs_creations_durable_plain :
    let s := (vfsStarted.next createMalformed).next createPlain
    s.created.length = 1 ∧ ∀ c ∈ s.created,
      Durable (storageSyncCheckpoint (receive s.world createPlain)).2.kern c := by
  intro s
  have hmalformed : VfsOk vfsStarted createMalformed := by
    refine ⟨by decide, fun h hh => ?_, fun hwell => absurd hwell (by decide)⟩
    cases hh
  have hcovers : CoversEntries (vfsStarted.next createMalformed).world createPlain := by
    intro _ P hP
    rcases hP with ⟨_, _, p, hp, _⟩ | ⟨p, hp, _, rfl⟩
    · exact absurd hp.1 (by decide)
    · obtain rfl : p = [[100], [120]] :=
        Except.ok.inj (hp.symm.trans (by decide : dataStarted.kern.locate _ = .ok [[100], [120]]))
      exact .inl ⟨⟨.dir [[100]], 0, 3, false⟩, ⟨3, by decide, by decide⟩, rfl⟩
  have hplain : VfsOk (vfsStarted.next createMalformed) createPlain := by
    refine ⟨by decide, fun h hh => ?_, fun _ => hcovers⟩
    cases hh
  exact ⟨by decide, vfs_creations_durable rfl bench_treed (Option.some_get _).symm
    (.step createPlain (.step createMalformed .start hmalformed) hplain) createPlain (Prod.ext (by decide) rfl)⟩

end Storage
