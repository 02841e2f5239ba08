/-
What a call can do to the kernel, said once for each call, and where a path
leads.

A failed call changes nothing (a failed `close` apart); a successful one
makes at most one change to the log of changes. Directories only ever come
to be by `mkdir`, so a place that was located once stays where it is.
-/
import Microtrust.Lib.Kernel

namespace Lib

namespace Kernel

/-! ## Descriptors -/

@[simp] theorem desc_natCast (k : Kernel) (n : Nat) : k.desc (n : Int) = k.fds n := by
  simp [desc]

theorem lowest_spec {k : Kernel} {n : Nat} (h : k.lowest = some n) :
    n < k.limit ∧ k.fds n = none ∧ ∀ m < n, k.fds m ≠ none := by
  unfold lowest at h
  rw [List.find?_range_eq_some] at h
  obtain ⟨hfree, hlt, hbelow⟩ := h
  refine ⟨List.mem_range.mp hlt, by simpa using hfree, fun m hm hn => ?_⟩
  have := hbelow m hm
  simp [hn] at this

/-! ## Paths -/

theorem locateFrom_append (k : Kernel) (d : Path) (cs cs' : List Bytes) :
    k.locateFrom d (cs ++ cs') = k.locateFrom d cs >>= fun p => k.locateFrom p cs' := by
  induction cs generalizing d with
  | nil => rfl
  | cons c cs ih =>
    simp only [List.cons_append, locateFrom]
    split
    · exact ih _
    · rfl
    · rfl

/-- The same places are directories. -/
def SameDirs (k k' : Kernel) : Prop := ∀ q, k'.node q = some .dir ↔ k.node q = some .dir

theorem SameDirs.of_tree {k k' : Kernel} (h : k'.tree = k.tree) : SameDirs k k' := by
  intro q
  simp only [node, h]

/-- Replacing what is not a directory by what is not one. -/
theorem SameDirs.update {k k' : Kernel} {p : Path} {nd : Option Node}
    (h : k'.tree = Function.update k.tree p nd) (hold : k.node p ≠ some .dir) (hnew : nd ≠ some .dir) :
    SameDirs k k' := by
  intro q
  simp only [node] at hold ⊢
  rw [h]
  by_cases hq : q = p
  · subst hq
    by_cases hn : q = []
    · simp [hn]
    · simp only [hn, ite_false] at hold
      simp only [hn, ite_false, Function.update_self]
      exact ⟨fun e => absurd e hnew, fun e => absurd e hold⟩
  · rw [Function.update_of_ne hq]

theorem locateFrom_mono {k k' : Kernel} (h : ∀ q, k.node q = some .dir → k'.node q = some .dir) {d p : Path}
    {cs : List Bytes} (hp : k.locateFrom d cs = .ok p) : k'.locateFrom d cs = .ok p := by
  induction cs generalizing d with
  | nil => exact hp
  | cons c cs ih =>
    simp only [Kernel.locateFrom] at hp
    split at hp
    · next hd =>
      simp only [Kernel.locateFrom, h d hd]
      exact ih hp
    · cases hp
    · cases hp

/-- More directories take no path away. -/
theorem locate_mono {k k' : Kernel} (h : ∀ q, k.node q = some .dir → k'.node q = some .dir) {s : Bytes} {p : Path}
    (hp : k.locate s = .ok p) : k'.locate s = .ok p := by
  unfold Kernel.locate at hp ⊢
  split at hp
  · cases hp
  · next hs =>
    rw [if_neg hs]
    exact locateFrom_mono h hp

theorem SameDirs.locate {k k' : Kernel} (h : SameDirs k k') {s : Bytes} {p : Path} :
    k'.locate s = .ok p ↔ k.locate s = .ok p :=
  ⟨locate_mono fun q => (h q).mp, locate_mono fun q => (h q).mpr⟩

/-- Every directory strictly above `p` is there. -/
def Rooted (k : Kernel) (p : Path) : Prop := ∀ q, q <+: p → q ≠ p → k.node q = some .dir

theorem Rooted.walk {k : Kernel} {d : Path} (h : k.Rooted d) (hd : k.node d = some .dir) (c : Bytes) :
    k.Rooted (walk d c) := by
  unfold Lib.walk
  split
  · exact h
  · split
    · intro q hq hne
      refine h q (hq.trans (List.dropLast_prefix d)) fun he => ?_
      subst he
      have hlen := hq.length_le
      rw [List.length_dropLast] at hlen
      have : q = [] := List.length_eq_zero_iff.mp (by omega)
      simp [this] at hne
    · intro q hq hne
      rcases List.prefix_concat_iff.mp hq with he | hpre
      · exact absurd he hne
      · by_cases he : q = d
        · rw [he]; exact hd
        · exact h q hpre he

theorem locateFrom_rooted {k : Kernel} {d p : Path} {cs : List Bytes} (hd : k.Rooted d)
    (h : k.locateFrom d cs = .ok p) : k.Rooted p := by
  induction cs generalizing d with
  | nil =>
    simp only [locateFrom, Except.ok.injEq] at h
    exact h ▸ hd
  | cons c cs ih =>
    simp only [locateFrom] at h
    split at h
    · next hn => exact ih (hd.walk hn c) h
    · cases h
    · cases h

theorem locate_rooted {k : Kernel} {s : Bytes} {p : Path} (h : k.locate s = .ok p) : k.Rooted p := by
  unfold locate at h
  split at h
  · cases h
  · refine locateFrom_rooted (fun q hq hne => ?_) h
    exact absurd (List.prefix_nil.mp hq) hne

/-- The directory above a directory is one. -/
theorem Rooted.parent {k : Kernel} {p : Path} (h : k.Rooted p) (hp : k.node p = some .dir) :
    k.node p.dropLast = some .dir := by
  by_cases he : p.dropLast = p
  · rw [he]; exact hp
  · exact h _ (List.dropLast_prefix p) he

/-- A name in a located directory: the directory itself, the one above it,
or an entry of it. -/
theorem locate_child {k : Kernel} {dir name : Bytes} {D p : Path} (hD : k.locate dir = .ok D)
    (hname : 47 ∉ name) (hp : k.locate (dir ++ 47 :: name) = .ok p) :
    k.node D = some .dir ∧ (k.node p = some .dir ∨ p = D ++ [name]) := by
  have hroot := locate_rooted hD
  have hsplit : (dir ++ 47 :: name).splitOn 47 = dir.splitOn 47 ++ [name] := by
    rw [List.splitOn_append_cons_self, List.splitOn_eq_singleton hname]
  unfold locate at hD hp
  split at hD
  · cases hD
  simp only [List.append_eq_nil_iff, reduceCtorEq, and_false, ite_false, hsplit, locateFrom_append, hD] at hp
  simp only [bind, Except.bind, locateFrom] at hp
  split at hp
  · next hdir =>
    simp only [Except.ok.injEq] at hp
    subst hp
    refine ⟨hdir, ?_⟩
    unfold walk
    split
    · exact .inl hdir
    · split
      · exact .inl (hroot.parent hdir)
      · exact .inr rfl
  · cases hp
  · cases hp

/-- A trailing slash leads no further. -/
theorem locate_slash {k : Kernel} {s : Bytes} {p : Path} (h : k.locate s = .ok p) (hp : k.node p = some .dir) :
    k.locate (s ++ [47]) = .ok p := by
  have hsplit : (s ++ [47]).splitOn 47 = s.splitOn 47 ++ [[]] := by
    rw [List.splitOn_append_cons_self]
    rfl
  unfold locate at h ⊢
  split at h
  · cases h
  · rw [if_neg (by simp), hsplit, locateFrom_append, h]
    simp only [bind, Except.bind, locateFrom, hp, walk, true_or, if_true]

theorem locate_rdropWhile {k : Kernel} {s : Bytes} {p : Path}
    (h : k.locate (s.rdropWhile (· == 47)) = .ok p) (hp : k.node p = some .dir) : k.locate s = .ok p := by
  induction s using List.reverseRecOn with
  | nil => exact h
  | append_singleton s b ih =>
    rw [List.rdropWhile_concat] at h
    split at h
    · next hb =>
      obtain rfl : b = 47 := by simpa using hb
      exact locate_slash (ih h) hp
    · exact h

/-- The names form a tree: what has a name is in a directory. -/
def Treed (k : Kernel) : Prop := ∀ p nd, k.tree p = some nd → k.node p.dropLast = some .dir

theorem Treed.of_tree {k k' : Kernel} (h : k.Treed) (htree : k'.tree = k.tree) : k'.Treed := by
  intro p nd hp
  simp only [node, htree] at hp ⊢
  exact h p nd hp

/-- A name comes or goes that is no directory's. -/
theorem Treed.update {k k' : Kernel} {p : Path} {nd : Option Node} (h : k.Treed)
    (htree : k'.tree = Function.update k.tree p nd) (hold : k.node p ≠ some .dir)
    (hnew : nd ≠ none → k.node p.dropLast = some .dir) : k'.Treed := by
  have hsame {q : Path} (hq : q ≠ p) : k'.node q = k.node q := by
    simp only [node, htree, Function.update_of_ne hq]
  intro q x hx
  rw [htree] at hx
  have hdir : k.node q.dropLast = some .dir := by
    by_cases hq : q = p
    · subst hq
      rw [Function.update_self] at hx
      exact hnew (by rw [hx]; simp)
    · rw [Function.update_of_ne hq] at hx
      exact h q x hx
  rw [hsame fun he => hold (he ▸ hdir)]
  exact hdir

/-- What is not there is in a directory, if a path leads to it. -/
theorem locate_parent {k : Kernel} {s : Bytes} {p : Path} (h : k.locate s = .ok p) (hp : k.node p = none) :
    k.node p.dropLast = some .dir := by
  refine locate_rooted h _ (List.dropLast_prefix p) fun he => ?_
  have hlen := congrArg List.length he
  rw [List.length_dropLast] at hlen
  obtain rfl : p = [] := List.length_eq_zero_iff.mp (by omega)
  cases hp

/-! ## The calls -/

/-- One change was logged, and it is pending. -/
def Logged (k k' : Kernel) (t : Target) (oid : Option Nat) : Prop :=
  k'.made = k.made ++ [⟨k.made.length, t, oid⟩] ∧ k'.pending = k.pending ++ [⟨k.made.length, t, oid⟩]

/-- No change was logged. -/
def Quiet (k k' : Kernel) : Prop := k'.made = k.made ∧ k'.pending = k.pending

/-- Changes are numbered in the order they are made. -/
def Numbered (k : Kernel) : Prop := ∀ c ∈ k.made, c.id < k.made.length

/-- `k'` comes later: the log has grown, and no change that was already made
has become pending again. -/
structure Grows (k k' : Kernel) : Prop where
  made : k.made <+: k'.made
  numbered : k.Numbered → k'.Numbered
  pending : k.Numbered → ∀ c ∈ k.made, c ∈ k'.pending → c ∈ k.pending
  fsOf : k'.fsOf = k.fsOf

theorem Grows.fewer {k k' : Kernel} (hmade : k'.made = k.made) (hp : ∀ c ∈ k'.pending, c ∈ k.pending)
    (hfs : k'.fsOf = k.fsOf) : Grows k k' := by
  refine ⟨by rw [hmade], fun hn => ?_, fun _ c _ hc => hp c hc, hfs⟩
  unfold Numbered
  rw [hmade]
  exact hn

theorem Grows.refl (k : Kernel) : Grows k k := .fewer rfl (fun _ hc => hc) rfl

theorem Quiet.grows {k k' : Kernel} (h : Quiet k k') (hfs : k'.fsOf = k.fsOf) : Grows k k' :=
  .fewer h.1 (fun _ hc => by rw [← h.2]; exact hc) hfs

theorem Grows.trans {k k₁ k' : Kernel} (h : Grows k k₁) (h' : Grows k₁ k') : Grows k k' := by
  refine ⟨h.made.trans h'.made, fun hn => h'.numbered (h.numbered hn), fun hn c hc hp => ?_, h'.fsOf.trans h.fsOf⟩
  exact h.pending hn c hc (h'.pending (h.numbered hn) c (h.made.subset hc) hp)

theorem Logged.grows {k k' : Kernel} {t : Target} {oid : Option Nat} (h : Logged k k' t oid)
    (hfs : k'.fsOf = k.fsOf) : Grows k k' := by
  refine ⟨by rw [h.1]; exact List.prefix_append _ _, fun hn c hc => ?_, fun hn c hc hp => ?_, hfs⟩
  · rw [h.1, List.length_append, List.length_singleton]
    rw [h.1, List.mem_append, List.mem_singleton] at hc
    rcases hc with hc | rfl
    · exact Nat.lt_succ_of_lt (hn c hc)
    · exact Nat.lt_succ_self _
  · -- the change that is new has a number of its own
    rw [h.2, List.mem_append, List.mem_singleton] at hp
    rcases hp with hp | rfl
    · exact hp
    · exact absurd (hn _ hc) (Nat.lt_irrefl _)

/-- An `open` gave descriptor `n`, the lowest free one, for what is at `p`:
something that was there (cut to length 0 if asked), or a new file. -/
structure Opened (k : Kernel) (fl : OpenFlags) (p : Path) (n : Nat) (d : Desc) (k' : Kernel) : Prop where
  lt : n < k.limit
  free : k.fds n = none
  used : ∀ m < n, k.fds m ≠ none
  fds : k'.fds = Function.update k.fds n (some d)
  oid : d.oid = k.nextOid
  nextOid : k'.nextOid = k.nextOid + 1
  limit : k'.limit = k.limit
  fsOf : k'.fsOf = k.fsOf
  place :
    (∃ nd, k.node p = some nd ∧ (nd = .dir → fl.rdwr = false) ∧ d.obj = nd.obj p ∧ d.fs = k.nodeFs p nd ∧
      k'.tree = k.tree ∧
      (Quiet k k' ∨ fl.trunc = true ∧ ∃ ino, nd = .file ino ∧ Logged k k' (.data ino d.fs) (some d.oid))) ∨
    (k.node p = none ∧ fl.creat = true ∧ d.obj = .file k.nextIno ∧ d.fs = k.fsOf p.dropLast ∧
      k'.tree = Function.update k.tree p (some (.file k.nextIno)) ∧
      Logged k k' (.entry p.dropLast d.fs) (some d.oid))

theorem Opened.grows {k k' : Kernel} {fl : OpenFlags} {p : Path} {n : Nat} {d : Desc} (h : Opened k fl p n d k') :
    Grows k k' := by
  rcases h.place with ⟨_, _, _, _, _, _, hq | ⟨_, _, _, hlog⟩⟩ | ⟨_, _, _, _, _, hlog⟩
  · exact hq.grows h.fsOf
  · exact hlog.grows h.fsOf
  · exact hlog.grows h.fsOf

/-- An open leaves a file at its path exactly when there was one, or nothing. -/
theorem Opened.file_iff {k k' : Kernel} {fl : OpenFlags} {p : Path} {n : Nat} {d : Desc} (h : Opened k fl p n d k') :
    (∃ ino, k'.node p = some (.file ino)) ↔ k.node p = none ∨ ∃ ino, k.node p = some (.file ino) := by
  rcases h.place with ⟨nd, hnd, _, _, _, htree, _⟩ | ⟨hnone, _, _, _, htree, _⟩
  · have hsame : k'.node p = k.node p := by rw [node, node, htree]
    simp [hsame, hnd]
  · have hne : p ≠ [] := by
      rintro rfl
      cases hnone
    refine ⟨fun _ => .inl hnone, fun _ => ⟨k.nextIno, ?_⟩⟩
    rw [node, if_neg hne, htree, Function.update_self]

theorem openNode_ok {k k' : Kernel} {n m : Nat} {p : Path} {fl : OpenFlags} {nd : Node}
    (hlow : k.lowest = some n) (hnd : k.node p = some nd) (h : k.openNode n p fl nd = (.ok m, k')) :
    m = n ∧ Opened k fl p n ⟨nd.obj p, k.nodeFs p nd, k.nextOid, fl.rdwr⟩ k' := by
  obtain ⟨hlt, hfree, hused⟩ := lowest_spec hlow
  unfold openNode at h
  split at h
  · cases h
  split at h
  · cases h
  next hdir =>
    have hro : nd = .dir → fl.rdwr = false := by
      rintro rfl
      simp only [decide_true, Bool.true_and, Bool.not_eq_true, Bool.or_eq_false_iff] at hdir
      exact hdir.1
    simp only [install] at h
    split at h
    · next ino =>
      split at h
      · next htr =>
        simp only [Prod.mk.injEq, Except.ok.injEq] at h
        obtain ⟨rfl, rfl⟩ := h
        simp only [Bool.and_eq_true] at htr
        exact ⟨rfl, hlt, hfree, hused, rfl, rfl, rfl, rfl, rfl,
          .inl ⟨_, hnd, hro, rfl, rfl, rfl, .inr ⟨htr.1, ino, rfl, rfl, rfl⟩⟩⟩
      · simp only [Prod.mk.injEq, Except.ok.injEq] at h
        obtain ⟨rfl, rfl⟩ := h
        exact ⟨rfl, hlt, hfree, hused, rfl, rfl, rfl, rfl, rfl,
          .inl ⟨_, hnd, hro, rfl, rfl, rfl, .inl ⟨rfl, rfl⟩⟩⟩
    · simp only [Prod.mk.injEq, Except.ok.injEq] at h
      obtain ⟨rfl, rfl⟩ := h
      exact ⟨rfl, hlt, hfree, hused, rfl, rfl, rfl, rfl, rfl,
        .inl ⟨_, hnd, hro, rfl, rfl, rfl, .inl ⟨rfl, rfl⟩⟩⟩

theorem openPath_ok {k k' : Kernel} {r : Reply} {path : Bytes} {fl : OpenFlags} {n : Nat}
    (h : k.openPath r path fl = (.ok n, k')) : ∃ p d, k.locate path = .ok p ∧ Opened k fl p n d k' := by
  unfold openPath at h
  split at h
  · cases h
  split at h
  · cases h
  next low hlow =>
    split at h
    · cases h
    next p hp =>
      split at h
      · next nd hnd =>
        obtain ⟨rfl, ho⟩ := openNode_ok hlow hnd h
        exact ⟨p, _, hp, ho⟩
      · next hnd =>
        obtain ⟨hlt, hfree, hused⟩ := lowest_spec hlow
        unfold openNew at h
        split at h
        · cases h
        next hc =>
          simp only [install, Prod.mk.injEq, Except.ok.injEq] at h
          obtain ⟨rfl, rfl⟩ := h
          refine ⟨p, ⟨.file k.nextIno, k.fsOf p.dropLast, k.nextOid, fl.rdwr⟩, hp,
            hlt, hfree, hused, rfl, rfl, rfl, rfl, rfl, .inr ⟨hnd, ?_, rfl, rfl, rfl, rfl, rfl⟩⟩
          simpa using hc

theorem openNode_error {k k' : Kernel} {n : Nat} {p : Path} {fl : OpenFlags} {nd : Node} {e : Errno}
    (h : k.openNode n p fl nd = (.error e, k')) : k' = k := by
  unfold openNode at h
  split at h
  · cases h; rfl
  split at h
  · cases h; rfl
  simp only [install] at h
  split at h
  · split at h <;> cases h
  · cases h

theorem openPath_error {k k' : Kernel} {r : Reply} {path : Bytes} {fl : OpenFlags} {e : Errno}
    (h : k.openPath r path fl = (.error e, k')) : k' = k := by
  unfold openPath at h
  split at h
  · cases h; rfl
  split at h
  · cases h; rfl
  split at h
  · cases h; rfl
  split at h
  · exact openNode_error h
  · unfold openNew at h
    split at h
    · cases h; rfl
    · simp only [install] at h
      cases h

/-- A descriptor of a file or a device was written to: its data changed. -/
def Wrote (k : Kernel) (fd : Int) (k' : Kernel) : Prop :=
  ∃ d ino data, k.desc fd = some d ∧ (d.obj = .file ino ∨ d.obj = .blk ino) ∧
    k' = { k with data }.log (.data ino d.fs) (some d.oid)

theorem pwrite_cases {k k' : Kernel} {r : Reply} {fd : Int} {buf : Bytes} {off : Int} {res}
    (h : k.pwrite r fd buf off = (res, k')) : k' = k ∨ Wrote k fd k' := by
  obtain rfl : (k.pwrite r fd buf off).2 = k' := by rw [h]
  unfold pwrite
  split
  · exact .inl rfl
  next d hd =>
    split
    · exact .inl rfl
    split
    · exact .inl rfl
    dsimp only
    split
    · exact .inl rfl
    · exact .inl rfl
    all_goals
      next ino hobj =>
      split
      · exact .inl rfl
      · exact .inr ⟨d, ino, _, hd, by simp [hobj], rfl⟩

theorem ftruncate_cases {k k' : Kernel} {r : Reply} {fd len : Int} {res}
    (h : k.ftruncate r fd len = (res, k')) : k' = k ∨ Wrote k fd k' := by
  obtain rfl : (k.ftruncate r fd len).2 = k' := by rw [h]
  unfold ftruncate
  split
  · exact .inl rfl
  next d hd =>
    split
    · next ino hobj =>
      split
      · exact .inl rfl
      split
      · exact .inl rfl
      · exact .inr ⟨d, ino, _, hd, .inl hobj, rfl⟩
    · exact .inl rfl

/-- A sync succeeds only on an open descriptor, and settles what `covers` it. -/
theorem fsync_ok {k k' : Kernel} {r : Reply} {fd : Int} (h : k.fsync r fd = (.ok (), k')) :
    ∃ d, k.desc fd = some d ∧ k' = k.settle d.syncs := by
  unfold fsync at h
  split at h
  · cases h
  · cases h
  · next d _ hd =>
    simp only [Prod.mk.injEq, true_and] at h
    exact ⟨d, hd, h.symm⟩

theorem fsync_error {k k' : Kernel} {r : Reply} {fd : Int} {e : Errno} (h : k.fsync r fd = (.error e, k')) :
    k' = k := by
  unfold fsync at h
  split at h <;> simp_all

theorem syncfs_ok {k k' : Kernel} {r : Reply} {fd : Int} (h : k.syncfs r fd = (.ok (), k')) :
    ∃ d, k.desc fd = some d ∧ k' = k.settle fun c => c.target.fs == d.fs := by
  unfold syncfs at h
  split at h
  · cases h
  · cases h
  · next d _ hd =>
    simp only [Prod.mk.injEq, true_and] at h
    exact ⟨d, hd, h.symm⟩

theorem syncfs_error {k k' : Kernel} {r : Reply} {fd : Int} {e : Errno}
    (h : k.syncfs r fd = (.error e, k')) : k' = k := by
  unfold syncfs at h
  split at h <;> simp_all

theorem close_kern {k k' : Kernel} {r : Reply} {fd : Int} {d : Desc} {res} (h : k.desc fd = some d)
    (hc : k.close r fd = (res, k')) : k' = k.release fd.toNat := by
  unfold close at hc
  rw [h] at hc
  cases r <;> exact (Prod.mk.inj hc).2.symm

/-- A file or device was unlinked at `p`. -/
theorem unlink_ok {k k' : Kernel} {r : Reply} {path : Bytes} (h : k.unlink r path = (.ok (), k')) :
    ∃ p nd, k.locate path = .ok p ∧ k.node p = some nd ∧ nd ≠ .dir ∧
      k' = { k with tree := Function.update k.tree p none }.log
        (.entry p.dropLast (k.fsOf p.dropLast)) none := by
  unfold unlink at h
  split at h
  · cases h
  · cases h
  next p hp =>
    split at h
    · cases h
    · cases h
    next nd hdir hnd =>
      simp only [Prod.mk.injEq, true_and] at h
      exact ⟨p, nd, hp, hnd, hdir, h.symm⟩

theorem unlink_error {k k' : Kernel} {r : Reply} {path : Bytes} {e : Errno}
    (h : k.unlink r path = (.error e, k')) : k' = k := by
  unfold unlink at h
  repeat' split at h
  all_goals simp_all

/-- A directory was made at `p`, where nothing was. -/
def MadeDir (k : Kernel) (p : Path) (k' : Kernel) : Prop :=
  k.node p = none ∧ k' = { k with tree := Function.update k.tree p (some .dir) }.log
    (.entry p.dropLast (k.fsOf p.dropLast)) none

theorem MadeDir.self {k k' : Kernel} {p : Path} (h : MadeDir k p k') : k'.node p = some .dir := by
  obtain ⟨hnone, rfl⟩ := h
  have hne : p ≠ [] := by
    rintro rfl
    cases hnone
  rw [node, if_neg hne]
  exact Function.update_self ..

/-- No other directory has gone. -/
theorem MadeDir.mono {k k' : Kernel} {p : Path} (h : MadeDir k p k') (q : Path) (hq : k.node q = some .dir) :
    k'.node q = some .dir := by
  by_cases he : q = p
  · rw [he]
    exact h.self
  · obtain ⟨_, rfl⟩ := h
    rw [← hq]
    simp only [node, log, Function.update_of_ne he]

theorem mkdir_cases {k k' : Kernel} {r : Reply} {path : Bytes} {res} (h : k.mkdir r path = (res, k')) :
    k' = k ∨ ∃ p, k.locate (path.rdropWhile (· == 47)) = .ok p ∧ MadeDir k p k' := by
  unfold mkdir at h
  split at h
  · exact .inl (Prod.mk.inj h).2.symm
  · exact .inl (Prod.mk.inj h).2.symm
  next p hp =>
    split at h
    · exact .inl (Prod.mk.inj h).2.symm
    · next hnone => exact .inr ⟨p, hp, hnone, (Prod.mk.inj h).2.symm⟩

theorem mem_pending_settle {k : Kernel} {p : Change → Bool} {c : Change} :
    c ∈ (k.settle p).pending ↔ c ∈ k.pending ∧ p c = false := by
  simp [settle]

end Kernel

end Lib
