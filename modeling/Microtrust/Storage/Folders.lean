/-
The folders of a VFS file.

Before a VFS file is opened its folder is prepared: one `mkdir` of everything
before the last slash of its name, whose result is not looked at. That is
enough when the folders above that one are there already; a deeper path that is
not there is never made, and the open then fails.
-/
import Microtrust.Lib.Lookup
import Microtrust.Storage.Places
import Microtrust.Storage.Vfs

namespace Storage

open Lib

/-! ## Preparing a folder -/

theorem lastSlash_append {base : Bytes} (h : 47 ∉ base) (s : Bytes) : lastSlash (s ++ 47 :: base) = s.length := by
  induction base using List.reverseRecOn with
  | nil => simp [lastSlash_concat]
  | append_singleton base b ih =>
    simp only [List.mem_append, List.mem_singleton, not_or] at h
    rw [← List.cons_append, ← List.append_assoc, lastSlash_concat, if_neg (Ne.symm h.2), ih h.1]

/-- The file system once the folder of `name` was prepared. -/
def prepared (k : Kernel) (root : Option Bytes) (name : Bytes) : Kernel :=
  if 0 < lastSlash name then (k.mkdir (.ok 0) (folder root name)).2 else k

theorem mkdir_reply (k : Kernel) (t u : Nat) (path : Bytes) : k.mkdir (.ok t) path = k.mkdir (.ok u) path := by
  unfold Kernel.mkdir
  cases k.locate (path.rdropWhile (· == 47)) <;> rfl

theorem prepareFloder_obliging {w : World} (hob : Obliging w.env) (root : Option Bytes) (name : Bytes) :
    Frame w (prepareFloder w root name).2 ∧ (prepareFloder w root name).2.st = w.st ∧
      (prepareFloder w root name).2.kern = prepared w.kern root name := by
  obtain ⟨a, ha⟩ := hob w.now (.alloc ((lastSlash name).toNat + 1))
  unfold prepareFloder prepared
  dsimp only
  split
  · next hpos =>
    have hob₁ : ∀ t size, ∃ n, (w.alloc ((lastSlash name).toNat + 1)).2.env t (.alloc size) = .ok n :=
      fun t size => hob t (.alloc size)
    have hok : (w.alloc ((lastSlash name).toNat + 1)).1 = true := by
      simp [World.alloc, World.sys, ha, Except.toBool]
    rw [if_pos hok, asprintf_ok hob₁]
    obtain ⟨t, ht⟩ := hob (w.now + 1 + 1) (.mkdir (folder root name))
    refine ⟨⟨rfl, rfl, rfl, rfl⟩, rfl, ?_⟩
    rw [mkdir_reply w.kern 0 t, ← ht]
    rfl
  · exact ⟨Frame.refl w, rfl, rfl⟩

/-- The flags of an open of a VFS file that is created if it is not there. -/
structure VfsCreate (flags : Nat) : Prop where
  vfs : flags.testBit openVfs = true
  create : flags.testBit openCreate = true
  shared : flags.testBit openCreateExclusive = false
  data : flags.testBit openPersistentFile = false
  file : flags.testBit openProinfoFile = false

theorem openTarget_vfs {w : World} {flags : Nat} (hob : Obliging w.env) (hf : VfsCreate flags) (name : Bytes) :
    ∃ w₁, openTarget w flags name = (some (joined w.st.roots.ssdirName name), w₁) ∧ Frame w w₁ ∧
      w₁.kern = prepared w.kern w.st.roots.ssdirName name := by
  unfold openTarget
  simp only [hf.data, hf.file, hf.vfs, Bool.false_eq_true, if_false, if_true,
    asprintf_ok fun t size => hob t (.alloc size)]
  have hob₁ : Obliging ({ w with now := w.now + 1 } : World).env := hob
  obtain ⟨hframe, _, hk⟩ := prepareFloder_obliging hob₁ w.st.roots.ssdirName name
  exact ⟨_, rfl, ⟨hframe.sent, hframe.roots, hframe.env, hframe.abi⟩, hk⟩

/-! ## Opening or creating -/

section Tries

variable {w w' : World} {path : Bytes} {fl : OpenFlags}

theorem openPath_there {p : Path} {nd : Node} (hob : Obliging w.env) (hfree : w.kern.lowest ≠ none)
    (hp : w.kern.locate path = .ok p) (hnd : w.kern.node p = some nd) (hdir : nd ≠ .dir) (hfl : fl.creat = false) :
    ∃ fd w₁, w.openPath path fl = (.ok fd, w₁) := by
  obtain ⟨t, ht⟩ := hob w.now (.open path)
  obtain ⟨n, hn⟩ := Option.ne_none_iff_exists'.mp hfree
  simp only [World.openPath, World.sys, Kernel.openPath, ht, hn, hp, hnd, Kernel.openNode, hfl, hdir, Bool.false_and,
    Bool.false_eq_true, if_false, decide_false, Kernel.install]
  cases nd with
  | file ino =>
    dsimp only
    split
    · exact ⟨n, _, rfl⟩
    · exact ⟨n, _, rfl⟩
  | blk ino dev => exact ⟨n, _, rfl⟩
  | chr => exact ⟨n, _, rfl⟩
  | dir => exact absurd rfl hdir

theorem openPath_created {p : Path} (hob : Obliging w.env) (hfree : w.kern.lowest ≠ none)
    (hp : w.kern.locate path = .ok p) (hnone : w.kern.node p = none) (hfl : fl.creat = true) :
    ∃ fd w₁, w.openPath path fl = (.ok fd, w₁) := by
  obtain ⟨t, ht⟩ := hob w.now (.open path)
  obtain ⟨n, hn⟩ := Option.ne_none_iff_exists'.mp hfree
  simp only [World.openPath, World.sys, Kernel.openPath, ht, hn, hp, hnone, Kernel.openNew, hfl, Bool.not_true,
    Bool.false_eq_true, if_false, Kernel.install]
  exact ⟨n, _, rfl⟩

/-- An open that may create fails only where no path leads, and on
directories. -/
theorem openTries_ok_iff {flags : Nat} (hob : Obliging w.env) (hfree : w.kern.lowest ≠ none) (hf : VfsCreate flags)
    (path : Bytes) :
    (∃ fd fl w₁, openTries w flags path = (.ok fd, fl, w₁)) ↔
      ∃ p, w.kern.locate path = .ok p ∧ w.kern.node p ≠ some .dir := by
  constructor
  · rintro ⟨fd, fl, w₁, hres⟩
    obtain ⟨_, _, hrw, p, d, hp, ho⟩ := openTries_spec hres
    refine ⟨p, hp, fun hdir => ?_⟩
    rcases ho.place with ⟨nd, hnd, hro, _⟩ | ⟨hnone, _⟩
    · rw [hdir, Option.some.injEq] at hnd
      rw [hro hnd.symm] at hrw
      cases hrw
    · rw [hdir] at hnone
      cases hnone
  · rintro ⟨p, hp, hdir⟩
    unfold openTries
    simp only [hf.create, hf.shared, Bool.false_eq_true, if_false, if_true]
    cases hnd : w.kern.node p with
    | some nd =>
      have hnd' : nd ≠ .dir := by
        rintro rfl
        exact hdir hnd
      have hopen : ∃ fd w₁, w.openPath path ⟨true, true, false, false, flags.testBit openTruncate⟩ = (.ok fd, w₁) :=
        openPath_there hob hfree hp hnd hnd' rfl
      obtain ⟨fd, w₁, he⟩ := hopen
      rw [he]
      exact ⟨fd, _, w₁, rfl⟩
    | none =>
      -- it is not there: the second try makes it
      rw [openPath_missing hob hfree hp hnd rfl]
      dsimp only
      rw [if_pos rfl]
      have hopen : ∃ fd w₁, ({ w with now := w.now + 1 } : World).openPath path
          ⟨true, true, true, false, flags.testBit openTruncate⟩ = (.ok fd, w₁) :=
        openPath_created hob hfree hp hnd rfl
      obtain ⟨fd, w₁, he⟩ := hopen
      rw [he]
      exact ⟨fd, _, w₁, rfl⟩

end Tries

theorem prepared_cases (k : Kernel) (root : Option Bytes) (name : Bytes) :
    prepared k root name = k ∨ ∃ p, FolderAt k root name p ∧ k.MadeDir p (prepared k root name) := by
  unfold prepared
  split
  · next hpos =>
    rcases Kernel.mkdir_cases (Prod.mk.eta (p := k.mkdir (.ok 0) (folder root name))).symm with he | ⟨p, hp, hm⟩
    · exact .inl he
    · exact .inr ⟨p, ⟨hpos, hp⟩, hm⟩
  · exact .inl rfl

theorem prepared_lowest (k : Kernel) (root : Option Bytes) (name : Bytes) :
    (prepared k root name).lowest = k.lowest := by
  rcases prepared_cases k root name with he | ⟨p, _, _, hk⟩
  · rw [he]
  · rw [hk]
    rfl

/-- An open of a VFS file: what it finds once its folder was prepared. -/
theorem serve_vfs {w : World} {q : Request} {name : Bytes} (hob : Obliging w.env) (hfree : w.kern.lowest ≠ none)
    (hc : q.cmd = some .fileOpen) (hplain : q.plain) (hname : q.names name) (hf : VfsCreate q.openFlags) :
    (answered w (serve w q).2 .noError = true ∧ ∃ fl p fd d, fl.rdwr = true ∧
        (prepared w.kern w.st.roots.ssdirName name).locate (joined w.st.roots.ssdirName name) = .ok p ∧
        (prepared w.kern w.st.roots.ssdirName name).Opened fl p fd d (serve w q).2.kern) ∨
      answered w (serve w q).2 .noError = false ∧ ∀ p,
        (prepared w.kern w.st.roots.ssdirName name).locate (joined w.st.roots.ssdirName name) = .ok p →
        (prepared w.kern w.st.roots.ssdirName name).node p = some .dir := by
  obtain ⟨rest, hs⟩ := serve_plain hplain hc w
  have hlen := hname.1
  have hflags : leAt (q.payload ++ 0 :: rest) 0 4 = q.openFlags := leAt_append (by omega)
  have hob₀ : Obliging (receive w q).env := hob
  obtain ⟨w₁, ht, hf₁, hk₁⟩ := openTarget_vfs hob₀ hf name
  have hf₁ : Frame w w₁ := ⟨hf₁.sent, hf₁.roots, hf₁.env, hf₁.abi⟩
  have hk₁ : w₁.kern = prepared w.kern w.st.roots.ssdirName name := hk₁
  have hob₁ : Obliging w₁.env := hf₁.env ▸ hob
  have hfree₁ : w₁.kern.lowest ≠ none := by rw [hk₁, prepared_lowest]; exact hfree
  have htries := openTries_ok_iff hob₁ hfree₁ hf (joined w.st.roots.ssdirName name)
  have hroots : (receive w q).st.roots = w.st.roots := rfl
  simp only [handler, storageFileOpen, hname.cstr rest, hflags, if_neg (show ¬ q.payload.length < 4 by omega),
    if_neg (show ¬ name.length ≠ q.payload.length - 4 by omega), ht, hroots] at hs
  rcases htry : openTries w₁ q.openFlags (joined w.st.roots.ssdirName name) with ⟨res, fl, w₂⟩
  simp only [htry] at hs
  obtain ⟨hf₂, _, hrw, hattempt⟩ := openTries_spec htry
  rw [← hk₁]
  cases res with
  | ok fd =>
    obtain ⟨p, d, hp, ho⟩ := hattempt
    have hs' : ipcRespond (w₂.setMarks (insertFd w₂.st.marks fl fd).2) (q.msg.answer .noError)
        (some (leBytes 4 (insertFd w₂.st.marks fl fd).1)) = ((serve w q).1, (serve w q).2) := hs.symm
    have ha := ((hf₁.trans hf₂).setMarks _).respond rfl rfl hs'
    refine .inl ⟨by rw [ha.answered]; rfl, fl, p, fd, d, hrw, hp, ?_⟩
    rw [ha.kern]
    exact ho
  | error e =>
    have hs' : ipcRespond w₂ (q.msg.answer (translateErrno e)) none = ((serve w q).1, (serve w q).2) := hs.symm
    have ha := (hf₁.trans hf₂).respond rfl rfl hs'
    refine .inr ⟨by simp [ha.answered, translateErrno_ne e], fun p hp => ?_⟩
    by_contra hdir
    obtain ⟨fd, fl', w₃, hok⟩ := htries.mpr ⟨p, hp, hdir⟩
    rw [htry] at hok
    cases hok

/-! ## A path that can be prepared -/

/-- A VFS file was opened or created: the answer is good, every folder on the
way to it is there, and so is the file. -/
structure Prepares (w : World) (root : Bytes) (cs : List Bytes) (w' : World) : Prop where
  well : answered w w' .noError = true
  dirs : ∀ i, 0 < i → i < cs.length → w'.kern.IsDir (root ++ 47 :: slashed (cs.take i))
  file : w'.kern.IsFile (root ++ 47 :: slashed cs)

/-- The folders above the last one are there, the last one is there or can be
made, and the file is no directory or device. -/
structure Ready (k : Kernel) (root : Bytes) (cs : List Bytes) : Prop where
  above : ∀ i, 0 < i → i + 1 < cs.length → k.IsDir (root ++ 47 :: slashed (cs.take i))
  folder : 1 < cs.length →
    k.IsDir (root ++ 47 :: slashed cs.dropLast) ∨ k.IsMissing (root ++ 47 :: slashed cs.dropLast)
  name : cs.getLast? ≠ some [46] ∧ cs.getLast? ≠ some [46, 46]
  free : ∀ p nd, k.locate (root ++ 47 :: slashed cs) = .ok p → k.node p = some nd → ∃ ino, nd = .file ino

/-- From `R`, the path leads to a file or to where one can be made. -/
def Openable (k : Kernel) (R : Path) (cs : List Bytes) : Prop :=
  ∃ p, k.locateFrom R cs = .ok p ∧ (k.node p = none ∨ ∃ ino, k.node p = some (.file ino))

section Ready

variable {k : Kernel} {root last : Bytes} {R : Path} {cs init : List Bytes}

/-- The dot names lead to directories. -/
theorem walk_dots {D : Path} (hroot : k.Rooted D) (hD : k.node D = some .dir) (h : last = [46] ∨ last = [46, 46]) :
    k.node (walk D last) = some .dir := by
  rcases h with rfl | rfl
  · simpa [walk] using hD
  · simpa [walk] using hroot.parent hD

/-- So a path that is open to a file does not end in one. -/
theorem not_dots {D : Path} (hroot : k.Rooted D) (hD : k.node D = some .dir)
    (hfree : k.node (walk D last) = none ∨ ∃ ino, k.node (walk D last) = some (.file ino)) :
    last ≠ [46] ∧ last ≠ [46, 46] := by
  rw [← not_or]
  intro h
  have hw := walk_dots hroot hD h
  rcases hfree with hnone | ⟨ino, hfile⟩
  · simp [hw] at hnone
  · simp [hw] at hfile

theorem walk_name {D : Path} (hne : last ≠ []) (h₁ : last ≠ [46]) (h₂ : last ≠ [46, 46]) : walk D last = D ++ [last] := by
  simp [walk, hne, h₁, h₂]

/-- A name without a slash has no folder. -/
theorem prepared_shallow (h : 47 ∉ last) : prepared k (some root) last = k := by
  unfold prepared
  rw [if_neg fun hpos => h (mem_of_lastSlash_pos hpos)]

/-- The folder of a deeper name is made where its components lead. -/
theorem prepared_deep (hR : k.locate root = .ok R) (hinit : init ≠ []) (hn : Names (init ++ [last])) :
    (∃ D, k.locateFrom R init = .ok D ∧ k.MadeDir D (prepared k (some root) (slashed (init ++ [last])))) ∨
      (∀ D, k.locateFrom R init = .ok D → k.node D ≠ none) ∧
        prepared k (some root) (slashed (init ++ [last])) = k := by
  have hni : Names init := hn.mono (by simp)
  have hlast : lastSlash (slashed (init ++ [last])) = (slashed init).length := by
    rw [slashed_concat hinit, lastSlash_append (hn last (by simp)).2]
  have hpos : 0 < (slashed init).length := List.length_pos_iff.mpr (slashed_ne_nil hinit hni)
  have hfolder : folder (some root) (slashed (init ++ [last])) = root ++ 47 :: slashed init := by
    rw [folder, hlast, Int.toNat_natCast, slashed_concat hinit, List.take_left]
    rfl
  have hloc : k.locate ((root ++ 47 :: slashed init).rdropWhile (· == 47)) = k.locateFrom R init := by
    rw [List.append_cons, slashed_rdropWhile hinit hni, ← List.append_cons, Kernel.locate_slashed hR hinit hni]
  unfold prepared
  rw [if_pos (by omega), hfolder]
  unfold Kernel.mkdir
  rw [hloc]
  cases hD : k.locateFrom R init with
  | error e => exact .inr ⟨by simp, rfl⟩
  | ok D =>
    dsimp only
    cases hnode : k.node D with
    | none => exact .inl ⟨D, rfl, hnode, rfl⟩
    | some nd =>
      refine .inr ⟨fun D' hD' => ?_, rfl⟩
      rw [← Except.ok.inj hD', hnode]
      simp

section Last

variable (hR : k.locate root = .ok R) (hdir : k.node R = some .dir) (hn : Names (init ++ [last]))

include hR hn

theorem isDir_above {D : Path} (hD : k.locateFrom R init = .ok D) (i : Nat) (h₀ : 0 < i)
    (hi : i + 1 < (init ++ [last]).length) : k.IsDir (root ++ 47 :: slashed ((init ++ [last]).take i)) := by
  rw [List.length_append, List.length_singleton] at hi
  obtain ⟨P, hP, hnode⟩ := Kernel.locateFrom_take hD (show i < init.length by omega)
  rw [List.take_append_of_le_length (by omega)]
  refine ⟨P, ?_, hnode⟩
  have hsub : init.take i ⊆ init ++ [last] := fun c hc => List.mem_append_left _ (List.mem_of_mem_take hc)
  have hne : init.take i ≠ [] := by
    rw [Ne, List.take_eq_nil_iff, not_or]
    exact ⟨by omega, by rintro rfl; simp at hi⟩
  rw [Kernel.locate_slashed hR hne (hn.mono hsub), hP]

include hdir

/-- What is ready has a folder that is there, or a place for it. -/
theorem Ready.located (h : Ready k root (init ++ [last])) :
    ∃ D, k.locateFrom R init = .ok D ∧ (k.node D = some .dir ∨ k.node D = none) := by
  by_cases hinit : init = []
  · subst hinit
    exact ⟨R, rfl, .inl hdir⟩
  · have hlen : 1 < (init ++ [last]).length := by
      have := List.length_pos_iff.mpr hinit
      simp
      omega
    have hni : Names init := hn.mono (by simp)
    have hfolder := h.folder hlen
    rw [List.dropLast_concat] at hfolder
    rcases hfolder with ⟨D, hD, hnode⟩ | ⟨D, hD, hnode⟩
    · rw [Kernel.locate_slashed hR hinit hni] at hD
      exact ⟨D, hD, .inl hnode⟩
    · rw [Kernel.locate_slashed hR hinit hni] at hD
      exact ⟨D, hD, .inr hnode⟩

/-- The folder was there, or cannot be made. -/
theorem openable_unmade (hun : ∀ D, k.locateFrom R init = .ok D → k.node D ≠ none) :
    Openable k R (init ++ [last]) ↔ Ready k root (init ++ [last]) := by
  have hloc : k.locate (root ++ 47 :: slashed (init ++ [last])) = k.locateFrom R (init ++ [last]) :=
    Kernel.locate_slashed hR (by simp) hn
  constructor
  · rintro ⟨p, hp, hfree⟩
    obtain ⟨D, hD, hnode, rfl⟩ := Kernel.locateFrom_concat.mp hp
    refine ⟨isDir_above hR hn hD, fun hlen => .inl ⟨D, ?_, hnode⟩, ?_, fun p nd hp' hnd => ?_⟩
    · have hinit : init ≠ [] := by
        rintro rfl
        simp at hlen
      rw [List.dropLast_concat, Kernel.locate_slashed hR hinit (hn.mono (by simp)), hD]
    · have hroot : k.Rooted D := Kernel.locateFrom_rooted (Kernel.locate_rooted hR) hD
      simpa using not_dots hroot hnode hfree
    · obtain rfl : walk D last = p := Except.ok.inj (hp.symm.trans (hloc.symm.trans hp'))
      rcases hfree with hnone | ⟨ino, hfile⟩
      · simp [hnone] at hnd
      · exact ⟨ino, Option.some.inj (hnd.symm.trans hfile)⟩
  · intro h
    obtain ⟨D, hD, hnode⟩ := h.located hR hdir hn
    have hnode : k.node D = some .dir := hnode.resolve_right (hun D hD)
    have hp : k.locateFrom R (init ++ [last]) = .ok (walk D last) := Kernel.locateFrom_concat.mpr ⟨D, hD, hnode, rfl⟩
    refine ⟨walk D last, hp, ?_⟩
    cases hnd : k.node (walk D last) with
    | none => exact .inl rfl
    | some nd =>
      obtain ⟨ino, rfl⟩ := h.free _ nd (hloc.trans hp) hnd
      exact .inr ⟨ino, rfl⟩

omit hdir

/-- The folder was made: it is a directory with nothing in it. -/
theorem openable_made {D : Path} {k₁ : Kernel} (htree : k.Treed) (hD : k.locateFrom R init = .ok D)
    (hm : k.MadeDir D k₁) (hinit : init ≠ []) :
    Openable k₁ R (init ++ [last]) ↔ Ready k root (init ++ [last]) := by
  have hnone : k.node D = none := hm.1
  have hD₁ : k₁.locateFrom R init = .ok D := Kernel.locateFrom_mono hm.mono hD
  have hp : k₁.locateFrom R (init ++ [last]) = .ok (walk D last) :=
    Kernel.locateFrom_concat.mpr ⟨D, hD₁, hm.self, rfl⟩
  have hroot : k₁.Rooted D :=
    Kernel.locateFrom_rooted (Kernel.locate_rooted (Kernel.locate_mono hm.mono hR)) hD₁
  constructor
  · rintro ⟨p, hp', hfree⟩
    obtain rfl : walk D last = p := Except.ok.inj (hp.symm.trans hp')
    refine ⟨isDir_above hR hn hD, fun _ => .inr ⟨D, ?_, hnone⟩, ?_, fun p nd hp' _ => ?_⟩
    · rw [List.dropLast_concat, Kernel.locate_slashed hR hinit (hn.mono (by simp)), hD]
    · simpa using not_dots hroot hm.self hfree
    · -- before, there was no folder to find the name in
      rw [Kernel.locate_slashed hR (by simp) hn] at hp'
      obtain ⟨D', hD', hnode, _⟩ := Kernel.locateFrom_concat.mp hp'
      rw [← Except.ok.inj (hD.symm.trans hD'), hnone] at hnode
      cases hnode
  · intro h
    have hname := h.name
    simp only [List.getLast?_concat, ne_eq, Option.some.injEq] at hname
    refine ⟨walk D last, hp, .inl ?_⟩
    rw [walk_name (hn last (by simp)).1 hname.1 hname.2, Kernel.node, if_neg (by simp), hm.2]
    show Function.update k.tree D (some .dir) (D ++ [last]) = none
    rw [Function.update_of_ne (by simp)]
    by_contra hsome
    obtain ⟨nd, hnd⟩ := Option.ne_none_iff_exists'.mp hsome
    have hparent := htree _ nd hnd
    rw [List.dropLast_concat, hnone] at hparent
    cases hparent

end Last

end Ready

/-- An open answers well and leaves its path in place exactly when the path was
openable once its folder was prepared. -/
theorem prepares_iff_openable {w : World} {q : Request} {root : Bytes} {R : Path} {cs : List Bytes}
    (hob : Obliging w.env) (hfree : w.kern.lowest ≠ none) (hroot : w.st.roots.ssdirName = some root)
    (hR : w.kern.locate root = .ok R) (hc : q.cmd = some .fileOpen) (hplain : q.plain) (hcs : cs ≠ [])
    (hn : Names cs) (hname : q.names (slashed cs)) (hf : VfsCreate q.openFlags) :
    Prepares w root cs (serve w q).2 ↔ Openable (prepared w.kern (some root) (slashed cs)) R cs := by
  have hR₁ : (prepared w.kern (some root) (slashed cs)).locate root = .ok R := by
    rcases prepared_cases w.kern (some root) (slashed cs) with he | ⟨p, _, hm⟩
    · rw [he]
      exact hR
    · exact Kernel.locate_mono hm.mono hR
  have hserve := serve_vfs hob hfree hc hplain hname hf
  rw [hroot] at hserve
  generalize prepared w.kern (some root) (slashed cs) = k₁ at hR₁ hserve
  have hjoined : joined (some root) (slashed cs) = root ++ 47 :: slashed cs := rfl
  rw [hjoined, Kernel.locate_slashed hR₁ hcs hn] at hserve
  rcases hserve with ⟨hwell, fl, p, fd, d, hrw, hp, ho⟩ | ⟨hno, hdirs⟩
  · obtain ⟨_, hsame⟩ := opened_node ho hrw
    have hR₂ : (serve w q).2.kern.locate root = .ok R := hsame.locate.mpr hR₁
    have hp₂ : (serve w q).2.kern.locateFrom R cs = .ok p := Kernel.locateFrom_mono (fun x => (hsame x).mpr) hp
    constructor
    · intro h
      obtain ⟨p', ino, hp', hfile⟩ := h.file
      rw [Kernel.locate_slashed hR₂ hcs hn] at hp'
      obtain rfl : p = p' := Except.ok.inj (hp₂.symm.trans hp')
      exact ⟨p, hp, ho.file_iff.mp ⟨ino, hfile⟩⟩
    · rintro ⟨p', hp', hopen⟩
      obtain rfl : p = p' := Except.ok.inj (hp.symm.trans hp')
      refine ⟨hwell, fun i h₀ hi => ?_, ?_⟩
      · obtain ⟨D, hD, hnode⟩ := Kernel.locateFrom_take hp₂ hi
        have hne : cs.take i ≠ [] := by
          rw [Ne, List.take_eq_nil_iff, not_or]
          exact ⟨by omega, hcs⟩
        exact ⟨D, by rw [Kernel.locate_slashed hR₂ hne (hn.mono (List.take_subset i cs)), hD], hnode⟩
      · rw [Kernel.IsFile, Kernel.locate_slashed hR₂ hcs hn]
        obtain ⟨ino, hfile⟩ := ho.file_iff.mpr hopen
        exact ⟨p, ino, hp₂, hfile⟩
  · constructor
    · intro h
      have hwell := h.well
      rw [hno] at hwell
      cases hwell
    · rintro ⟨p, hp, hopen⟩
      rw [hdirs p hp] at hopen
      simp at hopen

/-- **An open of a VFS file prepares the way to it exactly when the folders
above the last one are there already**, the last is there or missing, and what
is at the name is not a directory or a device. -/
theorem vfs_open_prepares_iff {w : World} {q : Request} {root : Bytes} {cs : List Bytes} (hob : Obliging w.env)
    (hfree : w.kern.lowest ≠ none) (htree : w.kern.Treed) (hroot : w.st.roots.ssdirName = some root)
    (hdir : w.kern.IsDir root) (hc : q.cmd = some .fileOpen) (hplain : q.plain) (hcs : cs ≠ []) (hn : Names cs)
    (hname : q.names (slashed cs)) (hf : VfsCreate q.openFlags) :
    Prepares w root cs (serve w q).2 ↔ Ready w.kern root cs := by
  obtain ⟨R, hR, hnode⟩ := hdir
  rw [prepares_iff_openable hob hfree hroot hR hc hplain hcs hn hname hf]
  obtain ⟨init, last, rfl⟩ := (List.eq_nil_or_concat cs).resolve_left hcs
  rw [List.concat_eq_append] at hn ⊢
  by_cases hinit : init = []
  · subst hinit
    rw [List.nil_append] at hn ⊢
    rw [slashed_singleton, prepared_shallow (hn last (by simp)).2]
    have hun : ∀ D, w.kern.locateFrom R [] = .ok D → w.kern.node D ≠ none := by
      intro D hD
      rw [← Except.ok.inj hD, hnode]
      simp
    exact openable_unmade hR hnode hn hun
  · rcases prepared_deep hR hinit hn with ⟨D, hD, hm⟩ | ⟨hun, hk⟩
    · exact openable_made hR hn htree hD hm hinit
    · rw [hk]
      exact openable_unmade hR hnode hn hun

/-! A proxy on an empty data root `/d` is asked to create `a/b/c`, and `a/b`. -/

def createDeep : Request := request .fileOpen 0 [33, 0, 0, 0, 97, 47, 98, 47, 99] (by decide)

theorem dataStarted_treed : dataStarted.kern.Treed := bench_treed.of_tree rfl

theorem dataStarted_root : dataStarted.kern.IsDir [47, 100] := ⟨[[100]], by rfl, by decide⟩

/-- There is nothing at `/d/a`, and no way beyond. -/
theorem dataStarted_empty :
    dataStarted.kern.locate ([47, 100] ++ 47 :: slashed [[97]]) = .ok [[100], [97]] ∧
      dataStarted.kern.node [[100], [97]] = none ∧
      dataStarted.kern.locate ([47, 100] ++ 47 :: slashed [[97], [98]]) = .error .ENOENT :=
  ⟨by rfl, by decide, by rfl⟩

theorem vfsCreate_33 : VfsCreate 33 := ⟨by decide, by decide, by decide, by decide, by decide⟩

/-- Neither `a` nor `a/b` is there: only `a/b` is tried, and nothing is made. -/
theorem vfs_open_deep_fails :
    Obliging dataStarted.env ∧ dataStarted.kern.lowest ≠ none ∧ dataStarted.kern.Treed ∧
      dataStarted.st.roots.ssdirName = some [47, 100] ∧ dataStarted.kern.IsDir [47, 100] ∧
      createDeep.cmd = some .fileOpen ∧ createDeep.plain ∧ Names [[97], [98], [99]] ∧
      createDeep.names (slashed [[97], [98], [99]]) ∧ VfsCreate createDeep.openFlags ∧
      (∀ i, 0 < i → i < 3 → ¬ dataStarted.kern.IsFile ([47, 100] ++ 47 :: slashed ([[97], [98], [99]].take i))) ∧
      answered dataStarted (serve dataStarted createDeep).2 .notFound = true ∧
      (serve dataStarted createDeep).2.kern.node [[100], [97]] = none ∧
      ¬ Prepares dataStarted [47, 100] [[97], [98], [99]] (serve dataStarted createDeep).2 := by
  obtain ⟨hone, hnone, htwo⟩ := dataStarted_empty
  refine ⟨calm_obliging _ rfl, by decide, dataStarted_treed, rfl, dataStarted_root, by decide, by decide, by decide,
    by decide, vfsCreate_33, ?_, by decide, by decide, fun h => absurd h.well (by decide)⟩
  rintro i h₀ hi ⟨p, ino, hp, hnode⟩
  obtain rfl | rfl : i = 1 ∨ i = 2 := by omega
  · obtain rfl := Except.ok.inj (hone.symm.trans hp)
    rw [hnone] at hnode
    cases hnode
  · cases htwo.symm.trans hp

theorem vfs_open_prepares_shallow :
    Prepares dataStarted [47, 100] [[97], [98]] (serve dataStarted createFoldered).2 := by
  obtain ⟨hone, hnone, htwo⟩ := dataStarted_empty
  have hflags : VfsCreate createFoldered.openFlags := vfsCreate_33
  refine (vfs_open_prepares_iff (calm_obliging _ rfl) (by decide) dataStarted_treed rfl dataStarted_root (by decide)
    (by decide) (by decide) (by decide) (by decide) hflags).mpr ⟨?_, fun _ => .inr ⟨_, hone, hnone⟩, by decide, ?_⟩
  · intro i h₀ hi
    simp at hi
    omega
  · intro p nd hp
    cases htwo.symm.trans hp

end Storage
