/-
A kernel as a store of files: places are those of the tree, handles are
descriptors, and files are the objects behind them.

Data is kept by inode, for files and for block devices alike, so which inodes
are devices (`dev`) is fixed from the start: then no file shares its data with
a device, and a new inode is a file's.
-/
import Microtrust.Lib.Content
import Microtrust.Lib.FileStore

namespace Lib

/-- The place a path leads to, if it leads anywhere. -/
def placeOf (s : Bytes) : Path := (s.splitOn 47).foldl walk []

theorem placeOf_append (a b : Bytes) : placeOf (a ++ 47 :: b) = (b.splitOn 47).foldl walk (placeOf a) := by
  rw [placeOf, List.splitOn_append_cons_self, List.foldl_append]
  rfl

/-- Slashes at the end lead nowhere further. -/
theorem placeOf_rdropWhile (s : Bytes) : placeOf (s.rdropWhile (· == 47)) = placeOf s := by
  induction s using List.reverseRecOn with
  | nil => rfl
  | append_singleton s b ih =>
    rw [List.rdropWhile_concat]
    split
    · next hb =>
      obtain rfl : b = 47 := by simpa using hb
      rw [ih, placeOf_append]
      simp [walk]
    · rfl

/-- How far below their start the components lead, starting `n` below; none if
they lead above it on the way. -/
def depth : Nat → List Bytes → Option Nat
  | n, [] => some n
  | n, c :: cs =>
    if c = [] ∨ c = [46] then depth n cs
    else if c = [46, 46] then
      match n with
      | 0 => none
      | n + 1 => depth n cs
    else depth (n + 1) cs

theorem depth_append (n : Nat) (cs cs' : List Bytes) : depth n (cs ++ cs') = (depth n cs).bind (depth · cs') := by
  induction cs generalizing n with
  | nil => rfl
  | cons c cs ih =>
    simp only [List.cons_append, depth]
    split
    · exact ih n
    split
    · cases n with
      | zero => rfl
      | succ n => exact ih n
    · exact ih (n + 1)

/-- Components that never lead above their start lead below it. -/
theorem prefix_of_depth {D rest : Path} {cs : List Bytes} (h : (depth rest.length cs).isSome) :
    D <+: cs.foldl walk (D ++ rest) := by
  induction cs generalizing rest with
  | nil => exact List.prefix_append D rest
  | cons c cs ih =>
    simp only [depth] at h
    simp only [List.foldl_cons, walk]
    split at h
    · next hc =>
      rw [if_pos hc]
      exact ih h
    next hc =>
    rw [if_neg hc]
    split at h
    · next hup =>
      rw [if_pos hup]
      split at h
      · cases h
      · next n hn =>
        have hne : rest ≠ [] := by
          intro he
          rw [he] at hn
          cases hn
        rw [List.dropLast_append_of_ne_nil hne]
        refine ih ?_
        rw [List.length_dropLast, hn]
        exact h
    · next hup =>
      rw [if_neg hup, List.append_assoc]
      refine ih ?_
      rw [List.length_append]
      exact h

namespace Obj

/-- What is written to a file or a block device stays. -/
def keeps : Obj → Bool
  | .file _ | .blk _ => true
  | _ => false

/-- Only a regular file has a length to set. -/
def sized : Obj → Bool
  | .file _ => true
  | _ => false

/-- The object's inode is one of the first `n`, and a device as `dev` says. -/
def Fits (dev : Nat → Bool) (n : Nat) : Obj → Prop
  | .file ino => ino < n ∧ dev ino = false
  | .blk ino => ino < n ∧ dev ino = true
  | _ => True

/-- The next inode is a new file's and nothing else's. -/
theorem fits_succ {dev : Nat → Bool} {n : Nat} (hn : dev n = false) (o : Obj) :
    o.Fits dev (n + 1) ↔ o = .file n ∨ o.Fits dev n := by
  cases o with
  | file ino =>
    simp only [Fits, Obj.file.injEq]
    constructor
    · rintro ⟨hlt, hdev⟩
      by_cases he : ino = n
      · exact .inl he
      · exact .inr ⟨by omega, hdev⟩
    · rintro (rfl | ⟨hlt, hdev⟩)
      · exact ⟨by omega, hn⟩
      · exact ⟨by omega, hdev⟩
  | blk ino =>
    simp only [Fits, reduceCtorEq, false_or]
    constructor
    · rintro ⟨hlt, hdev⟩
      have hne : ino ≠ n := by
        rintro rfl
        rw [hn] at hdev
        cases hdev
      exact ⟨by omega, hdev⟩
    · exact fun ⟨hlt, hdev⟩ => ⟨by omega, hdev⟩
  | dir p => simp [Fits]
  | chr => simp [Fits]

end Obj

namespace Kernel

/-- A kernel whose inodes are in order. File lengths fit 64 bits. -/
structure Sound (dev : Nat → Bool) (k : Kernel) : Prop where
  tree : ∀ p nd, k.tree p = some nd → (nd.obj p).Fits dev k.nextIno
  fds : ∀ n d, k.fds n = some d → d.obj.Fits dev k.nextIno
  fresh : ∀ ino, k.nextIno ≤ ino → dev ino = false
  short : ∀ ino, (k.data ino).length < 2 ^ 64

/-- The file at a place: anything but a directory. -/
def named (k : Kernel) (p : Path) : Option Obj :=
  match k.node p with
  | some .dir | none => none
  | some nd => some (nd.obj p)

def content (dev : Nat → Bool) (k : Kernel) : Obj → Bytes
  | .file ino => if dev ino then [] else k.data ino
  | .blk ino => if dev ino then k.data ino else []
  | _ => []

/-- The store a client sees that holds the handles `live`. -/
def view (dev : Nat → Bool) (k : Kernel) (live : List Nat) : FileStore Path Nat Obj where
  named := k.named
  holds := fun h => if h ∈ live then (k.fds h).map Desc.obj else none
  made := {o | o.Fits dev k.nextIno}
  content := k.content dev

/-- A request of a client, and what became of it. -/
abbrev Steps (dev : Nat → Bool) (k : Kernel) (live : List Nat) (op : FileOp Path Nat) (a : FileAnswer Nat)
    (k' : Kernel) (live' : List Nat) : Prop :=
  (k.view dev live).Step Obj.keeps Obj.sized op a (k'.view dev live')

theorem locateFrom_place {k : Kernel} {d p : Path} {cs : List Bytes} (h : k.locateFrom d cs = .ok p) :
    p = cs.foldl walk d := by
  induction cs generalizing d with
  | nil => exact (Except.ok.inj h).symm
  | cons c cs ih =>
    unfold locateFrom at h
    split at h
    · exact ih h
    · cases h
    · cases h

theorem locate_place {k : Kernel} {s : Bytes} {p : Path} (h : k.locate s = .ok p) : p = placeOf s := by
  unfold locate at h
  split at h
  · cases h
  · exact locateFrom_place h

section

variable {dev : Nat → Bool} {k k' : Kernel} {live : List Nat}

theorem view_congr (htree : k'.tree = k.tree) (hfds : k'.fds = k.fds) (hdata : k'.data = k.data)
    (hino : k'.nextIno = k.nextIno) : k'.view dev live = k.view dev live := by
  have hnamed : k'.named = k.named := by
    funext p
    simp only [named, node, htree]
  have hcontent : k'.content dev = k.content dev := by
    funext o
    cases o <;> simp only [content, hdata]
  simp only [view, hnamed, hcontent, hfds, hino]

/-- The data of one inode is the content of one file. -/
theorem content_update {o : Obj} {ino : Nat} {bs : Bytes} (ho : o = .file ino ∨ o = .blk ino)
    (hf : o.Fits dev k.nextIno) (hdata : k'.data = Function.update k.data ino bs) :
    k'.content dev = Function.update (k.content dev) o bs := by
  funext x
  by_cases hx : x = o
  · subst hx
    rw [Function.update_self]
    rcases ho with rfl | rfl
    · simp [content, hdata, hf.2]
    · simp [content, hdata, hf.2]
  · rw [Function.update_of_ne hx]
    -- another object of the same inode would be of the other kind
    have hne {i : Nat} (hi : (x = .file i ∧ dev i = false) ∨ (x = .blk i ∧ dev i = true)) : i ≠ ino := by
      rintro rfl
      rcases ho with rfl | rfl <;> rcases hi with ⟨rfl, hd⟩ | ⟨rfl, hd⟩ <;> simp_all [Obj.Fits]
    cases x with
    | file i =>
      cases hd : dev i with
      | true => simp [content, hd]
      | false => simp [content, hd, hdata, Function.update_of_ne (hne (.inl ⟨rfl, hd⟩))]
    | blk i =>
      cases hd : dev i with
      | false => simp [content, hd]
      | true => simp [content, hd, hdata, Function.update_of_ne (hne (.inr ⟨rfl, hd⟩))]
    | dir p => rfl
    | chr => rfl

theorem view_setContent {o : Obj} {ino : Nat} {bs : Bytes} (ho : o = .file ino ∨ o = .blk ino)
    (hf : o.Fits dev k.nextIno) (htree : k'.tree = k.tree) (hfds : k'.fds = k.fds) (hino : k'.nextIno = k.nextIno)
    (hdata : k'.data = Function.update k.data ino bs) :
    k'.view dev live = (k.view dev live).setContent o bs := by
  have hnamed : k'.named = k.named := by
    funext p
    simp only [named, node, htree]
  simp only [view, FileStore.setContent, hnamed, hfds, hino, content_update ho hf hdata]

/-- The content behind a descriptor, as the view has it. -/
theorem content_obj {o : Obj} {ino : Nat} (ho : o = .file ino ∨ o = .blk ino) (hf : o.Fits dev k.nextIno) :
    k.content dev o = k.data ino := by
  rcases ho with rfl | rfl
  · simp [content, hf.2]
  · simp [content, hf.2]

theorem holds_eq {n : Nat} {d : Desc} (hn : n ∈ live) (hd : k.fds n = some d) :
    (k.view dev live).holds n = some d.obj := by
  simp [view, hn, hd]

/-- A handle that is given up, whether or not its descriptor is closed. -/
theorem view_drop {n : Nat} (htree : k'.tree = k.tree) (hfds : ∀ m, m ≠ n → k'.fds m = k.fds m)
    (hdata : k'.data = k.data) (hino : k'.nextIno = k.nextIno) :
    k'.view dev (live.filter (· ≠ n)) = (k.view dev live).hold n none := by
  have hsame : k'.view dev live = { k.view dev live with holds := (k'.view dev live).holds } := by
    have hk : { k' with fds := k.fds }.view dev live = k.view dev live := view_congr htree rfl hdata hino
    rw [← hk]
    rfl
  have hholds : (k'.view dev (live.filter (· ≠ n))).holds = Function.update (k.view dev live).holds n none := by
    funext m
    by_cases hm : m = n
    · simp [view, hm]
    · simp [view, hm, hfds m hm]
  show { k'.view dev live with holds := (k'.view dev (live.filter (· ≠ n))).holds } = _
  rw [hsame, hholds]
  rfl

/-- Bytes stored through a descriptor are put into the file it is on. -/
theorem view_put {n off : Nat} {d : Desc} {bs : Bytes} (hs : Sound dev k) (hd : k.fds n = some d)
    (htree : k'.tree = k.tree) (hfds : k'.fds = k.fds) (hino : k'.nextIno = k.nextIno)
    (hdata : k'.data = k.store n off bs) :
    k'.view dev live = (k.view dev live).put Obj.keeps d.obj off bs := by
  have hfit := hs.fds n d hd
  have hinode (ino : Nat) (ho : d.obj = .file ino ∨ d.obj = .blk ino) : k.inode n = some ino := by
    rcases ho with ho | ho <;> simp [inode, hd, ho]
  have hkept (ino : Nat) (ho : d.obj = .file ino ∨ d.obj = .blk ino) :
      k'.view dev live = (k.view dev live).setContent d.obj (overlay (k.content dev d.obj) off bs) := by
    simp only [store, hinode ino ho] at hdata
    rw [content_obj ho hfit]
    exact view_setContent ho hfit htree hfds hino hdata
  have hlost (ho : k.inode n = none) : k'.view dev live = k.view dev live := by
    simp only [store, ho] at hdata
    exact view_congr htree hfds hdata hino
  unfold FileStore.put
  cases ho : d.obj with
  | file ino =>
    rw [if_pos (by rfl), ← ho]
    exact hkept ino (.inl ho)
  | blk ino =>
    rw [if_pos (by rfl), ← ho]
    exact hkept ino (.inr ho)
  | dir p =>
    rw [if_neg (by simp [Obj.keeps])]
    exact hlost (by simp [inode, hd, ho])
  | chr =>
    rw [if_neg (by simp [Obj.keeps])]
    exact hlost (by simp [inode, hd, ho])

/-! ## The calls -/

/-- Where only data has changed, and no file has grown too long. -/
theorem Sound.data (h : Sound dev k) (htree : k'.tree = k.tree) (hfds : k'.fds = k.fds) (hino : k'.nextIno = k.nextIno)
    (hshort : ∀ ino, (k'.data ino).length < 2 ^ 64) : Sound dev k' :=
  ⟨by rw [htree, hino]; exact h.tree, by rw [hfds, hino]; exact h.fds, by rw [hino]; exact h.fresh, hshort⟩

theorem view_settle (p : Change → Bool) : (k.settle p).view dev live = k.view dev live := rfl

theorem Sound.settle (h : Sound dev k) (p : Change → Bool) : Sound dev (k.settle p) := ⟨h.tree, h.fds, h.fresh, h.short⟩

theorem Sound.release (h : Sound dev k) (n : Nat) : Sound dev (k.release n) := by
  refine ⟨h.tree, fun m d hd => ?_, h.fresh, h.short⟩
  by_cases hm : m = n
  · subst hm
    simp [Kernel.release] at hd
  · exact h.fds m d (by simpa [Kernel.release, Function.update_of_ne hm] using hd)

theorem Sound.node (h : Sound dev k) {p : Path} {nd : Node} (hp : k.node p = some nd) :
    (nd.obj p).Fits dev k.nextIno := by
  unfold Kernel.node at hp
  split at hp
  · obtain rfl := Option.some.inj hp
    trivial
  · exact h.tree p nd hp

theorem Sound.setTree (h : Sound dev k) (p : Path) (nd : Option Node) (htree : k'.tree = Function.update k.tree p nd)
    (hnd : ∀ x, nd = some x → (x.obj p).Fits dev k.nextIno) (hfds : k'.fds = k.fds) (hdata : k'.data = k.data)
    (hino : k'.nextIno = k.nextIno) : Sound dev k' := by
  refine ⟨fun q x hx => ?_, by rw [hfds, hino]; exact h.fds, by rw [hino]; exact h.fresh, by rw [hdata]; exact h.short⟩
  rw [hino]
  rw [htree] at hx
  by_cases hq : q = p
  · subst hq
    exact hnd x (by simpa using hx)
  · exact h.tree q x (by simpa [Function.update_of_ne hq] using hx)

/-- Making a directory makes no file. -/
theorem MadeDir.view {p : Path} (h : k.MadeDir p k') : k'.view dev live = k.view dev live := by
  have hself := h.self
  obtain ⟨hnone, rfl⟩ := h
  have hnamed : ({ k with tree := Function.update k.tree p (some .dir) }.log
      (.entry p.dropLast (k.fsOf p.dropLast)) none).named = k.named := by
    funext q
    by_cases hq : q = p
    · subst hq
      simp only [named, hself, hnone]
    · simp only [named, Kernel.node, Kernel.log, Function.update_of_ne hq]
  simp only [Kernel.view, hnamed]
  rfl

theorem MadeDir.sound {p : Path} (h : k.MadeDir p k') (hs : Sound dev k) : Sound dev k' := by
  obtain ⟨_, rfl⟩ := h
  refine hs.setTree p (some .dir) rfl ?_ rfl rfl rfl
  rintro x ⟨⟩
  trivial

/-- An unlink that succeeds takes one name away. -/
theorem unlink_steps {r : Reply} {path : Bytes} (h : k.unlink r path = (.ok (), k')) :
    Steps dev k live (.delete (placeOf path)) .done k' live := by
  obtain ⟨p, nd, hp, hnd, hdir, rfl⟩ := unlink_ok h
  have hne : p ≠ [] := by
    rintro rfl
    exact hdir (by simpa [Kernel.node] using hnd.symm)
  have hnamed : ({ k with tree := Function.update k.tree p none }.log
      (.entry p.dropLast (k.fsOf p.dropLast)) none).named = Function.update k.named p none := by
    funext q
    by_cases hq : q = p
    · subst hq
      simp [named, Kernel.node, Kernel.log, hne]
    · simp only [named, Kernel.node, Kernel.log, Function.update_of_ne hq]
  have hview : ({ k with tree := Function.update k.tree p none }.log
      (.entry p.dropLast (k.fsOf p.dropLast)) none).view dev live = (k.view dev live).name p none := by
    simp only [Kernel.view, FileStore.name, hnamed]
    rfl
  rw [Steps, hview, ← locate_place hp]
  refine .deleted (f := nd.obj p) ?_
  show k.named p = some (nd.obj p)
  cases nd with
  | dir => exact absurd rfl hdir
  | file ino => simp only [named, hnd]
  | blk ino d => simp only [named, hnd]
  | chr => simp only [named, hnd]

theorem unlink_sound {r : Reply} {path : Bytes} (h : k.unlink r path = (.ok (), k')) (hs : Sound dev k) :
    Sound dev k' := by
  obtain ⟨p, nd, _, _, _, rfl⟩ := unlink_ok h
  refine hs.setTree p none rfl ?_ rfl rfl rfl
  intro x hx
  cases hx

/-- The data after an existing node was opened: a file may have been emptied. -/
def emptied (data : Nat → Bytes) (fl : OpenFlags) : Node → Nat → Bytes
  | .file ino => if fl.trunc && fl.rdwr then Function.update data ino [] else data
  | _ => data

/-- What an open that succeeded did, with the data it left. -/
theorem openPath_inv {r : Reply} {path : Bytes} {fl : OpenFlags} {n : Nat} (h : k.openPath r path fl = (.ok n, k')) :
    ∃ p d, k.locate path = .ok p ∧ k.fds n = none ∧ k'.fds = Function.update k.fds n (some d) ∧
      ((∃ nd, k.node p = some nd ∧ (nd = .dir → fl.rdwr = false) ∧ (fl.creat && fl.excl) = false ∧
          d.obj = nd.obj p ∧ k'.tree = k.tree ∧ k'.nextIno = k.nextIno ∧ k'.data = emptied k.data fl nd) ∨
        (k.node p = none ∧ fl.creat = true ∧ d.obj = .file k.nextIno ∧
          k'.tree = Function.update k.tree p (some (.file k.nextIno)) ∧ k'.nextIno = k.nextIno + 1 ∧
          k'.data = Function.update k.data k.nextIno [])) := by
  obtain ⟨p, d, hp, ho⟩ := openPath_ok h
  refine ⟨p, d, hp, ho.free, ho.fds, ?_⟩
  unfold openPath at h
  split at h
  · cases h
  split at h
  · cases h
  next low hlow =>
  rw [hp] at h
  rcases ho.place with ⟨nd, hnd, hdir, hobj, _, htree, _⟩ | ⟨hnone, hcreat, hobj, _, htree, _⟩
  · left
    simp only [hnd, openNode] at h
    split at h
    · cases h
    next hexcl =>
    split at h
    · cases h
    simp only [install] at h
    refine ⟨nd, hnd, hdir, by simpa using hexcl, hobj, htree, ?_⟩
    cases nd with
    | file ino =>
      dsimp only at h
      split at h
      · next htr =>
        obtain ⟨_, rfl⟩ := Prod.mk.inj h
        exact ⟨rfl, by simp only [emptied, htr, if_true]; rfl⟩
      · next htr =>
        obtain ⟨_, rfl⟩ := Prod.mk.inj h
        exact ⟨rfl, by simp only [emptied, htr]; rfl⟩
    | blk ino dev =>
      obtain ⟨_, rfl⟩ := Prod.mk.inj h
      exact ⟨rfl, rfl⟩
    | dir =>
      obtain ⟨_, rfl⟩ := Prod.mk.inj h
      exact ⟨rfl, rfl⟩
    | chr =>
      obtain ⟨_, rfl⟩ := Prod.mk.inj h
      exact ⟨rfl, rfl⟩
  · right
    simp only [hnone, openNew, hcreat, Bool.not_true, Bool.false_eq_true, if_false, install] at h
    obtain ⟨_, rfl⟩ := Prod.mk.inj h
    exact ⟨hnone, hcreat, hobj, htree, rfl, rfl⟩

theorem emptied_short {data : Nat → Bytes} (h : ∀ ino, (data ino).length < 2 ^ 64) (fl : OpenFlags) (nd : Node)
    (ino : Nat) : (emptied data fl nd ino).length < 2 ^ 64 := by
  unfold emptied
  split
  · split
    · by_cases he : ino = ‹Nat›
      · simp [he]
      · rw [Function.update_of_ne he]
        exact h ino
    · exact h ino
  · exact h ino

theorem openPath_sound {r : Reply} {path : Bytes} {fl : OpenFlags} {n : Nat}
    (h : k.openPath r path fl = (.ok n, k')) (hs : Sound dev k) : Sound dev k' := by
  obtain ⟨p, d, _, _, hfds, ⟨nd, hnd, _, _, hobj, htree, hino, hdata⟩ | ⟨_, _, hobj, htree, hino, hdata⟩⟩ :=
    openPath_inv h
  · refine ⟨by rw [htree, hino]; exact hs.tree, fun m x hx => ?_, by rw [hino]; exact hs.fresh, fun ino => ?_⟩
    · rw [hino]
      rw [hfds] at hx
      by_cases hm : m = n
      · subst hm
        obtain rfl : d = x := by simpa using hx
        rw [hobj]
        exact hs.node hnd
      · exact hs.fds m x (by simpa [Function.update_of_ne hm] using hx)
    · rw [hdata]
      exact emptied_short hs.short fl nd ino
  · have hnew (o : Obj) : o.Fits dev k'.nextIno ↔ o = .file k.nextIno ∨ o.Fits dev k.nextIno := by
      rw [hino]
      exact Obj.fits_succ (hs.fresh _ le_rfl) o
    refine ⟨fun q x hx => ?_, fun m x hx => ?_, fun ino hle => hs.fresh ino (by omega), fun ino => ?_⟩
    · rw [htree] at hx
      rw [hnew]
      by_cases hq : q = p
      · subst hq
        obtain rfl : Node.file k.nextIno = x := by simpa using hx
        exact .inl rfl
      · exact .inr (hs.tree q x (by simpa [Function.update_of_ne hq] using hx))
    · rw [hfds] at hx
      rw [hnew]
      by_cases hm : m = n
      · subst hm
        obtain rfl : d = x := by simpa using hx
        exact .inl hobj
      · exact .inr (hs.fds m x (by simpa [Function.update_of_ne hm] using hx))
    · rw [hdata]
      by_cases he : ino = k.nextIno
      · simp [he]
      · rw [Function.update_of_ne he]
        exact hs.short ino

/-- The new descriptor is one more handle. -/
theorem view_hold {n : Nat} {d : Desc} (hfds : k'.fds = Function.update k.fds n (some d)) :
    k'.view dev (n :: live) = ({ k' with fds := k.fds }.view dev live).hold n (some d.obj) := by
  have hholds : (k'.view dev (n :: live)).holds =
      Function.update ({ k' with fds := k.fds }.view dev live).holds n (some d.obj) := by
    funext m
    by_cases hm : m = n
    · simp [view, hm, hfds]
    · simp [view, hm, hfds]
  show { k'.view dev live with holds := (k'.view dev (n :: live)).holds } = _
  rw [hholds]
  rfl

/-- An open for reading and writing that succeeds finds the file at its place,
or makes one where there is nothing. -/
theorem openPath_steps {r : Reply} {path : Bytes} {fl : OpenFlags} {n : Nat}
    (h : k.openPath r path fl = (.ok n, k')) (hrw : fl.rdwr = true) (hs : Sound dev k) :
    Steps dev k live (.open (placeOf path) ⟨fl.creat, fl.excl, fl.trunc⟩) (.opened n) k' (n :: live) := by
  obtain ⟨p, d, hp, hfree, hfds, hplace⟩ := openPath_inv h
  have hholds : (k.view dev live).holds n = none := by
    simp [view, hfree]
  rw [Steps, view_hold hfds, ← locate_place hp]
  rcases hplace with ⟨nd, hnd, hdir, hexcl, hobj, htree, hino, hdata⟩ | ⟨hnone, hcreat, hobj, htree, hino, hdata⟩
  · have hnamed : (k.view dev live).named p = some (nd.obj p) := by
      show k.named p = some (nd.obj p)
      cases nd with
      | dir => exact absurd (hdir rfl) (by simp [hrw])
      | file ino => simp only [named, hnd]
      | blk ino dv => simp only [named, hnd]
      | chr => simp only [named, hnd]
    have hview : { k' with fds := k.fds }.view dev live =
        if fl.trunc && (nd.obj p).sized then (k.view dev live).setContent (nd.obj p) [] else k.view dev live := by
      cases nd with
      | file ino =>
        cases htr : fl.trunc with
        | true =>
          have hfit := hs.node hnd
          simp only [emptied, htr, hrw, Bool.and_self, if_true] at hdata
          exact view_setContent (.inl rfl) hfit htree rfl hino hdata
        | false =>
          simp only [emptied, htr, Bool.false_and, Bool.false_eq_true, if_false] at hdata
          exact view_congr htree rfl hdata hino
      | blk ino dv =>
        rw [show (Node.obj p (.blk ino dv)).sized = false from rfl, Bool.and_false]
        exact view_congr htree rfl hdata hino
      | dir =>
        rw [show (Node.obj p .dir).sized = false from rfl, Bool.and_false]
        exact view_congr htree rfl hdata hino
      | chr =>
        rw [show (Node.obj p .chr).sized = false from rfl, Bool.and_false]
        exact view_congr htree rfl hdata hino
    rw [hobj, hview]
    exact .found hnamed hexcl hholds
  · have hnamed : (k.view dev live).named p = none := by
      show k.named p = none
      simp only [named, hnone]
    have hne : p ≠ [] := by
      rintro rfl
      simp [Kernel.node] at hnone
    have hfit : (Obj.file k.nextIno).Fits dev (k.nextIno + 1) := ⟨by omega, hs.fresh _ le_rfl⟩
    have hview : { k' with fds := k.fds }.view dev live = (k.view dev live).make p (.file k.nextIno) := by
      have hnames : { k' with fds := k.fds }.named = Function.update k.named p (some (.file k.nextIno)) := by
        funext q
        by_cases hq : q = p
        · subst hq
          simp [named, Kernel.node, htree, hne, Node.obj]
        · simp only [named, Kernel.node, htree, Function.update_of_ne hq]
      have hcontent : { k' with fds := k.fds }.content dev = Function.update (k.content dev) (.file k.nextIno) [] :=
        content_update (k := { k with nextIno := k.nextIno + 1 }) (.inl rfl) hfit hdata
      have hmade : {o : Obj | o.Fits dev k'.nextIno} = insert (.file k.nextIno) {o | o.Fits dev k.nextIno} := by
        ext o
        rw [hino]
        exact Obj.fits_succ (hs.fresh _ le_rfl) o
      simp only [view, FileStore.make, FileStore.setContent, FileStore.name, hnames, hcontent, hmade]
    rw [hobj, hview]
    refine .new hnamed hcreat hholds ?_
    rintro ⟨hlt, _⟩
    exact absurd hlt (Nat.lt_irrefl _)

end

end Kernel

end Lib
