/-
Where a file lives, for an open and for a delete.

An open picks the root by the flags of its request. A delete has no such
flags and always goes to the data root. The two agree on a name exactly when
both paths lead to the same place of the tree; for a file that was opened in
the data root they are one path.
-/
import Microtrust.Storage.Durable
import Microtrust.Storage.Handles

namespace Storage

open Lib

/-- Every call succeeds that the file system lets succeed. -/
def Obliging (env : Nat → Syscall → Reply) : Prop := ∀ t c, ∃ n, env t c = .ok n

/-- A request that names a file, and nothing after the name. -/
def Request.names (q : Request) (name : Bytes) : Prop := q.payload.length = 4 + name.length ∧ q.name = name

instance (q : Request) (name : Bytes) : Decidable (q.names name) := inferInstanceAs (Decidable (_ ∧ _))

theorem serve_plain {q : Request} {c : Cmd} (hp : q.plain) (hc : q.cmd = some c) (w : World) :
    ∃ rest, serve w q = handler c (receive w q) q.msg (q.payload ++ 0 :: rest) q.payload.length := by
  refine ⟨w.st.reqBuffer.drop (q.payload.length + 1), ?_⟩
  simp only [serve, handleReq, hp.1, hp.2, Bool.false_and, Bool.false_eq_true, if_false]
  rw [dispatch_some hc]
  rfl

/-- A request that asks for a checkpoint may be refused; any other comes to its
handler, with what was on disk before. -/
theorem serve_handled {w w' : World} {q : Request} {c : Cmd} {rc : Int} (hc : q.cmd = some c)
    (h : serve w q = (rc, w')) :
    (¬ q.plain ∧ ∃ e m p, e ≠ .noError ∧ Answers w q.msg e none m (w.kern.settle p) w') ∨
      ∃ w₁ rest p, Frame w w₁ ∧ w₁.kern = w.kern.settle p ∧
        handler c w₁ q.msg (q.payload ++ 0 :: rest) q.payload.length = (rc, w') := by
  have hf₀ : Frame w (receive w q) := ⟨rfl, rfl, rfl, rfl⟩
  by_cases hplain : q.plain
  · obtain ⟨rest, hs⟩ := serve_plain hplain hc w
    exact .inr ⟨receive w q, rest, _, hf₀, (settle_false w.kern).symm, hs ▸ h⟩
  obtain ⟨w₁, hcheck, _, ⟨e, he, ha⟩ | hd⟩ := serve_cases h
  · obtain ⟨p, hp⟩ := hcheck.synced.kern
    rw [Refused, hp] at ha
    exact .inl ⟨hplain, e, _, p, he, (hf₀.trans hcheck.synced.frame).answers ha⟩
  · obtain ⟨p, hp⟩ := hcheck.synced.kern
    obtain ⟨rest, hrest⟩ := receive_buffer w q
    rw [hcheck.synced.buf, hrest, dispatch_some hc] at hd
    exact .inr ⟨w₁, rest, p, hf₀.trans hcheck.synced.frame, hp, hd⟩

theorem Request.names.cstr {q : Request} {name : Bytes} (h : q.names name) (rest : Bytes) :
    cstr ((q.payload ++ 0 :: rest).drop 4) = name := by
  rw [cstr_drop (by have := h.1; omega)]
  exact h.2

/-! ## A delete -/

/-- How a delete is answered. -/
def unlinkAnswer : Except Errno Unit → Err
  | .ok _ => .noError
  | .error e => translateErrno e

theorem storageFileDelete_obliging {w w' : World} {msg : Msg} {r : Bytes} {n : Nat} {rc : Int} {name : Bytes}
    (hob : Obliging w.env) (hname : cstr (r.drop 4) = name) (hlen : n = 4 + name.length)
    (h : storageFileDelete w msg r n = (rc, w')) :
    ∃ t res k, w.kern.unlink (.ok t) (joined w.st.roots.ssdirName name) = (res, k) ∧
      Answers w msg (unlinkAnswer res) none { w.st.marks with dirState := .dirty } k w' := by
  unfold storageFileDelete at h
  rw [hname, if_neg (by omega), if_neg (by omega), asprintf_ok fun t size => hob t (.alloc size)] at h
  dsimp only at h
  obtain ⟨t, ht⟩ := hob (w.now + 1) (.unlink (joined w.st.roots.ssdirName name))
  have hdone {w₁ w₂ : World} {res} (hu : w₁.unlink (joined w.st.roots.ssdirName name) = (res, w₂))
      (hf : Frame w w₁) (hst : w₁.st.marks = { w.st.marks with dirState := .dirty }) (hk : w₁.kern = w.kern)
      (ht : w₁.env w₁.now (.unlink (joined w.st.roots.ssdirName name)) = .ok t)
      (hr : ipcRespond w₂ (msg.answer (unlinkAnswer res)) none = (rc, w')) :
      ∃ t res k, w.kern.unlink (.ok t) (joined w.st.roots.ssdirName name) = (res, k) ∧
        Answers w msg (unlinkAnswer res) none { w.st.marks with dirState := .dirty } k w' := by
    obtain ⟨hk₂, hst₂, hf₂⟩ := World.sys_inv hu
    rw [ht, hk] at hk₂
    exact ⟨t, res, w₂.kern, hk₂, (hf.trans hf₂).respond (by rw [hst₂]; exact hst) rfl hr⟩
  split at h
  · next e w₂ hu => exact hdone hu ⟨rfl, rfl, rfl, rfl⟩ rfl rfl ht h
  · next w₂ hu => exact hdone hu ⟨rfl, rfl, rfl, rfl⟩ rfl rfl ht h

theorem serve_delete {w : World} {q : Request} {name : Bytes} (hob : Obliging w.env)
    (hc : q.cmd = some .fileDelete) (hp : q.plain) (hname : q.names name) :
    ∃ t res k, w.kern.unlink (.ok t) (joined w.st.roots.ssdirName name) = (res, k) ∧
      Answers w q.msg (unlinkAnswer res) none { w.st.marks with dirState := .dirty } k (serve w q).2 := by
  obtain ⟨rest, hs⟩ := serve_plain hp hc w
  have hf : Frame w (receive w q) := ⟨rfl, rfl, rfl, rfl⟩
  obtain ⟨t, res, k, hu, ha⟩ := storageFileDelete_obliging (w := receive w q) hob (hname.cstr rest) hname.1
    (Prod.mk.eta (p := storageFileDelete (receive w q) q.msg (q.payload ++ 0 :: rest) q.payload.length)).symm
  refine ⟨t, res, k, hu, ?_⟩
  rw [hs]
  exact hf.answers ha

/-! ## An open that creates nothing -/

theorem openTarget_obliging {w : World} {name : Bytes} (hob : Obliging w.env) (hslash : 47 ∉ name) (flags : Nat) :
    openTarget w flags name = (some (openName w.st.roots flags name), { w with now := w.now + 1 }) := by
  unfold openTarget openName
  simp only [asprintf_ok fun t size => hob t (.alloc size)]
  split
  · rfl
  split
  · rfl
  split
  · have hlast : ¬ lastSlash name > 0 := fun hpos => hslash (mem_of_lastSlash_pos hpos)
    simp only [prepareFloder, hlast, if_false]
  · rfl

theorem openPath_missing {w : World} {path : Bytes} {fl : OpenFlags} {p : Path} (hob : Obliging w.env)
    (hfree : w.kern.lowest ≠ none) (hp : w.kern.locate path = .ok p) (hnone : w.kern.node p = none)
    (hcreat : fl.creat = false) : w.openPath path fl = (.error .ENOENT, { w with now := w.now + 1 }) := by
  obtain ⟨t, ht⟩ := hob w.now (.open path)
  obtain ⟨m, hm⟩ := Option.ne_none_iff_exists'.mp hfree
  simp only [World.openPath, World.sys, Kernel.openPath, ht, hm, hp, hnone, Kernel.openNew, hcreat, Bool.not_false,
    if_true]

theorem storageFileOpen_missing {w w' : World} {msg : Msg} {r : Bytes} {n : Nat} {rc : Int} {name : Bytes} {p : Path}
    (hob : Obliging w.env) (hname : cstr (r.drop 4) = name) (hlen : n = 4 + name.length) (hslash : 47 ∉ name)
    (hcreate : (leAt r 0 4).testBit openCreate = false) (hfree : w.kern.lowest ≠ none)
    (hp : w.kern.locate (openName w.st.roots (leAt r 0 4) name) = .ok p) (hnone : w.kern.node p = none)
    (h : storageFileOpen w msg r n = (rc, w')) : Answers w msg .notFound none w.st.marks w.kern w' := by
  unfold storageFileOpen at h
  rw [hname, if_neg (by omega), if_neg (by omega)] at h
  dsimp only at h
  rw [openTarget_obliging hob hslash] at h
  simp only [openTries, hcreate, Bool.false_eq_true, if_false] at h
  rw [openPath_missing (w := { w with now := w.now + 1 }) hob hfree hp hnone rfl] at h
  dsimp only at h
  have hf : Frame w { w with now := w.now + 1 + 1 } := ⟨rfl, rfl, rfl, rfl⟩
  have hnot : translateErrno .ENOENT = .notFound := by decide
  rw [hnot] at h
  exact hf.respond rfl rfl h

theorem serve_reopen {w : World} {q : Request} {name : Bytes} {p : Path} (hob : Obliging w.env)
    (hc : q.cmd = some .fileOpen) (hplain : q.plain) (hname : q.names name) (hslash : 47 ∉ name)
    (hcreate : q.openFlags.testBit openCreate = false) (hfree : w.kern.lowest ≠ none)
    (hp : w.kern.locate (openName w.st.roots q.openFlags name) = .ok p) (hnone : w.kern.node p = none) :
    Answers w q.msg .notFound none w.st.marks w.kern (serve w q).2 := by
  obtain ⟨rest, hs⟩ := serve_plain hplain hc w
  have hlen := hname.1
  have hflags : leAt (q.payload ++ 0 :: rest) 0 4 = q.openFlags := leAt_append (by omega)
  have hf : Frame w (receive w q) := ⟨rfl, rfl, rfl, rfl⟩
  rw [hs]
  refine hf.answers ?_
  exact storageFileOpen_missing hob (hname.cstr rest) hlen hslash (by rw [hflags]; exact hcreate) hfree
    (by rw [hflags]; exact hp) hnone rfl

/-! ## Create, close, delete, open again -/

/-- `name` is opened by `create`, and the handle in the answer is closed. -/
structure Created (w : World) (create close : Request) (name : Bytes) (w₁ w₂ : World) : Prop where
  opens : create.cmd = some .fileOpen
  names : create.names name
  creates : create.openFlags.testBit openCreate = true
  opened : (serve w create).2 = w₁
  well : answered w w₁ .noError = true
  closes : close.cmd = some .fileClose
  handle : ∃ resp out, response w w₁ = some resp ∧ resp.out = some out ∧ close.handle = some (le out)
  closed : (serve w₁ close).2 = w₂
  done : answered w₁ w₂ .noError = true

/-- The file that was opened is there, in a tree with the same directories. -/
structure Left (w : World) (path : Bytes) (p : Path) (nd : Node) (w₂ : World) : Prop where
  place : w.kern.locate path = .ok p
  node : w₂.kern.node p = some nd
  file : nd ≠ .dir
  dirs : w.kern.SameDirs w₂.kern
  free : w₂.kern.lowest ≠ none
  env : w₂.env = w.env
  roots : w₂.st.roots = w.st.roots

theorem lowest_ne_none {k : Kernel} {n : Nat} (hn : n < k.limit) (hfree : k.fds n = none) : k.lowest ≠ none := by
  intro hnone
  have hall := List.find?_eq_none.mp hnone n (List.mem_range.mpr hn)
  simp [hfree] at hall

/-- What is opened for writing is no directory, and the open made none. -/
theorem opened_node {k k' : Kernel} {fl : OpenFlags} {p : Path} {n : Nat} {d : Desc} (ho : k.Opened fl p n d k')
    (hrw : fl.rdwr = true) : (∃ nd, k'.node p = some nd ∧ nd ≠ .dir) ∧ k.SameDirs k' := by
  rcases ho.place with ⟨nd, hnd, hdir, _, _, htree, _⟩ | ⟨hnone, _, _, _, htree, _⟩
  · refine ⟨⟨nd, ?_, fun he => ?_⟩, .of_tree htree⟩
    · rw [Kernel.node, htree]
      exact hnd
    · rw [hdir he] at hrw
      cases hrw
  · have hp : p ≠ [] := by
      rintro rfl
      simp [Kernel.node] at hnone
    refine ⟨⟨.file k.nextIno, ?_, by simp⟩, .update htree (by rw [hnone]; simp) (by simp)⟩
    rw [Kernel.node, if_neg hp, htree, Function.update_self]

theorem Checkpointed.tree {w w₁ : World} {q : Request} (h : Checkpointed (receive w q) w₁) :
    w₁.kern.tree = w.kern.tree ∧ w₁.kern.limit = w.kern.limit ∧ w₁.kern.fds = w.kern.fds := by
  obtain ⟨s, hs⟩ := h.synced.kern
  rw [hs]
  exact ⟨rfl, rfl, rfl⟩

section Effects

variable {roots : Roots} {q : Request} {m m' : Marks} {k k' : Kernel} {out : Option Bytes}

theorem Effect.of_open (h : Effect roots q m k .noError out m' k') (hc : q.cmd = some .fileOpen) :
    ∃ fl p fd d k₁, Prepared q.name k k₁ ∧ fl.rdwr = true ∧
      k₁.locate (openName roots q.openFlags q.name) = .ok p ∧ k₁.Opened fl p fd d k' ∧
      out = some (leBytes 4 fd) := by
  cases h with
  | quiet hopen _ => exact absurd rfl (hopen hc)
  | write hopen => exact absurd hc hopen
  | closeFailed hclose => rw [hc] at hclose; cases hclose
  | closed hclose => rw [hc] at hclose; cases hclose
  | deleteFailed hdelete => rw [hc] at hdelete; cases hdelete
  | deleted hdelete => rw [hc] at hdelete; cases hdelete
  | openFailed _ he => exact absurd rfl he
  | opened _ hprep hrw hp ho => exact ⟨_, _, _, _, _, hprep, hrw, hp, ho, rfl⟩

theorem Effect.of_close {x : Nat} (h : Effect roots q m k .noError out m' k') (hc : q.cmd = some .fileClose)
    (hx : q.handle = some x) : ∃ d : Desc, k' = (k.settle d.syncs).release (toInt32 x).toNat := by
  cases h with
  | quiet _ hclose =>
    rcases hclose hc with he | hnone
    · exact absurd rfl he
    · rw [hx] at hnone
      cases hnone
  | write _ hclose => exact absurd hc hclose
  | closeFailed _ _ he => exact absurd rfl he
  | closed _ hh =>
    rw [hx, Option.some.injEq] at hh
    exact ⟨_, by rw [hh]⟩
  | deleteFailed hdelete => rw [hc] at hdelete; cases hdelete
  | deleted hdelete => rw [hc] at hdelete; cases hdelete
  | openFailed hopen => rw [hc] at hopen; cases hopen
  | opened hopen => rw [hc] at hopen; cases hopen

end Effects

theorem Created.left {w w₁ w₂ : World} {create close : Request} {name : Bytes} (h : Created w create close name w₁ w₂)
    (hslash : 47 ∉ name) : ∃ p nd, Left w (openName w.st.roots create.openFlags name) p nd w₂ := by
  obtain ⟨wc, e, out, m, k, hcheck, ha, heff⟩ := serve_effect (Prod.mk.eta (p := serve w create)).symm
  rw [h.opened] at ha
  obtain rfl : e = .noError := by simpa [ha.answered] using h.well
  obtain ⟨wc₂, e₂, out₂, m₂, k₂, hcheck₂, ha₂, heff₂⟩ := serve_effect (Prod.mk.eta (p := serve w₁ close)).symm
  rw [h.closed] at ha₂
  obtain rfl : e₂ = .noError := by simpa [ha₂.answered] using h.done
  obtain ⟨fl, p, fd, d, k₁, hprep, hrw, hp, ho, rfl⟩ := heff.of_open h.opens
  obtain ⟨resp, out', hresp, hout, hclose⟩ := h.handle
  -- the handle that is closed is the descriptor that was opened
  have hfd : fd < 2 ^ 31 := lt_of_lt_of_le ho.lt k₁.limit_le
  obtain ⟨rc, hr⟩ := ha.response
  rw [hr, Option.some.injEq] at hresp
  subst hresp
  obtain rfl : leBytes 4 fd = out' := Option.some.inj hout
  rw [le_leBytes_of_lt (by omega)] at hclose
  obtain ⟨d₂, rfl⟩ := heff₂.of_close h.closes hclose
  rw [toInt32_of_lt hfd, Int.toNat_natCast] at ha₂
  rw [h.names.2] at hprep hp
  obtain rfl := hprep.eq hslash
  obtain ⟨htree, hlimit, _⟩ := hcheck.tree
  obtain ⟨htree₂, hlimit₂, _⟩ := hcheck₂.tree
  obtain ⟨⟨nd, hnd, hfile⟩, hdirs⟩ := opened_node ho hrw
  have hstart : w.kern.SameDirs wc.kern := .of_tree htree
  have hend : k.SameDirs w₂.kern := .of_tree (by rw [ha₂.kern, ← ha.kern]; exact htree₂)
  refine ⟨p, nd, ⟨hstart.locate.mp hp, ?_, hfile, fun x => ((hend x).trans (hdirs x)).trans (hstart x), ?_,
    ha₂.env.trans ha.env, ha₂.roots.trans ha.roots⟩⟩
  · rw [← hnd, ha₂.kern]
    simp only [Kernel.node]
    rw [show ((wc₂.kern.settle d₂.syncs).release fd).tree = wc₂.kern.tree from rfl, htree₂, ha.kern]
  · rw [ha₂.kern]
    refine lowest_ne_none (n := fd) ?_ (Function.update_self ..)
    show fd < wc₂.kern.limit
    rw [hlimit₂, ha.kern, ho.limit]
    exact ho.lt

/-- The delete takes the file at the place that was opened, and no other; an
open that creates nothing then finds none. -/
structure DeletedAlone (w w₂ : World) (path : Bytes) (delete reopen : Request) : Prop where
  well : answered w₂ (serve w₂ delete).2 .noError = true
  alone : ∃ p, w.kern.locate path = .ok p ∧ w₂.kern.node p ≠ none ∧
    (serve w₂ delete).2.kern.tree = Function.update w₂.kern.tree p none
  gone : answered (serve w₂ delete).2 (serve (serve w₂ delete).2 reopen).2 .notFound = true

/-- The requests that follow: a delete of `name`, and an open of it in the
namespace of `flags` that creates nothing. -/
structure Followed (name : Bytes) (flags : Nat) (delete reopen : Request) : Prop where
  deletes : delete.cmd = some .fileDelete
  plain : delete.plain
  names : delete.names name
  opens : reopen.cmd = some .fileOpen
  plain' : reopen.plain
  names' : reopen.names name
  creates : reopen.openFlags.testBit openCreate = false
  persistent : reopen.openFlags.testBit openPersistentFile = flags.testBit openPersistentFile
  proinfo : reopen.openFlags.testBit openProinfoFile = flags.testBit openProinfoFile

theorem Left.deletedAlone {w w₂ : World} {path name : Bytes} {p : Path} {nd : Node} {flags : Nat}
    {delete reopen : Request} (h : Left w path p nd w₂) (hf : Followed name flags delete reopen)
    (hob : Obliging w.env) (hslash : 47 ∉ name) (hpath : path = openName w.st.roots flags name)
    (hdata : w.kern.locate (joined w.st.roots.ssdirName name) = .ok p) :
    DeletedAlone w w₂ path delete reopen := by
  have hob₂ : Obliging w₂.env := by rw [h.env]; exact hob
  obtain ⟨t, res, k, hu, ha⟩ := serve_delete hob₂ hf.deletes hf.plain hf.names
  have hloc : w₂.kern.locate (joined w₂.st.roots.ssdirName name) = .ok p := by
    rw [h.roots]
    exact h.dirs.locate.mpr hdata
  have hp : p ≠ [] := by
    rintro rfl
    have hroot := h.node
    simp only [Kernel.node, if_true, Option.some.injEq] at hroot
    exact h.file hroot.symm
  have hunlink : w₂.kern.unlink (.ok t) (joined w₂.st.roots.ssdirName name) =
      (.ok (), { w₂.kern with tree := Function.update w₂.kern.tree p none }.log
        (.entry p.dropLast (w₂.kern.fsOf p.dropLast)) none) := by
    have hfile := h.file
    simp only [Kernel.unlink, hloc, h.node]
  rw [hunlink] at hu
  obtain ⟨rfl, rfl⟩ := Prod.mk.inj hu
  have htree : (serve w₂ delete).2.kern.tree = Function.update w₂.kern.tree p none := by
    rw [ha.kern]
    rfl
  refine ⟨by rw [ha.answered]; rfl, ⟨p, h.place, by rw [h.node]; simp, htree⟩, ?_⟩
  have hdirs : w₂.kern.SameDirs (serve w₂ delete).2.kern :=
    .update htree (by rw [h.node]; simpa using h.file) (by simp)
  have hreopen := serve_reopen (w := (serve w₂ delete).2) (p := p) (by rw [ha.env]; exact hob₂) hf.opens hf.plain'
    hf.names' hslash hf.creates (by rw [ha.kern]; exact h.free)
    (by
      rw [hdirs.locate, ha.roots, h.roots, h.dirs.locate, ← h.place, hpath]
      simp only [openName, hf.persistent, hf.proinfo])
    (by rw [Kernel.node, if_neg hp, htree, Function.update_self])
  rw [hreopen.answered]
  rfl

/-- A delete agrees with the open that made the file exactly when the path
in the data root leads where the open went. -/
theorem delete_agrees_iff {w w₁ w₂ : World} {create close delete reopen : Request} {name : Bytes}
    (hob : Obliging w.env) (hslash : 47 ∉ name) (hpro : create.openFlags.testBit openProinfoFile = false)
    (hcreated : Created w create close name w₁ w₂) (hf : Followed name create.openFlags delete reopen) :
    DeletedAlone w w₂ (openName w.st.roots create.openFlags name) delete reopen ↔
      (create.openFlags.testBit openPersistentFile = true →
        w.kern.locate (joined w.st.roots.ssdirName name) =
          w.kern.locate (joined w.st.roots.ssPersistentDirName name)) := by
  obtain ⟨p, nd, hleft⟩ := hcreated.left hslash
  have hname : openName w.st.roots create.openFlags name =
      if create.openFlags.testBit openPersistentFile then joined w.st.roots.ssPersistentDirName name
      else joined w.st.roots.ssdirName name := by
    simp only [openName, hpro, Bool.false_eq_true, if_false]
  constructor
  · intro hd hpers
    rw [← (show openName w.st.roots create.openFlags name = joined w.st.roots.ssPersistentDirName name by
      rw [hname, if_pos hpers]), hleft.place]
    obtain ⟨t, res, k, hu, ha⟩ := serve_delete (w := w₂) (by rw [hleft.env]; exact hob) hf.deletes hf.plain hf.names
    obtain ⟨p', hp', _, htree⟩ := hd.alone
    obtain rfl : p = p' := Except.ok.inj (hleft.place.symm.trans hp')
    cases res with
    | error e =>
      have hwell := hd.well
      rw [ha.answered, decide_eq_true_eq] at hwell
      exact absurd hwell (translateErrno_ne e)
    | ok u =>
      obtain ⟨p', nd', hloc, hnode, hdir, rfl⟩ := Kernel.unlink_ok hu
      have hsame : Function.update w₂.kern.tree p' none = Function.update w₂.kern.tree p none := by
        rw [← htree, ha.kern]
        rfl
      -- what was unlinked was there, so it is what is missing now
      obtain rfl : p' = p := by
        by_contra hne
        have hat := congrFun hsame p'
        rw [Function.update_self, Function.update_of_ne hne] at hat
        rw [Kernel.node, ← hat] at hnode
        split at hnode
        · exact hdir (Option.some.inj hnode).symm
        · cases hnode
      rw [hleft.roots] at hloc
      exact hleft.dirs.locate.mp hloc
  · intro hsame
    refine hleft.deletedAlone hf hob hslash rfl ?_
    rw [← hleft.place, hname]
    split
    · next hpers => exact hsame hpers
    · rfl

/-! ## The same name in two roots -/

def bothRoots : Config := ⟨some [47, 100], some [47, 112], false, none, [47, 116], [47, 110], ⟨64, 64⟩⟩

/-- A proxy with both roots, and the file `x` in the data root. -/
def bothStarted : World :=
  (serve ((start bothRoots calm (fun _ => []) bench).get (by decide)) createData).2

/-- Open the file `x` of the persistent root, if there is one. -/
def openPersistent : Request := request .fileOpen 0 [8, 0, 0, 0, 120] (by decide)

/-- Open the file `x` of the data root, if there is one. -/
def openData : Request := request .fileOpen 0 [0, 0, 0, 0, 120] deleteData.fits

theorem calm_obliging (w : World) (h : w.env = calm) : Obliging w.env := fun _ _ => ⟨1, by rw [h]; rfl⟩

/-- `x` is created in the persistent root and deleted: the answer is good,
the file of the data root is gone, and the persistent one is still found. -/
theorem delete_takes_other_file :
    ∃ w₁ w₂, Obliging bothStarted.env ∧ 47 ∉ ([120] : Bytes) ∧
      createPersistent.openFlags.testBit openProinfoFile = false ∧
      bothStarted.st.roots.ssPersistentDirName.isSome ∧
      Created bothStarted createPersistent (closeHandle 7) [120] w₁ w₂ ∧
      Followed [120] createPersistent.openFlags deleteData openPersistent ∧
      answered w₂ (serve w₂ deleteData).2 .noError = true ∧
      (w₂.kern.node [[100], [120]]).isSome ∧ (serve w₂ deleteData).2.kern.node [[100], [120]] = none ∧
      ¬ DeletedAlone bothStarted w₂ (openName bothStarted.st.roots createPersistent.openFlags [120]) deleteData
        openPersistent := by
  refine ⟨_, _, calm_obliging _ rfl, by decide, by decide, by decide,
    ⟨by decide, by decide, by decide, rfl, by decide, by decide, ?_, rfl, by decide⟩,
    ⟨by decide, by decide, by decide, by decide, by decide, by decide, by decide, by decide, by decide⟩,
    by decide, by decide, by decide, fun h => ?_⟩
  · exact ⟨_, _, rfl, rfl, by decide⟩
  · have hgone := h.gone
    revert hgone
    decide

theorem delete_agrees_iff_data :
    ∃ w₁ w₂, Created dataStarted createData (closeHandle 5) [120] w₁ w₂ ∧
      DeletedAlone dataStarted w₂ (openName dataStarted.st.roots createData.openFlags [120]) deleteData openData := by
  have hcreated : Created dataStarted createData (closeHandle 5) [120] (serve dataStarted createData).2
      (serve (serve dataStarted createData).2 (closeHandle 5)).2 :=
    ⟨by decide, by decide, by decide, rfl, by decide, by decide, ⟨_, _, rfl, rfl, by decide⟩, rfl, by decide⟩
  refine ⟨_, _, hcreated, (delete_agrees_iff (calm_obliging _ rfl) (by decide) (by decide) hcreated
    ⟨by decide, by decide, by decide, by decide, by decide, by decide, by decide, by decide, by decide⟩).mpr ?_⟩
  intro hpers
  exact absurd hpers (by decide)

end Storage
