/-
The proxy as a store of files.

Every request is an operation of the store: opens and deletes go to the place
their path leads to, the others to the file their handle is on. For a client
that uses only handles it holds, each request does to the store what its
operation may do, and is answered as it may be.
-/
import Microtrust.Lib.KernelView
import Microtrust.Storage.Transfers

namespace Storage

open Lib

/-! ## Requests as operations -/

/-- The path an open names, in a proxy of this configuration. -/
def Config.pathOf (cfg : Config) (flags : Nat) (name : Bytes) : Bytes :=
  openName { ssdirName := cfg.dataRoot, ssPersistentDirName := cfg.persistentRoot, ssProinfoName := cfg.proNode }
    flags name

def openHow (flags : Nat) : OpenHow :=
  ⟨flags.testBit openCreate, flags.testBit openCreateExclusive, flags.testBit openTruncate⟩

def Request.op (cfg : Config) (q : Request) : FileOp Path Nat :=
  match q.cmd, q.handle with
  | some .fileOpen, _ => .open (placeOf (cfg.pathOf q.openFlags q.name)) (openHow q.openFlags)
  | some .fileDelete, _ => .delete (placeOf (joined cfg.dataRoot q.name))
  | some .fileClose, some h => .close h
  | some .fileRead, some h => .read h (leAt q.payload 8 8) q.readSize
  | some .fileWrite, some h => .write h (leAt q.payload 0 8) q.data
  | some .fileGetSize, some h => .getSize h
  | some .fileSetSize, some h => .setSize h (leAt q.payload 0 8)
  | _, _ => .other

/-- What the payload of a good answer says. -/
def decoded (out : Bytes) : FileOp Path Nat → FileAnswer Nat
  | .open .. => .opened (le out)
  | .read .. => .bytes out
  | .getSize _ => .size (le out)
  | _ => .done

/-- The answer to the request that took `w` to `w'`. -/
def answerTo (op : FileOp Path Nat) (w w' : World) : FileAnswer Nat :=
  if answered w w' .noError then decoded ((returned w w').getD []) op else .failed

theorem Answers.answerTo {w w' : World} {msg : Msg} {e : Err} {out : Option Bytes} {m : Marks} {k : Kernel}
    (h : Answers w msg e out m k w') (op : FileOp Path Nat) :
    Storage.answerTo op w w' = if e = .noError then decoded (out.getD []) op else .failed := by
  simp only [Storage.answerTo, h.answered, h.returned, decide_eq_true_eq]

theorem Rooted.pathOf {cfg : Config} {R : List (Nat × Desc)} {r : Roots} (h : Rooted cfg R r) (flags : Nat)
    (name : Bytes) : openName r flags name = cfg.pathOf flags name := by
  simp only [Config.pathOf, openName, h.ssdirName, h.ssPersistentDirName, h.ssProinfoName]

/-! ## What stays the same -/

theorem Writes.nextIno {fd : Int} {k k' : Kernel} (h : Writes fd k k') : k'.nextIno = k.nextIno := by
  induction h with
  | refl => rfl
  | tail _ hw ih =>
    obtain ⟨d, ino, data, _, _, rfl⟩ := hw
    exact ih

/-- A request that neither opens, closes nor deletes leaves names and
descriptors alone. -/
theorem serve_still {w : World} {q : Request} (hopen : q.cmd ≠ some .fileOpen) (hclose : q.cmd ≠ some .fileClose)
    (hdelete : q.cmd ≠ some .fileDelete) : (serve w q).2.kern.tree = w.kern.tree ∧
      (serve w q).2.kern.fds = w.kern.fds ∧ (serve w q).2.kern.nextIno = w.kern.nextIno := by
  obtain ⟨w₁, e, out, m, k, hc, ha, heff⟩ := serve_effect (Prod.mk.eta (p := serve w q)).symm
  obtain ⟨p, hp⟩ := hc.synced.kern
  have hk : w₁.kern.tree = w.kern.tree ∧ w₁.kern.fds = w.kern.fds ∧ w₁.kern.nextIno = w.kern.nextIno := by
    rw [hp]
    exact ⟨rfl, rfl, rfl⟩
  rw [ha.kern]
  cases heff with
  | quiet => exact hk
  | write _ _ _ hw => exact ⟨hw.tree.1.trans hk.1, hw.fds.trans hk.2.1, hw.nextIno.trans hk.2.2⟩
  | closeFailed hcmd => exact absurd hcmd hclose
  | closed hcmd => exact absurd hcmd hclose
  | deleteFailed hcmd => exact absurd hcmd hdelete
  | deleted hcmd => exact absurd hcmd hdelete
  | openFailed hcmd => exact absurd hcmd hopen
  | opened hcmd => exact absurd hcmd hopen

theorem next_live_still {H : Hist} {q : Request} {w w' : World} (hopen : q.cmd ≠ some .fileOpen)
    (hclose : q.cmd ≠ some .fileClose) : (H.next q w w').live = H.live := by
  simp only [Hist.next]
  split
  · next hcmd _ => exact absurd hcmd hclose
  · next hcmd => exact absurd hcmd hopen
  · rfl

theorem handler_abi (c : Cmd) (w : World) (msg : Msg) (r : Bytes) (n : Nat) : (handler c w msg r n).2.abi = w.abi := by
  cases c with
  | fileDelete =>
    simp only [handler, storageFileDelete]
    split
    · rfl
    split
    · rfl
    split
    · next w₁ h => exact (asprintf_spec h).1.abi
    · next path w₁ h =>
      split
      all_goals
        next h₂ =>
        exact (World.sys_inv h₂).2.2.abi.trans (asprintf_spec h).1.abi
  | fileOpen =>
    simp only [handler, storageFileOpen]
    split
    · rfl
    split
    · rfl
    split
    · next w₁ h => exact (openTarget_spec h).1.abi
    · next path w₁ h =>
      split
      all_goals
        next h₂ =>
        exact (openTries_spec h₂).1.abi.trans (openTarget_spec h).1.abi
  | fileClose =>
    simp only [handler, storageFileClose]
    split
    · rfl
    split
    · next h => exact (World.sys_inv h).2.2.abi
    · next w₁ h =>
      split
      all_goals
        next h₂ =>
        exact (World.sys_inv h₂).2.2.abi.trans (World.sys_inv h).2.2.abi
  | fileWrite =>
    simp only [handler, storageFileWrite]
    split
    · rfl
    split
    all_goals
      next h => exact (writeLoop_spec h).1.abi
  | fileRead =>
    simp only [handler, storageFileRead]
    split
    · rfl
    split
    · rfl
    split
    all_goals
      next h => exact (readLoop_spec h).1.abi
  | fileGetSize =>
    simp only [handler, storageFileGetSize]
    split
    · rfl
    split
    all_goals
      next h => exact (World.sys_inv h).2.2.abi
  | fileSetSize =>
    simp only [handler, storageFileSetSize]
    split
    · rfl
    split
    all_goals
      next h => exact (World.sys_inv h).2.2.abi
  | rpmbSend =>
    simp only [handler, rpmbSend]
    split
    · rfl
    split
    · rfl
    split
    · rfl
    split
    · rfl
    · rfl
  | initOk | initProinfoOk | initPersistOk =>
    simp only [handler, storageInitOk, storageInitProinfoOk, storageInitPersistOk, storageInitDone]
    split
    · rfl
    · rfl

theorem dispatch_abi (w : World) (msg : Msg) (r : Bytes) (n : Nat) : (dispatch w msg r n).2.abi = w.abi := by
  cases hc : Cmd.ofCode msg.cmd with
  | none =>
    rw [dispatch_none hc]
    rfl
  | some c =>
    rw [dispatch_some hc]
    exact handler_abi c w msg r n

theorem serve_abi (w : World) (q : Request) : (serve w q).2.abi = w.abi := by
  simp only [serve, handleReq]
  split
  · rfl
  split
  · generalize hc : storageSyncCheckpoint (receive w q) = x
    obtain ⟨rc, w₁⟩ := x
    have hw₁ : w₁.abi = w.abi := (checkpoint_synced hc).frame.abi
    dsimp only
    split
    · exact hw₁
    · exact (dispatch_abi _ _ _ _).trans hw₁
  · exact dispatch_abi _ _ _ _

/-! ## The invariant -/

/-- Between two requests: the roots are where they were configured, the handles
in use are open, the inodes are in order. -/
structure Viewed (cfg : Config) (dev : Nat → Bool) (R : List (Nat × Desc)) (H : Hist) (w : World) : Prop where
  rooted : Rooted cfg R w.st.roots
  held : Held R H.live w.st.marks w.kern
  sound : w.kern.Sound dev
  abi : w.abi = cfg.abi

/-- The request did what its operation may do, and the inodes are in order. -/
structure Stepped (cfg : Config) (dev : Nat → Bool) (H : Hist) (w : World) (q : Request) (w' : World) : Prop where
  steps : w.kern.Steps dev H.live (q.op cfg) (answerTo (q.op cfg) w w') w'.kern (H.next q w w').live
  sound : w'.kern.Sound dev

section Commands

variable {cfg : Config} {dev : Nat → Bool} {R : List (Nat × Desc)} {H : Hist} {w : World} {q : Request} {x : Nat}

/-- A handle in use is on a file. -/
theorem Viewed.handle (h : Viewed cfg dev R H w) (hx : x ∈ H.live) :
    toInt32 x = x ∧ ∃ d, w.kern.fds x = some d ∧ (w.kern.view dev H.live).holds x = some d.obj := by
  obtain ⟨_, _, d, hd⟩ := h.held.live x hx
  exact ⟨h.held.toInt32 hx, d, hd, Kernel.holds_eq hx hd⟩

theorem Viewed.inode (h : Viewed cfg dev R H w) (hx : x ∈ H.live) {d : Desc} (hd : w.kern.fds x = some d) {ino : Nat}
    (ho : d.obj = .file ino ∨ d.obj = .blk ino) : w.kern.inode (toInt32 x) = some ino := by
  rw [h.held.toInt32 hx]
  rcases ho with ho | ho <;> simp [Kernel.inode, hd, ho]

/-- What keeps its content has an inode. -/
theorem keeps_inode {o : Obj} (h : o.keeps = true) : ∃ ino, o = .file ino ∨ o = .blk ino := by
  cases o with
  | file ino => exact ⟨ino, .inl rfl⟩
  | blk ino => exact ⟨ino, .inr rfl⟩
  | dir p => cases h
  | chr => cases h

/-- A position that is not negative as an `off_t` is the position asked for. -/
theorem toNat_position {bits off : Nat} {payload : Bytes} (hM : 2 ^ bits = 2 * 2 ^ 63)
    (hpos : 0 ≤ toSigned bits (leAt payload off 8)) :
    (toSigned bits (leAt payload off 8)).toNat = leAt payload off 8 := by
  have hlt : leAt payload off 8 < 256 ^ 8 := leAt_lt payload off 8
  rcases toSigned_cases hM (leAt payload off 8) with ⟨_, he⟩ | ⟨_, hneg⟩
  · rw [he, Int.toNat_natCast]
    exact Nat.mod_eq_of_lt (by omega)
  · omega

/-- A request that neither opens, closes nor deletes, and keeps the data. -/
theorem Viewed.quiet (h : Viewed cfg dev R H w) (hopen : q.cmd ≠ some .fileOpen) (hclose : q.cmd ≠ some .fileClose)
    (hdelete : q.cmd ≠ some .fileDelete) (hdata : (serve w q).2.kern.data = w.kern.data)
    (hstep : w.kern.Steps dev H.live (q.op cfg) (answerTo (q.op cfg) w (serve w q).2) w.kern H.live) :
    Stepped cfg dev H w q (serve w q).2 := by
  obtain ⟨htree, hfds, hino⟩ := serve_still hopen hclose hdelete
  refine ⟨?_, h.sound.data htree hfds hino (by rw [hdata]; exact h.sound.short)⟩
  rw [next_live_still hopen hclose, Kernel.Steps, Kernel.view_congr htree hfds hdata hino]
  exact hstep

/-- A request that fails leaves the store as it was, unless it closes a handle. -/
theorem Stepped.failed {e : Err} {m : Marks} {k : Kernel} (hclose : q.cmd ≠ some .fileClose) (he : e ≠ .noError)
    (hview : k.view dev H.live = w.kern.view dev H.live) (hsound : k.Sound dev)
    (ha : Answers w q.msg e none m k (serve w q).2) : Stepped cfg dev H w q (serve w q).2 := by
  have hlive : (H.next q w (serve w q).2).live = H.live := by
    by_cases hopen : q.cmd = some .fileOpen
    · obtain ⟨rc, hr⟩ := ha.response
      simp only [Hist.next, hopen, hr]
    · exact next_live_still hopen hclose
  have hop (y : Nat) : q.op cfg ≠ .close y := by
    unfold Request.op
    split
    · simp
    · simp
    · next hc _ => exact absurd hc hclose
    all_goals simp
  refine ⟨?_, by rw [ha.kern]; exact hsound⟩
  rw [hlive, Kernel.Steps, ha.kern, hview, ha.answerTo, if_neg he]
  exact .failed hop

theorem Viewed.refused {e : Err} {m : Marks} {p : Change → Bool} (h : Viewed cfg dev R H w)
    (hclose : q.cmd ≠ some .fileClose) (he : e ≠ .noError)
    (ha : Answers w q.msg e none m (w.kern.settle p) (serve w q).2) : Stepped cfg dev H w q (serve w q).2 :=
  .failed hclose he (Kernel.view_settle p) (h.sound.settle p) ha

theorem Viewed.read (h : Viewed cfg dev R H w) (h64 : cfg.abi.offBits = 64) (hc : q.cmd = some .fileRead)
    (hx : q.handle = some x) (hlive : x ∈ H.live) : Stepped cfg dev H w q (serve w q).2 := by
  have hM : 2 ^ w.abi.offBits = 2 * 2 ^ 63 := by rw [h.abi, h64]; norm_num
  have hlen : q.payload.length = 16 := by
    by_contra hne
    simp [Request.handle, hc, hne] at hx
  have hp : q.position = some (leAt q.payload 8 8) := by simp [Request.position, hc, hlen]
  have hop : q.op cfg = .read x (leAt q.payload 8 8) q.readSize := by simp [Request.op, hc, hx]
  obtain ⟨hdata, hread⟩ := serve_read hc hx hp hM (by decide)
  obtain ⟨_, d, hd, hholds⟩ := h.handle hlive
  refine h.quiet (by simp [hc]) (by simp [hc]) (by simp [hc]) hdata ?_
  rw [hop, Kernel.Steps, answerTo]
  split
  · next hwell =>
    refine .read hholds fun hkeeps => ?_
    obtain ⟨ino, ho⟩ := keeps_inode hkeeps
    obtain ⟨hsize, hret⟩ := (hread hwell).2 ino (h.inode hlive hd ho)
    rw [hret, Option.getD_some, show (w.kern.view dev H.live).content d.obj = w.kern.data ino from
      Kernel.content_obj ho (h.sound.fds x d hd)]
    rcases hsize with hz | hpos
    · simp [hz]
    · rw [toNat_position hM hpos]
  · exact .failed (by simp)

theorem storageFileGetSize_sized {w w' : World} {msg : Msg} {r : Bytes} {rc : Int}
    (h : storageFileGetSize w msg r 4 = (rc, w')) :
    ∃ e out, Answers w msg e out w.st.marks w.kern w' ∧ (e = .noError →
      ∃ rep size, w.kern.fstat rep (toInt32 (leAt r 0 4)) = .ok size ∧ out = some (leBytes 8 size)) := by
  simp only [storageFileGetSize, ne_eq, not_true_eq_false, if_false] at h
  have hf₀ := (Frame.refl w).setMarks (lookupFd w.st.marks (leAt r 0 4) false).2
  split at h
  · next e w₁ hs =>
    obtain ⟨hk, hst, hf⟩ := World.sys_inv hs
    exact ⟨_, _, (hf₀.trans hf).respond (congrArg Statics.marks hst) (congrArg Prod.snd hk).symm h,
      fun he => absurd he (translateErrno_ne e)⟩
  · next size w₁ hs =>
    obtain ⟨hk, hst, hf⟩ := World.sys_inv hs
    exact ⟨_, _, (hf₀.trans hf).respond (congrArg Statics.marks hst) (congrArg Prod.snd hk).symm h,
      fun _ => ⟨_, size, congrArg Prod.fst hk, rfl⟩⟩

theorem Viewed.getSize (h : Viewed cfg dev R H w) (hc : q.cmd = some .fileGetSize) (hx : q.handle = some x)
    (hlive : x ∈ H.live) : Stepped cfg dev H w q (serve w q).2 := by
  have hlen : q.payload.length = 4 := by
    by_contra hne
    simp [Request.handle, hc, hne] at hx
  have hx' : leAt q.payload 0 4 = x := by simpa [Request.handle, hc, hlen] using hx
  have hop : q.op cfg = .getSize x := by simp [Request.op, hc, hx]
  obtain ⟨hfd, d, hd, hholds⟩ := h.handle hlive
  rcases serve_handled hc (Prod.mk.eta (p := serve w q)).symm with ⟨_, e, m, p, he, ha⟩ | ⟨w₁, rest, p, hf, hk, hs⟩
  · exact h.refused (by simp [hc]) he ha
  · simp only [handler, hlen] at hs
    obtain ⟨e, out, ha, hsize⟩ := storageFileGetSize_sized hs
    rw [hk, leAt_append (by omega), hx', hfd] at hsize
    have hans := hf.answers ha
    refine h.quiet (by simp [hc]) (by simp [hc]) (by simp [hc]) (by rw [ha.kern, hk]; rfl) ?_
    rw [hans.answerTo, hop, Kernel.Steps]
    split
    · next he =>
      obtain ⟨rep, size, hstat, rfl⟩ := hsize he
      refine .gotSize hholds fun hsized => ?_
      cases ho : d.obj with
      | file ino =>
        have hfit := h.sound.fds x d hd
        have hlength : size = (w.kern.data ino).length := by
          have hdesc : (w.kern.settle p).desc x = some d := (Kernel.desc_natCast _ x).trans hd
          cases rep with
          | error e => simp [Kernel.fstat, hdesc] at hstat
          | ok n =>
            simp only [Kernel.fstat, hdesc, ho, Except.ok.injEq] at hstat
            exact hstat.symm
        rw [Option.getD_some, le_leBytes_of_lt (by rw [hlength]; exact h.sound.short ino), hlength, ← ho]
        exact (congrArg List.length (Kernel.content_obj (.inl ho) hfit)).symm
      | blk ino => rw [ho] at hsized; cases hsized
      | dir p => rw [ho] at hsized; cases hsized
      | chr => rw [ho] at hsized; cases hsized
    · exact .failed (by simp)

theorem short_update {data : Nat → Bytes} {ino : Nat} {bs : Bytes} (h : ∀ i, (data i).length < 2 ^ 64)
    (hbs : bs.length < 2 ^ 64) (i : Nat) : (Function.update data ino bs i).length < 2 ^ 64 := by
  by_cases he : i = ino
  · rw [he, Function.update_self]
    exact hbs
  · rw [Function.update_of_ne he]
    exact h i

theorem overlay_short {old bs : Bytes} {off : Nat} (hold : old.length < 2 ^ 64)
    (hnew : bs ≠ [] → off + bs.length < 2 ^ 64) : (overlay old off bs).length < 2 ^ 64 := by
  by_cases hbs : bs = []
  · simpa [hbs] using hold
  · rw [length_overlay hbs]
    have := hnew hbs
    omega

theorem Viewed.write (h : Viewed cfg dev R H w) (h64 : cfg.abi.offBits = 64) (hc : q.cmd = some .fileWrite)
    (hx : q.handle = some x) (hlive : x ∈ H.live) : Stepped cfg dev H w q (serve w q).2 := by
  have hM : 2 ^ w.abi.offBits = 2 * 2 ^ 63 := by rw [h.abi, h64]; norm_num
  have hlen : ¬ q.payload.length < 16 := by
    intro hlt
    simp [Request.handle, hc, hlt] at hx
  have hp : q.position = some (leAt q.payload 0 8) := by simp [Request.position, hc, hlen]
  have hop : q.op cfg = .write x (leAt q.payload 0 8) q.data := by simp [Request.op, hc, hx]
  obtain ⟨c, hle, hdata, hneg, hall⟩ := serve_write hc hx hp hM (by decide)
  obtain ⟨hfd, d, hd, hholds⟩ := h.handle hlive
  obtain ⟨htree, hfds, hino⟩ := serve_still (w := w) (q := q) (by simp [hc]) (by simp [hc]) (by simp [hc])
  rw [hfd] at hdata
  have hview : (serve w q).2.kern.view dev H.live =
      (w.kern.view dev H.live).put Obj.keeps d.obj (leAt q.payload 0 8) (q.data.take c) := by
    rw [Kernel.view_put h.sound hd htree hfds hino hdata]
    by_cases hpos : 0 ≤ toSigned w.abi.offBits (leAt q.payload 0 8)
    · rw [toNat_position hM hpos]
    · rw [hneg (by omega)]
      simp
  refine ⟨?_, h.sound.data htree hfds hino fun ino => ?_⟩
  · rw [next_live_still (by simp [hc]) (by simp [hc]), Kernel.Steps, hview, hop]
    refine .wrote hholds ?_
    rw [answerTo]
    split
    · next hwell =>
      refine .inr ⟨rfl, fun hkeeps => hall hwell ?_⟩
      obtain ⟨ino, ho⟩ := keeps_inode hkeeps
      rw [h.inode hlive hd ho]
      simp
    · exact .inl rfl
  · rw [hdata]
    cases hi : w.kern.inode x with
    | none =>
      simp only [Kernel.store, hi]
      exact h.sound.short ino
    | some i =>
      simp only [Kernel.store, hi]
      refine short_update h.sound.short (overlay_short (h.sound.short i) fun hne => ?_) ino
      have hlt := toSigned_lt hM (leAt q.payload 0 8)
      have hfits := q.fits
      have hsize : (q.data.take c).length ≤ reqBufferSize := by
        simp only [List.length_take, Request.data, List.length_drop]
        omega
      simp only [reqBufferSize] at hsize
      omega

theorem storageFileSetSize_file {w w' : World} {msg : Msg} {r : Bytes} {n : Nat} {rc : Int}
    (h : storageFileSetSize w msg r n = (rc, w')) :
    ∃ e m k, Answers w msg e none m k w' ∧ (e = .noError →
      ∃ d ino, w.kern.desc (toInt32 (leAt r 8 4)) = some d ∧ d.obj = .file ino) := by
  unfold storageFileSetSize at h
  split at h
  · exact ⟨_, _, _, refused h, by simp⟩
  have hf₀ := (Frame.refl w).setMarks (lookupFd w.st.marks (leAt r 8 4) true).2
  dsimp only at h
  split at h
  · next e w₁ ht =>
    obtain ⟨_, _, hf⟩ := World.sys_inv ht
    exact ⟨_, _, _, (hf₀.trans hf).respond rfl rfl h, fun he => absurd he (translateErrno_ne e)⟩
  · next w₁ ht =>
    obtain ⟨hk, _, hf⟩ := World.sys_inv ht
    obtain ⟨_, d, ino, hd, ho, _⟩ := Kernel.ftruncate_ok hk
    exact ⟨_, _, _, (hf₀.trans hf).respond rfl rfl h, fun _ => ⟨d, ino, hd, ho⟩⟩

theorem Viewed.setSize (h : Viewed cfg dev R H w) (h64 : cfg.abi.offBits = 64) (hc : q.cmd = some .fileSetSize)
    (hx : q.handle = some x) (hlive : x ∈ H.live) : Stepped cfg dev H w q (serve w q).2 := by
  have hM : 2 ^ w.abi.offBits = 2 * 2 ^ 63 := by rw [h.abi, h64]; norm_num
  have hlen : q.payload.length = 16 := by
    by_contra hne
    simp [Request.handle, hc, hne] at hx
  have hx' : leAt q.payload 8 4 = x := by simpa [Request.handle, hc, hlen] using hx
  have hp : q.position = some (leAt q.payload 0 8) := by simp [Request.position, hc, hlen]
  have hop : q.op cfg = .setSize x (leAt q.payload 0 8) := by simp [Request.op, hc, hx]
  obtain ⟨hfd, d, hd, hholds⟩ := h.handle hlive
  rcases serve_setSize hc hx hp (w := w) with ⟨hwell, hdata⟩ | ⟨hwell, hpos, ino, hi, hdata⟩
  · refine h.quiet (by simp [hc]) (by simp [hc]) (by simp [hc]) hdata ?_
    rw [answerTo, hwell, hop]
    exact .failed (by simp)
  · -- only a regular file can be cut
    obtain ⟨ino', ho⟩ : ∃ ino, d.obj = .file ino := by
      rcases serve_handled hc (Prod.mk.eta (p := serve w q)).symm with ⟨_, e, m, p, he, ha⟩ | ⟨w₁, rest, p, hf, hk, hs⟩
      · rw [ha.answered, decide_eq_true_eq] at hwell
        exact absurd hwell he
      · obtain ⟨e, m, k, ha, hfile⟩ := storageFileSetSize_file hs
        rw [(hf.answers ha).answered, decide_eq_true_eq] at hwell
        obtain ⟨d', ino, hd', ho⟩ := hfile hwell
        rw [leAt_append (by omega), hx', hfd, hk] at hd'
        obtain rfl : d = d' := Option.some.inj (hd.symm.trans ((Kernel.desc_natCast _ x).symm.trans hd'))
        exact ⟨ino, ho⟩
    obtain rfl : ino' = ino := Option.some.inj ((h.inode hlive hd (.inl ho)).symm.trans hi)
    have hfit := h.sound.fds x d hd
    obtain ⟨htree, hfds, hino⟩ := serve_still (w := w) (q := q) (by simp [hc]) (by simp [hc]) (by simp [hc])
    refine ⟨?_, h.sound.data htree hfds hino fun i => ?_⟩
    · rw [next_live_still (by simp [hc]) (by simp [hc]), Kernel.Steps, answerTo, hwell, hop,
        Kernel.view_setContent (.inl ho) hfit htree hfds hino hdata, toNat_position hM hpos,
        ← Kernel.content_obj (.inl ho) hfit]
      exact .cut hholds (by rw [ho]; rfl)
    · rw [hdata]
      refine short_update h.sound.short ?_ i
      have hlt := toSigned_lt hM (leAt q.payload 0 8)
      rw [length_padTake]
      omega

theorem Viewed.close (h : Viewed cfg dev R H w) (hc : q.cmd = some .fileClose) (hx : q.handle = some x)
    (hlive : x ∈ H.live) : Stepped cfg dev H w q (serve w q).2 := by
  have hop : q.op cfg = .close x := by simp [Request.op, hc, hx]
  obtain ⟨w₁, e, out, m, k, hcheck, ha, heff⟩ := serve_effect (Prod.mk.eta (p := serve w q)).symm
  obtain ⟨p, hp⟩ := hcheck.synced.kern
  have hp : w₁.kern = w.kern.settle p := hp
  have hsound : w₁.kern.Sound dev := by
    rw [hp]
    exact h.sound.settle p
  -- the descriptor is released or not, and nothing else changes
  obtain ⟨hk, htree, hfds, hdata, hino⟩ : k.Sound dev ∧ k.tree = w₁.kern.tree ∧ (∀ y, y ≠ x → k.fds y = w₁.kern.fds y) ∧
      k.data = w₁.kern.data ∧ k.nextIno = w₁.kern.nextIno := by
    cases heff with
    | quiet => exact ⟨hsound, rfl, fun _ _ => rfl, rfl, rfl⟩
    | write _ hclose => exact absurd hc hclose
    | closeFailed => exact ⟨hsound, rfl, fun _ _ => rfl, rfl, rfl⟩
    | @closed y _ d _ hy _ =>
      obtain rfl : x = y := Option.some.inj (hx.symm.trans hy)
      rw [(h.handle hlive).1, Int.toNat_natCast]
      refine ⟨(hsound.settle d.syncs).release x, rfl, fun z hz => ?_, rfl, rfl⟩
      exact Function.update_of_ne hz ..
    | deleteFailed hcmd => simp [hc] at hcmd
    | deleted hcmd => simp [hc] at hcmd
    | openFailed hcmd => simp [hc] at hcmd
    | opened hcmd => simp [hc] at hcmd
  rw [hp] at htree hfds hdata hino
  refine ⟨?_, by rw [ha.kern]; exact hk⟩
  rw [next_live_close hc hx, hop, Kernel.Steps, ha.kern, Kernel.view_drop htree hfds hdata hino, ha.answerTo]
  refine .closed ?_
  split
  · exact .inr rfl
  · exact .inl rfl

theorem Viewed.delete (h : Viewed cfg dev R H w) (hc : q.cmd = some .fileDelete) :
    Stepped cfg dev H w q (serve w q).2 := by
  have hop : q.op cfg = .delete (placeOf (joined cfg.dataRoot q.name)) := by simp [Request.op, hc]
  have hlive : (H.next q w (serve w q).2).live = H.live := next_live_still (by simp [hc]) (by simp [hc])
  have hclose : q.cmd ≠ some .fileClose := by simp [hc]
  rcases serve_handled hc (Prod.mk.eta (p := serve w q)).symm with ⟨_, e, m, p, he, ha⟩ | ⟨w₁, rest, p, hf, hk, hs⟩
  · exact h.refused hclose he ha
  · rcases storageFileDelete_cases hs with ⟨e, he, ha⟩ | ⟨hn, e, k, ha, hres⟩
    · rw [Refused, hk] at ha
      exact h.refused hclose he (hf.answers ha)
    · have hans := hf.answers ha
      rw [hk, hf.roots, cstr_drop hn, h.rooted.ssdirName] at hres
      rcases hres with ⟨he, rfl⟩ | ⟨he, rep, hu⟩
      · exact h.refused hclose he hans
      · refine ⟨?_, ?_⟩
        · rw [hlive, hop, Kernel.Steps, hans.kern, hans.answerTo, if_pos he, ← Kernel.view_settle p]
          exact Kernel.unlink_steps hu
        · rw [hans.kern]
          exact Kernel.unlink_sound hu (h.sound.settle p)

/-- The open that succeeded, and how its flags come from those of the request. -/
theorem openTries_opened {w w₁ : World} {flags : Nat} {path : Bytes} {fd : Nat} {fl : OpenFlags}
    (h : openTries w flags path = (.ok fd, fl, w₁)) :
    (∃ rep, w.kern.openPath rep path fl = (.ok fd, w₁.kern)) ∧ fl.rdwr = true ∧
      fl.trunc = (openHow flags).truncates ∧ (fl.creat = true → (openHow flags).creates = true) ∧
      ((fl.creat && fl.excl) = false → ((openHow flags).creates && (openHow flags).exclusive) = false) := by
  have hone {w w₁ : World} {fl : OpenFlags} {res} (he : w.openPath path fl = (res, w₁)) :
      ∃ rep, w.kern.openPath rep path fl = (res, w₁.kern) := ⟨_, (World.sys_inv he).1⟩
  unfold openTries at h
  dsimp only at h
  split at h
  · next hcreate =>
    split at h
    · next hexcl =>
      obtain ⟨hres, rfl, rfl⟩ := by simpa only [Prod.mk.injEq] using h
      exact ⟨hone (Prod.ext hres rfl), rfl, rfl, fun _ => hcreate, by simp⟩
    · next hexcl =>
      have hexcl : ((openHow flags).creates && (openHow flags).exclusive) = false := by
        simp [openHow, hexcl]
      split at h
      · next e w₂ he =>
        split at h
        · obtain ⟨hres, rfl, rfl⟩ := by simpa only [Prod.mk.injEq] using h
          obtain ⟨rep, hk⟩ := hone (Prod.ext hres rfl)
          rw [show w₂.kern = w.kern from (openPath_spec he).2.2] at hk
          exact ⟨⟨rep, hk⟩, rfl, rfl, fun _ => hcreate, fun _ => hexcl⟩
        · cases h
      · next fd₂ w₂ he =>
        obtain ⟨hres, rfl, rfl⟩ := by simpa only [Prod.mk.injEq] using h
        obtain rfl := Except.ok.inj hres
        exact ⟨hone he, rfl, rfl, fun _ => hcreate, fun _ => hexcl⟩
  · next hcreate =>
    obtain ⟨hres, rfl, rfl⟩ := by simpa only [Prod.mk.injEq] using h
    refine ⟨hone (Prod.ext hres rfl), rfl, rfl, by simp, fun _ => ?_⟩
    simp [openHow, hcreate]

/-- An open that made a folder first sees the same files. -/
theorem Foldered.view {roots : Roots} {flags : Nat} {name : Bytes} {k k' : Kernel}
    (h : Foldered roots flags name k k') (live : List Nat) : k'.view dev live = k.view dev live := by
  rcases h with rfl | ⟨_, p, _, hmade⟩
  · rfl
  · exact hmade.view

theorem Foldered.sound {roots : Roots} {flags : Nat} {name : Bytes} {k k' : Kernel}
    (h : Foldered roots flags name k k') (hs : k.Sound dev) : k'.Sound dev := by
  rcases h with rfl | ⟨_, p, _, hmade⟩
  · exact hs
  · exact hmade.sound hs

/-- An open, with the one call of the kernel that opened the file. -/
theorem storageFileOpen_opened {w w' : World} {msg : Msg} {r : Bytes} {n : Nat} {rc : Int}
    (h : storageFileOpen w msg r n = (rc, w')) :
    (∃ e k, e ≠ .noError ∧ Answers w msg e none w.st.marks k w' ∧
        (k = w.kern ∨ 4 ≤ n ∧ Foldered w.st.roots (leAt r 0 4) (cstr (r.drop 4)) w.kern k)) ∨
      4 ≤ n ∧ ∃ k fl fd k' m w₁ w₂, Foldered w.st.roots (leAt r 0 4) (cstr (r.drop 4)) w.kern k ∧
        openTries w₁ (leAt r 0 4) (openName w.st.roots (leAt r 0 4) (cstr (r.drop 4))) = (.ok fd, fl, w₂) ∧
        w₁.kern = k ∧ w₂.kern = k' ∧ Answers w msg .noError (some (leBytes 4 fd)) m k' w' := by
  unfold storageFileOpen at h
  split at h
  · exact .inl ⟨_, _, by simp, refused h, .inl rfl⟩
  next hn =>
  split at h
  · exact .inl ⟨_, _, by simp, refused h, .inl rfl⟩
  dsimp only at h
  split at h
  · next w₁ ht =>
    obtain ⟨hf, hm, hk, _⟩ := openTarget_spec ht
    exact .inl ⟨_, _, by simp, hf.respond hm rfl h, .inr ⟨by omega, hk⟩⟩
  · next path w₁ ht =>
    obtain ⟨hf, hm, hk, hpath⟩ := openTarget_spec ht
    obtain rfl := hpath path rfl
    split at h
    · next e fl w₂ ho =>
      obtain ⟨hf₂, hst₂, _, hk₂⟩ := openTries_spec ho
      exact .inl ⟨_, _, translateErrno_ne e,
        (hf.trans hf₂).respond ((congrArg Statics.marks hst₂).trans hm) hk₂ h, .inr ⟨by omega, hk⟩⟩
    · next fd fl w₂ ho =>
      obtain ⟨hf₂, hst₂, _, _⟩ := openTries_spec ho
      exact .inr ⟨by omega, _, fl, fd, _, _, w₁, w₂, hk, ho, rfl, rfl,
        ((hf.trans hf₂).setMarks (insertFd w₂.st.marks fl fd).2).respond rfl rfl h⟩

theorem openPath_lt {k k' : Kernel} {rep : Reply} {path : Bytes} {fl : OpenFlags} {n : Nat}
    (h : k.openPath rep path fl = (.ok n, k')) : n < 2 ^ 31 := by
  obtain ⟨p, d, _, ho⟩ := Kernel.openPath_ok h
  exact lt_of_lt_of_le ho.lt k.limit_le

/-- How a file is opened matters only in what it permits. -/
theorem steps_open {k k' : Kernel} {live live' : List Nat} {p : Path} {how how' : OpenHow} {n : Nat}
    (h : k.Steps dev live (.open p how) (.opened n) k' live') (ht : how.truncates = how'.truncates)
    (hc : how.creates = true → how'.creates = true)
    (hx : (how.creates && how.exclusive) = false → (how'.creates && how'.exclusive) = false) :
    k.Steps dev live (.open p how') (.opened n) k' live' := by
  unfold Kernel.Steps at h ⊢
  generalize hs' : k'.view dev live' = s' at h ⊢
  cases h with
  | found hnamed hexcl hholds =>
    rw [ht]
    exact .found hnamed (hx hexcl) hholds
  | new hnamed hcreates hholds hf => exact .new hnamed (hc hcreates) hholds hf

theorem Viewed.openFile (h : Viewed cfg dev R H w) (hc : q.cmd = some .fileOpen) :
    Stepped cfg dev H w q (serve w q).2 := by
  have hop : q.op cfg = .open (placeOf (cfg.pathOf q.openFlags q.name)) (openHow q.openFlags) := by
    simp [Request.op, hc]
  have hclose : q.cmd ≠ some .fileClose := by simp [hc]
  rcases serve_handled hc (Prod.mk.eta (p := serve w q)).symm with ⟨_, e, m, p, he, ha⟩ | ⟨w₁, rest, p, hf, hk, hs⟩
  · exact h.refused hclose he ha
  · rcases storageFileOpen_opened hs with ⟨e, k, he, ha, hfolder⟩ | ⟨hn, k, fl, fd, k', m, w₂, w₃, hfolder, ho, hk₂, hk₃, ha⟩
    · rw [hk] at hfolder
      rcases hfolder with rfl | ⟨_, hfolder⟩
      · exact h.refused hclose he (hf.answers ha)
      · have hview : k.view dev H.live = w.kern.view dev H.live := (hfolder.view _).trans (Kernel.view_settle p)
        exact .failed hclose he hview (hfolder.sound (h.sound.settle p)) (hf.answers ha)
    · have hans := hf.answers ha
      rw [hk] at hfolder
      have hview : k.view dev H.live = w.kern.view dev H.live := (hfolder.view _).trans (Kernel.view_settle p)
      have hsound : k.Sound dev := hfolder.sound (h.sound.settle p)
      have hflags : leAt (q.payload ++ 0 :: rest) 0 4 = q.openFlags := leAt_append (by omega)
      rw [hflags, cstr_drop hn, hf.roots, h.rooted.pathOf] at ho
      obtain ⟨⟨rep, hopen⟩, hrw, htr, hcr, hex⟩ := openTries_opened ho
      rw [hk₂, hk₃] at hopen
      have hlt := openPath_lt hopen
      have hle : le (leBytes 4 fd) = fd := le_leBytes_of_lt (by omega)
      refine ⟨?_, by rw [hans.kern]; exact Kernel.openPath_sound hopen hsound⟩
      rw [next_live_open hans hc hlt, hop, Kernel.Steps, hans.kern, ← hview, hans.answerTo, if_pos rfl]
      simp only [decoded, Option.getD_some, hle]
      exact steps_open (Kernel.openPath_steps hopen hrw hsound) htr hcr hex

theorem handle_cmd (hx : q.handle = some x) : q.cmd = some .fileClose ∨ q.cmd = some .fileRead ∨
    q.cmd = some .fileWrite ∨ q.cmd = some .fileGetSize ∨ q.cmd = some .fileSetSize := by
  unfold Request.handle at hx
  split at hx
  · next hc => exact .inl hc
  · next hc => simp [hc]
  · next hc => simp [hc]
  · next hc => simp [hc]
  · next hc => simp [hc]
  · cases hx

/-- Any other request, and one that names no handle, leaves the store alone. -/
theorem Viewed.other (h : Viewed cfg dev R H w) (hop : q.op cfg = .other) : Stepped cfg dev H w q (serve w q).2 := by
  obtain ⟨w₁, e, out, m, k, hcheck, ha, heff⟩ := serve_effect (Prod.mk.eta (p := serve w q)).symm
  obtain ⟨p, hp⟩ := hcheck.synced.kern
  have hp : w₁.kern = w.kern.settle p := hp
  have hopen : q.cmd ≠ some .fileOpen := fun hc => by simp [Request.op, hc] at hop
  have hdelete : q.cmd ≠ some .fileDelete := fun hc => by simp [Request.op, hc] at hop
  have hclose (hc : q.cmd = some .fileClose) : q.handle = none := by
    cases hx : q.handle with
    | none => rfl
    | some x => simp [Request.op, hc, hx] at hop
  have hlive : (H.next q w (serve w q).2).live = H.live := by
    simp only [Hist.next]
    split
    · next hc hx => rw [hclose hc] at hx; cases hx
    · next hc => exact absurd hc hopen
    · rfl
  cases heff with
  | quiet =>
    refine ⟨?_, ?_⟩
    · rw [hlive, hop, Kernel.Steps, ha.kern, hp, Kernel.view_settle]
      exact .idle
    · rw [ha.kern, hp]
      exact h.sound.settle p
  | @write x _ _ _ hcmd hx =>
    rcases handle_cmd hx with hc | hc | hc | hc | hc <;> simp [Request.op, hc, hx] at hop
  | closeFailed hc hx => rw [hclose hc] at hx; cases hx
  | closed hc hx => rw [hclose hc] at hx; cases hx
  | deleteFailed hc => exact absurd hc hdelete
  | deleted hc => exact absurd hc hdelete
  | openFailed hc => exact absurd hc hopen
  | opened hc => exact absurd hc hopen

theorem Viewed.stepped (h : Viewed cfg dev R H w) (h64 : cfg.abi.offBits = 64) (hq : UsesLive H q) :
    Stepped cfg dev H w q (serve w q).2 := by
  cases hx : q.handle with
  | some x =>
    have hlive := hq x hx
    rcases handle_cmd hx with hc | hc | hc | hc | hc
    · exact h.close hc hx hlive
    · exact h.read h64 hc hx hlive
    · exact h.write h64 hc hx hlive
    · exact h.getSize hc hx hlive
    · exact h.setSize h64 hc hx hlive
  | none =>
    by_cases hopen : q.cmd = some .fileOpen
    · exact h.openFile hopen
    by_cases hdelete : q.cmd = some .fileDelete
    · exact h.delete hdelete
    refine h.other ?_
    unfold Request.op
    split
    · next hc => exact absurd hc hopen
    · next hc => exact absurd hc hdelete
    all_goals first | rfl | (next hx' => rw [hx] at hx'; cases hx')

/-- A request of a client that uses only handles it holds keeps the invariant. -/
theorem Viewed.step (h : Viewed cfg dev R H w) (h64 : cfg.abi.offBits = 64) (hq : UsesLive H q) :
    Viewed cfg dev R (H.next q w (serve w q).2) (serve w q).2 := by
  obtain ⟨w₁, e, out, m, k, hc, ha, heff⟩ := serve_effect (Prod.mk.eta (p := serve w q)).symm
  have hheld : Held R H.live w₁.st.marks w₁.kern := Held.synced (w := receive w q) h.held hc.synced
  refine ⟨ha.roots ▸ h.rooted, ?_, (h.stepped h64 hq).sound, (serve_abi w q).trans h.abi⟩
  rw [ha.marks, ha.kern]
  exact hheld.effect hq heff ha

end Commands

end Storage
