/-
Runs of the proxy, as runs of the store.

Whatever the environment makes of the single calls, the requests and answers
of a run are those of a store of files. So what a client wrote is what it
reads, through the same handle or another, until something goes over it; and a
place leads to the same file until it is deleted.
-/
import Microtrust.Lib.Reach
import Microtrust.Storage.AsStore

namespace Storage

open Lib

/-! ## The start -/

/-- The inodes are in order while `main` opens what it needs. -/
structure Opening (dev : Nat → Bool) (abi : Abi) (w : World) : Prop where
  sound : w.kern.Sound dev
  abi : w.abi = abi

section Start

variable {dev : Nat → Bool} {abi : Abi} {w w₁ : World}

theorem Opening.openPath {path : Bytes} {fl : OpenFlags} {res} (h : Opening dev abi w)
    (ho : w.openPath path fl = (res, w₁)) : Opening dev abi w₁ := by
  obtain ⟨hk, _, hf⟩ := World.sys_inv ho
  refine ⟨?_, hf.abi.trans h.abi⟩
  cases res with
  | error e =>
    rw [Kernel.openPath_error hk]
    exact h.sound
  | ok n => exact Kernel.openPath_sound hk h.sound

theorem Opening.initRoot {path : Bytes} {note : Nat → Roots → Roots} (h : Opening dev abi w)
    (hi : initRoot w path note = some w₁) : Opening dev abi w₁ := by
  unfold Storage.initRoot at hi
  split at hi
  · cases hi
  · next ho =>
    obtain rfl := Option.some.inj hi
    exact ⟨(h.openPath ho).sound, (h.openPath ho).abi⟩

theorem Opening.rpmbOpen {path : Bytes} (h : Opening dev abi w) (hr : rpmbOpen w path = some w₁) : Opening dev abi w₁ := by
  unfold Storage.rpmbOpen at hr
  split at hr
  · cases hr
  · next ho =>
    obtain rfl := Option.some.inj hr
    exact ⟨(h.openPath ho).sound, (h.openPath ho).abi⟩

theorem Opening.given {opt : Option Bytes} {step : World → Bytes → Option World} (h : Opening dev abi w)
    (hstep : ∀ w w₁ arg, Opening dev abi w → step w arg = some w₁ → Opening dev abi w₁)
    (hg : given opt step w = some w₁) : Opening dev abi w₁ := by
  cases opt with
  | none =>
    obtain rfl := Option.some.inj hg
    exact h
  | some arg => exact hstep w w₁ arg h hg

theorem Opening.close (h : Opening dev abi w) (fd : Int) : Opening dev abi (w.close fd).2 := by
  refine ⟨?_, h.abi⟩
  cases hd : w.kern.desc fd with
  | none =>
    simp only [World.close, World.sys, Kernel.close, hd]
    exact h.sound
  | some d =>
    have hk : (w.close fd).2.kern = w.kern.release fd.toNat := Kernel.close_kern hd rfl
    rw [hk]
    exact h.sound.release _

theorem Opening.ipcConnect {tries : Nat} {path : Bytes} (h : Opening dev abi w)
    (hc : ipcConnect tries w path = some w₁) : Opening dev abi w₁ := by
  induction tries generalizing w with
  | zero => cases hc
  | succ tries ih =>
    unfold Storage.ipcConnect at hc
    split at hc
    · next ho => exact ih (h.openPath ho) hc
    · next fd w₂ ho =>
      have h₂ := h.openPath ho
      dsimp only at hc
      split at hc
      · obtain rfl := Option.some.inj hc
        exact ⟨h₂.sound, h₂.abi⟩
      · exact ih (Opening.close (w := (w₂.touch (.ioctl fd) fd).2) ⟨h₂.sound, h₂.abi⟩ fd) hc

theorem start_opening {cfg : Config} {env : Nat → Syscall → Reply} {mmcRead : Nat → Bytes} {k : Kernel}
    (hk : k.Sound dev) (h : start cfg env mmcRead k = some w) : Opening dev cfg.abi w := by
  unfold start at h
  obtain ⟨w₁, h₁, h⟩ := Option.bind_eq_some_iff.mp h
  obtain ⟨w₂, h₂, h⟩ := Option.bind_eq_some_iff.mp h
  obtain ⟨w₃, h₃, h⟩ := Option.bind_eq_some_iff.mp h
  obtain ⟨w₄, h₄, h₅⟩ := Option.bind_eq_some_iff.mp h
  have hfresh : Opening dev cfg.abi (fresh cfg env mmcRead k) := ⟨⟨hk.tree, hk.fds, hk.fresh, hk.short⟩, rfl⟩
  have hinit (w w₁ : World) (dir : Bytes) (hw : Opening dev cfg.abi w) (hi : storageInit w dir = some w₁) :
      Opening dev cfg.abi w₁ := by
    have hmarked : Opening dev cfg.abi (w.setMarks ⟨.clean, .clean, fun _ => .unused⟩) := ⟨hw.sound, hw.abi⟩
    simp only [storageInit] at hi
    exact hmarked.initRoot hi
  have hinit₁ := hfresh.given hinit h₁
  have hinit₂ := hinit₁.given (fun w w₁ dir hw hi => hw.initRoot hi) h₂
  have hinit₃ := hinit₂.given (fun w w₁ dir hw hi => hw.initRoot hi) h₃
  exact (hinit₃.given (fun w w₁ dir hw hi => hw.rpmbOpen hi) h₄).ipcConnect h₅

end Start

/-! ## Runs -/

/-- A proxy and what its clients know. -/
structure Served where
  hist : Hist
  world : World

def Served.next (s : Served) (q : Request) : Served :=
  ⟨s.hist.next q s.world (serve s.world q).2, (serve s.world q).2⟩

/-- The client uses only handles it holds. -/
def Served.allows (s : Served) (q : Request) : Prop := UsesLive s.hist q

/-- The store as the clients see it. -/
def Served.view (dev : Nat → Bool) (s : Served) : FileStore Path Nat Obj := s.world.kern.view dev s.hist.live

def Served.answer (cfg : Config) (s : Served) (q : Request) : FileAnswer Nat :=
  answerTo (q.op cfg) s.world (serve s.world q).2

/-- The operations of a run and their answers. -/
def Served.trace (cfg : Config) : Served → List Request → List (FileOp Path Nat × FileAnswer Nat)
  | _, [] => []
  | s, q :: qs => (q.op cfg, s.answer cfg q) :: (s.next q).trace cfg qs

def Served.begun (w : World) : Served := ⟨⟨[], [], []⟩, w⟩

section Runs

variable {cfg : Config} {dev : Nat → Bool} {env : Nat → Syscall → Reply} {mmcRead : Nat → Bytes} {k : Kernel}
  {w : World} {s : Served} {qs : List Request}

theorem start_viewed (hk : k.Sound dev) (h : start cfg env mmcRead k = some w) :
    ∃ R, Viewed cfg dev R (Served.begun w).hist w := by
  obtain ⟨R, hl, _⟩ := start_launched h
  have hopening := start_opening hk h
  refine ⟨R, hl.rooted, ⟨hl.boot.held, ?_, fun n _ hd => absurd hd (hl.boot.fd n), ?_⟩, hopening.sound, hopening.abi⟩
  · simp [Served.begun]
  · rw [hl.boot.fs]
    simp

theorem reach_viewed (h64 : cfg.abi.offBits = 64) (hk : k.Sound dev) (hs : start cfg env mmcRead k = some w)
    (h : Reach Served.next Served.allows (Served.begun w) s) : ∃ R, Viewed cfg dev R s.hist s.world := by
  obtain ⟨R, hstart⟩ := start_viewed hk hs
  have hstep (s : Served) (q : Request) (hv : Viewed cfg dev R s.hist s.world) (hq : s.allows q) :
      Viewed cfg dev R (s.next q).hist (s.next q).world := hv.step h64 hq
  exact ⟨R, h.invariant (P := fun s => Viewed cfg dev R s.hist s.world) hstart hstep⟩

/-- One request is one step of the store. -/
theorem served_step {R : List (Nat × Desc)} (h64 : cfg.abi.offBits = 64) (h : Viewed cfg dev R s.hist s.world)
    {q : Request} (hq : s.allows q) :
    (s.view dev).Step Obj.keeps Obj.sized (q.op cfg) (s.answer cfg q) ((s.next q).view dev) :=
  (h.stepped h64 hq).steps

theorem served_run {R : List (Nat × Desc)} (h64 : cfg.abi.offBits = 64) (h : Viewed cfg dev R s.hist s.world)
    (hqs : allowedAlong Served.next Served.allows s qs) :
    FileStore.Run Obj.keeps Obj.sized (s.view dev) (s.trace cfg qs) ((qs.foldl Served.next s).view dev) := by
  induction qs generalizing s with
  | nil => exact .nil
  | cons q qs ih => exact .cons (served_step h64 h hqs.1) (ih (h.step h64 hqs.1) hqs.2)

/-- **The requests and answers of every run are those of a store of files.** -/
theorem store_refined (h64 : cfg.abi.offBits = 64) (hk : k.Sound dev) (hs : start cfg env mmcRead k = some w)
    (hqs : allowedAlong Served.next Served.allows (Served.begun w) qs) :
    FileStore.Run Obj.keeps Obj.sized ((Served.begun w).view dev) ((Served.begun w).trace cfg qs)
      ((qs.foldl Served.next (Served.begun w)).view dev) := by
  obtain ⟨R, hstart⟩ := start_viewed hk hs
  exact served_run h64 hstart hqs

end Runs

/-! A client creates `x`, writes two bytes through its handle, closes it, opens
`x` again and reads them. -/

theorem bench_sound : bench.Sound fun _ => false := by
  refine ⟨fun p nd hp => ?_, fun n d hd => ?_, fun _ _ => rfl, fun _ => Nat.two_pow_pos 64⟩
  · simp only [bench] at hp
    split at hp
    · obtain rfl := Option.some.inj hp
      trivial
    · split at hp
      · obtain rfl := Option.some.inj hp
        trivial
      · cases hp
  · simp only [bench] at hd
    split at hd
    · obtain rfl := Option.some.inj hd
      trivial
    · cases hd

def openAgain : Request := request .fileOpen 0 [0, 0, 0, 0, 120] deleteData.fits

/-- Three bytes from offset 0, through handle 5. -/
def readThree : Request :=
  request .fileRead 0 [5, 0, 0, 0, 3, 0, 0, 0, 0, 0, 0, 0, 0, 0, 0, 0] (by decide)

def session : List Request := [createData, writePair, closeHandle 5, openAgain, readThree]

instance (s : Served) (q : Request) : Decidable (s.allows q) :=
  inferInstanceAs (Decidable (∀ h, q.handle = some h → h ∈ s.hist.live))

def created : Served := (Served.begun dataStarted).next createData

theorem created_reached : Reach Served.next Served.allows (Served.begun dataStarted) created :=
  .step createData .start (by decide)

theorem session_refined :
    (Served.begun dataStarted).trace dataOnly session =
        [(.open [[100], [120]] ⟨true, false, false⟩, .opened 5), (.write 5 1 [7, 8], .done), (.close 5, .done),
          (.open [[100], [120]] ⟨false, false, false⟩, .opened 5), (.read 5 0 3, .bytes [0, 7, 8])] ∧
      FileStore.Run Obj.keeps Obj.sized ((Served.begun dataStarted).view fun _ => false)
        ((Served.begun dataStarted).trace dataOnly session)
        ((session.foldl Served.next (Served.begun dataStarted)).view fun _ => false) :=
  ⟨by decide +kernel, store_refined rfl bench_sound (Option.some_get _).symm (by decide)⟩

/-! ## What stays -/

section Kept

variable {cfg : Config} {dev : Nat → Bool} {env : Nat → Syscall → Reply} {mmcRead : Nat → Bytes} {k : Kernel}
  {w : World} {s : Served} {qs : List Request}

/-- What a client holds a handle on was made. -/
theorem held_made {R : List (Nat × Desc)} (h : Viewed cfg dev R s.hist s.world) {x : Nat} {f : Obj}
    (hf : (s.view dev).holds x = some f) : f ∈ (s.view dev).made := by
  simp only [Served.view, Kernel.view] at hf
  split at hf
  · obtain ⟨d, hd, rfl⟩ := Option.map_eq_some_iff.mp hf
    exact h.sound.fds x d hd
  · cases hf

/-- Requests that spare a byte, one after another. -/
theorem byte_kept {R : List (Nat × Desc)} {f : Obj} {i : Nat} {b : UInt8} (h64 : cfg.abi.offBits = 64)
    (h : Viewed cfg dev R s.hist s.world) (hb : (s.view dev).Has f i b)
    (hqs : allowedAlong Served.next (fun s q => s.allows q ∧ (s.view dev).spares f i (q.op cfg)) s qs) :
    Viewed cfg dev R (qs.foldl Served.next s).hist (qs.foldl Served.next s).world ∧
      ((qs.foldl Served.next s).view dev).Has f i b := by
  induction qs generalizing s with
  | nil => exact ⟨h, hb⟩
  | cons q qs ih =>
    obtain ⟨⟨hq, hspares⟩, hqs⟩ := hqs
    exact ih (h.step h64 hq) ((served_step h64 h hq).kept hb hspares) hqs

/-- **What was written is read back.** After a write that was answered well,
and any requests that leave the bytes it wrote alone, a read through a handle
on the same file that is answered well returns them. The file keeps what is
written: it is a regular file or a block device. -/
theorem written_read_back (h64 : cfg.abi.offBits = 64) (hk : k.Sound dev) (hs : start cfg env mmcRead k = some w)
    (hrun : Reach Served.next Served.allows (Served.begun w) s) {q q' : Request} {x y off off' size : Nat}
    {bs out : Bytes} {f : Obj} (hq : s.allows q) (hop : q.op cfg = .write x off bs)
    (hdone : s.answer cfg q = .done) (hf : (s.view dev).holds x = some f) (hkeeps : f.keeps = true)
    (hqs : ∀ i, off ≤ i → i < off + bs.length →
      allowedAlong Served.next (fun s q => s.allows q ∧ (s.view dev).spares f i (q.op cfg)) (s.next q) qs)
    (hq' : (qs.foldl Served.next (s.next q)).allows q') (hop' : q'.op cfg = .read y off' size)
    (hf' : ((qs.foldl Served.next (s.next q)).view dev).holds y = some f)
    (hread : (qs.foldl Served.next (s.next q)).answer cfg q' = .bytes out) :
    ∀ i, off ≤ i → i < off + bs.length → off' ≤ i → i < off' + size → out[i - off']? = bs[i - off]? := by
  intro i h₁ h₂ h₁' h₂'
  obtain ⟨R, hviewed⟩ := reach_viewed h64 hk hs hrun
  have hwrite := served_step h64 hviewed hq
  rw [hop, hdone] at hwrite
  obtain ⟨b, hb⟩ : ∃ b, bs[i - off]? = some b := ⟨_, List.getElem?_eq_getElem (by omega)⟩
  have hstored := hwrite.stored hf hkeeps (held_made hviewed hf) h₁ h₂ hb
  obtain ⟨hviewed', hkept⟩ := byte_kept h64 (Viewed.step hviewed h64 hq) hstored (hqs i h₁ h₂)
  have hreading := served_step h64 hviewed' hq'
  rw [hop', hread] at hreading
  rw [hb]
  exact hreading.returned hf' hkeeps hkept h₁' h₂'

/-- The two bytes are read through a handle got by opening `x` again. -/
theorem session_read_back :
    created.answer dataOnly writePair = .done ∧
      ([closeHandle 5, openAgain].foldl Served.next (created.next writePair)).answer dataOnly readThree =
        .bytes [0, 7, 8] ∧
      ∀ i, 1 ≤ i → i < 1 + [7, 8].length → 0 ≤ i → i < 0 + 3 → ([0, 7, 8] : Bytes)[i - 0]? = ([7, 8] : Bytes)[i - 1]? := by
  have hclose : (closeHandle 5).op dataOnly = .close 5 := by decide
  have hopen : openAgain.op dataOnly = .open [[100], [120]] ⟨false, false, false⟩ := by decide
  have hwrite : writePair.op dataOnly = .write 5 1 [7, 8] := by decide
  have hreads : readThree.op dataOnly = .read 5 0 3 := by decide
  have hdone : created.answer dataOnly writePair = .done := by decide +kernel
  have hread : ([closeHandle 5, openAgain].foldl Served.next (created.next writePair)).answer dataOnly readThree =
      .bytes [0, 7, 8] := by decide +kernel
  have hspared (i : Nat) : allowedAlong Served.next
      (fun s q => s.allows q ∧ (s.view fun _ => false).spares (.file 0) i (q.op dataOnly)) (created.next writePair)
      [closeHandle 5, openAgain] := by
    refine ⟨⟨by decide, ?_⟩, ⟨by decide, ?_⟩, trivial⟩
    · rw [hclose]
      trivial
    · rw [hopen]
      exact fun _ => rfl
  exact ⟨hdone, hread, written_read_back rfl bench_sound (Option.some_get _).symm created_reached (by decide) hwrite
    hdone (by decide) rfl (fun i _ _ => hspared i) (by decide) hreads (by decide) hread⟩

/-- The place leads to its file as long as it is not deleted. -/
theorem place_kept {R : List (Nat × Desc)} {p : Path} {f : Obj} (h64 : cfg.abi.offBits = 64)
    (h : Viewed cfg dev R s.hist s.world) (hp : (s.view dev).named p = some f)
    (hqs : allowedAlong Served.next (fun s q => s.allows q ∧ q.op cfg ≠ .delete p) s qs) :
    Viewed cfg dev R (qs.foldl Served.next s).hist (qs.foldl Served.next s).world ∧
      ((qs.foldl Served.next s).view dev).named p = some f := by
  induction qs generalizing s with
  | nil => exact ⟨h, hp⟩
  | cons q qs ih =>
    obtain ⟨⟨hq, hdelete⟩, hqs⟩ := hqs
    exact ih (h.step h64 hq) ((served_step h64 h hq).named hp hdelete) hqs

/-- **A file is found again under its name.** As long as nothing deletes a
place, every open of it that is answered well is on the file that was there,
and none was to make a new one. -/
theorem file_found_again (h64 : cfg.abi.offBits = 64) (hk : k.Sound dev) (hs : start cfg env mmcRead k = some w)
    (hrun : Reach Served.next Served.allows (Served.begun w) s) {p : Path} {f : Obj}
    (hp : (s.view dev).named p = some f)
    (hqs : allowedAlong Served.next (fun s q => s.allows q ∧ q.op cfg ≠ .delete p) s qs) {q : Request} {how : OpenHow}
    {x : Nat} (hq : (qs.foldl Served.next s).allows q) (hop : q.op cfg = .open p how)
    (hopened : (qs.foldl Served.next s).answer cfg q = .opened x) :
    (((qs.foldl Served.next s).next q).view dev).holds x = some f ∧ (how.creates && how.exclusive) = false := by
  obtain ⟨R, hviewed⟩ := reach_viewed h64 hk hs hrun
  obtain ⟨hviewed', hp'⟩ := place_kept h64 hviewed hp hqs
  have hopening := served_step h64 hviewed' hq
  rw [hop, hopened] at hopening
  exact hopening.opened hp'

/-- The second open of `x` is on the file the first one made. -/
theorem session_found_again :
    (([writePair, closeHandle 5].foldl Served.next created).answer dataOnly openAgain = .opened 5) ∧
      ((([writePair, closeHandle 5].foldl Served.next created).next openAgain).view fun _ => false).holds 5 =
        some (.file 0) := by
  have hopens : openAgain.op dataOnly = .open [[100], [120]] ⟨false, false, false⟩ := by decide
  have hopened : ([writePair, closeHandle 5].foldl Served.next created).answer dataOnly openAgain = .opened 5 := by
    decide +kernel
  have hkept : allowedAlong Served.next (fun s q => s.allows q ∧ q.op dataOnly ≠ .delete [[100], [120]]) created
      [writePair, closeHandle 5] := by decide
  exact ⟨hopened, (file_found_again rfl bench_sound (Option.some_get _).symm created_reached (by decide) hkept
    (by decide) hopens hopened).1⟩

end Kept

end Storage
