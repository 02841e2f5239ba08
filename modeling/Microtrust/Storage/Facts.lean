/-
What each command of the proxy can do: the marks it leaves, the kernel it
leaves, and the one response it sends. Every later property of the proxy is
read off these, not off the handlers.
-/
import Microtrust.Lib.KernelFacts
import Microtrust.Storage.Proxy

namespace Storage

open Lib

/-! ## Frames -/

/-- `w₁` comes after `w` in the handling of one request: nothing was sent. -/
structure Frame (w w₁ : World) : Prop where
  sent : w₁.sent = w.sent
  roots : w₁.st.roots = w.st.roots
  env : w₁.env = w.env
  abi : w₁.abi = w.abi

theorem Frame.refl (w : World) : Frame w w := ⟨rfl, rfl, rfl, rfl⟩

theorem Frame.trans {w w₁ w₂ : World} (h : Frame w w₁) (h' : Frame w₁ w₂) : Frame w w₂ :=
  ⟨h'.sent.trans h.sent, h'.roots.trans h.roots, h'.env.trans h.env, h'.abi.trans h.abi⟩

theorem Frame.setMarks {w w₁ : World} (h : Frame w w₁) (m : Marks) : Frame w (w₁.setMarks m) :=
  ⟨h.sent, h.roots, h.env, h.abi⟩

/-- A system call touches the kernel only. -/
theorem World.sys_inv {α} {w w₁ : World} {c : Syscall} {f : Reply → Kernel → α × Kernel} {a : α}
    (h : w.sys c f = (a, w₁)) : f (w.env w.now c) w.kern = (a, w₁.kern) ∧ w₁.st = w.st ∧ Frame w w₁ := by
  obtain ⟨rfl, rfl⟩ := Prod.mk.inj h
  exact ⟨rfl, rfl, rfl, rfl, rfl, rfl⟩

/-- A handler ended by answering `msg` with `e` and `out`, leaving the marks
`m` and the kernel `k`. -/
structure Answers (w : World) (msg : Msg) (e : Err) (out : Option Bytes) (m : Marks) (k : Kernel)
    (w' : World) : Prop where
  sent : ∃ rc, w'.sent = w.sent ++ [⟨{ msg.answer e with cmd := msg.cmd ||| respBit }, out, rc⟩]
  marks : w'.st.marks = m
  kern : w'.kern = k
  roots : w'.st.roots = w.st.roots
  env : w'.env = w.env

theorem Frame.respond {w w₁ w' : World} (h : Frame w w₁) {msg : Msg} {e : Err} {out : Option Bytes}
    {m : Marks} {k : Kernel} {rc : Int} (hm : w₁.st.marks = m) (hk : w₁.kern = k)
    (hr : ipcRespond w₁ (msg.answer e) out = (rc, w')) : Answers w msg e out m k w' := by
  obtain ⟨hrc, hw⟩ := Prod.mk.inj hr
  subst hw
  refine ⟨⟨rc, ?_⟩, hm, hk, h.roots, h.env⟩
  rw [← h.sent, ← hrc]
  rfl

theorem Frame.answers {w w₁ w' : World} (h : Frame w w₁) {msg e out m k} (ha : Answers w₁ msg e out m k w') :
    Answers w msg e out m k w' := by
  obtain ⟨⟨rc, hs⟩, hm, hk, hr, he⟩ := ha
  exact ⟨⟨rc, by rw [hs, h.sent]⟩, hm, hk, hr.trans h.roots, he.trans h.env⟩

theorem translateErrno_ne (e : Errno) : translateErrno e ≠ .noError := by
  unfold translateErrno
  repeat' split
  all_goals simp

/-- A request refused without touching anything. -/
abbrev Refused (w : World) (msg : Msg) (e : Err) (w' : World) : Prop :=
  Answers w msg e none w.st.marks w.kern w'

theorem refused {w w' : World} {msg : Msg} {e : Err} {rc : Int}
    (h : ipcRespond w (msg.answer e) none = (rc, w')) : Refused w msg e w' :=
  (Frame.refl w).respond rfl rfl h

/-! ## The switch -/

theorem respond_le (w : World) (msg : Msg) (out : Option Bytes) : (ipcRespond w msg out).1 ≤ 0 := by
  simp only [ipcRespond]
  split <;> decide

/-- Every handler ends by responding, so it returns no positive number. -/
theorem handler_le (c : Cmd) (w : World) (msg : Msg) (r : Bytes) (n : Nat) : (handler c w msg r n).1 ≤ 0 := by
  cases c
  all_goals
    simp only [handler, storageFileDelete, storageFileOpen, storageFileClose, storageFileRead, storageFileWrite,
      storageFileGetSize, storageFileSetSize, rpmbSend, storageInitOk, storageInitProinfoOk,
      storageInitPersistOk, storageInitDone]
    repeat' split
    all_goals exact respond_le _ _ _

/-- A command the switch lists is answered by its handler alone. -/
theorem dispatch_some {c : Cmd} {msg : Msg} (hc : Cmd.ofCode msg.cmd = some c) (w : World) (r : Bytes) (n : Nat) :
    dispatch w msg r n = handler c w msg r n := by
  have hle := handler_le c w msg r n
  simp only [dispatch, hc]
  rw [if_neg (by omega)]

/-- Any other is answered by `handle_req`. -/
theorem dispatch_none {msg : Msg} (hc : Cmd.ofCode msg.cmd = none) (w : World) (r : Bytes) (n : Nat) :
    dispatch w msg r n = ipcRespond w (msg.answer .unimplemented) none := by
  simp only [dispatch, hc]
  rfl

/-! ## Transfers -/

/-- Any number of writes to `fd`. -/
def Writes (fd : Int) : Kernel → Kernel → Prop := Relation.ReflTransGen fun k k' => k.Wrote fd k'

theorem writeLoop_spec {n : Nat} {w w' : World} {fd : Int} {buf : Bytes} {off : Int} {res}
    (h : writeLoop n w fd buf off = (res, w')) :
    Frame w w' ∧ w'.st.marks = w.st.marks ∧ Writes fd w.kern w'.kern := by
  induction n generalizing w buf off with
  | zero =>
    obtain ⟨rfl, rfl⟩ := Prod.mk.inj h
    exact ⟨Frame.refl w, rfl, .refl⟩
  | succ n ih =>
    unfold writeLoop at h
    split at h
    · obtain ⟨rfl, rfl⟩ := Prod.mk.inj h
      exact ⟨Frame.refl w, rfl, .refl⟩
    have hstep {res₁ w₁} (he : w.pwrite fd buf off = (res₁, w₁)) :
        Frame w w₁ ∧ w₁.st.marks = w.st.marks ∧ Writes fd w.kern w₁.kern := by
      obtain ⟨hk, hst, hf⟩ := World.sys_inv he
      refine ⟨hf, by rw [hst], ?_⟩
      rcases Kernel.pwrite_cases hk with hs | hw
      · exact hs ▸ .refl
      · exact .single hw
    split at h
    · next e w₁ he =>
      obtain ⟨rfl, rfl⟩ := Prod.mk.inj h
      exact hstep he
    · next m w₁ he =>
      obtain ⟨hf, hm, hw⟩ := hstep he
      obtain ⟨hf', hm', hw'⟩ := ih h
      exact ⟨hf.trans hf', hm'.trans hm, hw.trans hw'⟩

theorem readLoop_spec {n : Nat} {w w' : World} {fd : Int} {size rcnt : Nat} {off : Int} {res}
    (h : readLoop n w fd size off rcnt = (res, w')) :
    Frame w w' ∧ w'.st.marks = w.st.marks ∧ w'.kern = w.kern := by
  induction n generalizing w size off rcnt with
  | zero =>
    obtain ⟨rfl, rfl⟩ := Prod.mk.inj h
    exact ⟨Frame.refl w, rfl, rfl⟩
  | succ n ih =>
    unfold readLoop at h
    split at h
    · obtain ⟨rfl, rfl⟩ := Prod.mk.inj h
      exact ⟨Frame.refl w, rfl, rfl⟩
    have hstep {res₁ w₁} (he : w.pread fd size off = (res₁, w₁)) :
        Frame w w₁ ∧ w₁.st.marks = w.st.marks ∧ w₁.kern = w.kern := by
      obtain ⟨hk, hst, hf⟩ := World.sys_inv he
      exact ⟨hf, by rw [hst], (congrArg (·.2) hk).symm⟩
    split at h
    · next e w₁ he =>
      obtain ⟨rfl, rfl⟩ := Prod.mk.inj h
      exact hstep he
    · next w₁ he =>
      obtain ⟨rfl, rfl⟩ := Prod.mk.inj h
      exact hstep he
    · next bs w₁ _ he =>
      obtain ⟨hf, hm, hk⟩ := hstep he
      obtain ⟨hf', hm', hk'⟩ := ih h
      exact ⟨hf.trans ⟨hf'.sent, hf'.roots, hf'.env, hf'.abi⟩, hm'.trans hm, hk'.trans hk⟩

/-! ## The commands on a handle -/

/-- Closing an open descriptor succeeds; every other call may fail. -/
def ClosesSucceed (env : Nat → Syscall → Reply) : Prop := ∀ t fd, ∃ n, env t (.close fd) = .ok n

/-- A close: the mark goes first; then nothing, or the file is synced and
its descriptor released, whatever is answered. -/
theorem storageFileClose_cases {w w' : World} {msg : Msg} {r : Bytes} {n : Nat} {rc : Int}
    (h : storageFileClose w msg r n = (rc, w')) :
    (n ≠ 4 ∧ Refused w msg .notValid w') ∨
      n = 4 ∧ ∃ e k, Answers w msg e none (removeFd w.st.marks (leAt r 0 4)).2 k w' ∧
        (e ≠ .noError ∧ k = w.kern ∨
          (ClosesSucceed w.env → e = .noError) ∧ ∃ d, w.kern.desc (toInt32 (leAt r 0 4)) = some d ∧
            k = (w.kern.settle d.syncs).release (toInt32 (leAt r 0 4)).toNat) := by
  unfold storageFileClose at h
  split at h
  · next hn => exact .inl ⟨hn, refused h⟩
  next hn =>
    refine .inr ⟨by simpa using hn, ?_⟩
    dsimp only at h
    have hf₀ := (Frame.refl w).setMarks (removeFd w.st.marks (leAt r 0 4)).2
    split at h
    · next e w₁ he =>
      obtain ⟨hk, hst, hf⟩ := World.sys_inv he
      exact ⟨_, _, (hf₀.trans hf).respond (congrArg Statics.marks hst) (Kernel.fsync_error hk) h,
        .inl ⟨translateErrno_ne e, rfl⟩⟩
    · next w₁ he =>
      obtain ⟨hk, hst, hf⟩ := World.sys_inv he
      obtain ⟨d, hd, hk₁⟩ := Kernel.fsync_ok hk
      have hd₁ : w₁.kern.desc (toInt32 (leAt r 0 4)) = some d := by rw [hk₁]; exact hd
      have hdone {res w₂ e} (hc : w₁.close (toInt32 (leAt r 0 4)) = (res, w₂))
          (h : ipcRespond w₂ (msg.answer e) none = (rc, w')) :
          Answers w msg e none (removeFd w.st.marks (leAt r 0 4)).2
            ((w.kern.settle d.syncs).release (toInt32 (leAt r 0 4)).toNat) w' := by
        obtain ⟨hk₂, hst₂, hf₂⟩ := World.sys_inv hc
        refine ((hf₀.trans hf).trans hf₂).respond (congrArg Statics.marks (hst₂.trans hst)) ?_ h
        rw [Kernel.close_kern hd₁ hk₂, hk₁]
        rfl
      split at h
      · next e w₂ hc =>
        refine ⟨_, _, hdone hc h, .inr ⟨fun hcloses => ?_, d, hd, rfl⟩⟩
        obtain ⟨t, ht⟩ := hcloses w₁.now (toInt32 (leAt r 0 4))
        rw [← hf.env.trans hf₀.env] at ht
        obtain ⟨hk₂, _⟩ := World.sys_inv (show w₁.close (toInt32 (leAt r 0 4)) = (.error e, w₂) from hc)
        simp [Kernel.close, hd₁, ht] at hk₂
      · next hc => exact ⟨_, _, hdone hc h, .inr ⟨fun _ => rfl, d, hd, rfl⟩⟩

/-- A write marks its handle and then writes, answered well or not. -/
theorem storageFileWrite_cases {w w' : World} {msg : Msg} {r : Bytes} {n : Nat} {rc : Int}
    (h : storageFileWrite w msg r n = (rc, w')) :
    (n < 16 ∧ Refused w msg .notValid w') ∨
      16 ≤ n ∧ ∃ e k, Answers w msg e none (lookupFd w.st.marks (leAt r 8 4) true).2 k w' ∧
        Writes (toInt32 (leAt r 8 4)) w.kern k := by
  unfold storageFileWrite at h
  split at h
  · next hn => exact .inl ⟨hn, refused h⟩
  next hn =>
    refine .inr ⟨by omega, ?_⟩
    dsimp only at h
    have hf₀ := (Frame.refl w).setMarks (lookupFd w.st.marks (leAt r 8 4) true).2
    split at h
    all_goals
      next hw =>
      obtain ⟨hf, hm, hk⟩ := writeLoop_spec hw
      exact ⟨_, _, (hf₀.trans hf).respond hm rfl h, hk⟩

/-- A read changes neither the marks nor the kernel. -/
theorem storageFileRead_cases {w w' : World} {msg : Msg} {r : Bytes} {n : Nat} {rc : Int}
    (h : storageFileRead w msg r n = (rc, w')) :
    ∃ e out, (out ≠ none → e = .noError) ∧ Answers w msg e out w.st.marks w.kern w' := by
  unfold storageFileRead at h
  split at h
  · exact ⟨_, _, by simp, refused h⟩
  split at h
  · exact ⟨_, _, by simp, refused h⟩
  dsimp only at h
  have hf₀ := (Frame.refl w).setMarks (lookupFd w.st.marks (leAt r 0 4) false).2
  split at h
  all_goals
    next hr =>
    obtain ⟨hf, hm, hk⟩ := readLoop_spec hr
    exact ⟨_, _, by simp, (hf₀.trans hf).respond hm hk h⟩

theorem storageFileGetSize_cases {w w' : World} {msg : Msg} {r : Bytes} {n : Nat} {rc : Int}
    (h : storageFileGetSize w msg r n = (rc, w')) :
    ∃ e out, (out ≠ none → e = .noError) ∧ Answers w msg e out w.st.marks w.kern w' := by
  unfold storageFileGetSize at h
  split at h
  · exact ⟨_, _, by simp, refused h⟩
  dsimp only at h
  have hf₀ := (Frame.refl w).setMarks (lookupFd w.st.marks (leAt r 0 4) false).2
  split at h
  all_goals
    next hs =>
    obtain ⟨hk, hst, hf⟩ := World.sys_inv hs
    refine ⟨_, _, by simp, (hf₀.trans hf).respond (congrArg Statics.marks hst) ?_ h⟩
    exact (congrArg Prod.snd hk).symm

theorem storageFileSetSize_cases {w w' : World} {msg : Msg} {r : Bytes} {n : Nat} {rc : Int}
    (h : storageFileSetSize w msg r n = (rc, w')) :
    (n ≠ 16 ∧ Refused w msg .notValid w') ∨
      n = 16 ∧ ∃ e k, Answers w msg e none (lookupFd w.st.marks (leAt r 8 4) true).2 k w' ∧
        Writes (toInt32 (leAt r 8 4)) w.kern k := by
  unfold storageFileSetSize at h
  split at h
  · next hn => exact .inl ⟨hn, refused h⟩
  next hn =>
    refine .inr ⟨by simpa using hn, ?_⟩
    dsimp only at h
    have hf₀ := (Frame.refl w).setMarks (lookupFd w.st.marks (leAt r 8 4) true).2
    split at h
    all_goals
      next w₁ ht =>
      obtain ⟨hk, hst, hf⟩ := World.sys_inv ht
      refine ⟨_, _, (hf₀.trans hf).respond (congrArg Statics.marks hst) rfl h, ?_⟩
      rcases Kernel.ftruncate_cases hk with hs | hw
      · rw [hs]
        exact .refl
      · exact .single hw

/-! ## Delete and open -/

theorem asprintf_spec {w w₁ : World} {s : Bytes} {res : Option Bytes} (h : asprintf w s = (res, w₁)) :
    Frame w w₁ ∧ w₁.st.marks = w.st.marks ∧ w₁.kern = w.kern ∧ ∀ s', res = some s' → s' = s := by
  obtain ⟨hres, rfl⟩ := Prod.mk.inj h
  refine ⟨⟨rfl, rfl, rfl, rfl⟩, rfl, rfl, fun s' hs => ?_⟩
  rw [← hres] at hs
  split at hs
  · exact (Option.some.inj hs).symm
  · cases hs

theorem asprintf_ok {w : World} (h : ∀ t size, ∃ n, w.env t (.alloc size) = .ok n) (s : Bytes) :
    asprintf w s = (some s, { w with now := w.now + 1 }) := by
  obtain ⟨n, hn⟩ := h w.now (s.length + 1)
  simp only [asprintf, World.alloc, World.sys, hn, Except.toBool, ite_true]

/-- A delete marks the directories and then unlinks in the data root. -/
theorem storageFileDelete_cases {w w' : World} {msg : Msg} {r : Bytes} {n : Nat} {rc : Int}
    (h : storageFileDelete w msg r n = (rc, w')) :
    (∃ e, e ≠ .noError ∧ Refused w msg e w') ∨
      4 ≤ n ∧ ∃ e k, Answers w msg e none { w.st.marks with dirState := .dirty } k w' ∧
        (e ≠ .noError ∧ k = w.kern ∨ e = .noError ∧
          ∃ rep, w.kern.unlink rep (joined w.st.roots.ssdirName (cstr (r.drop 4))) = (.ok (), k)) := by
  unfold storageFileDelete at h
  split at h
  · exact .inl ⟨_, by simp, refused h⟩
  next hn =>
  split at h
  · exact .inl ⟨_, by simp, refused h⟩
  split at h
  · next w₁ ha =>
    obtain ⟨hf, hm, hk, _⟩ := asprintf_spec ha
    exact .inl ⟨_, by simp, hf.respond hm hk h⟩
  · next path w₁ ha =>
    obtain ⟨hf, hm, hk, hpath⟩ := asprintf_spec ha
    have hp := hpath path rfl
    subst hp
    refine .inr ⟨by omega, ?_⟩
    dsimp only at h
    have hf₁ := hf.setMarks { w₁.st.marks with dirState := .dirty }
    split at h
    · next e w₂ hu =>
      obtain ⟨hk₂, hst, hf₂⟩ := World.sys_inv hu
      refine ⟨_, w.kern, (hf₁.trans hf₂).respond ?_ ?_ h, .inl ⟨translateErrno_ne e, rfl⟩⟩
      · rw [hst, ← hm]; rfl
      · exact (Kernel.unlink_error hk₂).trans hk
    · next w₂ hu =>
      obtain ⟨hk₂, hst, hf₂⟩ := World.sys_inv hu
      refine ⟨_, w₂.kern, (hf₁.trans hf₂).respond ?_ rfl h, .inr ⟨rfl, _, hk ▸ hk₂⟩⟩
      rw [hst, ← hm]; rfl

/-- The path an open request names. -/
def openName (roots : Roots) (flags : Nat) (name : Bytes) : Bytes :=
  if flags.testBit openPersistentFile then joined roots.ssPersistentDirName name
  else if flags.testBit openProinfoFile then roots.ssProinfoName
  else joined roots.ssdirName name

/-- What preparing a folder can do: nothing, or make one directory for a
name that has a slash. -/
def Prepared (name : Bytes) (k k' : Kernel) : Prop := k' = k ∨ 47 ∈ name ∧ ∃ p, k.MadeDir p k'

/-- The folder of a name: everything before its last `/`. -/
def folder (root : Option Bytes) (name : Bytes) : Bytes := joined root (name.take (lastSlash name).toNat)

/-- The place where `mkdir` would make a folder. -/
def FolderAt (k : Kernel) (root : Option Bytes) (name : Bytes) (p : Path) : Prop :=
  0 < lastSlash name ∧ k.locate ((folder root name).rdropWhile (· == 47)) = .ok p

/-- What the folder of an open has become: it is made for a VFS file of the
data root. -/
def Foldered (roots : Roots) (flags : Nat) (name : Bytes) (k k' : Kernel) : Prop :=
  k' = k ∨ (flags.testBit openVfs = true ∧ flags.testBit openPersistentFile = false ∧
    flags.testBit openProinfoFile = false) ∧ ∃ p, FolderAt k roots.ssdirName name p ∧ k.MadeDir p k'

theorem mem_of_lastSlash_pos {path : Bytes} (h : 0 < lastSlash path) : 47 ∈ path := by
  by_contra hmem
  have hstay (l : List (UInt8 × Nat)) (hl : ∀ x ∈ l, x.1 ≠ 47) (last : Int) :
      l.foldl (fun last x => if x.1 = 47 then (x.2 : Int) else last) last = last := by
    induction l generalizing last with
    | nil => rfl
    | cons x l ih =>
      rw [List.foldl_cons, if_neg (hl x (by simp))]
      exact ih (fun y hy => hl y (by simp [hy])) last
  unfold lastSlash at h
  rw [hstay] at h
  · omega
  · intro x hx hi
    obtain ⟨b, i⟩ := x
    subst hi
    obtain ⟨_, _, hget⟩ := List.mem_zipIdx hx
    exact hmem (by rw [hget]; exact List.getElem_mem _)

theorem prepareFloder_spec {w w₁ : World} {root : Option Bytes} {path : Bytes} {rc : Int}
    (h : prepareFloder w root path = (rc, w₁)) :
    Frame w w₁ ∧ w₁.st.marks = w.st.marks ∧
      (w₁.kern = w.kern ∨ ∃ p, FolderAt w.kern root path p ∧ w.kern.MadeDir p w₁.kern) := by
  unfold prepareFloder at h
  dsimp only at h
  split at h
  · next hpos =>
    split at h
    · split at h
      · next full w₂ ha =>
        obtain ⟨hf, hm, hk, hfull⟩ := asprintf_spec ha
        obtain rfl := hfull full rfl
        have hf' : Frame w w₂ := ⟨hf.sent, hf.roots, hf.env, hf.abi⟩
        have hkern : w₂.kern = w.kern := hk
        generalize hmk : w₂.mkdir (joined root (path.take (lastSlash path).toNat)) = x at h
        obtain ⟨res, w₃⟩ := x
        obtain ⟨_, rfl⟩ := Prod.mk.inj h
        obtain ⟨hk₂, hst, hf₂⟩ := World.sys_inv hmk
        refine ⟨hf'.trans hf₂, (congrArg Statics.marks hst).trans hm, ?_⟩
        rw [hkern] at hk₂
        rcases Kernel.mkdir_cases hk₂ with hs | ⟨p, hloc, hp⟩
        · exact .inl hs
        · exact .inr ⟨p, ⟨hpos, hloc⟩, hp⟩
      · next w₂ ha =>
        obtain ⟨hf, hm, hk, _⟩ := asprintf_spec ha
        obtain ⟨_, rfl⟩ := Prod.mk.inj h
        exact ⟨⟨hf.sent, hf.roots, hf.env, hf.abi⟩, hm, .inl hk⟩
    · obtain ⟨_, rfl⟩ := Prod.mk.inj h
      exact ⟨⟨rfl, rfl, rfl, rfl⟩, rfl, .inl rfl⟩
  · obtain ⟨_, rfl⟩ := Prod.mk.inj h
    exact ⟨⟨rfl, rfl, rfl, rfl⟩, rfl, .inl rfl⟩

theorem openTarget_spec {w w₁ : World} {flags : Nat} {name : Bytes} {path : Option Bytes}
    (h : openTarget w flags name = (path, w₁)) :
    Frame w w₁ ∧ w₁.st.marks = w.st.marks ∧ Foldered w.st.roots flags name w.kern w₁.kern ∧
      ∀ s, path = some s → s = openName w.st.roots flags name := by
  unfold openTarget at h
  unfold openName
  split at h
  · next hpers =>
    obtain ⟨hf, hm, hk, hs⟩ := asprintf_spec h
    simp only [hpers, ite_true]
    exact ⟨hf, hm, .inl hk, hs⟩
  next hpers =>
    split at h
    · next hpro =>
      obtain ⟨hf, hm, hk, hs⟩ := asprintf_spec h
      simp only [hpers, hpro, ite_true]
      exact ⟨hf, hm, .inl hk, hs⟩
    next hpro =>
      simp only [hpers, hpro]
      split at h
      · next hvfs =>
        generalize ha : asprintf w (joined w.st.roots.ssdirName name) = x at h
        obtain ⟨path', w₂⟩ := x
        obtain ⟨hf, hm, hk, hs⟩ := asprintf_spec ha
        obtain ⟨rfl, rfl⟩ := Prod.mk.inj h
        cases hprep : prepareFloder w₂ w₂.st.roots.ssdirName name with
        | mk rc w₃ =>
        obtain ⟨hf₂, hm₂, hk₂⟩ := prepareFloder_spec hprep
        refine ⟨hf.trans hf₂, hm₂.trans hm, ?_, hs⟩
        rw [hk, hf.roots] at hk₂
        exact hk₂.imp_right fun hmade => ⟨⟨hvfs, by simpa using hpers, by simpa using hpro⟩, hmade⟩
      · obtain ⟨hf, hm, hk, hs⟩ := asprintf_spec h
        exact ⟨hf, hm, .inl hk, hs⟩

/-- What an attempt to open `path` does, by its result. -/
def Attempt (k : Kernel) (path : Bytes) (fl : OpenFlags) (k' : Kernel) : Except Errno Nat → Prop
  | .error _ => k' = k
  | .ok n => ∃ p d, k.locate path = .ok p ∧ k.Opened fl p n d k'

theorem openPath_spec {w w₁ : World} {path : Bytes} {fl : OpenFlags} {res}
    (h : w.openPath path fl = (res, w₁)) :
    Frame w w₁ ∧ w₁.st = w.st ∧ Attempt w.kern path fl w₁.kern res := by
  obtain ⟨hk, hst, hf⟩ := World.sys_inv h
  refine ⟨hf, hst, ?_⟩
  cases res with
  | error e => exact Kernel.openPath_error hk
  | ok n => exact Kernel.openPath_ok hk

/-- The opens that were tried and failed changed nothing. -/
theorem openTries_spec {w w₁ : World} {flags : Nat} {path : Bytes} {res fl}
    (h : openTries w flags path = (res, fl, w₁)) :
    Frame w w₁ ∧ w₁.st = w.st ∧ fl.rdwr = true ∧ Attempt w.kern path fl w₁.kern res := by
  have hone {w w₁ : World} {fl fl' : OpenFlags} {res res'} {w₂ : World} (he : w.openPath path fl = (res', w₂))
      (h : (res', fl, w₂) = (res, fl', w₁)) (hrw : fl.rdwr = true) :
      Frame w w₁ ∧ w₁.st = w.st ∧ fl'.rdwr = true ∧ Attempt w.kern path fl' w₁.kern res := by
    cases h
    obtain ⟨hf, hst, ha⟩ := openPath_spec he
    exact ⟨hf, hst, hrw, ha⟩
  unfold openTries at h
  dsimp only at h
  split at h
  · split at h
    · exact hone rfl h rfl
    · split at h
      · next e w₂ he =>
        split at h
        · obtain ⟨hf, hst, hk⟩ := openPath_spec he
          obtain ⟨hf', hst', hrw, hk'⟩ := hone rfl h rfl
          rw [show w₂.kern = w.kern from hk] at hk'
          exact ⟨hf.trans hf', hst'.trans hst, hrw, hk'⟩
        · exact hone he h rfl
      · next fd w₂ he => exact hone he h rfl
  · exact hone rfl h rfl

theorem Foldered.prepared {roots : Roots} {flags : Nat} {name : Bytes} {k k' : Kernel}
    (h : Foldered roots flags name k k') : Prepared name k k' := by
  rcases h with h | ⟨_, p, hfolder, hmade⟩
  · exact .inl h
  · exact .inr ⟨mem_of_lastSlash_pos hfolder.1, p, hmade⟩

/-- An open prepares a folder if it has to; if the file is then opened, it
is answered with its descriptor as the handle. -/
theorem storageFileOpen_cases {w w' : World} {msg : Msg} {r : Bytes} {n : Nat} {rc : Int}
    (h : storageFileOpen w msg r n = (rc, w')) :
    (∃ e, e ≠ .noError ∧ Refused w msg e w') ∨
      n = 4 + (cstr (r.drop 4)).length ∧ ((∃ e k, e ≠ .noError ∧ Answers w msg e none w.st.marks k w' ∧
          Foldered w.st.roots (leAt r 0 4) (cstr (r.drop 4)) w.kern k) ∨
        ∃ k fl p fd d k', Foldered w.st.roots (leAt r 0 4) (cstr (r.drop 4)) w.kern k ∧ fl.rdwr = true ∧
          k.locate (openName w.st.roots (leAt r 0 4) (cstr (r.drop 4))) = .ok p ∧ k.Opened fl p fd d k' ∧
          Answers w msg .noError (some (leBytes 4 fd)) (insertFd w.st.marks fl fd).2 k' w') := by
  unfold storageFileOpen at h
  split at h
  · exact .inl ⟨_, by simp, refused h⟩
  next hn =>
  split at h
  · exact .inl ⟨_, by simp, refused h⟩
  refine .inr ⟨by omega, ?_⟩
  dsimp only at h
  split at h
  · next w₁ ht =>
    obtain ⟨hf, hm, hk, _⟩ := openTarget_spec ht
    exact .inl ⟨_, _, by simp, hf.respond hm rfl h, hk⟩
  · next path w₁ ht =>
    obtain ⟨hf, hm, hk, hpath⟩ := openTarget_spec ht
    split at h
    · next e fl w₂ ho =>
      obtain ⟨hf₂, hst₂, _, hk₂⟩ := openTries_spec ho
      exact .inl ⟨_, _, translateErrno_ne e,
        (hf.trans hf₂).respond ((congrArg Statics.marks hst₂).trans hm) hk₂ h, hk⟩
    · next fd fl w₂ ho =>
      obtain ⟨hf₂, hst₂, hrw, p, d, hp, hopen⟩ := openTries_spec ho
      refine .inr ⟨_, fl, p, fd, d, _, hk, hrw, hpath path rfl ▸ hp, hopen, ?_⟩
      have hmarks : w₂.st.marks = w.st.marks := (congrArg Statics.marks hst₂).trans hm
      rw [hmarks] at h
      exact ((hf.trans hf₂).setMarks _).respond rfl rfl h

/-! ## The other commands -/

theorem rpmbSend_cases {w w' : World} {msg : Msg} {r : Bytes} {n : Nat} {rc : Int}
    (h : rpmbSend w msg r n = (rc, w')) :
    ∃ e out, (out ≠ none → e = .noError) ∧ Answers w msg e out w.st.marks w.kern w' := by
  unfold rpmbSend at h
  split at h
  · exact ⟨_, _, by simp, refused h⟩
  dsimp only at h
  split at h
  · exact ⟨_, _, by simp, refused h⟩
  split at h
  · exact ⟨_, _, by simp, refused h⟩
  split at h
  all_goals
    refine ⟨_, _, ?_, Frame.respond ?_ ?_ ?_ h⟩
    · simp
    · exact ⟨rfl, rfl, rfl, rfl⟩
    · rfl
    · rfl

theorem storageInitDone_cases {prop : String} {w w' : World} {msg : Msg} {r : Bytes} {n : Nat} {rc : Int}
    (h : storageInitDone prop w msg r n = (rc, w')) : ∃ e, Answers w msg e none w.st.marks w.kern w' := by
  unfold storageInitDone at h
  split at h
  · exact ⟨_, refused h⟩
  · refine ⟨_, Frame.respond ?_ ?_ ?_ h⟩
    · exact ⟨rfl, rfl, rfl, rfl⟩
    · rfl
    · rfl

end Storage
