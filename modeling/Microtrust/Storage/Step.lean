/-
One request, as a change of the marks and the kernel.

`Effect` lists everything a request can do to them, by command and outcome.
Properties of whole runs are proved by going through its cases; none of them
looks at a handler again.
-/
import Microtrust.Storage.Start

namespace Storage

open Lib

/-! ## Reading the request back from the buffer -/

theorem receive_buffer (w : World) (q : Request) :
    ∃ rest, (receive w q).st.reqBuffer = q.payload ++ 0 :: rest := ⟨_, rfl⟩

theorem cstr_drop {payload rest : Bytes} (h : 4 ≤ payload.length) :
    cstr ((payload ++ 0 :: rest).drop 4) = cstr (payload.drop 4 ++ [0]) := by
  rw [List.drop_append_of_le_length h]
  unfold cstr
  induction payload.drop 4 with
  | nil => simp
  | cons b bs ih =>
    simp only [List.cons_append, List.takeWhile_cons]
    rw [ih]

/-! ## Effects -/

/-- What a request can do to the marks `m` and the kernel `k`, with the
answer it gets. -/
inductive Effect (roots : Roots) (q : Request) (m : Marks) (k : Kernel) :
    Err → Option Bytes → Marks → Kernel → Prop
  | quiet {e out} : (q.cmd = some .fileOpen → e ≠ .noError) →
      (q.cmd = some .fileClose → e ≠ .noError ∨ q.handle = none) → Effect roots q m k e out m k
  | write {h e k'} : q.cmd ≠ some .fileOpen → q.cmd ≠ some .fileClose → q.handle = some h →
      Writes (toInt32 h) k k' → Effect roots q m k e none (lookupFd m h true).2 k'
  | closeFailed {h e} : q.cmd = some .fileClose → q.handle = some h → e ≠ .noError →
      Effect roots q m k e none (removeFd m h).2 k
  | closed {h e d} : q.cmd = some .fileClose → q.handle = some h → k.desc (toInt32 h) = some d →
      Effect roots q m k e none (removeFd m h).2 ((k.settle d.syncs).release (toInt32 h).toNat)
  | deleteFailed {e} : q.cmd = some .fileDelete → e ≠ .noError →
      Effect roots q m k e none { m with dirState := .dirty } k
  | deleted {e rep k'} : q.cmd = some .fileDelete →
      k.unlink rep (joined roots.ssdirName q.name) = (.ok (), k') →
      Effect roots q m k e none { m with dirState := .dirty } k'
  | openFailed {e k'} : q.cmd = some .fileOpen → e ≠ .noError → Prepared q.name k k' →
      Effect roots q m k e none m k'
  | opened {fl p fd d k₁ k'} : q.cmd = some .fileOpen → Prepared q.name k k₁ → fl.rdwr = true →
      k₁.locate (openName roots q.openFlags q.name) = .ok p → k₁.Opened fl p fd d k' →
      Effect roots q m k .noError (some (leBytes 4 fd)) (insertFd m fl fd).2 k'

theorem dispatch_effect {w w' : World} {q : Request} {rest : Bytes} {rc : Int}
    (h : dispatch w q.msg (q.payload ++ 0 :: rest) q.payload.length = (rc, w')) :
    ∃ e out m k, Answers w q.msg e out m k w' ∧ Effect w.st.roots q w.st.marks w.kern e out m k := by
  have hleAt {off n} (hl : off + n ≤ q.payload.length) :
      leAt (q.payload ++ 0 :: rest) off n = leAt q.payload off n := leAt_append hl
  cases hcmd : Cmd.ofCode q.msg.cmd with
  | none =>
    rw [dispatch_none hcmd] at h
    exact ⟨_, _, _, _, refused h, .quiet (by simp [Request.cmd, hcmd]) (by simp [Request.cmd, hcmd])⟩
  | some c =>
    have hq : q.cmd = some c := hcmd
    rw [dispatch_some hcmd] at h
    cases c with
    | fileDelete =>
      dsimp only [handler] at h
      rcases storageFileDelete_cases h with ⟨e, he, ha⟩ | ⟨hn, e, k, ha, hk⟩
      · exact ⟨_, _, _, _, ha, .quiet (by simp [hq]) (by simp [hq])⟩
      · rw [cstr_drop hn] at hk
        rcases hk with ⟨he, rfl⟩ | ⟨_, rep, hu⟩
        · exact ⟨_, _, _, _, ha, .deleteFailed hq he⟩
        · exact ⟨_, _, _, _, ha, .deleted hq hu⟩
    | fileOpen =>
      dsimp only [handler] at h
      rcases storageFileOpen_cases h with ⟨e, he, ha⟩ | ⟨hn, hk⟩
      · exact ⟨_, _, _, _, ha, .quiet (fun _ => he) (by simp [hq])⟩
      · have h4 : 4 ≤ q.payload.length := by omega
        rw [cstr_drop h4, hleAt h4] at hk
        rcases hk with ⟨e, k, he, ha, hfolder⟩ | ⟨k, fl, p, fd, d, k', hfolder, hrw, hp, ho, ha⟩
        · exact ⟨_, _, _, _, ha, .openFailed hq he hfolder.prepared⟩
        · exact ⟨_, _, _, _, ha, .opened hq hfolder.prepared hrw hp ho⟩
    | fileClose =>
      dsimp only [handler] at h
      rcases storageFileClose_cases h with ⟨hn, ha⟩ | ⟨hn, e, k, ha, hk⟩
      · exact ⟨_, _, _, _, ha, .quiet (by simp [hq]) fun _ => .inl (by simp)⟩
      · have hh : q.handle = some (leAt q.payload 0 4) := by simp [Request.handle, hq, hn]
        rw [hleAt (by omega)] at ha hk
        rcases hk with ⟨he, rfl⟩ | ⟨_, d, hd, rfl⟩
        · exact ⟨_, _, _, _, ha, .closeFailed hq hh he⟩
        · exact ⟨_, _, _, _, ha, .closed hq hh hd⟩
    | fileRead =>
      obtain ⟨e, out, _, ha⟩ := storageFileRead_cases h
      exact ⟨_, _, _, _, ha, .quiet (by simp [hq]) (by simp [hq])⟩
    | fileWrite =>
      dsimp only [handler] at h
      rcases storageFileWrite_cases h with ⟨hn, ha⟩ | ⟨hn, e, k, ha, hk⟩
      · exact ⟨_, _, _, _, ha, .quiet (by simp [hq]) (by simp [hq])⟩
      · have hh : q.handle = some (leAt q.payload 8 4) := by
          simp [Request.handle, hq, Nat.not_lt.mpr hn]
        rw [hleAt (by omega)] at ha hk
        exact ⟨_, _, _, _, ha, .write (by simp [hq]) (by simp [hq]) hh hk⟩
    | fileGetSize =>
      obtain ⟨e, out, _, ha⟩ := storageFileGetSize_cases h
      exact ⟨_, _, _, _, ha, .quiet (by simp [hq]) (by simp [hq])⟩
    | fileSetSize =>
      dsimp only [handler] at h
      rcases storageFileSetSize_cases h with ⟨hn, ha⟩ | ⟨hn, e, k, ha, hk⟩
      · exact ⟨_, _, _, _, ha, .quiet (by simp [hq]) (by simp [hq])⟩
      · have hh : q.handle = some (leAt q.payload 8 4) := by simp [Request.handle, hq, hn]
        rw [hleAt (by omega)] at ha hk
        exact ⟨_, _, _, _, ha, .write (by simp [hq]) (by simp [hq]) hh hk⟩
    | rpmbSend =>
      obtain ⟨e, out, _, ha⟩ := rpmbSend_cases h
      exact ⟨_, _, _, _, ha, .quiet (by simp [hq]) (by simp [hq])⟩
    | initOk =>
      dsimp only [handler] at h
      obtain ⟨e, ha⟩ := storageInitDone_cases h
      exact ⟨_, _, _, _, ha, .quiet (by simp [hq]) (by simp [hq])⟩
    | initProinfoOk =>
      dsimp only [handler] at h
      obtain ⟨e, ha⟩ := storageInitDone_cases h
      exact ⟨_, _, _, _, ha, .quiet (by simp [hq]) (by simp [hq])⟩
    | initPersistOk =>
      dsimp only [handler] at h
      obtain ⟨e, ha⟩ := storageInitDone_cases h
      exact ⟨_, _, _, _, ha, .quiet (by simp [hq]) (by simp [hq])⟩

/-- A request: perhaps a checkpoint, then one effect, and one answer. -/
theorem serve_effect {w w' : World} {q : Request} {rc : Int} (h : serve w q = (rc, w')) :
    ∃ w₁ e out m k, Checkpointed (receive w q) w₁ ∧ Answers w q.msg e out m k w' ∧
      Effect w.st.roots q w₁.st.marks w₁.kern e out m k := by
  have hf₀ : Frame w (receive w q) := ⟨rfl, rfl, rfl, rfl⟩
  obtain ⟨w₁, hc, _, ⟨e, he, ha⟩ | hd⟩ := serve_cases h
  · exact ⟨w₁, e, _, _, _, hc, (hf₀.trans hc.synced.frame).answers ha, .quiet (fun _ => he) fun _ => .inl he⟩
  · have hs := hc.synced
    obtain ⟨rest, hrest⟩ := receive_buffer w q
    rw [hs.buf, hrest] at hd
    obtain ⟨e, out, m, k, ha, heff⟩ := dispatch_effect hd
    have hroots : w₁.st.roots = w.st.roots := hs.frame.roots
    rw [hroots] at heff
    exact ⟨w₁, e, out, m, k, hc, (hf₀.trans hs.frame).answers ha, heff⟩

/-! ## The history after a request -/

section History

variable {w w' : World} {msg : Msg} {e : Err} {out : Option Bytes} {m : Marks} {k : Kernel}

theorem Answers.response (h : Answers w msg e out m k w') :
    ∃ rc, Storage.response w w' = some ⟨{ msg.answer e with cmd := msg.cmd ||| respBit }, out, rc⟩ := by
  obtain ⟨rc, hs⟩ := h.sent
  refine ⟨rc, ?_⟩
  simp only [Storage.response, hs, List.drop_left, List.head?_cons]

theorem code_injective : Function.Injective Err.code := by
  intro a b h
  cases a <;> cases b <;> first | rfl | cases h

theorem Answers.answered (h : Answers w msg e out m k w') (e' : Err) :
    Storage.answered w w' e' = decide (e = e') := by
  obtain ⟨rc, hr⟩ := h.response
  simp only [Storage.answered, hr, Option.any_some, Msg.answer, beq_eq_decide]
  rw [decide_eq_decide]
  exact code_injective.eq_iff

end History

end Storage
