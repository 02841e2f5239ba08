/-
One answer to every request.

Each handler responds itself, and `handle_req` responds once more when a
handler leaves a positive number, which none does. What is sent back names the
request by its `op_id` and its command, and its result is one the proxy chose:
the result field of the request is never looked at.
-/
import Microtrust.Storage.Step

namespace Storage

open Lib

/-! ## What is sent -/

/-- `resp` answers `q`: with a result of the proxy's own, and with a payload
only if the result is `STORAGE_NO_ERROR`. -/
structure AnswerTo (q : Request) (resp : Resp) : Prop where
  opId : resp.msg.opId = q.msg.opId
  cmd : resp.msg.cmd = q.msg.cmd ||| respBit
  result : ∃ e : Err, resp.msg.result = e.code
  payload : resp.out ≠ none → resp.msg.result = Err.noError.code

theorem handler_answers {c : Cmd} {w w' : World} {msg : Msg} {r : Bytes} {n : Nat} {rc : Int}
    (h : handler c w msg r n = (rc, w')) :
    ∃ e out m k, (out ≠ none → e = .noError) ∧ Answers w msg e out m k w' := by
  cases c with
  | fileDelete =>
    rcases storageFileDelete_cases h with ⟨e, _, ha⟩ | ⟨_, e, k, ha, _⟩
    · exact ⟨_, _, _, _, by simp, ha⟩
    · exact ⟨_, _, _, _, by simp, ha⟩
  | fileOpen =>
    rcases storageFileOpen_cases h with ⟨e, _, ha⟩ | ⟨_, ⟨e, k, _, ha, _⟩ | ⟨_, fl, p, fd, d, k, _, _, _, _, ha⟩⟩
    · exact ⟨_, _, _, _, by simp, ha⟩
    · exact ⟨_, _, _, _, by simp, ha⟩
    · exact ⟨_, _, _, _, by simp, ha⟩
  | fileClose =>
    rcases storageFileClose_cases h with ⟨_, ha⟩ | ⟨_, e, k, ha, _⟩
    · exact ⟨_, _, _, _, by simp, ha⟩
    · exact ⟨_, _, _, _, by simp, ha⟩
  | fileWrite =>
    rcases storageFileWrite_cases h with ⟨_, ha⟩ | ⟨_, e, k, ha, _⟩
    · exact ⟨_, _, _, _, by simp, ha⟩
    · exact ⟨_, _, _, _, by simp, ha⟩
  | fileRead =>
    obtain ⟨e, out, ho, ha⟩ := storageFileRead_cases h
    exact ⟨_, _, _, _, ho, ha⟩
  | fileGetSize =>
    obtain ⟨e, out, ho, ha⟩ := storageFileGetSize_cases h
    exact ⟨_, _, _, _, ho, ha⟩
  | fileSetSize =>
    rcases storageFileSetSize_cases h with ⟨_, ha⟩ | ⟨_, e, k, ha, _⟩
    · exact ⟨_, _, _, _, by simp, ha⟩
    · exact ⟨_, _, _, _, by simp, ha⟩
  | rpmbSend =>
    obtain ⟨e, out, ho, ha⟩ := rpmbSend_cases h
    exact ⟨_, _, _, _, ho, ha⟩
  | initOk | initProinfoOk | initPersistOk =>
    dsimp only [handler] at h
    obtain ⟨e, ha⟩ := storageInitDone_cases h
    exact ⟨_, _, _, _, by simp, ha⟩

theorem dispatch_answers {w w' : World} {msg : Msg} {r : Bytes} {n : Nat} {rc : Int}
    (h : dispatch w msg r n = (rc, w')) :
    ∃ e out m k, (out ≠ none → e = .noError) ∧ Answers w msg e out m k w' := by
  cases hc : Cmd.ofCode msg.cmd with
  | none =>
    rw [dispatch_none hc] at h
    exact ⟨_, _, _, _, by simp, refused h⟩
  | some c =>
    rw [dispatch_some hc] at h
    exact handler_answers h

theorem serve_answers (w : World) (q : Request) :
    ∃ resp, (serve w q).2.sent = w.sent ++ [resp] ∧ AnswerTo q resp := by
  obtain ⟨e, out, m, k, ho, ha⟩ : ∃ e out m k, (out ≠ none → e = .noError) ∧
      Answers w q.msg e out m k (serve w q).2 := by
    have hf₀ : Frame w (receive w q) := ⟨rfl, rfl, rfl, rfl⟩
    obtain ⟨w₁, hc, _, ⟨e, _, ha⟩ | hd⟩ := serve_cases (rfl : serve w q = (_, _))
    · exact ⟨_, _, _, _, by simp, (hf₀.trans hc.synced.frame).answers ha⟩
    · obtain ⟨e, out, m, k, ho, ha⟩ := dispatch_answers hd
      exact ⟨_, _, _, _, ho, (hf₀.trans hc.synced.frame).answers ha⟩
  obtain ⟨rc, hs⟩ := ha.sent
  refine ⟨_, hs, rfl, rfl, ⟨e, rfl⟩, fun hout => ?_⟩
  rw [ho hout]
  rfl

/-! ## The result field of the request -/

def Request.withResult (q : Request) (result : Int) : Request := { q with msg := { q.msg with result } }

theorem handler_result (c : Cmd) (w : World) (msg : Msg) (result : Int) (r : Bytes) (n : Nat) :
    handler c w { msg with result } r n = handler c w msg r n := by
  cases c <;> rfl

theorem dispatch_result (w : World) (msg : Msg) (result : Int) (r : Bytes) (n : Nat) :
    dispatch w { msg with result } r n = dispatch w msg r n := by
  cases hc : Cmd.ofCode msg.cmd with
  | none =>
    have hc' : Cmd.ofCode ({ msg with result } : Msg).cmd = none := hc
    rw [dispatch_none hc, dispatch_none hc']
    rfl
  | some c =>
    have hc' : Cmd.ofCode ({ msg with result } : Msg).cmd = some c := hc
    rw [dispatch_some hc, dispatch_some hc', handler_result]

/-- What a request does is the same whatever its result field holds. -/
theorem serve_result (w : World) (q : Request) (result : Int) : serve w (q.withResult result) = serve w q := by
  simp only [serve, handleReq, Request.withResult, dispatch_result]
  rfl

/-! ## Requests that are refused -/

/-- What is checked of a request's length before anything else is done. -/
def Cmd.malformed (abi : Abi) (payload : Bytes) : Cmd → Prop
  | .fileDelete | .fileOpen =>
    payload.length < 4 ∨ (cstr (payload.drop 4 ++ [0])).length ≠ payload.length - 4
  | .fileClose | .fileGetSize => payload.length ≠ 4
  | .fileRead | .fileSetSize => payload.length ≠ 16
  | .fileWrite | .initOk | .initProinfoOk | .initPersistOk => payload.length < 16
  | .rpmbSend =>
    payload.length < 16 ∨
      payload.length ≠ (16 + leAt payload 0 4 + leAt payload 4 4) % 2 ^ abi.sizeBits

/-- `POST_COMMIT` is implemented for RPMB requests only. -/
def Request.unimplemented (q : Request) : Prop := q.msg.postCommit = true ∧ q.msg.cmd ≠ Cmd.rpmbSend.code

/-- The request is one to be refused: for `POST_COMMIT`, as an unknown command,
or for its length. -/
def Request.refusable (abi : Abi) (q : Request) : Prop :=
  q.unimplemented ∨ ∀ c, q.cmd = some c → c.malformed abi q.payload

/-- The proxy when it comes to the command of a request: the request is read,
and the checkpoint was run if it had to be. -/
def begun (w : World) (q : Request) : World :=
  if q.msg.postCommit && q.msg.cmd != Cmd.rpmbSend.code then receive w q
  else if q.msg.preCommit then (storageSyncCheckpoint (receive w q)).2
  else receive w q

theorem handler_malformed {c : Cmd} {w : World} {q : Request} {rest : Bytes} (h : c.malformed w.abi q.payload) :
    handler c w q.msg (q.payload ++ 0 :: rest) q.payload.length = ipcRespond w (q.msg.answer .notValid) none := by
  cases c with
  | fileDelete =>
    dsimp only [handler, storageFileDelete]
    split
    · rfl
    next hn =>
      rw [cstr_drop (by omega), if_pos (h.resolve_left hn)]
  | fileOpen =>
    dsimp only [handler, storageFileOpen]
    split
    · rfl
    next hn =>
      rw [cstr_drop (by omega), if_pos (h.resolve_left hn)]
  | fileClose => exact if_pos h
  | fileGetSize => exact if_pos h
  | fileRead => exact if_pos h
  | fileSetSize => exact if_pos h
  | fileWrite => exact if_pos h
  | initOk => exact if_pos h
  | initProinfoOk => exact if_pos h
  | initPersistOk => exact if_pos h
  | rpmbSend =>
    dsimp only [handler, rpmbSend]
    split
    · rfl
    next hn =>
      rw [leAt_append (by omega), leAt_append (by omega), if_pos (h.resolve_left hn)]

/-- Nothing is done for a request that is refused, but for the checkpoint that
comes first and the one answer. -/
theorem serve_refused {w : World} {q : Request} (h : q.refusable w.abi) :
    ∃ e, e ≠ .noError ∧ serve w q = ipcRespond (begun w q) (q.msg.answer e) none := by
  have hdispatch {w₁ : World} (habi : w₁.abi = w.abi) (hno : ¬ q.unimplemented) : ∃ e, e ≠ .noError ∧
      dispatch w₁ q.msg (receive w q).st.reqBuffer q.payload.length = ipcRespond w₁ (q.msg.answer e) none := by
    have hmal := h.resolve_left hno
    obtain ⟨rest, hrest⟩ := receive_buffer w q
    cases hc : Cmd.ofCode q.msg.cmd with
    | none => exact ⟨.unimplemented, by simp, dispatch_none hc _ _ _⟩
    | some c =>
      refine ⟨.notValid, by simp, ?_⟩
      rw [dispatch_some hc, hrest]
      exact handler_malformed (habi ▸ hmal c hc)
  dsimp only [serve, handleReq, begun]
  split
  · exact ⟨.unimplemented, by simp, rfl⟩
  next hpost =>
    have hno : ¬ q.unimplemented := by simpa [Request.unimplemented] using hpost
    split
    · generalize hc : storageSyncCheckpoint (receive w q) = x
      obtain ⟨rc, w₁⟩ := x
      dsimp only
      split
      · exact ⟨.generic, by simp, rfl⟩
      · exact hdispatch (checkpoint_synced hc).frame.abi hno
    · exact hdispatch rfl hno

/-- Every request is answered once, to the request and with a result of the
proxy's own, and one that is refused has no other effect than the checkpoint. -/
theorem answered_once (w : World) (q : Request) :
    (∃ resp, (serve w q).2.sent = w.sent ++ [resp] ∧ AnswerTo q resp) ∧
    (∀ result, serve w (q.withResult result) = serve w q) ∧
    (q.refusable w.abi → ∃ e, e ≠ .noError ∧ serve w q = ipcRespond (begun w q) (q.msg.answer e) none) :=
  ⟨serve_answers w q, serve_result w q, serve_refused⟩

end Storage
