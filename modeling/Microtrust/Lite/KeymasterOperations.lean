/-
The operations of the Keymaster 4 device and those of the TA.

Clients go by the answers of the device: an operation is open from a `begin`
that went well to the first `update` that did not, or to `finish` or `abort`.
The TA goes by the requests it completes. Both agree, apart from calls that
failed on their way: a request that never left the process is followed by an
`ABORT`, so that no operation stays behind with the TA for it.
-/
import Microtrust.Lite.KeymasterDevice

namespace LiteKeymaster

open Lib Keymaster

variable {env : Env} {s s' : State} {cmd : UInt32} {rc : Int} {input : Bytes}

/-! ## What the server completes -/

/-- One request is completed, or none. -/
def Completes (s s' : State) (req : Request) : Prop := s'.served = s.served ∨ s'.served = s.served ++ [req]

theorem deliver_served (env : Env) (s : State) (cmd : UInt32) (payload : Bytes) :
    (deliver env s cmd payload).served = if cmd &&& stopBit ≠ 0 then s.served
      else s.served ++ [⟨cmd, (s.channels s.fd).chunks ++ payload⟩] := by
  unfold deliver
  dsimp only
  split <;> rfl

theorem sendMessage_completes {payload : Bytes} (h : sendMessage env s cmd payload = (rc, s')) :
    Completes s s' ⟨cmd, (s.channels s.fd).chunks ++ payload⟩ ∧ (cmd &&& stopBit ≠ 0 → s'.served = s.served) := by
  have hdeliver (t : State) (hfd : t.fd = s.fd) (hch : t.channels = s.channels) (hserved : t.served = s.served) :
      Completes s (deliver env t cmd payload) ⟨cmd, (s.channels s.fd).chunks ++ payload⟩ ∧
        (cmd &&& stopBit ≠ 0 → (deliver env t cmd payload).served = s.served) := by
    unfold Completes
    rw [deliver_served, hfd, hch, hserved]
    split
    next hstop => exact ⟨.inl rfl, fun _ => rfl⟩
    next hstop => exact ⟨.inr rfl, fun hno => absurd hno hstop⟩
  unfold sendMessage at h
  dsimp only at h
  split at h
  · cases h
    exact ⟨.inl rfl, fun _ => rfl⟩
  split at h
  · cases h
    exact hdeliver _ rfl rfl rfl
  · cases h
    split
    · exact hdeliver _ rfl rfl rfl
    · exact ⟨.inl rfl, fun _ => rfl⟩

theorem sendRequest_completes {c : Bytes} (n : Nat) (hch : s.channels s.fd = ⟨c, []⟩)
    (h : sendRequest env n s cmd input = (rc, s')) : Completes s s' ⟨cmd, c ++ input⟩ := by
  have hlast {s s' : State} {c input : Bytes} {rc : Int} (hch : s.channels s.fd = ⟨c, []⟩)
      (h : sendMessage env s cmd input = (rc, s')) : Completes s s' ⟨cmd, c ++ input⟩ := by
    have hone := (sendMessage_completes h).1
    rwa [hch] at hone
  induction n generalizing s c input with
  | zero => exact hlast hch h
  | succ n ih =>
    rw [sendRequest] at h
    split at h
    · cases hfirst : sendMessage env s (cmd ||| stopBit) (input.take maxSendBufSize) with
      | mk rc₁ s₁ =>
        simp only [hfirst] at h
        have hsame := (sendMessage_completes hfirst).2 (stop_or cmd)
        rcases sendMessage_cases hfirst with ⟨hneg, _⟩ | ⟨hz, t, hq, hchs, _, rfl⟩
        · rw [if_pos hneg] at h
          cases h
          exact .inl hsame
        · -- the chunk waits on the server, and the rest completes it
          have hnot : ¬ rc₁ < 0 := by omega
          rw [if_neg hnot] at h
          have htch : t.channels t.fd = ⟨c, []⟩ := by rw [fd_eq hq.handle, hchs, hch]
          have hch₁ := (deliver_chunk env (input.take maxSendBufSize) (stop_or cmd) htch).1
          have hq₁ := quiet_deliver env t (cmd ||| stopBit) (input.take maxSendBufSize)
          rw [← fd_eq hq₁.handle] at hch₁
          have hrest := ih hch₁ h
          rw [List.append_assoc, List.take_append_drop] at hrest
          unfold Completes at hrest ⊢
          rwa [hsame] at hrest
    · exact hlast hch h

theorem call_completes {out : Bytes} {outMax : Nat} (hidle : Idle s)
    (h : bpKeymasterCall env s cmd input outMax = (rc, out, s')) : Completes s s' ⟨cmd, input⟩ := by
  unfold bpKeymasterCall at h
  split at h
  next => cases h; exact .inl rfl
  next hhandle =>
    have hch : s.channels s.fd = ⟨[], []⟩ := hidle.resolve_left hhandle
    cases hsend : sendRequest env input.length s cmd input with
    | mk rc₁ s₁ =>
      have hcompletes := sendRequest_completes input.length hch hsend
      simp only [hsend] at h
      split at h
      · cases h
        exact hcompletes
      · cases h
        exact hcompletes

/-- Everything an exchange can end with. -/
theorem exchange_cases (env : Env) (cmd : UInt32) (deserialize : Bytes → Option Int) (hidle : Idle s) (input : Bytes) :
    let o := exchange env deserialize s cmd input
    let answer := (env.answer s.served.length ⟨cmd, input⟩).payload
    (o.deserialized = none ∧ o.ret ≠ kmErrorOk ∧ o.ret ≠ beanpodKmInvalidInputLength ∧
        Completes s o.st ⟨cmd, input⟩) ∨
      (o.deserialized = some answer ∧ o.ret = (deserialize answer).getD kmErrorUnknownError ∧
        o.st.served = s.served ++ [⟨cmd, input⟩]) := by
  intro o answer
  have ho : o = exchange env deserialize s cmd input := rfl
  rw [ho]
  unfold exchange
  cases hcall : bpKeymasterCall env s cmd input bufSize with
  | mk rc t =>
    obtain ⟨out, s₁⟩ := t
    have hcompletes := call_completes hidle hcall
    dsimp only
    split
    next hneg =>
      have hserved : (bpKeymasterConnect env (bpKeymasterDisconnect s₁)).2.served = s₁.served := (reset_spec env s₁).1
      refine .inl ⟨rfl, translateError_ne_ok hneg, translateError_ne_beanpod hneg, ?_⟩
      unfold Completes at hcompletes ⊢
      rwa [hserved]
    next hpos =>
      obtain ⟨hserved, hout, _⟩ := (call_spec hidle hcall).1.answered (by omega)
      subst hout
      exact .inr ⟨rfl, rfl, hserved⟩

/-! ## A command -/

variable {α : Type} {fmt : ResponseFormat α} {req : Bytes}

theorem sentBytes_of_lt (h : req.length < 2 ^ 32) : sentBytes req = req := by
  rw [sentBytes, Nat.mod_eq_of_lt h, List.take_length]

/-- What becomes of a command: it is too large to be sent, it is answered, or it
fails on its way, with or without the TA having completed it. -/
inductive Fate (env : Env) (fmt : ResponseFormat α) (s : State) (cmd : UInt32) (req : Bytes) :
    Forwarded (KeymasterResponse α) → Prop where
  | refused {f : Forwarded (KeymasterResponse α)} (long : bufSize < req.length)
      (error : f.out.error = beanpodKmInvalidInputLength) (broke : f.broke = false) (st : f.st = s) :
      Fate env fmt s cmd req f
  | answered {f : Forwarded (KeymasterResponse α)} (broke : f.broke = false)
      (served : f.st.served = s.served ++ [⟨cmd, req⟩])
      (accepted : fmt.accepted (env.answer s.served.length ⟨cmd, req⟩).payload =
        if f.out.error = kmErrorOk then some f.out.rest else none) : Fate env fmt s cmd req f
  | failed {f : Forwarded (KeymasterResponse α)} (broke : f.broke = true) (error : f.out.error ≠ kmErrorOk)
      (refused : f.out.error ≠ beanpodKmInvalidInputLength) (completes : Completes s f.st ⟨cmd, req⟩) :
      Fate env fmt s cmd req f

/-- The response to bytes that came back. -/
theorem respond_some {o : Outcome} {bs : Bytes} (hd : o.deserialized = some bs)
    (hret : o.ret = (fmt.read bs).getD kmErrorUnknownError) :
    fmt.accepted bs = if (fmt.respond o).error = kmErrorOk then some (fmt.respond o).rest else none := by
  unfold ResponseFormat.accepted ResponseFormat.respond
  simp only [hd, hret]
  unfold ResponseFormat.read
  split
  · simp only [Option.getD_some, Option.some.injEq]
    split_ifs <;> simp_all
  · simp [kmErrorUnknownError, kmErrorOk]

/-- An exchange is answered, or fails on its way. -/
theorem exchange_fate (hidle : Idle s) {broke : Bool}
    (hbroke : broke = ((exchange env fmt.read s cmd req).deserialized.isNone &&
      (exchange env fmt.read s cmd req).ret ≠ beanpodKmInvalidInputLength)) :
    Fate env fmt s cmd req ⟨fmt.respond (exchange env fmt.read s cmd req), broke,
      (exchange env fmt.read s cmd req).st⟩ := by
  rcases exchange_cases env cmd fmt.read hidle req with ⟨hd, hok, hlength, hc⟩ | ⟨hd, hret, hserved⟩
  · have herror : (fmt.respond (exchange env fmt.read s cmd req)).error = (exchange env fmt.read s cmd req).ret := by
      unfold ResponseFormat.respond
      rw [if_pos hok]
    refine .failed ?_ (herror ▸ hok) (herror ▸ hlength) hc
    simp [hbroke, hd, hlength]
  · refine .answered ?_ hserved (respond_some hd hret)
    simp [hbroke, hd]

theorem forwardCommand_fate (env : Env) (cmd : UInt32) (fmt : ResponseFormat α) (hidle : Idle s)
    (hlen : req.length < 2 ^ 32) :
    Idle (forwardCommand env fmt s cmd req).st ∧ Fate env fmt s cmd req (forwardCommand env fmt s cmd req) := by
  unfold forwardCommand bpKeymasterSend
  rw [Nat.mod_eq_of_lt hlen, sentBytes_of_lt hlen]
  by_cases hlong : bufSize < req.length
  · simp only [if_pos hlong]
    exact ⟨hidle, .refused hlong rfl rfl rfl⟩
  · simp only [if_neg hlong]
    exact ⟨(exchange_spec hidle req).2, exchange_fate hidle rfl⟩

/-- A command without a request is never too large. -/
theorem forwardCommandNoRequest_fate (env : Env) (cmd : UInt32) (fmt : ResponseFormat α) (hidle : Idle s) :
    Idle (forwardCommandNoRequest env fmt s cmd).st ∧ Fate env fmt s cmd [] (forwardCommandNoRequest env fmt s cmd) := by
  unfold forwardCommandNoRequest bpKeymasterSendNoRequest
  refine ⟨(exchange_spec hidle []).2, exchange_fate hidle ?_⟩
  rcases exchange_cases env cmd fmt.read hidle [] with ⟨hd, _, hlength, _⟩ | ⟨hd, _, _⟩
  · simp [hd, hlength]
  · simp [hd]

/-- A method about keys, by what becomes of its command. -/
theorem Method.run_fate (env : Env) (m : Method) (hidle : Idle s) (hfits : m.fits) :
    ∃ f : Forwarded (KeymasterResponse m.α), Idle f.st ∧ Fate env m.fmt s m.cmd (m.req.getD []) f ∧
      m.run env s = ⟨(f.out.error, if f.out.error = kmErrorOk then m.hands f.out.rest else m.onError f.out.rest),
        f.broke, f.st⟩ := by
  unfold Method.fits at hfits
  unfold Method.run
  cases hreq : m.req with
  | none =>
    obtain ⟨hidle', hfate⟩ := forwardCommandNoRequest_fate env m.cmd m.fmt hidle
    exact ⟨_, hidle', hfate, rfl⟩
  | some req =>
    rw [hreq] at hfits
    obtain ⟨hidle', hfate⟩ := forwardCommand_fate env m.cmd m.fmt hidle hfits
    exact ⟨_, hidle', hfate, rfl⟩

/-! ## What the TA holds -/

variable {lib : KeymasterDefs} {msgs : Messages lib} {H : Finset UInt64} {n : Nat} {h : UInt64} {body : Bytes}

theorem heldFrom_concat (n : Nat) (H : Finset UInt64) (reqs : List Request) (req : Request) :
    heldFrom env msgs n H (reqs ++ [req]) = holding env msgs (heldFrom env msgs n H reqs) (n + reqs.length) req := by
  induction reqs generalizing n H with
  | nil => rfl
  | cons r reqs ih =>
    rw [List.cons_append, heldFrom, ih, List.length_cons, heldFrom]
    congr 1
    omega

theorem heldByTa_concat (served : List Request) (req : Request) :
    heldByTa env msgs (served ++ [req]) = holding env msgs (heldByTa env msgs served) served.length req := by
  rw [heldByTa, heldFrom_concat, Nat.zero_add]
  rfl

theorem handle_eq (cmd : UInt32) (h : UInt64) (body : Bytes) : Request.handle ⟨cmd, handleBytes h ++ body⟩ = h := by
  have hle : le (leBytes 8 h.toNat) = h.toNat := le_leBytes_of_lt h.toNat_lt
  unfold Request.handle handleBytes
  rw [leAt_append (by simp), leAt, List.drop_zero, List.take_of_length_le (by simp), hle]
  exact UInt64.ofNat_toNat

/-- A request for no operation changes nothing. -/
theorem holding_aside (haside : Aside cmd) (body : Bytes) : holding env msgs H n ⟨cmd, body⟩ = H := by
  simp only [Aside, List.mem_cons, List.not_mem_nil, or_false, not_or] at haside
  simp [holding, begunBy, endedBy, haside]

theorem holding_begin (body : Bytes) : holding env msgs H n ⟨kmBeginOperation, body⟩ =
    (begunBy env msgs n ⟨kmBeginOperation, body⟩).elim H fun h => insert h H := by
  have hended : endedBy env msgs n ⟨kmBeginOperation, body⟩ = none := by
    have hupdate : kmBeginOperation ≠ kmUpdateOperation := by decide
    have hlast : ¬ (kmBeginOperation = kmFinishOperation ∨ kmBeginOperation = kmAbortOperation) := by decide
    unfold endedBy
    rw [if_neg hupdate, if_neg hlast]
  unfold holding
  rw [hended]
  cases begunBy env msgs n ⟨kmBeginOperation, body⟩ <;> rfl

/-- A request that is no `BEGIN` begins nothing. -/
theorem holding_ended (hcmd : cmd ≠ kmBeginOperation) (body : Bytes) : holding env msgs H n ⟨cmd, body⟩ =
    (endedBy env msgs n ⟨cmd, body⟩).elim H H.erase := by
  have hbegun : begunBy env msgs n ⟨cmd, body⟩ = none := if_neg hcmd
  unfold holding
  rw [hbegun]
  cases endedBy env msgs n ⟨cmd, body⟩ <;> rfl

/-- `FINISH` and `ABORT` end the operation they name. -/
theorem holding_last (hcmd : cmd = kmFinishOperation ∨ cmd = kmAbortOperation) (h : UInt64) (body : Bytes) :
    holding env msgs H n ⟨cmd, handleBytes h ++ body⟩ = H.erase h := by
  have hbegin : cmd ≠ kmBeginOperation := by rcases hcmd with rfl | rfl <;> decide
  have hupdate : cmd ≠ kmUpdateOperation := by rcases hcmd with rfl | rfl <;> decide
  rw [holding_ended hbegin, endedBy, if_neg hupdate, if_pos hcmd, handle_eq]
  rfl

/-- `UPDATE` ends it when the answer is not that all is well. -/
theorem holding_update (h : UInt64) (body : Bytes) :
    holding env msgs H n ⟨kmUpdateOperation, handleBytes h ++ body⟩ =
      if (msgs.formats.updated.accepted (env.answer n ⟨kmUpdateOperation, handleBytes h ++ body⟩).payload).isSome
      then H else H.erase h := by
  rw [holding_ended (by decide), endedBy, if_pos rfl, handle_eq]
  split <;> rfl

/-! ## The methods -/

variable {l : Ledger UInt64}

/-- The command has nothing to do with operations, however it ends. -/
theorem Fate.aside {f : Forwarded (KeymasterResponse α)} (hf : Fate env fmt s cmd req f) (haside : Aside cmd) :
    heldByTa env msgs f.st.served = heldByTa env msgs s.served := by
  have hone : heldByTa env msgs (s.served ++ [⟨cmd, req⟩]) = heldByTa env msgs s.served := by
    rw [heldByTa_concat, holding_aside haside]
  cases hf with
  | refused _ _ _ hst => rw [hst]
  | answered _ hserved _ => rw [hserved, hone]
  | failed _ _ _ hc =>
    rcases hc with hc | hc
    · rw [hc]
    · rw [hc, hone]

theorem abort_agrees (hidle : Idle s) (hl : l.Agrees (heldByTa env msgs s.served)) (h : UInt64) :
    Idle (Device.abort env msgs s h).st ∧
      (l.ends h !(Device.abort env msgs s h).broke).Agrees (heldByTa env msgs (Device.abort env msgs s h).st.served) := by
  have hlen : (handleBytes h).length = 8 := length_leBytes 8 _
  have hlast : heldByTa env msgs (s.served ++ [⟨kmAbortOperation, handleBytes h⟩]) = (heldByTa env msgs s.served).erase h := by
    rw [heldByTa_concat, ← List.append_nil (handleBytes h)]
    exact holding_last (.inr rfl) h []
  obtain ⟨hidle', hfate⟩ := forwardCommand_fate env kmAbortOperation msgs.formats.plain hidle (show (handleBytes h).length < _ by omega)
  refine ⟨hidle', ?_⟩
  unfold Device.abort
  cases hfate with
  | refused hlong => exact absurd hlong (by rw [hlen]; decide)
  | answered hbroke hserved _ =>
    simp only [hbroke, hserved, hlast]
    exact hl.closed h _
  | failed hbroke _ _ hc =>
    simp only [hbroke]
    refine hl.unsure ?_
    rw [← hlast]
    exact hc.imp (congrArg _) (congrArg _)

theorem length_handleBytes_append {body : Bytes} (h : UInt64) (hlen : body.length + 8 < 2 ^ 32) :
    (handleBytes h ++ body).length < 2 ^ 32 := by
  rw [List.length_append, handleBytes, length_leBytes]
  omega

/-- What `update` and `finish` have in common. Where `stays`, a request that
goes well leaves the operation to the TA; in every other case both sides give
it up, or the client is unsure. -/
theorem forwardOrAbort_agrees (fmt : ResponseFormat α) (stays : Bool) (hidle : Idle s)
    (hl : l.Agrees (heldByTa env msgs s.served)) (hlen : body.length + 8 < 2 ^ 32)
    (hone : heldByTa env msgs (s.served ++ [⟨cmd, handleBytes h ++ body⟩]) =
      if stays && (fmt.accepted (env.answer s.served.length ⟨cmd, handleBytes h ++ body⟩).payload).isSome
      then heldByTa env msgs s.served else (heldByTa env msgs s.served).erase h) :
    let f := Device.forwardOrAbort env msgs fmt s cmd h body
    Idle f.st ∧
      (if stays && f.out.error = kmErrorOk then l else l.ends h !f.broke).Agrees (heldByTa env msgs f.st.served) := by
  intro f
  have hrefused : ¬ kmErrorInvalidInputLength = kmErrorOk := by decide
  have hreserved : ¬ beanpodKmInvalidInputLength = kmErrorOk := by decide
  obtain ⟨hidle', hfate⟩ := forwardCommand_fate env cmd fmt hidle (length_handleBytes_append h hlen)
  have hf : f = Device.forwardOrAbort env msgs fmt s cmd h body := rfl
  unfold Device.forwardOrAbort at hf
  generalize forwardCommand env fmt s cmd (handleBytes h ++ body) = g at hf hfate hidle'
  cases hfate with
  | refused _ herror _ hst =>
    -- nothing was sent, so it is the `ABORT` that ends the operation
    rw [if_pos herror, hst] at hf
    obtain ⟨habort, hends⟩ := abort_agrees hidle hl h
    rw [hf]
    simp only [hrefused, decide_false, Bool.and_false, Bool.false_eq_true, if_false]
    exact ⟨habort, hends⟩
  | answered hbroke hserved haccepted =>
    by_cases herror : g.out.error = beanpodKmInvalidInputLength
    · -- the TA has ended it already, and is told to once more
      rw [if_pos herror] at hf
      have hclosed : (l.ends h true).Agrees (heldByTa env msgs g.st.served) := by
        rw [hserved, hone, haccepted]
        simpa [herror, hreserved] using hl.closed h true
      obtain ⟨habort, hends⟩ := abort_agrees hidle' hclosed h
      rw [Ledger.ends_ends] at hends
      rw [hf]
      simp only [hrefused, decide_false, Bool.and_false, Bool.false_eq_true, if_false]
      exact ⟨habort, hends⟩
    · rw [if_neg herror] at hf
      rw [hf, hserved, hone, haccepted]
      refine ⟨hidle', ?_⟩
      by_cases hok : g.out.error = kmErrorOk
      · cases stays with
        | true => simpa [hok] using hl
        | false => simpa [hok, hbroke] using hl.closed h true
      · simpa [hok, hbroke] using hl.closed h true
  | failed hbroke herror hlength hc =>
    rw [if_neg hlength] at hf
    rw [hf]
    refine ⟨hidle', ?_⟩
    simp only [herror, decide_false, Bool.and_false, Bool.false_eq_true, if_false, hbroke]
    refine hl.unsure ?_
    rcases hc with hc | hc
    · exact .inl (congrArg _ hc)
    · rw [hc, hone]
      split
      · exact .inl rfl
      · exact .inr rfl

theorem update_agrees {r : UpdateOperationRequest lib} (hidle : Idle s) (hl : l.Agrees (heldByTa env msgs s.served))
    (hlen : (msgs.bytes.updateOperation r).length + 8 < 2 ^ 32) :
    let f := Device.update env msgs s r
    Idle f.st ∧ (if f.out.error = kmErrorOk then l else l.ends r.opHandle !f.broke).Agrees
      (heldByTa env msgs f.st.served) := by
  have hone : heldByTa env msgs (s.served ++ [⟨kmUpdateOperation, handleBytes r.opHandle ++ msgs.bytes.updateOperation r⟩]) = _ :=
    (heldByTa_concat _ _).trans (holding_update r.opHandle (msgs.bytes.updateOperation r))
  obtain ⟨hidle', hagrees⟩ := forwardOrAbort_agrees msgs.formats.updated true hidle hl hlen hone
  rw [Bool.true_and] at hagrees
  intro f
  have hf : f = Device.update env msgs s r := rfl
  unfold Device.update at hf
  dsimp only at hf
  split at hf
  next hok =>
    rw [if_pos (decide_eq_true hok)] at hagrees
    rw [hf, if_pos hok]
    exact ⟨hidle', hagrees⟩
  next hok =>
    rw [if_neg (by simpa using hok)] at hagrees
    rw [hf, if_neg hok]
    exact ⟨hidle', hagrees⟩

theorem finish_agrees {r : FinishOperationRequest lib} (hidle : Idle s) (hl : l.Agrees (heldByTa env msgs s.served))
    (hlen : (msgs.bytes.finishOperation r).length + 8 < 2 ^ 32) :
    let f := Device.finish env msgs s r
    Idle f.st ∧ (l.ends r.opHandle !f.broke).Agrees (heldByTa env msgs f.st.served) := by
  have hone : heldByTa env msgs (s.served ++ [⟨kmFinishOperation, handleBytes r.opHandle ++ msgs.bytes.finishOperation r⟩]) = _ :=
    (heldByTa_concat _ _).trans (holding_last (.inl rfl) r.opHandle (msgs.bytes.finishOperation r))
  obtain ⟨hidle', hagrees⟩ := forwardOrAbort_agrees msgs.formats.finished false hidle hl hlen hone
  rw [Bool.false_and] at hagrees
  intro f
  have hf : f = Device.finish env msgs s r := rfl
  unfold Device.finish at hf
  dsimp only at hf
  split at hf <;> (rw [hf]; exact ⟨hidle', hagrees⟩)

theorem begun_agrees {d : DeviceState} {r : BeginOperationRequest lib} (hidle : Idle d.ipc)
    (hl : d.ledger.Agrees (heldByTa env msgs d.ipc.served)) (hlen : (msgs.bytes.beginOperation r).length < 2 ^ 32) :
    Idle (d.begun env msgs r).ipc ∧
      (d.begun env msgs r).ledger.Agrees (heldByTa env msgs (d.begun env msgs r).ipc.served) := by
  obtain ⟨hidle', hfate⟩ := forwardCommand_fate env kmBeginOperation msgs.formats.begun hidle hlen
  have hone : heldByTa env msgs (d.ipc.served ++ [⟨kmBeginOperation, msgs.bytes.beginOperation r⟩]) = _ :=
    (heldByTa_concat _ _).trans (holding_begin (msgs.bytes.beginOperation r))
  have hunseen : begunBy env msgs d.ipc.served.length ⟨kmBeginOperation, msgs.bytes.beginOperation r⟩ =
      (msgs.formats.begun.accepted (env.answer d.ipc.served.length ⟨kmBeginOperation, msgs.bytes.beginOperation r⟩).payload).map
        (·.opHandle) := if_pos rfl
  refine ⟨hidle', ?_⟩
  unfold DeviceState.begun Device.begin
  dsimp only
  generalize forwardCommand env msgs.formats.begun d.ipc kmBeginOperation (msgs.bytes.beginOperation r) = g at hfate hidle' ⊢
  cases hfate with
  | refused _ herror hbroke hst =>
    have hok : ¬ g.out.error = kmErrorOk := by
      rw [herror]
      decide
    simpa [hok, hbroke, hst] using hl
  | answered hbroke hserved haccepted =>
    rw [hserved, hone, hunseen, haccepted]
    by_cases hok : g.out.error = kmErrorOk
    · simpa [hok] using hl.opens g.out.rest.opHandle
    · simpa [hok, hbroke] using hl
  | failed hbroke herror _ hc =>
    rw [if_neg herror, hbroke, if_pos rfl]
    cases hb : begunBy env msgs d.ipc.served.length ⟨kmBeginOperation, msgs.bytes.beginOperation r⟩ with
    | none =>
      rw [hb] at hone
      rcases hc with hc | hc
      · rw [hc]
        exact hl
      · rw [hc, hone]
        exact hl
    | some h =>
      rw [hb] at hone
      exact hl.misses (hc.imp (congrArg _) fun hc => (congrArg _ hc).trans hone)

/-! ## Runs -/

/-- The states of a device whose process has just started, and what follows. -/
abbrev DeviceReached (env : Env) (msgs : Messages lib) : DeviceState → Prop :=
  Reach (DeviceState.next env msgs) (fun _ c => c.allowed msgs) {}

/-- What every call keeps. -/
structure InStep (env : Env) (msgs : Messages lib) (d : DeviceState) : Prop where
  idle : Idle d.ipc
  agrees : d.ledger.Agrees (heldByTa env msgs d.ipc.served)

theorem aside_configure : Aside kmConfigure := by decide

theorem InStep.aside {d : DeviceState} (hd : InStep env msgs d) (haside : Aside cmd) {req : Bytes}
    (hlen : req.length < 2 ^ 32) : InStep env msgs { d with ipc := (forwardCommand env msgs.formats.plain d.ipc cmd req).st } := by
  obtain ⟨hidle, hfate⟩ := forwardCommand_fate env cmd msgs.formats.plain hd.idle hlen
  refine ⟨hidle, ?_⟩
  dsimp only
  rw [hfate.aside haside]
  exact hd.agrees

theorem InStep.startUp {d : DeviceState} (hd : InStep env msgs d) {configure : Bytes}
    (hlen : configure.length < 2 ^ 32) :
    InStep env msgs { d with ipc := (bpInitialize env msgs d.ipc configure).2 } := by
  have hconnected : InStep env msgs { d with ipc := (bpKeymasterConnect env d.ipc).2 } := by
    refine ⟨connect_idle env hd.idle, ?_⟩
    have hserved : (bpKeymasterConnect env d.ipc).2.served = d.ipc.served := by
      unfold bpKeymasterConnect
      dsimp only
      split <;> rfl
    dsimp only
    rw [hserved]
    exact hd.agrees
  unfold bpInitialize
  dsimp only
  split
  · exact hconnected
  · exact hconnected.aside aside_configure hlen

/-- None of the methods about keys is about an operation. -/
theorem method_aside {c : KeyCall} {m : Method} (hm : c.method msgs = .ok m) : Aside m.cmd := by
  cases c with
  | addRngEntropy data =>
    simp only [KeyCall.method] at hm
    split at hm
    · cases hm
    · cases hm
      dsimp only [Device.addRngEntropy]
      decide
  | _ =>
    cases hm
    all_goals
      dsimp only [Device.generateKey, Device.importKey, Device.importWrappedKey, Device.getKeyCharacteristics,
        Device.exportKey, Device.attestKey, Device.upgradeKey, Device.getHmacSharingParameters,
        Device.computeSharedHmac, Device.verifyAuthorization, Device.deviceLocked, Device.earlyBootEnded]
      decide

theorem InStep.method {d : DeviceState} (hd : InStep env msgs d) {c : KeyCall} (hc : Fits (c.method msgs)) :
    InStep env msgs { d with ipc := (c.run env msgs d.ipc).st } := by
  unfold KeyCall.run
  cases hm : c.method msgs with
  | error e => exact hd
  | ok m =>
    rw [hm] at hc
    obtain ⟨f, hidle, hfate, hrun⟩ := m.run_fate env hd.idle hc
    refine ⟨?_, ?_⟩
    · dsimp only
      rw [hrun]
      exact hidle
    · dsimp only
      rw [hrun, hfate.aside (method_aside hm)]
      exact hd.agrees

/-- A request that was built for an operation is for the operation of the call. -/
theorem deviceUpdate_handle {allocated : Nat → lib.Param} {ps : List KeyParameter} {input : Bytes}
    {t : HardwareAuthToken} {r : UpdateOperationRequest lib}
    (hr : deviceUpdate lib allocated h ps input t = .request r) : r.opHandle = h := by
  unfold deviceUpdate pushToken at hr
  split at hr
  · cases hr
  · cases hr
    rfl

theorem deviceFinish_handle {allocated : Nat → lib.Param} {ps : List KeyParameter} {input sig : Bytes}
    {t : HardwareAuthToken} {r : FinishOperationRequest lib}
    (hr : deviceFinish lib allocated h ps input sig t = .request r) : r.opHandle = h := by
  unfold deviceFinish pushToken at hr
  split at hr
  · cases hr
  · cases hr
    rfl

theorem InStep.next {d : DeviceState} {call : DeviceCall} (hd : InStep env msgs d) (hc : call.allowed msgs) :
    InStep env msgs (d.next env msgs call) := by
  cases call with
  | startUp configure => exact hd.startUp hc
  | begin purpose key ps t =>
    simp only [DeviceCall.allowed] at hc
    simp only [DeviceState.next]
    split
    next r hr =>
      rw [hr] at hc
      obtain ⟨hidle, hagrees⟩ := begun_agrees hd.idle hd.agrees hc
      exact ⟨hidle, hagrees⟩
    all_goals exact hd
  | update h ps input t =>
    simp only [DeviceCall.allowed] at hc
    simp only [DeviceState.next]
    split
    next r hr =>
      rw [hr] at hc
      obtain ⟨hidle, hagrees⟩ := update_agrees hd.idle hd.agrees hc
      rw [deviceUpdate_handle hr] at hagrees
      exact ⟨hidle, hagrees⟩
    all_goals exact hd
  | finish h ps input sig t =>
    simp only [DeviceCall.allowed] at hc
    simp only [DeviceState.next]
    split
    next r hr =>
      rw [hr] at hc
      obtain ⟨hidle, hagrees⟩ := finish_agrees hd.idle hd.agrees hc
      rw [deviceFinish_handle hr] at hagrees
      exact ⟨hidle, hagrees⟩
    all_goals exact hd
  | abort h =>
    obtain ⟨hidle, hagrees⟩ := abort_agrees hd.idle hd.agrees h
    exact ⟨hidle, hagrees⟩
  | method call => exact hd.method hc

/-- What a run keeps. -/
theorem DeviceReached.inStep {d : DeviceState} (hd : DeviceReached env msgs d) : InStep env msgs d := by
  have hstart : InStep env msgs {} := ⟨.inl (by decide), ⟨Finset.empty_subset _, Finset.empty_subset _⟩⟩
  exact Reach.invariant hd hstart fun _ _ hd hc => hd.next hc

/-- **No operation is left behind.** However clients call the device, an
operation that they see open is held by the TA, and one that the TA holds is
open, or a call that began or ended it failed on its way. The TA is taken to hold
what a granted `BEGIN` adds, until an `UPDATE` that it refuses, a `FINISH` or an
`ABORT` (`holding`). -/
theorem operations_in_step {d : DeviceState} (hd : DeviceReached env msgs d) :
    d.ledger.opened ⊆ heldByTa env msgs d.ipc.served ∧
      heldByTa env msgs d.ipc.served ⊆ d.ledger.opened ∪ d.ledger.lost := by
  obtain ⟨_, hseen, hcovered⟩ := DeviceReached.inStep hd
  exact ⟨hseen, hcovered⟩

/-- A response of four bytes for the error, and what is behind them. -/
def afterError {α : Type} (blank : α) (rest : Bytes → α) : ResponseFormat α :=
  ⟨⟨kmErrorUnknownError, blank⟩, fun bs => (4 ≤ bs.length, ⟨toInt32 (leAt bs 0 4), rest (bs.drop 4)⟩)⟩

/-- Messages of few fields. -/
def plainMessages : Messages plainDefs where
  bytes :=
    { beginOperation := fun r => r.keyMaterial
      updateOperation := fun r => r.input
      finishOperation := fun r => r.input ++ r.signature
      generateKey := fun ps => ps.flatMap (·.blob)
      importKey := fun r => r.keyData
      importWrappedKey := fun r => r.wrappedMaterial
      getKeyCharacteristics := fun r => r.keyMaterial
      exportKey := fun _ r => r.keyMaterial
      attestKey := fun r => r.keyMaterial
      upgradeKey := fun r => r.keyMaterial
      addEntropy := fun data => data
      computeSharedHmac := fun ps => ps.flatMap (·.seed)
      verifyAuthorization := fun r => leBytes 8 r.challenge.toNat
      deviceLocked := fun _ t => leBytes 8 t.challenge.toNat }
  formats :=
    { begun := afterError ⟨0, []⟩ fun bs => ⟨.ofNat (leAt bs 0 8), []⟩
      updated := afterError ⟨0, [], []⟩ fun bs => ⟨0, [], bs⟩
      finished := afterError ⟨[], []⟩ fun bs => ⟨[], bs⟩
      generated := afterError ⟨[], [], []⟩ fun bs => ⟨bs, [], []⟩
      imported := afterError ⟨[], [], []⟩ fun bs => ⟨bs, [], []⟩
      importedWrapped := afterError ⟨[], [], []⟩ fun bs => ⟨bs, [], []⟩
      characteristics := afterError ([], []) fun _ => ([], [])
      exported := afterError [] id
      attested := afterError [] fun bs => [bs]
      upgraded := afterError [] id
      sharing := afterError ⟨[], []⟩ fun bs => ⟨bs, []⟩
      sharingCheck := afterError [] id
      verified := afterError ⟨0, 0, [], 0, []⟩ fun bs => ⟨.ofNat (leAt bs 0 8), 0, [], 0, []⟩
      plain := afterError () fun _ => () }
  allocated := fun _ => ⟨0, 0, []⟩
  fresh := fun _ => ⟨0, ⟨0⟩, []⟩
  nonce := []

theorem nothing_before : ∀ m ∈ ([] : List Bytes), stops m = false := by simp

/-- A TA that begins the operation 7 and knows no other, on a line that loses the
fourth message. -/
def oneOperation : Env where
  malloc := fun _ => true
  write := fun n => if n = 3 then .failed .EAGAIN false else .done
  readv := fun _ => none
  connect := fun _ => .ok 5
  answer := fun _ req =>
    if req.cmd = kmBeginOperation then ⟨[], leBytes 4 7 ++ leBytes 4 0 ++ leBytes 8 7, nothing_before, by decide⟩
    else if req.cmd = kmUpdateOperation then ⟨[], leBytes 4 11 ++ leBytes 4 (2 ^ 32 - 28), nothing_before, by decide⟩
    else ⟨[], leBytes 4 75 ++ leBytes 4 0, nothing_before, by decide⟩

def emptyToken : HardwareAuthToken := ⟨0, 0, 0, 0, 0, []⟩

/-- One client begins an operation, and another asks for one that is not there. -/
def twoClients : List DeviceCall := [.startUp [], .begin 0 [1] [] emptyToken, .update 9 [] [2] emptyToken]

/-- The TA holds the operation of the first, and no other. -/
theorem twoClients_held :
    heldByTa oneOperation plainMessages (twoClients.foldl (DeviceState.next oneOperation plainMessages) {}).ipc.served =
      {7} := by
  have hallowed : allowedAlong (DeviceState.next oneOperation plainMessages) (fun _ c => c.allowed plainMessages) {}
      twoClients := by decide +kernel
  have hopened : (twoClients.foldl (DeviceState.next oneOperation plainMessages) {}).ledger.opened = {7} := by
    decide +kernel
  have hlost : (twoClients.foldl (DeviceState.next oneOperation plainMessages) {}).ledger.lost = ∅ := by
    decide +kernel
  obtain ⟨hseen, hcovered⟩ := operations_in_step (Reach.start.run hallowed)
  rw [hopened] at hseen hcovered
  rw [hlost, Finset.union_empty] at hcovered
  exact hcovered.antisymm hseen

/-- The message that tells the TA to abort it is lost, and with it the operation. -/
example :
    ((twoClients ++ [DeviceCall.abort 7]).foldl (DeviceState.next oneOperation plainMessages) {}).ledger.lost = {7} := by
  decide +kernel

end LiteKeymaster
