/-
Requests and answers of the lite keymaster stay paired.

Between two calls the connection holds nothing: no chunk on the server's side
and no message on the client's. A call that succeeds reads its answer to the
last message, and a call that fails throws the connection away. So what a call
reads answers its own request.
-/
import Microtrust.Lite.KeymasterIpc

namespace LiteKeymaster

open Lib Keymaster

variable {env : Env} {deserialize : Bytes → Option Int} {s s' : State} {cmd : UInt32} {rc : Int}

/-! ## Sending -/

/-- What sending leaves alone. -/
structure Quiet (s s' : State) : Prop where
  handle : s'.handle = s.handle
  taken : s'.taken = s.taken
  reads : s'.reads = s.reads
  connects : s'.connects = s.connects

theorem Quiet.trans {s₁ s₂ : State} (h : Quiet s s₁) (h' : Quiet s₁ s₂) : Quiet s s₂ :=
  ⟨h'.handle.trans h.handle, h'.taken.trans h.taken, h'.reads.trans h.reads, h'.connects.trans h.connects⟩

theorem quiet_deliver (env : Env) (s : State) (cmd : UInt32) (payload : Bytes) :
    Quiet s (deliver env s cmd payload) := by
  unfold deliver
  dsimp only
  split <;> exact ⟨rfl, rfl, rfl, rfl⟩

@[simp] theorem setChannel_self (s : State) (ch : Channel) : (s.setChannel ch).channels s.fd = ch := by
  simp [State.setChannel]

theorem deliver_chunk (env : Env) {c : Bytes} {queue : List (Nat × Bytes)} (payload : Bytes)
    (hstop : cmd &&& stopBit ≠ 0) (hch : s.channels s.fd = ⟨c, queue⟩) :
    (deliver env s cmd payload).channels s.fd = ⟨c ++ payload, queue⟩ ∧
      (deliver env s cmd payload).served = s.served := by
  unfold deliver
  simp only [if_pos hstop, hch, setChannel_self, true_and]
  rfl

/-- The messages that answer a request. -/
def answering (env : Env) (n : Nat) (req : Request) : List (Nat × Bytes) :=
  (env.answer n req).messages.map (n, ·)

theorem deliver_last (env : Env) {c : Bytes} (payload : Bytes) (hstop : cmd &&& stopBit = 0)
    (hch : s.channels s.fd = ⟨c, []⟩) :
    (deliver env s cmd payload).channels s.fd = ⟨[], answering env s.served.length ⟨cmd, c ++ payload⟩⟩ ∧
      (deliver env s cmd payload).served = s.served ++ [⟨cmd, c ++ payload⟩] := by
  have hno : ¬ cmd &&& stopBit ≠ 0 := not_not.mpr hstop
  unfold deliver
  simp only [if_neg hno, hch, List.nil_append]
  exact ⟨setChannel_self s _, trivial⟩

/-- Everything sending one message can do. -/
theorem sendMessage_cases {payload : Bytes} (h : sendMessage env s cmd payload = (rc, s')) :
    rc < 0 ∧ Quiet s s' ∨
      rc = 0 ∧ ∃ t, Quiet s t ∧ t.channels = s.channels ∧ t.served = s.served ∧ s' = deliver env t cmd payload := by
  unfold sendMessage at h
  dsimp only at h
  split at h
  · cases h
    exact .inl ⟨Errno.neg_lt _, rfl, rfl, rfl, rfl⟩
  · split at h
    · cases h
      exact .inr ⟨rfl, { s with mallocs := s.mallocs + 1, writes := s.writes + 1 }, ⟨rfl, rfl, rfl, rfl⟩,
        rfl, rfl, rfl⟩
    · cases h
      refine .inl ⟨Errno.neg_lt _, ?_⟩
      split
      · have hq := quiet_deliver env { s with mallocs := s.mallocs + 1, writes := s.writes + 1 } cmd payload
        exact ⟨hq.handle, hq.taken, hq.reads, hq.connects⟩
      · exact ⟨rfl, rfl, rfl, rfl⟩

/-- What the server has when the whole request was sent: the request, if the
command lets it see the end of it. -/
def Sent (env : Env) (s s' : State) (cmd : UInt32) (input : Bytes) : Prop :=
  if cmd &&& stopBit = 0 then
    s'.channels s.fd = ⟨[], answering env s.served.length ⟨cmd, input⟩⟩ ∧ s'.served = s.served ++ [⟨cmd, input⟩]
  else (s'.channels s.fd).queue = [] ∧ s'.served = s.served

/-- A chunk says that another follows, whatever the command. -/
theorem stop_or (cmd : UInt32) : (cmd ||| stopBit) &&& stopBit ≠ 0 := by
  have habs : (cmd ||| stopBit) &&& stopBit = stopBit := by
    apply UInt32.toBitVec_inj.mp
    ext i hi
    simp only [UInt32.toBitVec_and, UInt32.toBitVec_or, BitVec.getElem_and, BitVec.getElem_or]
    cases stopBit.toBitVec[i] <;> simp
  rw [habs]
  decide

theorem fd_eq (h : s'.handle = s.handle) : s'.fd = s.fd := by rw [State.fd, State.fd, h]

theorem sendLast_spec {c input : Bytes} (hch : s.channels s.fd = ⟨c, []⟩)
    (h : sendMessage env s cmd input = (rc, s')) :
    Quiet s s' ∧ (rc < 0 ∨ Sent env s s' cmd (c ++ input)) := by
  rcases sendMessage_cases h with ⟨hrc, hq⟩ | ⟨-, t, hq, hchs, hserved, rfl⟩
  · exact ⟨hq, .inl hrc⟩
  · refine ⟨hq.trans (quiet_deliver ..), .inr ?_⟩
    have hfd := fd_eq hq.handle
    have htch : t.channels t.fd = ⟨c, []⟩ := by rw [hfd, hchs, hch]
    unfold Sent
    split
    next hstop =>
      obtain ⟨hch', hserved'⟩ := deliver_last env input hstop htch
      rw [hserved, hfd] at hch'
      exact ⟨hch', by rw [hserved', hserved]⟩
    next hstop =>
      obtain ⟨hch', hserved'⟩ := deliver_chunk env input hstop htch
      rw [hfd] at hch'
      exact ⟨by rw [hch'], by rw [hserved', hserved]⟩

theorem sendRequest_spec {c input : Bytes} (n : Nat) (hn : input.length ≤ n) (hch : s.channels s.fd = ⟨c, []⟩)
    (h : sendRequest env n s cmd input = (rc, s')) :
    Quiet s s' ∧ (rc < 0 ∨ Sent env s s' cmd (c ++ input)) := by
  induction n generalizing s c input with
  | zero => exact sendLast_spec hch h
  | succ n ih =>
    rw [sendRequest] at h
    split at h
    next hlong =>
      cases hfirst : sendMessage env s (cmd ||| stopBit) (input.take maxSendBufSize) with
      | mk rc₁ s₁ =>
        simp only [hfirst] at h
        rcases sendMessage_cases hfirst with ⟨hneg, hq⟩ | ⟨hz, t, hq, hchs, hserved, rfl⟩
        · rw [if_pos hneg] at h
          cases h
          exact ⟨hq, .inl hneg⟩
        · -- the chunk is on the server, and the rest follows it
          have hnot : ¬ rc₁ < 0 := by omega
          rw [if_neg hnot] at h
          have hfd := fd_eq hq.handle
          have htch : t.channels t.fd = ⟨c, []⟩ := by rw [hfd, hchs, hch]
          obtain ⟨hch₁, hserved₁⟩ := deliver_chunk env (input.take maxSendBufSize) (stop_or cmd) htch
          have hq₁ := quiet_deliver env t (cmd ||| stopBit) (input.take maxSendBufSize)
          have hfd₁ := fd_eq hq₁.handle
          rw [← hfd₁] at hch₁
          have hrest : (input.drop maxSendBufSize).length ≤ n := by
            rw [List.length_drop]
            unfold maxSendBufSize
            omega
          obtain ⟨hq₂, hsent⟩ := ih hrest hch₁ h
          refine ⟨(hq.trans hq₁).trans hq₂, hsent.imp_right fun hs => ?_⟩
          rw [List.append_assoc, List.take_append_drop] at hs
          unfold Sent at hs ⊢
          rwa [hfd₁, hfd, hserved₁, hserved] at hs
    next => exact sendLast_spec hch h

/-! ## Reading -/

/-- Every message is either taken or left, in order. -/
theorem readResponse_split (env : Env) (cmd : UInt32) (outMax reads : Nat) (queue : List (Nat × Bytes)) (out : Bytes) :
    let r := readResponse env cmd outMax reads queue out
    r.taken ++ r.left = queue := by
  induction queue generalizing reads out with
  | nil => rfl
  | cons m queue ih =>
    rw [readResponse]
    split
    · rfl
    · split_ifs
      · rfl
      · rfl
      · rfl
      · rfl
      · simp only [List.cons_append]
        rw [ih]

/-- An answer that is read without an error is read to its end. -/
theorem readResponse_answer {outMax reads n : Nat} {out last : Bytes} {before : List Bytes}
    (hbefore : ∀ m ∈ before, stops m = false) (hlast : stops last = true)
    (hrc : 0 ≤ (readResponse env cmd outMax reads ((before ++ [last]).map (n, ·)) out).rc) :
    (readResponse env cmd outMax reads ((before ++ [last]).map (n, ·)) out).left = [] ∧
      (readResponse env cmd outMax reads ((before ++ [last]).map (n, ·)) out).out =
        out ++ (before ++ [last]).flatMap (·.drop headerSize) := by
  have herr : ∀ e : Errno, ¬ 0 ≤ e.neg := fun e => Int.not_le.mpr (Errno.neg_lt e)
  induction before generalizing reads out with
  | nil =>
    simp only [List.nil_append, List.map_cons, List.map_nil] at hrc ⊢
    unfold readResponse at hrc ⊢
    split at hrc
    · exact absurd hrc (herr _)
    · split_ifs at hrc ⊢
      · exact absurd hrc (herr _)
      · exact absurd hrc (herr _)
      · exact absurd hrc (herr _)
      · simp
  | cons m before ih =>
    have hm := hbefore m List.mem_cons_self
    simp only [List.cons_append, List.map_cons] at hrc ⊢
    unfold readResponse at hrc ⊢
    split at hrc
    · exact absurd hrc (herr _)
    · simp only [hm, Bool.false_eq_true, if_false] at hrc ⊢
      split_ifs at hrc ⊢
      · exact absurd hrc (herr _)
      · exact absurd hrc (herr _)
      · exact absurd hrc (herr _)
      · obtain ⟨hleft, hout⟩ := ih (fun m' hm' => hbefore m' (List.mem_cons_of_mem m hm')) hrc
        refine ⟨hleft, hout.trans ?_⟩
        simp

/-! ## A call -/

/-- Between two calls there is no connection, or one that holds nothing. -/
def Idle (s : State) : Prop := s.handle < 0 ∨ s.channels s.fd = ⟨[], []⟩

/-- What a call may do to the state that the next one finds. -/
structure Called (env : Env) (s : State) (cmd : UInt32) (input : Bytes) (rc : Int) (out : Bytes) (s' : State) :
    Prop where
  answered : 0 ≤ rc → s'.served = s.served ++ [⟨cmd, input⟩] ∧
    out = (env.answer s.served.length ⟨cmd, input⟩).payload ∧ Idle s'
  taken : ∃ new, s'.taken = s.taken ++ new ∧
    ∀ m ∈ new, s.served.length ≤ m.1 ∧ s'.served[m.1]? = some ⟨cmd, input⟩
  connects : s'.connects = s.connects

/-- The state after the answer was read. -/
def afterRead (s : State) (r : ReadEnd) : State :=
  { s.setChannel { s.channels s.fd with queue := r.left } with reads := r.reads, taken := s.taken ++ r.taken }

/-- The second half of a call, once the request is on the server. -/
theorem read_spec {input : Bytes} (outMax : Nat) {s₁ : State} (hq : Quiet s s₁) (hsent : Sent env s s₁ cmd input) :
    let r := readResponse env cmd outMax s₁.reads (s₁.channels s₁.fd).queue []
    Called env s cmd input r.rc r.out (afterRead s₁ r) := by
  intro r
  have hsplit : r.taken ++ r.left = (s₁.channels s₁.fd).queue := readResponse_split ..
  have hfd := fd_eq hq.handle
  unfold Sent at hsent
  split at hsent
  next hstop =>
    obtain ⟨hch, hserved⟩ := hsent
    have hqueue : (s₁.channels s₁.fd).queue = answering env s.served.length ⟨cmd, input⟩ := by rw [hfd, hch]
    refine ⟨?_, ⟨r.taken, by rw [← hq.taken]; rfl, ?_⟩, hq.connects⟩
    · intro hrc
      have hread : r = readResponse env cmd outMax s₁.reads
          (((env.answer s.served.length ⟨cmd, input⟩).before ++
            [(env.answer s.served.length ⟨cmd, input⟩).last]).map (s.served.length, ·)) [] := by
        show readResponse env cmd outMax s₁.reads (s₁.channels s₁.fd).queue [] = _
        rw [hqueue]
        rfl
      rw [hread] at hrc
      obtain ⟨hleft, hout⟩ := readResponse_answer (env.answer s.served.length ⟨cmd, input⟩).goesOn
        (env.answer s.served.length ⟨cmd, input⟩).ends hrc
      rw [← hread] at hleft hout
      refine ⟨hserved, hout, .inr ?_⟩
      have hch' : (afterRead s₁ r).channels s₁.fd = { s₁.channels s₁.fd with queue := r.left } :=
        setChannel_self s₁ _
      rw [show (afterRead s₁ r).fd = s₁.fd from rfl, hch', hleft, hfd, hch]
    · intro m hm
      have hmem : m ∈ answering env s.served.length ⟨cmd, input⟩ := by
        rw [← hqueue, ← hsplit]
        exact List.mem_append_left _ hm
      obtain ⟨msg, _, rfl⟩ := List.mem_map.mp hmem
      refine ⟨le_refl _, ?_⟩
      show s₁.served[s.served.length]? = _
      rw [hserved]
      simp
  next hstop =>
    -- the server waits for more, so there is nothing to read
    obtain ⟨hempty, _⟩ := hsent
    rw [hfd, hempty] at hsplit
    have hnil : r.taken = [] := (List.append_eq_nil_iff.mp hsplit).1
    have hneg : r.rc < 0 := by
      have hr : r = readResponse env cmd outMax s₁.reads [] [] := by
        show readResponse env cmd outMax s₁.reads (s₁.channels s₁.fd).queue [] = _
        rw [hfd, hempty]
      rw [hr]
      exact Errno.neg_lt _
    refine ⟨fun hrc => absurd hrc (by omega), ⟨[], ?_, by simp⟩, hq.connects⟩
    show s₁.taken ++ r.taken = _
    rw [hnil, hq.taken]

theorem call_spec {input out : Bytes} {outMax : Nat} (hidle : Idle s)
    (h : bpKeymasterCall env s cmd input outMax = (rc, out, s')) :
    Called env s cmd input rc out s' ∧ (s.handle < 0 → rc < 0 ∧ s' = s) := by
  unfold bpKeymasterCall at h
  by_cases hhandle : s.handle < 0
  · rw [if_pos hhandle] at h
    cases h
    have hneg := Errno.neg_lt .EINVAL
    exact ⟨⟨fun hrc => absurd hrc (by omega), ⟨[], by simp, by simp⟩, rfl⟩, fun _ => ⟨hneg, rfl⟩⟩
  · refine ⟨?_, fun hneg => absurd hneg hhandle⟩
    have hch : s.channels s.fd = ⟨[], []⟩ := hidle.resolve_left hhandle
    rw [if_neg hhandle] at h
    cases hsend : sendRequest env input.length s cmd input with
    | mk rc₁ s₁ =>
      obtain ⟨hq, hsent⟩ := sendRequest_spec input.length (le_refl _) hch hsend
      have hfd := fd_eq hq.handle
      simp only [hsend] at h
      by_cases hneg : rc₁ < 0
      · rw [if_pos hneg] at h
        cases h
        exact ⟨fun hrc => absurd hrc (by omega), ⟨[], by rw [hq.taken, List.append_nil], by simp⟩, hq.connects⟩
      · rw [if_neg hneg] at h
        have hs := hsent.resolve_left hneg
        rw [List.nil_append] at hs
        cases h
        exact read_spec outMax hq hs

/-! ## Runs -/

/-- A command and the answers are paired. What is deserialized is what the
server sent in answer to the request of this very call; every message taken
answers a request completed in this call, which is the one it sent; and without
a connection the command fails without a read, and leaves none unless a
connect succeeds. -/
structure Paired (env : Env) (s : State) (cmd : UInt32) (input : Bytes) (o : Outcome) : Prop where
  response : ∀ b, o.deserialized = some b → o.st.served = s.served ++ [⟨cmd, input⟩] ∧
    b = (env.answer s.served.length ⟨cmd, input⟩).payload
  taken : ∃ new, o.st.taken = s.taken ++ new ∧
    ∀ m ∈ new, s.served.length ≤ m.1 ∧ o.st.served[m.1]? = some ⟨cmd, input⟩
  disconnected : s.handle < 0 → o.deserialized = none ∧ o.ret ≠ kmErrorOk ∧ o.st.reads = s.reads
  unconnected : (o.deserialized = none ∧ o.st.connects ≠ s.connects ∨ s.handle < 0) →
    (∀ fd, env.connect s.connects ≠ .ok fd) → o.st.handle < 0

/-- What a reset leaves. -/
theorem reset_spec (env : Env) (s : State) :
    let s' := (bpKeymasterConnect env (bpKeymasterDisconnect s)).2
    s'.served = s.served ∧ s'.taken = s.taken ∧ s'.reads = s.reads ∧ Idle s' ∧
      ((∀ fd, env.connect s.connects ≠ .ok fd) → s'.handle < 0) := by
  have hd : (bpKeymasterDisconnect s).served = s.served ∧ (bpKeymasterDisconnect s).taken = s.taken ∧
      (bpKeymasterDisconnect s).reads = s.reads ∧ (bpKeymasterDisconnect s).connects = s.connects ∧
      (bpKeymasterDisconnect s).handle < 0 := by
    unfold bpKeymasterDisconnect
    dsimp only
    split <;> exact ⟨rfl, rfl, rfl, rfl, by decide⟩
  obtain ⟨hserved, htaken, hreads, hconnects, hhandle⟩ := hd
  unfold bpKeymasterConnect
  rw [hconnects]
  cases hc : env.connect s.connects with
  | error e => exact ⟨hserved, htaken, hreads, .inl hhandle, fun _ => hhandle⟩
  | ok fd => exact ⟨hserved, htaken, hreads, .inr (by simp [State.fd]), fun hno => absurd rfl (hno fd)⟩

theorem exchange_spec (hidle : Idle s) (input : Bytes) :
    Paired env s cmd input (exchange env deserialize s cmd input) ∧
      Idle (exchange env deserialize s cmd input).st := by
  unfold exchange
  cases hcall : bpKeymasterCall env s cmd input bufSize with
  | mk rc t =>
    obtain ⟨out, s₁⟩ := t
    obtain ⟨hcalled, hdisc⟩ := call_spec hidle hcall
    dsimp only
    split
    next hneg =>
      obtain ⟨hserved, htaken, hreads, hidle', hhandle⟩ := reset_spec env s₁
      obtain ⟨new, hnew, hown⟩ := hcalled.taken
      rw [hcalled.connects] at hhandle
      refine ⟨⟨?_, ⟨new, htaken.trans hnew, ?_⟩, ?_, ?_⟩, hidle'⟩
      · intro b hb
        cases hb
      · dsimp only
        rwa [hserved]
      · intro hh
        refine ⟨rfl, translateError_ne_ok hneg, ?_⟩
        dsimp only
        rw [hreads, (hdisc hh).2]
      · intro _ hno
        exact hhandle hno
    next hpos =>
      have hconn : ¬ s.handle < 0 := fun hh => hpos (hdisc hh).1
      obtain ⟨hserved, hout, hidle'⟩ := hcalled.answered (by omega)
      refine ⟨⟨?_, hcalled.taken, fun hh => absurd hh hconn, ?_⟩, hidle'⟩
      · intro b hb
        cases hb
        exact ⟨hserved, hout⟩
      · intro hor
        rcases hor with ⟨hd, _⟩ | hh
        · cases hd
        · exact absurd hh hconn

theorem send_spec (hidle : Idle s) (req : Bytes) :
    Paired env s cmd (sentBytes req) (bpKeymasterSend env deserialize s cmd req) ∧
      Idle (bpKeymasterSend env deserialize s cmd req).st := by
  unfold bpKeymasterSend
  split
  · -- too long: nothing happens
    have herror : beanpodKmInvalidInputLength ≠ kmErrorOk := by decide
    refine ⟨⟨?_, ⟨[], by simp, by simp⟩, fun _ => ⟨rfl, herror, rfl⟩, ?_⟩, hidle⟩
    · intro b hb
      cases hb
    · intro hor _
      rcases hor with ⟨_, hne⟩ | hh
      · exact absurd rfl hne
      · exact hh
  · exact exchange_spec hidle (sentBytes req)

theorem connect_idle (env : Env) (h : Idle s) : Idle (bpKeymasterConnect env s).2 := by
  unfold bpKeymasterConnect
  cases env.connect s.connects with
  | error e => exact h
  | ok fd => exact .inr (by simp [State.fd])

theorem Reached.idle (h : Reached env deserialize s) : Idle s := by
  refine Reach.invariant h (.inl (by decide)) ?_
  intro s op hidle _
  cases op with
  | connect => exact connect_idle env hidle
  | disconnect => exact .inl (show (-1 : Int) < 0 by decide)
  | send cmd req => exact (send_spec hidle req).2
  | sendNoRequest cmd => exact (exchange_spec hidle []).2

/-- In every state a run reaches, both forms of the command are paired with
their answers. -/
theorem answers_paired (h : Reached env deserialize s) (cmd : UInt32) (req : Bytes) :
    Paired env s cmd (sentBytes req) (bpKeymasterSend env deserialize s cmd req) ∧
      Paired env s cmd [] (bpKeymasterSendNoRequest env deserialize s cmd) :=
  ⟨(send_spec (Reached.idle h) req).1, (exchange_spec (Reached.idle h) []).1⟩

/-- An environment in which every call succeeds, and a server that answers every
request with the same message. -/
def steady : Env where
  malloc := fun _ => true
  write := fun _ => .done
  readv := fun _ => none
  connect := fun _ => .ok 5
  answer := fun _ _ => ⟨[], leBytes 4 7 ++ [0xAB, 0xCD], by simp, by decide⟩

/-- The first read is interrupted, and the first answer is not like the others. -/
def interrupted : Env :=
  { steady with
    readv := fun n => if n = 0 then some .EINTR else none
    answer := fun n _ => ⟨[], leBytes 4 7 ++ [if n = 0 then 0xAB else 0xCD], by simp, by split <;> decide⟩ }

/-- A client whose first command was sent and answered, but not read: the
connection was reset. -/
def afterReset : State :=
  step interrupted (fun _ => some kmErrorOk) (step interrupted (fun _ => some kmErrorOk) {} .connect) (.send 4 [9])

/-- The next command is answered, and not with the answer to the first. -/
theorem paired_after_reset :
    Reached interrupted (fun _ => some kmErrorOk) afterReset ∧ afterReset.served.length = 1 ∧ afterReset.taken = [] ∧
      (bpKeymasterSend interrupted (fun _ => some kmErrorOk) afterReset 4 [1, 2, 3]).deserialized = some [0xCD] ∧
      Paired interrupted afterReset 4 (sentBytes [1, 2, 3])
        (bpKeymasterSend interrupted (fun _ => some kmErrorOk) afterReset 4 [1, 2, 3]) := by
  have h : Reached interrupted (fun _ => some kmErrorOk) afterReset :=
    .step (.send 4 [9]) (.step Op.connect .start trivial) trivial
  exact ⟨h, by decide, by decide, by decide, (answers_paired h 4 [1, 2, 3]).1⟩

end LiteKeymaster
