/-
The keybox of the lite tree arrives whole or the installation stops.

Installing is a script: the decryption key, the length, the chunks, and the
command to set the keybox. The code makes the calls of the script in order and
stops at the first that fails, so everything that is asked of an installation
is read off the script.
-/
import Microtrust.Lite.Kmsetkey

namespace Kmsetkey

open Lib

variable {env : Env} {s s' : State} {rc : Int} {calls calls' : List Call}

/-! ## The script -/

def maxPayload : Nat := maxMsgSize - ipcMsgSize - headerSize

/-- The chunks of what is left to send: only the last one is to be answered
with `DONE_FLAG`. -/
def chunks (rest : Bytes) : List Call :=
  if rest = [] then []
  else ⟨.keyBuf, rest.length ≤ maxPayload, rest.take maxPayload⟩ :: chunks (rest.drop maxPayload)
termination_by rest.length
decreasing_by
  have hpos : 0 < rest.length := List.length_pos_of_ne_nil ‹_›
  simp only [List.length_drop, maxPayload, maxMsgSize, ipcMsgSize, headerSize]
  omega

def decryptCall : Call := ⟨.setDecryptKey, true, inputEkkbPub ++ inputPkb⟩
def lenCall (peakb : Bytes) : Call := ⟨.keyLen, true, leBytes 4 peakb.length⟩
def setCall : Call := ⟨.setKey, true, []⟩

def script (peakb : Bytes) : List Call := decryptCall :: lenCall peakb :: (chunks peakb ++ [setCall])

/-- The keybox bytes that some calls carry. -/
def sent (calls : List Call) : Bytes := (calls.filter (·.cmd = .keyBuf)).flatMap Call.payload

def Server.take (srv : Server) (c : Call) : Server := srv.step ⟨c.cmd, c.payload⟩

/-- The answer is the one the call expects. -/
def Acked (c : Call) (reply : Option Bytes) : Prop :=
  ∃ out, reply = some out ∧ headerSize ≤ out.length ∧ leAt out 0 4 = ackCode c.cmd c.finish

@[simp] theorem sent_append (calls calls' : List Call) : sent (calls ++ calls') = sent calls ++ sent calls' := by
  simp [sent]

theorem chunks_cmd (rest : Bytes) : ∀ c ∈ chunks rest, c.cmd = .keyBuf ∧ c.payload.length ≤ maxPayload := by
  induction rest using chunks.induct with
  | case1 =>
    rw [chunks, if_pos rfl]
    exact fun c hc => absurd hc List.not_mem_nil
  | case2 rest hne ih =>
    rw [chunks, if_neg hne]
    refine List.forall_mem_cons.mpr ⟨⟨rfl, ?_⟩, ih⟩
    exact List.length_take_le ..

theorem sent_chunks (rest : Bytes) : sent (chunks rest) = rest := by
  induction rest using chunks.induct with
  | case1 =>
    rw [chunks, if_pos rfl]
    rfl
  | case2 rest hne ih =>
    rw [chunks, if_neg hne]
    have hcons : ∀ c cs, c.cmd = .keyBuf → sent (c :: cs) = c.payload ++ sent cs := by
      intro c cs hc
      simp [sent, hc]
    rw [hcons _ _ rfl, ih, List.take_append_drop]

theorem sent_script (peakb : Bytes) : sent (script peakb) = peakb := by
  have hscript : script peakb = [decryptCall, lenCall peakb] ++ chunks peakb ++ [setCall] := rfl
  rw [hscript, sent_append, sent_append, sent_chunks]
  simp [sent, decryptCall, lenCall, setCall]

/-- What the server holds after some calls. -/
theorem received_foldl (srv : Server) (calls : List Call) :
    (calls.foldl Server.take srv).received = srv.received ++ sent calls := by
  induction calls generalizing srv with
  | nil => simp [sent]
  | cons c calls ih =>
    rw [List.foldl_cons, ih]
    cases hc : c.cmd <;> simp [Server.take, Server.step, sent, hc]

theorem inputEkkbPub_length : inputEkkbPub.length = 256 := by decide +kernel

theorem inputPkb_length : inputPkb.length = 129 := by decide +kernel

theorem script_size (peakb : Bytes) :
    ∀ c ∈ script peakb, headerSize + c.payload.length ≤ maxMsgSize - ipcMsgSize := by
  intro c hc
  simp only [script, List.mem_cons, List.mem_append, List.not_mem_nil, or_false] at hc
  rcases hc with rfl | rfl | hc | rfl
  · simp only [decryptCall, List.length_append, inputEkkbPub_length, inputPkb_length]
    decide
  · show 4 + (leBytes 4 peakb.length).length ≤ 4080
    simp [leBytes]
  · have hle := (chunks_cmd peakb c hc).2
    simp only [maxPayload, maxMsgSize, ipcMsgSize, headerSize] at hle ⊢
    omega
  · decide

/-- The command to set the keybox comes after all the others. -/
theorem script_setKey {peakb : Bytes} {pre post : List Call} {c : Call} (h : script peakb = pre ++ c :: post)
    (hc : c.cmd = .setKey) : sent pre = peakb := by
  have hfront : ∀ x ∈ decryptCall :: lenCall peakb :: chunks peakb, x.cmd ≠ .setKey := by
    intro x hx
    rcases List.mem_cons.mp hx with rfl | hx
    · decide
    rcases List.mem_cons.mp hx with rfl | hx
    · exact Cmd.noConfusion
    · rw [(chunks_cmd peakb x hx).1]
      decide
  have hscript : script peakb = (decryptCall :: lenCall peakb :: chunks peakb) ++ [setCall] := rfl
  rcases List.eq_nil_or_concat post with rfl | ⟨post', y, rfl⟩
  · have hpre := (List.append_inj' (hscript.symm.trans h) rfl).1
    have hsent : sent pre ++ sent [setCall] = peakb := by
      rw [← hpre, ← sent_append, ← hscript, sent_script]
    rwa [show sent [setCall] = [] from rfl, List.append_nil] at hsent
  · have hmem : c ∈ decryptCall :: lenCall peakb :: chunks peakb := by
      rw [List.concat_eq_append, ← List.cons_append, ← List.append_assoc, hscript] at h
      rw [(List.append_inj' h rfl).1]
      simp
    exact absurd hc (hfront c hmem)

/-! ## The calls -/

/-- Made one after the other, the calls ended with `rc`. -/
structure Makes (calls : List Call) (s : State) (rc : Int) (s' : State) : Prop where
  log : ∃ es, s'.log = s.log ++ es ∧ Follows Server.take Acked s.server calls es (decide (rc = 0))
  server : rc = 0 → s'.server = calls.foldl Server.take s.server
  rc_le : rc ≤ 0

theorem Makes.append {s₁ : State} (h : Makes calls s 0 s₁) (h' : Makes calls' s₁ rc s') :
    Makes (calls ++ calls') s rc s' := by
  obtain ⟨es, hes, hf⟩ := h.log
  obtain ⟨es', hes', hf'⟩ := h'.log
  rw [h.server rfl] at hf'
  refine ⟨⟨es ++ es', ?_, hf.append hf'⟩, ?_, h'.rc_le⟩
  · rw [hes', hes, List.append_assoc]
  · intro hrc
    rw [h'.server hrc, h.server rfl, List.foldl_append]

/-- A failure ends the script early. -/
theorem Makes.cut (h : Makes calls s rc s') (hrc : rc < 0) : Makes (calls ++ calls') s rc s' := by
  have hne : ¬ rc = 0 := by omega
  obtain ⟨es, hes, hf⟩ := h.log
  rw [decide_eq_false hne] at hf
  refine ⟨⟨es, hes, ?_⟩, fun h => absurd h hne, h.rc_le⟩
  rw [decide_eq_false hne]
  exact hf.cut

theorem Makes.exit {s₁ : State} {rc₁ : Int} (h : Makes calls s rc₁ s₁) (he : exit rc₁ s₁ = (rc, s')) :
    rc = rc₁ ∧ Makes calls s rc s' := by
  have hrc : (if rc₁ < 0 then rc₁ else 0) = rc₁ := by
    have hle := h.rc_le
    split <;> omega
  unfold Kmsetkey.exit at he
  rw [hrc] at he
  cases he
  exact ⟨rfl, h.log, h.server, h.rc_le⟩

/-- The next calls are made only when these succeeded. -/
theorem Makes.orExit {s₁ : State} {rc₁ : Int} {next : Int × State} (h : Makes calls s rc₁ s₁)
    (hres : (if rc₁ < 0 then Kmsetkey.exit rc₁ s₁ else next) = (rc, s'))
    (hnext : next = (rc, s') → Makes calls' s₁ rc s') : Makes (calls ++ calls') s rc s' := by
  split at hres
  next hneg =>
    obtain ⟨rfl, hm⟩ := h.exit hres
    exact hm.cut hneg
  next hneg =>
    have hz : rc₁ = 0 := by have := h.rc_le; omega
    subst hz
    exact h.append (hnext hres)

/-- A call that made no exchange, one that failed, and one that was answered as
it should be. -/
theorem makes_one {c : Call} (hrc : rc ≤ 0)
    (h : rc < 0 ∧ s'.log = s.log ∨
      ∃ reply, s'.log = s.log ++ [⟨c, s.server, reply⟩] ∧
        (rc = 0 → Acked c reply ∧ s'.server = s.server.take c)) : Makes [c] s rc s' := by
  rcases h with ⟨hneg, hlog⟩ | ⟨reply, hlog, hok⟩
  · have hne : ¬ rc = 0 := by omega
    refine ⟨⟨[], by rw [hlog, List.append_nil], ?_⟩, fun h => absurd h hne, hrc⟩
    rw [decide_eq_false hne]
    exact .stop ..
  · refine ⟨⟨_, hlog, ?_⟩, fun h => (hok h).2, hrc⟩
    by_cases hz : rc = 0
    · rw [decide_eq_true hz]
      exact .next (hok hz).1 (.done _)
    · rw [decide_eq_false hz]
      exact .fail ..

theorem write_spec {req : Request} {e : Option Errno} (h : write env s req = (e, s')) :
    s'.log = s.log ∧ (e = none → s'.server = s.server.step req) := by
  unfold write at h
  dsimp only at h
  split at h
  · cases h
    exact ⟨rfl, fun _ => rfl⟩
  · cases h
    refine ⟨?_, fun h => nomatch h⟩
    split <;> rfl

theorem read_spec {out : Except Errno Bytes} (h : read env s = (out, s')) :
    s'.log = s.log ∧ s'.server = s.server := by
  unfold read at h
  dsimp only at h
  split at h
  · cases h
    exact ⟨rfl, rfl⟩
  · cases h
    exact ⟨rfl, rfl⟩
  · split at h
    · cases h
      exact ⟨rfl, rfl⟩
    · cases h
      exact ⟨rfl, rfl⟩

theorem kmsetkeyCall_makes {cmd : Cmd} {finish : Bool} {input : Bytes}
    (h : kmsetkeyCall env s cmd finish input = (rc, s')) : Makes [⟨cmd, finish, input⟩] s rc s' := by
  have hneg : ∀ e : Errno, e.neg ≠ 0 := fun e => (Errno.neg_lt e).ne
  unfold kmsetkeyCall at h
  split at h
  · cases h
    exact makes_one (Errno.neg_lt _).le (.inl ⟨Errno.neg_lt _, rfl⟩)
  dsimp only [alloc] at h
  cases ha : env.alloc s.allocs with
  | false =>
    simp only [ha] at h
    cases h
    exact makes_one (Errno.neg_lt _).le (.inl ⟨Errno.neg_lt _, rfl⟩)
  | true =>
    simp only [ha] at h
    split at h
    next e s₁ hw =>
      cases h
      obtain ⟨hlog, -⟩ := write_spec hw
      exact makes_one (Errno.neg_lt _).le
        (.inr ⟨none, by simp [note, hlog], fun h => absurd h (hneg _)⟩)
    next s₁ hw =>
      obtain ⟨hlog, hserver⟩ := write_spec hw
      split at h
      next e s₂ hr =>
        cases h
        obtain ⟨hlog', -⟩ := read_spec hr
        exact makes_one (Errno.neg_lt _).le
          (.inr ⟨none, by simp [note, hlog', hlog], fun h => absurd h (hneg _)⟩)
      next out s₂ hr =>
        obtain ⟨hlog', hserver'⟩ := read_spec hr
        have hnote : (note s₂ ⟨⟨cmd, finish, input⟩, s.server, some out⟩).log =
            s.log ++ [⟨⟨cmd, finish, input⟩, s.server, some out⟩] := by
          simp [note, hlog', hlog]
        split at h
        · cases h
          exact makes_one (Errno.neg_lt _).le (.inr ⟨some out, hnote, fun h => absurd h (hneg _)⟩)
        next hlen =>
          split at h
          · cases h
            exact makes_one (Errno.neg_lt _).le (.inr ⟨some out, hnote, fun h => absurd h (hneg _)⟩)
          next hack =>
            cases h
            refine makes_one le_rfl (.inr ⟨some out, hnote, fun _ => ⟨⟨out, rfl, ?_, ?_⟩, ?_⟩⟩)
            · omega
            · exact not_not.mp hack
            · exact hserver'.trans (hserver rfl)

theorem decryptKeyInstall_makes (h : decryptKeyInstall env s = (rc, s')) : Makes [decryptCall] s rc s' := by
  unfold decryptKeyInstall at h
  dsimp only [alloc] at h
  cases ha : env.alloc s.allocs with
  | false =>
    simp only [ha] at h
    cases h
    exact makes_one (by decide) (.inl ⟨by decide, rfl⟩)
  | true =>
    simp only [ha] at h
    have hm := kmsetkeyCall_makes h
    exact ⟨hm.log, hm.server, hm.rc_le⟩

/-- Offsets against what is left: the chunk that starts at `offset` is the
first of the rest. -/
theorem chunk_at {peakb : Keybox} {offset : Nat} (h : offset < peakb.1.length) :
    chunks (peakb.1.drop offset) =
      ⟨.keyBuf, if nextOffset peakb.1.length offset < peakb.1.length then false else true,
        (peakb.1.drop offset).take (payloadLen peakb.1.length offset)⟩ ::
        chunks (peakb.1.drop (nextOffset peakb.1.length offset)) := by
  have hne : peakb.1.drop offset ≠ [] := by
    rw [Ne, List.drop_eq_nil_iff]
    omega
  have hlen : (peakb.1.drop offset).length = peakb.1.length - offset := List.length_drop ..
  rw [chunks, if_neg hne, nextOffset_eq peakb.2 h, hlen, List.drop_drop]
  by_cases hlast : peakb.1.length - offset < maxPayload
  · have hpay : payloadLen peakb.1.length offset = peakb.1.length - offset := if_pos hlast
    have hnext : ¬ offset + (peakb.1.length - offset) < peakb.1.length := by omega
    have hrest : ∀ n, peakb.1.length ≤ n → peakb.1.drop n = [] := fun n hn => List.drop_eq_nil_of_le hn
    rw [hpay, if_neg hnext, decide_eq_true hlast.le, List.take_of_length_le (by omega),
      List.take_of_length_le (by omega), hrest (offset + maxPayload) (by omega),
      hrest (offset + (peakb.1.length - offset)) (by omega)]
  · have hpay : payloadLen peakb.1.length offset = maxPayload := if_neg hlast
    have hfinish : decide (peakb.1.length - offset ≤ maxPayload) =
        if offset + maxPayload < peakb.1.length then false else true := by
      split
      · exact decide_eq_false (by omega)
      · exact decide_eq_true (by omega)
    rw [hpay, hfinish]

theorem keyBufLoop_makes {peakb : Keybox} {offset : Nat} (h : keyBufLoop env peakb offset s = (rc, s')) :
    Makes (chunks (peakb.1.drop offset)) s rc s' := by
  fun_induction keyBufLoop env peakb offset s with
  | case1 offset s hlt len next finish rc₁ s₁ hcall hneg =>
    cases h
    rw [chunk_at hlt]
    exact (kmsetkeyCall_makes hcall).cut hneg
  | case2 offset s hlt len next finish rc₁ s₁ hcall hok ih =>
    rw [chunk_at hlt]
    have hz : rc₁ = 0 := by have := (kmsetkeyCall_makes hcall).rc_le; omega
    subst hz
    exact (kmsetkeyCall_makes hcall).append (ih h)
  | case3 offset s hend =>
    cases h
    rw [List.drop_eq_nil_of_le (by omega), chunks, if_pos rfl]
    exact ⟨⟨[], by rw [List.append_nil], .done _⟩, fun _ => rfl, le_rfl⟩

/-- The installation follows its script, from a server that holds nothing. -/
theorem attestKeyInstall_follows (env : Env) (peakb : Keybox) :
    Follows Server.take Acked {} (script peakb.1) (attestKeyInstall env peakb).2.log
      (decide ((attestKeyInstall env peakb).1 = 0)) := by
  cases h : attestKeyInstall env peakb with
  | mk rc s =>
  unfold attestKeyInstall at h
  split at h
  next e hconn =>
    cases h
    have hne : ¬ e.neg = 0 := (Errno.neg_lt e).ne
    rw [decide_eq_false hne]
    exact .stop ..
  next handle hconn =>
    have hm : Makes (script peakb.1) { handle } rc s := by
      refine (decryptKeyInstall_makes rfl).orExit h fun h => ?_
      refine (kmsetkeyCall_makes rfl).orExit h fun h => ?_
      refine (keyBufLoop_makes rfl).orExit h fun h => ?_
      exact ((kmsetkeyCall_makes rfl).exit h).2
    obtain ⟨es, hes, hf⟩ := hm.log
    rw [show s.log = es from hes]
    exact hf

/-- **An installation delivers the keybox or stops.** However the transport
behaves, no message is longer than the channel takes, the chunks carry a prefix
of the keybox, the server is told to set the keybox only when it holds the
whole of it and has answered every call before as it should, and success means
that the whole script was answered so. -/
theorem installs_exactly (env : Env) (peakb : Keybox) :
    let res := attestKeyInstall env peakb
    (∀ x ∈ res.2.log, headerSize + x.call.payload.length ≤ maxMsgSize - ipcMsgSize) ∧
      sent (res.2.log.map Entry.call) <+: peakb.1 ∧
      (∀ pre x post, res.2.log = pre ++ x :: post → x.call.cmd = .setKey →
        x.before.received = peakb.1 ∧ sent (pre.map Entry.call) = peakb.1 ∧
          ∀ y ∈ pre, Acked y.call y.reply) ∧
      (res.1 = 0 → res.2.log.map Entry.call = script peakb.1 ∧ ∀ x ∈ res.2.log, Acked x.call x.reply) := by
  intro res
  have hf := attestKeyInstall_follows env peakb
  obtain ⟨rest, hrest⟩ := hf.calls
  refine ⟨?_, ?_, ?_, ?_⟩
  · intro x hx
    refine script_size peakb.1 x.call ?_
    rw [← hrest]
    exact List.mem_append_left _ (List.mem_map_of_mem hx)
  · exact ⟨sent rest, by rw [← sent_append, hrest, sent_script]⟩
  · intro pre x post hlog hset
    rw [show (attestKeyInstall env peakb).2.log = pre ++ x :: post from hlog] at hf hrest
    obtain ⟨hacked, hbefore⟩ := hf.entry
    have hscript : script peakb.1 = pre.map Entry.call ++ x.call :: (post.map Entry.call ++ rest) := by
      rw [← hrest]
      simp
    have hsent := script_setKey hscript hset
    refine ⟨?_, hsent, hacked⟩
    rw [hbefore, received_foldl, hsent]
    rfl
  · intro hrc
    rw [decide_eq_true hrc] at hf
    exact hf.complete

/-! ## An installation that works -/

/-- Nothing fails, and every command but a chunk, whose header is the server's
own, is answered with `DONE_FLAG`. -/
structure Works (env : Env) : Prop where
  connect : ∃ handle, env.connect = .ok handle ∧ 0 < handle
  alloc : ∀ n, env.alloc n = true
  write : ∀ n, env.write n = .done
  read : ∀ n, env.read n = none
  reply : ∀ n req, env.reply n req = if req.cmd = .keyBuf then [] else leBytes 4 (ackCode req.cmd true)

/-- Between two calls: connected, and no answer is on its way. -/
structure Ready (s : State) (srv : Server) : Prop where
  handle : 0 < s.handle
  queue : s.queue = []
  server : s.server = srv

theorem leAt_ackCode (cmd : Cmd) (finish : Bool) :
    leAt (leBytes 4 (ackCode cmd finish)) 0 4 = ackCode cmd finish := by
  cases cmd <;> cases finish <;> decide

/-- A call whose flag is the server's is answered. -/
theorem kmsetkeyCall_works {srv : Server} {c : Call} (hw : Works env) (hs : Ready s srv)
    (hfinish : c.finish = if c.cmd = .keyBuf then decide ((srv.take c).declared ≤ (srv.take c).received.length) else true) :
    ∃ s', kmsetkeyCall env s c.cmd c.finish c.payload = (0, s') ∧ Ready s' (srv.take c) := by
  have hans : ∀ n, answer env n (srv.take c) ⟨c.cmd, c.payload⟩ = leBytes 4 (ackCode c.cmd c.finish) := by
    intro n
    rw [hfinish]
    cases hcmd : c.cmd <;> simp [answer, hw.reply]
  have hne : ¬ s.handle ≤ 0 := by have := hs.handle; omega
  have hlen : ∀ v, (leBytes 4 v).length = 4 := by simp [leBytes]
  unfold kmsetkeyCall
  simp only [if_neg hne, alloc, hw.alloc, write, hw.write, deliver, read, hw.read, hs.queue, hs.server]
  simp only [List.nil_append, show srv.step ⟨c.cmd, c.payload⟩ = srv.take c from rfl, hans, hlen,
    show ¬ maxMsgSize < 4 by decide, show ¬ 4 < headerSize by decide, if_false, leAt_ackCode, ne_eq, not_true]
  exact ⟨_, rfl, hs.handle, rfl, rfl⟩

/-- The server has the length and the first `offset` bytes of the keybox. -/
structure Holds (peakb : Keybox) (offset : Nat) (srv : Server) : Prop where
  declared : srv.declared = peakb.1.length
  received : srv.received.length = offset

/-- The server reaches the length it was told with the last chunk, as the
client expects. -/
theorem chunk_works {peakb : Keybox} {offset : Nat} {srv : Server} (hw : Works env) (hs : Ready s srv)
    (hh : Holds peakb offset srv) (hlt : offset < peakb.1.length) :
    ∃ s' srv', kmsetkeyCall env s .keyBuf (if nextOffset peakb.1.length offset < peakb.1.length then false else true)
        ((peakb.1.drop offset).take (payloadLen peakb.1.length offset)) = (0, s') ∧
      Ready s' srv' ∧ Holds peakb (nextOffset peakb.1.length offset) srv' := by
  have hle := (payloadLen_le hlt).2
  have hrecv : (srv.received ++ (peakb.1.drop offset).take (payloadLen peakb.1.length offset)).length =
      nextOffset peakb.1.length offset := by
    rw [nextOffset_eq peakb.2 hlt, List.length_append, hh.received, List.length_take, List.length_drop]
    omega
  let c : Call := ⟨.keyBuf, if nextOffset peakb.1.length offset < peakb.1.length then false else true,
    (peakb.1.drop offset).take (payloadLen peakb.1.length offset)⟩
  have hfinish : c.finish =
      if c.cmd = .keyBuf then decide ((srv.take c).declared ≤ (srv.take c).received.length) else true := by
    show c.finish = decide (srv.declared ≤ (srv.received ++ c.payload).length)
    rw [hrecv, hh.declared]
    by_cases hnext : nextOffset peakb.1.length offset < peakb.1.length
    · rw [decide_eq_false (by omega)]
      exact if_pos hnext
    · rw [decide_eq_true (by omega)]
      exact if_neg hnext
  obtain ⟨s', hcall, hready⟩ := kmsetkeyCall_works hw hs hfinish
  exact ⟨s', srv.take c, hcall, hready, hh.declared, hrecv⟩

theorem keyBufLoop_works {s : State} {peakb : Keybox} {offset : Nat} {srv : Server} (hw : Works env) (hs : Ready s srv)
    (hh : Holds peakb offset srv) :
    ∃ s' srv', keyBufLoop env peakb offset s = (0, s') ∧ Ready s' srv' := by
  rw [keyBufLoop]
  split
  next hlt =>
    obtain ⟨s₁, srv₁, hcall, hs₁, hh₁⟩ := chunk_works hw hs hh hlt
    have hdec := payloadLen_le hlt
    have hnext := nextOffset_eq peakb.2 hlt
    simp only [hcall, lt_irrefl, if_false]
    exact keyBufLoop_works hw hs₁ hh₁
  next => exact ⟨s, srv, rfl, hs⟩
termination_by peakb.1.length - offset

/-- **An installation that nothing disturbs succeeds**, whatever the length of
the keybox: the flags that the client expects are those the server computes. -/
theorem attestKeyInstall_works (hw : Works env) (peakb : Keybox) : (attestKeyInstall env peakb).1 = 0 := by
  obtain ⟨handle, hconn, hpos⟩ := hw.connect
  have hs : Ready { handle, allocs := 1 } {} := ⟨hpos, rfl, rfl⟩
  obtain ⟨s₁, hdecrypt, hs₁⟩ := kmsetkeyCall_works (c := decryptCall) hw hs rfl
  obtain ⟨s₂, hlen, hs₂⟩ := kmsetkeyCall_works (c := lenCall peakb.1) hw hs₁ rfl
  have hh : Holds peakb 0 (((Server.mk 0 []).take decryptCall).take (lenCall peakb.1)) :=
    ⟨le_leBytes_of_lt peakb.2, rfl⟩
  obtain ⟨s₃, srv₃, hloop, hs₃⟩ := keyBufLoop_works hw hs₂ hh
  obtain ⟨s₄, hset, -⟩ := kmsetkeyCall_works (c := setCall) hw hs₃ rfl
  have hd : decryptKeyInstall env { handle } = (0, s₁) := by
    simp only [decryptKeyInstall, alloc, hw.alloc]
    exact hdecrypt
  unfold attestKeyInstall
  simp only [hconn, hd, lt_irrefl, if_false]
  rw [show kmsetkeyCall env s₁ .keyLen true (leBytes 4 peakb.1.length) = (0, s₂) from hlen]
  simp only [lt_irrefl, if_false, hloop]
  rw [show kmsetkeyCall env s₃ .setKey true [] = (0, s₄) from hset]
  rfl

end Kmsetkey
