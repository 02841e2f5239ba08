/-
Whose reply a call of the lite gatekeeper reports.

Nothing but the command ties a reply to its request, and the connection is
never reset. A call whose request was received but whose reply was not read
leaves the reply in the queue, and every later call then reads a reply that is
older than its own request by the number of replies left behind (`reply_lags`).
While no call leaves its reply behind, every result reported is the server's
reply to the call's own request.
-/
import Microtrust.Lite.Gatekeeper

namespace LiteGatekeeper

open Lib

variable {codec : Codec} {env : Env} {s s' : State} {op : Op}

/-- The request of a call, and the reply to it with its number. -/
def Op.request (codec : Codec) (op : Op) : Request := ⟨op.command, codec.serialize op⟩

def ownReply (codec : Codec) (env : Env) (s : State) (op : Op) : Nat × Bytes :=
  (s.received.length, env.reply s.received.length (op.request codec))

/-- The call gets as far as writing its request. -/
def Writes (codec : Codec) (s : State) (op : Op) : Prop :=
  s.error = 0 ∧ op.missing = false ∧ (codec.serialize op).length ≤ bufSize ∧ s.handle ≠ 0

/-! ## What a call can do -/

theorem write_cases {req : Request} {r : Option Errno} (h : write env s req = (r, s')) :
    (∃ e, r = some e ∧ env.write s.writes = .failed e false ∧ s' = { s with writes := s.writes + 1 }) ∨
      s' = receive env { s with writes := s.writes + 1 } req ∧
        ((∃ e, r = some e ∧ env.write s.writes = .failed e true) ∨ r = none ∧ env.write s.writes = .done) := by
  unfold write at h
  cases hw : env.write s.writes with
  | done =>
    rw [hw] at h
    cases h
    exact .inr ⟨rfl, .inr ⟨rfl, rfl⟩⟩
  | failed e delivered =>
    rw [hw] at h
    cases delivered with
    | true =>
      cases h
      exact .inr ⟨rfl, .inl ⟨e, rfl, rfl⟩⟩
    | false =>
      cases h
      exact .inl ⟨e, rfl, rfl, rfl⟩

theorem read_cases {m : Nat × Bytes} {queue : List (Nat × Bytes)} {r : Except Errno (Nat × Bytes)}
    (hq : s.queue = m :: queue) (h : read env s = (r, s')) :
    (∃ e, r = .error e) ∧ s' = { s with reads := s.reads + 1 } ∧
        ¬ (env.read s.reads = none ∧ m.2.length ≤ bufSize) ∨
      r = .ok m ∧ s' = { s with reads := s.reads + 1, queue := queue } := by
  unfold read at h
  cases hr : env.read s.reads with
  | some e =>
    rw [hr] at h
    cases h
    exact .inl ⟨⟨e, rfl⟩, rfl, fun hn => nomatch hn.1⟩
  | none =>
    simp only [hr, hq] at h
    split at h
    · rename_i hlong
      cases h
      exact .inl ⟨⟨_, rfl⟩, by rw [hq], fun hn => absurd hn.2 (by omega)⟩
    · cases h
      exact .inr ⟨rfl, rfl⟩

/-- The request is received and the reply `m`, the oldest, stays where it is:
the write failed all the same, or the read did. -/
def LeftBehind (env : Env) (s : State) (m : Nat × Bytes) : Prop :=
  (∃ e, env.write s.writes = .failed e true) ∨
    env.write s.writes = .done ∧ ¬ (env.read s.reads = none ∧ m.2.length ≤ bufSize)

/-- Everything `trusty_gatekeeper_call` can do: leave the connection as it was;
queue the reply to its request and read none; or queue it and read the oldest. -/
theorem gatekeeperCall_cases {rc : Int} {reply : Option (Nat × Bytes)}
    (h : trustyGatekeeperCall env s (op.request codec) = (rc, reply, s')) :
    rc < 0 ∧ s'.received = s.received ∧ s'.queue = s.queue ∨
      s'.received = s.received ++ [op.request codec] ∧ ∃ m,
        (rc < 0 ∧ (∃ queue, s.queue ++ [ownReply codec env s op] = m :: queue ∧ s'.queue = m :: queue) ∧
            s.handle ≠ 0 ∧ LeftBehind env s m ∨
          s.queue ++ [ownReply codec env s op] = m :: s'.queue ∧ (rc < 0 ∨ reply = some m)) := by
  unfold trustyGatekeeperCall at h
  by_cases hhandle : s.handle = 0
  · rw [if_pos hhandle] at h
    cases h
    exact .inl ⟨Errno.neg_lt _, rfl, rfl⟩
  rw [if_neg hhandle] at h
  obtain ⟨m, queue, hm⟩ : ∃ m queue, s.queue ++ [ownReply codec env s op] = m :: queue :=
    List.exists_cons_of_ne_nil (by simp)
  rcases hw : write env s (op.request codec) with ⟨r, t⟩
  rw [hw] at h
  rcases write_cases hw with ⟨e, rfl, -, rfl⟩ | ⟨rfl, ⟨e, rfl, hfailed⟩ | ⟨rfl, hdone⟩⟩
  · cases h
    exact .inl ⟨Errno.neg_lt e, rfl, rfl⟩
  · cases h
    exact .inr ⟨rfl, m, .inl ⟨Errno.neg_lt e, ⟨queue, hm, hm⟩, hhandle, .inl ⟨e, hfailed⟩⟩⟩
  · -- written; what is read is the oldest reply
    simp only at h
    rcases hread : read env (receive env { s with writes := s.writes + 1 } (op.request codec)) with ⟨r, u⟩
    rw [hread] at h
    rcases read_cases hm hread with ⟨⟨e, rfl⟩, rfl, hunread⟩ | ⟨rfl, rfl⟩
    · cases h
      exact .inr ⟨rfl, m, .inl ⟨Errno.neg_lt e, ⟨queue, hm, hm⟩, hhandle, .inr ⟨hdone, hunread⟩⟩⟩
    · dsimp only at h
      split at h
      · cases h
        exact .inr ⟨rfl, m, .inr ⟨hm, .inl (Errno.neg_lt _)⟩⟩
      · split at h
        · cases h
          exact .inr ⟨rfl, m, .inr ⟨hm, .inl (Errno.neg_lt _)⟩⟩
        · cases h
          exact .inr ⟨rfl, m, .inr ⟨hm, .inr rfl⟩⟩

/-- The same for a call of the device, with what it reports: a result comes from
the reply it read. -/
inductive Called (codec : Codec) (env : Env) (s : State) (op : Op) : Outcome → Prop where
  | unsent {s' : State} : s'.received = s.received → s'.queue = s.queue →
      Called codec env s op ⟨.generalFailure, none, s'⟩
  | unread {s' : State} {m : Nat × Bytes} {queue : List (Nat × Bytes)} :
      s'.received = s.received ++ [op.request codec] → s.queue ++ [ownReply codec env s op] = m :: queue →
      s'.queue = m :: queue → Writes codec s op → LeftBehind env s m →
      Called codec env s op ⟨.generalFailure, none, s'⟩
  | answered {o : Outcome} {m : Nat × Bytes} :
      o.st.received = s.received ++ [op.request codec] → s.queue ++ [ownReply codec env s op] = m :: o.st.queue →
      (o.report ≠ .generalFailure → o.reply = some m ∧
        ∃ r, codec.deserialize op.command (m.2.drop headerSize) = some r ∧ o.report = reportResponse op r) →
      Called codec env s op o

theorem call_cases (codec : Codec) (env : Env) (s : State) (op : Op) :
    Called codec env s op (call codec env s op) := by
  unfold call
  split
  · exact .unsent rfl rfl
  rename_i herror
  split
  · exact .unsent rfl rfl
  rename_i hmissing
  split
  · exact .unsent rfl rfl
  rename_i hlong
  rcases hcall : trustyGatekeeperCall env s ⟨op.command, codec.serialize op⟩ with ⟨rc, reply, t⟩
  dsimp only
  rcases gatekeeperCall_cases hcall with ⟨hneg, hrec, hq⟩ |
    ⟨hrec, m, ⟨hneg, ⟨queue, hm, hq⟩, hhandle, hleft⟩ | ⟨hm, hor⟩⟩
  · rw [if_pos hneg]
    exact .unsent hrec hq
  · rw [if_pos hneg]
    exact .unread hrec hm hq ⟨not_not.mp herror, by simpa using hmissing, by omega, hhandle⟩ hleft
  · split
    · exact .answered hrec hm (fun hr => absurd rfl hr)
    · rename_i hpos
      obtain rfl := hor.resolve_left hpos
      simp only [Option.bind_some]
      split
      · exact .answered hrec hm (fun hr => absurd rfl hr)
      · rename_i r hr
        exact .answered hrec hm (fun _ => ⟨rfl, r, hr, rfl⟩)

/-! ## Replies lag behind requests -/

/-- The replies queued are those to the last requests received, in their order. -/
def InOrder (s : State) : Prop :=
  ∃ n, n + s.queue.length = s.received.length ∧ s.queue.map Prod.fst = List.range' n s.queue.length

/-- With its own reply queued last, a call still finds the replies in order. -/
theorem InOrder.receive (h : InOrder s) (codec : Codec) (env : Env) (op : Op) :
    ∃ n, n + s.queue.length = s.received.length ∧
      (s.queue ++ [ownReply codec env s op]).map Prod.fst = List.range' n (s.queue.length + 1) := by
  obtain ⟨n, hn, hq⟩ := h
  refine ⟨n, hn, ?_⟩
  rw [List.map_append, hq, List.range'_concat]
  simp [ownReply, hn]

theorem Called.inOrder {o : Outcome} (hc : Called codec env s op o) (h : InOrder s) : InOrder o.st := by
  obtain ⟨n, hn, hq⟩ := h.receive codec env op
  cases hc with
  | unsent hrec hsame => unfold InOrder; rw [hrec, hsame]; exact h
  | unread hrec hm hsame _ _ =>
    have hlen := congrArg List.length hm
    rw [hm] at hq
    unfold InOrder
    rw [hrec, hsame]
    simp only [List.length_append, List.length_singleton] at hlen ⊢
    exact ⟨n, by omega, hlen ▸ hq⟩
  | answered hrec hm _ =>
    have hlen := congrArg List.length hm
    simp only [List.length_append, List.length_cons, List.length_nil, Nat.zero_add, Nat.add_right_cancel_iff] at hlen
    rw [hm, List.map_cons, List.range'_succ] at hq
    obtain ⟨-, hq⟩ := List.cons.inj hq
    refine ⟨n + 1, ?_, hlen ▸ hq⟩
    rw [hrec, List.length_append, List.length_singleton]
    omega

/-- A run in which anything may fail. -/
def Reached (codec : Codec) (env : Env) : State → Prop :=
  Reach (step codec env) (fun _ _ => True) (start env)

theorem start_empty (env : Env) : (start env).queue = [] ∧ (start env).received = [] := by
  unfold start
  cases env.connect with
  | error e => exact ⟨rfl, rfl⟩
  | ok fd => exact ⟨rfl, rfl⟩

theorem Reached.inOrder (h : Reached codec env s) : InOrder s := by
  refine Reach.invariant h ?_ fun s op hs _ => (call_cases codec env s op).inOrder hs
  obtain ⟨hq, hrec⟩ := start_empty env
  exact ⟨0, by rw [hq, hrec]; rfl, by rw [hq]; rfl⟩

/-- In every run, a result is made from the reply to the request that was sent as
many requests before its own as there are replies left in the queue. -/
theorem reply_lags (h : Reached codec env s) (hr : (call codec env s op).report ≠ .generalFailure) :
    ∃ m, (call codec env s op).reply = some m ∧ m.1 + s.queue.length = s.received.length := by
  obtain ⟨n, hn, hq⟩ := (Reached.inOrder h).receive codec env op
  have hc := call_cases codec env s op
  generalize call codec env s op = o at hc hr
  cases hc with
  | unsent => exact absurd rfl hr
  | unread => exact absurd rfl hr
  | answered _ hm hreply =>
    rw [hm, List.map_cons, List.range'_succ] at hq
    obtain ⟨hfst, -⟩ := List.cons.inj hq
    exact ⟨_, (hreply hr).1, by omega⟩

/-! ## Runs that keep up -/

/-- The result reported, if any, is the server's reply to the request of the
call: the reply it was made from, and what the library reads in it. -/
def ReportsOwn (codec : Codec) (env : Env) (s : State) (op : Op) : Prop :=
  (call codec env s op).report ≠ .generalFailure →
    (call codec env s op).st.received = s.received ++ [op.request codec] ∧
    (call codec env s op).reply = some (ownReply codec env s op) ∧
    ∃ r, codec.deserialize op.command ((ownReply codec env s op).2.drop headerSize) = some r ∧
      (call codec env s op).report = reportResponse op r

/-- The call does not leave its reply behind. -/
def KeepsUp (codec : Codec) (env : Env) (s : State) (op : Op) : Prop :=
  Writes codec s op → ¬ LeftBehind env s (ownReply codec env s op)

theorem Called.keeps_empty {o : Outcome} (hc : Called codec env s op o) (hq : s.queue = [])
    (hk : KeepsUp codec env s op) : o.st.queue = [] := by
  cases hc with
  | unsent _ hsame => rw [hsame, hq]
  | unread _ hm _ hwrites hleft =>
    -- the oldest reply is the call's own
    rw [hq, List.nil_append] at hm
    obtain ⟨rfl, -⟩ := List.cons.inj hm
    exact absurd hleft (hk hwrites)
  | answered _ hm _ =>
    rw [hq, List.nil_append] at hm
    exact (List.cons.inj hm).2.symm

theorem reports_own_of_empty (hq : s.queue = []) (op : Op) : ReportsOwn codec env s op := by
  intro hr
  have hc := call_cases codec env s op
  generalize call codec env s op = o at hc hr ⊢
  cases hc with
  | unsent => exact absurd rfl hr
  | unread => exact absurd rfl hr
  | answered hrec hm hreply =>
    rw [hq, List.nil_append] at hm
    obtain ⟨rfl, -⟩ := List.cons.inj hm
    exact ⟨hrec, hreply hr⟩

/-- While no call leaves its reply behind, every result reported is the reply to
the call's own request. -/
theorem results_own (h : Reach (step codec env) (KeepsUp codec env) (start env) s) (op : Op) :
    ReportsOwn codec env s op := by
  refine reports_own_of_empty (Reach.invariant (P := fun s => s.queue = []) h (start_empty env).1 ?_) op
  intro s op hq hk
  exact (call_cases codec env s op).keeps_empty hq hk

/-! ## A read that fails -/

def sized (bs : Bytes) : Bytes := leBytes 4 bs.length ++ bs

/-- The layout of the gatekeeper library: an error and a user, then the fields. -/
def wire : Codec where
  serialize
    | .enroll uid handle current desired =>
      leBytes 4 errorNone ++ leBytes 4 uid.toNat ++ sized desired ++ sized current ++ sized handle
    | .verify uid challenge handle provided =>
      leBytes 4 errorNone ++ leBytes 4 uid.toNat ++ leBytes 8 challenge.toNat ++ sized handle ++ sized provided
  deserialize cmd bs :=
    if bs.length < 8 then none
    else if leAt bs 0 4 = errorRetry then some ⟨errorRetry, UInt32.ofNat (leAt bs 8 4), false, []⟩
    else if leAt bs 0 4 ≠ errorNone then some ⟨leAt bs 0 4, 0, false, []⟩
    else if bs.length < 12 + leAt bs 8 4 then none
    else some ⟨errorNone, 0, cmd = 2 ∧ leAt bs (12 + leAt bs 8 4) 1 ≠ 0, (bs.drop 12).take (leAt bs 8 4)⟩

/-- A server that grants a token to the password ending in 7 and asks everyone
else to wait. -/
def guard (_ : Nat) (req : Request) : Bytes :=
  leBytes 4 (req.cmd ||| respBit) ++
    if req.payload.getLast? = some 7 then leBytes 4 errorNone ++ leBytes 4 0 ++ sized [0xAA] ++ [0]
    else leBytes 4 errorRetry ++ leBytes 4 0 ++ leBytes 4 30

/-- A verification that is granted, and one that is not. -/
def granted : Op := .verify 0 5 [1] [7]
def refused : Op := .verify 0 6 [1] [8]

/-- No call fails. -/
def steady : Env where
  connect := .ok 3
  write := fun _ => .done
  read := fun _ => none
  reply := guard

theorem second_verify_own :
    (call wire steady (step wire steady (start steady) granted) refused).report = .retryTimeout 30 ∧
      ReportsOwn wire steady (step wire steady (start steady) granted) refused := by
  refine ⟨by decide, results_own (.step granted .start ?_) refused⟩
  intro _ hleft
  rcases hleft with ⟨e, he⟩ | ⟨_, hunread⟩
  · cases he
  · exact hunread ⟨rfl, by decide⟩

/-- The first read fails. -/
def slipping : Env := { steady with read := fun n => if n = 0 then some .EINTR else none }

/-- The reply to the first verification is read by the second, which reports its
token instead of the wait the server asked for. -/
theorem failed_read_grants_refused :
    Reached wire slipping (step wire slipping (start slipping) granted) ∧
      (call wire slipping (step wire slipping (start slipping) granted) refused).report = .ok 0 [0xAA] ∧
      ¬ ReportsOwn wire slipping (step wire slipping (start slipping) granted) refused := by
  have hreport : (call wire slipping (step wire slipping (start slipping) granted) refused).report = .ok 0 [0xAA] := by
    decide
  refine ⟨.step granted .start trivial, hreport, fun hown => ?_⟩
  have hreply := (hown (by rw [hreport]; decide)).2.1
  exact absurd (congrArg (Option.map Prod.fst) hreply) (by decide)

end LiteGatekeeper
