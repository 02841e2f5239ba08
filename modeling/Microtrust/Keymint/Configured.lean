/-
KeyMint commands and the sessions they are sent over.

`initialized` is set once, when the session has been configured. A command that
ends with a negative value has its connection replaced, and the flag stays: the
commands that follow go to a session that nobody has configured. As long as this
does not happen, every guarded command meets a configured session.

What a session has been through is read off the calls made of the library.
-/
import Microtrust.Keymint.Methods
import Microtrust.Keymaster.Genuine
import Microtrust.Lib.Reach

namespace Keymint

open Lib Keymaster

variable {e : World} {s s' : State} {m : Method} {req : Bytes}

/-! ## The session -/

/-- The `n`th invocation, of `cmd`, was done and answered so by the TA. -/
def Succeeded (e : World) (n : Nat) (cmd : UInt32) (input : Option Bytes) : Prop :=
  let r := e.ipc.invoke n
  r.result = 0 ∧ (if input.isSome then r.status else 0) = 0 ∧ r.outSize ≤ keymint10.bufferLength ∧
    e.deserialize cmd (r.output.take r.outSize) = some kmErrorOk

instance (e : World) (n : Nat) (cmd : UInt32) (input : Option Bytes) : Decidable (Succeeded e n cmd input) :=
  inferInstanceAs (Decidable (_ ∧ _ ∧ _ ∧ _))

/-- What is known of the session after some calls: whether there is one, and the
commands that succeeded in it. -/
structure Session where
  live : Bool := false
  done : List UInt32 := []
  invokes : Nat := 0

/-- A session begins and ends without any. -/
def Session.see (e : World) (w : Session) : Call → Session
  | .openSession => { w with live := true, done := [] }
  | .closeSession | .finalizeContext => { w with live := false, done := [] }
  | .invoke cmd input =>
    { w with invokes := w.invokes + 1, done := if Succeeded e w.invokes cmd input then cmd :: w.done else w.done }
  | _ => w

def session (e : World) (calls : List Call) : Session := calls.foldl (Session.see e) {}

/-- The three commands of `Initialize`. -/
def configurations : List Method := [.configure, .configureVendorPatchLevel, .configureBootPatchLevel]

/-- There is a session, and the three have succeeded in it. -/
def Session.Configured (w : Session) : Prop := w.live = true ∧ ∀ c ∈ configurations, c.command ∈ w.done

/-- Every guarded command was sent over a session configured since it was opened. -/
def OnConfigured (e : World) (calls : List Call) : Prop :=
  ∀ pre m input post, calls = pre ++ .invoke (Method.command m) input :: post → m.guarded = true →
    (session e pre).Configured

theorem session_append (calls new : List Call) :
    session e (calls ++ new) = new.foldl (Session.see e) (session e calls) := List.foldl_append

theorem OnConfigured.append {calls new : List Call} (h : OnConfigured e calls)
    (hnew : ∀ cmd input, Call.invoke cmd input ∉ new) : OnConfigured e (calls ++ new) := by
  intro pre m input post heq hm
  rcases List.append_eq_append_iff.mp heq with ⟨as, rfl, has⟩ | ⟨bs, hbs, hnew'⟩
  · refine absurd ?_ (hnew m.command input)
    rw [has]
    simp
  · cases bs with
    | nil =>
      refine absurd ?_ (hnew m.command input)
      rw [List.nil_append] at hnew'
      rw [← hnew']
      exact List.mem_cons_self
    | cons b bs =>
      rw [List.cons_append, List.cons.injEq] at hnew'
      rw [← hnew'.1] at hbs
      exact h pre m input bs hbs hm

/-- A guarded command and an unguarded one are never the same. -/
theorem guarded_eq (m : Method) : m.guarded = !([Method.configure, .configureVendorPatchLevel, .configureBootPatchLevel,
    .updateOperation, .finishOperation, .abortOperation].map Method.command).contains m.command := by
  cases m <;> decide

theorem OnConfigured.invoke {calls : List Call} {input : Option Bytes} (h : OnConfigured e calls)
    (hm : m.guarded = true → (session e calls).Configured) : OnConfigured e (calls ++ [Call.invoke m.command input]) := by
  intro pre m' input' post heq hm'
  rcases List.eq_nil_or_concat post with rfl | ⟨post', c, rfl⟩
  · obtain ⟨rfl, hlast⟩ := List.append_inj' heq rfl
    have hcmd : m.command = m'.command := by
      rw [List.singleton_inj, Call.invoke.injEq] at hlast
      exact hlast.1
    refine hm ?_
    rw [guarded_eq, hcmd, ← guarded_eq]
    exact hm'
  · rw [List.concat_eq_append, ← List.cons_append, ← List.append_assoc] at heq
    exact h pre m' input' post' (List.append_inj' heq rfl).1 hm'

/-! ## The connection -/

/-- Calls were made of the library, but no invocation. -/
def Quiet (ipc ipc' : Keymaster.State) (new : List Call) : Prop :=
  ipc'.invokes = ipc.invokes ∧ ipc'.calls = ipc.calls ++ new ∧ ∀ cmd input, Call.invoke cmd input ∉ new

theorem disconnect_quiet (ipc : Keymaster.State) : ∃ new, Quiet ipc (bpKeymasterDisconnect ipc) new := by
  unfold bpKeymasterDisconnect
  dsimp only
  split
  · exact ⟨_, rfl, rfl, by simp⟩
  · exact ⟨[], rfl, (List.append_nil _).symm, by simp⟩

/-- Everything connecting can do in keymint1.0. -/
theorem bpKeymasterConnect_cases {env : Env keymint10} {ipc ipc' : Keymaster.State} {rc : Int}
    (h : bpKeymasterConnect env ipc = (rc, ipc')) :
    (0 < ipc.handle ∧ rc = 0 ∧ ipc' = ipc) ∨
      ipc.handle ≤ 0 ∧ ∃ new, Quiet ipc ipc' new ∧
        (rc ≠ 0 ∧ ipc'.handle = ipc.handle ∨
          rc = 0 ∧ new = [.initializeContext, .openSession, .allocateInput, .allocateOutput]) := by
  unfold bpKeymasterConnect at h
  split at h
  next hpos =>
    cases h
    exact .inl ⟨hpos, rfl, rfl⟩
  next hpos =>
    refine .inr ⟨not_lt.mp hpos, ?_⟩
    dsimp only at h
    split at h
    next hne =>
      cases h
      exact ⟨_, ⟨rfl, rfl, by simp⟩, .inl ⟨fun hz => hne (asInt_eq_zero.mp hz), rfl⟩⟩
    split at h
    next hne =>
      cases h
      exact ⟨[.initializeContext, .openSession, .finalizeContext], ⟨rfl, by simp [Keymaster.State.log], by simp⟩,
        .inl ⟨fun hz => hne (asInt_eq_zero.mp hz), rfl⟩⟩
    cases hin : (env.connect ipc.connects).allocInput with
    | false =>
      simp only [hin, Bool.false_eq_true, if_false, Bool.not_false, Bool.true_and,
        show keymint10.stopsOnFailedAlloc = true from rfl, if_true] at h
      cases h
      exact ⟨[.initializeContext, .openSession, .allocateInput, .closeSession, .finalizeContext],
        ⟨rfl, by simp [Keymaster.State.log], by simp⟩, .inl ⟨by decide, rfl⟩⟩
    | true =>
      cases hout : (env.connect ipc.connects).allocOutput with
      | false =>
        simp only [hin, hout, Bool.false_eq_true, if_false, Bool.not_false, Bool.true_and, Bool.not_true,
          Bool.false_and, show keymint10.stopsOnFailedAlloc = true from rfl, if_true] at h
        cases h
        exact ⟨[.initializeContext, .openSession, .allocateInput, .allocateOutput, .releaseInput, .closeSession,
          .finalizeContext], ⟨rfl, by simp [Keymaster.State.log], by simp⟩, .inl ⟨by decide, rfl⟩⟩
      | true =>
        simp only [hin, hout, Bool.false_eq_true, if_false, Bool.not_true, Bool.false_and, if_true] at h
        cases h
        exact ⟨_, ⟨rfl, by simp [Keymaster.State.log], by simp⟩, .inr ⟨rfl, rfl⟩⟩

theorem foldl_see_invokes {new : List Call} (hno : ∀ cmd input, Call.invoke cmd input ∉ new) (w : Session) :
    (new.foldl (Session.see e) w).invokes = w.invokes := by
  induction new generalizing w with
  | nil => rfl
  | cons c new ih =>
    have hsee : (w.see e c).invokes = w.invokes := by
      cases c with
      | invoke cmd input => exact absurd List.mem_cons_self (hno cmd input)
      | _ => rfl
    rw [List.foldl_cons, ih fun cmd input hmem => hno cmd input (List.mem_cons_of_mem c hmem), hsee]

theorem Quiet.invokes {ipc ipc' : Keymaster.State} {new : List Call} (h : Quiet ipc ipc' new) :
    (session e ipc'.calls).invokes = (session e ipc.calls).invokes := by
  rw [h.2.1, session_append, foldl_see_invokes h.2.2]

theorem Quiet.trans {ipc ipc₁ ipc' : Keymaster.State} {new new' : List Call} (h : Quiet ipc ipc₁ new)
    (h' : Quiet ipc₁ ipc' new') : Quiet ipc ipc' (new ++ new') := by
  refine ⟨h'.1.trans h.1, ?_, fun cmd input hmem => ?_⟩
  · rw [h'.2.1, h.2.1, List.append_assoc]
  · rcases List.mem_append.mp hmem with hmem | hmem
    · exact h.2.2 cmd input hmem
    · exact h'.2.2 cmd input hmem

/-- A connection that was just made has a session. -/
theorem session_connected (calls : List Call) :
    (session e (calls ++ [Call.initializeContext, .openSession, .allocateInput, .allocateOutput])).live = true := by
  rw [session_append]
  rfl

/-! ## The invariant -/

/-- The flag tells the truth about the session, unless there is no connection,
and all is well so far. -/
structure Sound (e : World) (s : State) : Prop where
  invokes : (session e s.ipc.calls).invokes = s.ipc.invokes
  live : 0 < s.ipc.handle → (session e s.ipc.calls).live = true
  configured : s.initialized = true → 0 ≤ s.ipc.handle → (session e s.ipc.calls).Configured
  log : OnConfigured e s.ipc.calls

theorem start_sound (e : World) : Sound e {} := by
  refine ⟨rfl, fun h => absurd h (by decide), (fun h => nomatch h), ?_⟩
  intro pre m input post heq
  exact absurd heq (by simp)

/-- The reset after a negative value. -/
theorem reset_sound {ipc : Keymaster.State} (hinv : (session e ipc.calls).invokes = ipc.invokes)
    (hlog : OnConfigured e ipc.calls) (hinit : s.initialized = false) :
    Sound e { s with ipc := (bpKeymasterConnect e.ipc (bpKeymasterDisconnect ipc)).2 } := by
  obtain ⟨new, hquiet⟩ := disconnect_quiet ipc
  have hhandle : (bpKeymasterDisconnect ipc).handle = -1 := rfl
  cases hconn : bpKeymasterConnect e.ipc (bpKeymasterDisconnect ipc) with
  | mk rc ipc' =>
    rcases bpKeymasterConnect_cases hconn with ⟨hpos, -, -⟩ | ⟨-, new', hquiet', hcases⟩
    · rw [hhandle] at hpos
      exact absurd hpos (by decide)
    have hall := hquiet.trans hquiet'
    refine ⟨?_, fun hpos => ?_, fun h => ?_, ?_⟩
    · rw [hall.invokes, hinv]
      exact hall.1.symm
    · rcases hcases with ⟨-, hsame⟩ | ⟨-, rfl⟩
      · rw [show ipc'.handle = -1 from hsame.trans hhandle] at hpos
        exact absurd hpos (by decide)
      · show (session e ipc'.calls).live = true
        rw [hquiet'.2.1]
        exact session_connected _
    · rw [show s.initialized = true from h] at hinit
      cases hinit
    · show OnConfigured e ipc'.calls
      rw [hall.2.1]
      exact hlog.append hall.2.2

/-! ## A command -/

/-- The status that an invocation by the method brings back. -/
def statusOf (e : World) (n : Nat) (m : Method) : UInt32 := if m.noRequest then 0 else (e.ipc.invoke n).status

/-- The request is small enough to be sent. -/
def Fits (m : Method) (req : Bytes) : Prop := m.noRequest = false → req.length % 2 ^ 32 ≤ keymint10.bufferLength

/-- Forwarding the command replaces the connection: there is none, or the
invocation ends with a negative value. -/
def Resets (e : World) (s : State) (m : Method) (req : Bytes) : Prop :=
  Fits m req ∧ (s.ipc.handle < 0 ∨ Negative (e.ipc.invoke s.ipc.invokes) (statusOf e s.ipc.invokes m))

/-- The `n`th invocation, of a command with a request, ends with a positive
value, for which the receive buffer has a response that says that all is well. -/
def Misread (e : World) (n : Nat) (m : Method) : Prop :=
  ¬ Negative (e.ipc.invoke n) (e.ipc.invoke n).status ∧
    ¬ ((e.ipc.invoke n).result = 0 ∧ (e.ipc.invoke n).status = 0) ∧
    e.deserialize m.command ((e.stack n).take keymint10.bufferLength) = some kmErrorOk

/-- What the method passes to the TA. -/
def inputOf (m : Method) (req : Bytes) : Option Bytes := if m.noRequest then none else some (req.take (req.length % 2 ^ 32))

/-- Both ways of forwarding, for a command that fits. -/
theorem forward_fits (h : Fits m req) (s : State) :
    let received : Received := ⟨e.stack s.ipc.invokes, keymint10.bufferLength⟩
    let out := finish e.ipc (e.deserialize m.command) (if s.ipc.handle < 0 then (Errno.neg .EINVAL, some received, s.ipc)
      else invoke e.ipc s.ipc m.command (inputOf m req) received)
    forward e s m req = (out.ret, { s with ipc := out.st }) := by
  unfold forward
  cases hreq : m.noRequest with
  | true =>
    simp only [if_true, bpKeymasterSendNoRequest, bpKeymasterCallNoRequest, inputOf, hreq]
  | false =>
    have hfit := h hreq
    have hlen : ¬ (keymint10.bufferLength < (req.take (req.length % 2 ^ 32)).length ∨
        keymint10.bufferLength < keymint10.bufferLength) := by
      rw [List.length_take]
      omega
    simp only [Bool.false_eq_true, if_false, bpKeymasterSend, bpKeymasterCall, if_neg (not_lt.mpr hfit), if_neg hlen,
      inputOf, hreq]

/-- Everything forwarding a command can do: it is too large, the connection is
replaced, or it was sent and answered. -/
theorem forward_cases (e : World) (s : State) (m : Method) (req : Bytes) :
    (¬ Fits m req ∧ forward e s m req = (some beanpodKmInvalidInputLength, s)) ∨
    (Resets e s m req ∧ ∃ rc ipc, rc < 0 ∧
      (ipc = s.ipc ∨ 0 ≤ s.ipc.handle ∧ ipc = s.ipc.invoked m.command (inputOf m req)) ∧
      forward e s m req = (some (translateError rc),
        { s with ipc := (bpKeymasterConnect e.ipc (bpKeymasterDisconnect ipc)).2 })) ∨
    (Fits m req ∧ ¬ Resets e s m req ∧ 0 ≤ s.ipc.handle ∧ ∃ ret,
      forward e s m req = (ret, { s with ipc := s.ipc.invoked m.command (inputOf m req) }) ∧
      (m.noRequest = false → ret = some kmErrorOk → ¬ Misread e s.ipc.invokes m →
        Succeeded e s.ipc.invokes m.command (inputOf m req))) := by
  by_cases hfits : Fits m req
  · have hforward := forward_fits (e := e) hfits s
    dsimp only at hforward
    by_cases hhandle : s.ipc.handle < 0
    · -- there is no connection
      have hneg : Errno.neg .EINVAL < 0 := by decide
      refine .inr (.inl ⟨⟨hfits, .inl hhandle⟩, Errno.neg .EINVAL, s.ipc, hneg, .inl rfl, ?_⟩)
      rw [hforward, if_pos hhandle]
      simp only [finish, if_pos hneg]
    · have hstatus : (if (inputOf m req).isSome then (e.ipc.invoke s.ipc.invokes).status else 0) =
          statusOf e s.ipc.invokes m := by
        unfold inputOf statusOf
        cases m.noRequest <;> rfl
      rw [if_neg hhandle] at hforward
      rcases finish_invoke_cases e.ipc (e.deserialize m.command) s.ipc m.command (inputOf m req)
        ⟨e.stack s.ipc.invokes, keymint10.bufferLength⟩ rfl hstatus with
        ⟨hneg, rc, hrc, hfinish⟩ | ⟨hneg, ret, d, hfinish, hok⟩
      · refine .inr (.inl ⟨⟨hfits, .inr hneg⟩, rc, _, hrc, .inr ⟨not_lt.mp hhandle, rfl⟩, ?_⟩)
        rw [hforward, hfinish]
      · refine .inr (.inr ⟨hfits, fun hr => hr.2.elim hhandle hneg, not_lt.mp hhandle, ret, ?_, ?_⟩)
        · rw [hforward, hfinish]
        · intro hreq hret hread
          have hsame : statusOf e s.ipc.invokes m = (e.ipc.invoke s.ipc.invokes).status := by
            rw [statusOf, hreq]
            rfl
          rcases hok hret with ⟨hres, hst, hsize, hdes⟩ | ⟨hbad, hdes⟩
          · exact ⟨hres, hstatus.trans hst, hsize, hdes⟩
          · rw [hsame] at hbad hneg
            exact absurd ⟨hneg, hbad, hdes⟩ hread
  · refine .inl ⟨hfits, ?_⟩
    obtain ⟨hreq, hbig⟩ := Classical.not_imp.mp hfits
    unfold forward
    simp only [hreq, Bool.false_eq_true, if_false, bpKeymasterSend, if_pos (not_le.mp hbig)]

/-- An invocation adds to what succeeded in the session. -/
theorem session_invoked (ipc : Keymaster.State) (cmd : UInt32) (input : Option Bytes) :
    session e (ipc.invoked cmd input).calls = (session e ipc.calls).see e (.invoke cmd input) := session_append ..

theorem Session.Configured.invoke {w : Session} (h : w.Configured) (cmd : UInt32) (input : Option Bytes) :
    (w.see e (.invoke cmd input)).Configured := by
  refine ⟨h.1, fun c hc => ?_⟩
  show c.command ∈ if Succeeded e w.invokes cmd input then cmd :: w.done else w.done
  split
  · exact List.mem_cons_of_mem _ (h.2 c hc)
  · exact h.2 c hc

/-- A command that is sent where the flag tells the truth leaves it true. -/
theorem invoked_sound (h : Sound e s) (hhandle : 0 ≤ s.ipc.handle) (hguard : m.guarded = true → s.initialized = true)
    (input : Option Bytes) : Sound e { s with ipc := s.ipc.invoked m.command input } := by
  refine ⟨?_, ?_, ?_, ?_⟩
  · show (session e (s.ipc.invoked m.command input).calls).invokes = s.ipc.invokes + 1
    rw [session_invoked, ← h.invokes]
    rfl
  · intro hpos
    rw [session_invoked]
    exact h.live hpos
  · intro hinit hpos
    rw [session_invoked]
    exact (h.configured hinit hpos).invoke m.command input
  · exact h.log.invoke fun hm => h.configured (hguard hm) hhandle

theorem forward_sound (h : Sound e s) (hguard : m.guarded = true → s.initialized = true)
    (hsteady : s.initialized = true → ¬ Resets e s m req) : Sound e (forward e s m req).2 := by
  rcases forward_cases e s m req with ⟨-, hf⟩ | ⟨hreset, rc, ipc, -, hipc, hf⟩ | ⟨-, -, hhandle, ret, hf, -⟩
  · rw [hf]
    exact h
  · rw [hf]
    have hinit : s.initialized = false := Bool.eq_false_iff.mpr fun hinit => hsteady hinit hreset
    rcases hipc with rfl | ⟨hhandle, rfl⟩
    · exact reset_sound h.invokes h.log hinit
    · have hsent := invoked_sound h hhandle hguard (inputOf m req)
      exact reset_sound hsent.invokes hsent.log hinit
  · rw [hf]
    exact invoked_sound h hhandle hguard _

/-! ## Initializing -/

/-- On the way to the flag: the session is there and the commands `done` have
succeeded in it. -/
structure Underway (e : World) (s : State) (done : List Method) : Prop where
  sound : Sound e s
  uninitialized : s.initialized = false
  live : (session e s.ipc.calls).live = true
  done : ∀ c ∈ done, c.command ∈ (session e s.ipc.calls).done

/-- One configuration command: whatever it ends with, and on to the next if it
succeeds. -/
theorem configuring_sound {done : List Method} {next : State → Option Int × State} (h : Underway e s done)
    (hm : m.guarded = false) (hreq : m.noRequest = false) (hread : ¬ Misread e s.ipc.invokes m)
    (hnext : ∀ s', Underway e s' (m :: done) → s'.ipc.invokes = s.ipc.invokes + 1 → Sound e (next s').2) :
    Sound e (configuring e s m req next).2 := by
  have hguard : m.guarded = true → s.initialized = true := fun hg => absurd hg (by rw [hm]; decide)
  have hsteady : s.initialized = true → ¬ Resets e s m req := fun hi => absurd hi (by rw [h.uninitialized]; decide)
  have hsound : Sound e (forward e s m req).2 := forward_sound h.sound hguard hsteady
  unfold configuring
  rcases forward_cases e s m req with ⟨-, hf⟩ | ⟨-, rc, ipc, hrc, -, hf⟩ | ⟨-, -, hhandle, ret, hf, hok⟩
  · rw [hf] at hsound ⊢
    exact hsound
  · rw [hf] at hsound ⊢
    simp only [if_pos (translateError_ne_ok hrc)]
    exact hsound
  · rw [hf] at hsound ⊢
    cases ret with
    | none => exact hsound
    | some err =>
      dsimp only
      by_cases herr : err ≠ kmErrorOk
      · rw [if_pos herr]
        exact hsound
      · rw [if_neg herr]
        rw [not_not] at herr
        have hsucc := hok hreq (congrArg some herr) hread
        refine hnext _ ⟨hsound, h.uninitialized, ?_, ?_⟩ rfl
        · show (session e (s.ipc.invoked m.command (inputOf m req)).calls).live = true
          rw [session_invoked]
          exact h.live
        · have hdone : (session e (s.ipc.invoked m.command (inputOf m req)).calls).done =
              m.command :: (session e s.ipc.calls).done := by
            rw [session_invoked]
            exact if_pos (h.sound.invokes ▸ hsucc)
          intro c hc
          show c.command ∈ (session e (s.ipc.invoked m.command (inputOf m req)).calls).done
          rw [hdone]
          rcases List.mem_cons.mp hc with rfl | hc
          · exact List.mem_cons_self
          · exact List.mem_cons_of_mem _ (h.done c hc)

theorem configuring_zero {next : State → Option Int × State} (h : (configuring e s m req next).1 = some 0) :
    ∃ s', configuring e s m req next = next s' := by
  unfold configuring at h ⊢
  cases hf : forward e s m req with
  | mk ret s' =>
    rw [hf] at h
    cases ret with
    | none => cases h
    | some err =>
      dsimp only at h ⊢
      split at h
      · exact absurd (Option.some.inj h) (by decide)
      next hok => exact ⟨s', if_neg hok⟩

/-- None of the three commands of `Initialize` will be misread. -/
def Honest (e : World) (s : State) : Prop :=
  s.initialized = false → ¬ Misread e s.ipc.invokes .configure ∧
    ¬ Misread e (s.ipc.invokes + 1) .configureVendorPatchLevel ∧
    ¬ Misread e (s.ipc.invokes + 2) .configureBootPatchLevel

/-- What connecting leaves `Initialize` with. -/
theorem connect_sound {ipc : Keymaster.State} {rc : Int} (h : Sound e s) (hinit : s.initialized = false)
    (hconn : bpKeymasterConnect e.ipc s.ipc = (rc, ipc)) :
    Sound e { s with ipc } ∧ ipc.invokes = s.ipc.invokes ∧ (rc = 0 → (session e ipc.calls).live = true) := by
  rcases bpKeymasterConnect_cases hconn with ⟨hpos, -, rfl⟩ | ⟨hle, new, hquiet, hcases⟩
  · exact ⟨h, rfl, fun _ => h.live hpos⟩
  · have hlive : rc = 0 → (session e ipc.calls).live = true := by
      intro hz
      rcases hcases with ⟨hne, -⟩ | ⟨-, rfl⟩
      · exact absurd hz hne
      · rw [hquiet.2.1]
        exact session_connected _
    refine ⟨⟨?_, fun hpos => ?_, fun hi => absurd hi (by rw [hinit]; decide), ?_⟩, hquiet.1, hlive⟩
    · rw [hquiet.invokes, h.invokes, hquiet.1]
    · rcases hcases with ⟨-, hsame⟩ | ⟨hz, -⟩
      · rw [show ipc.handle = s.ipc.handle from hsame] at hpos
        omega
      · exact hlive hz
    · rw [hquiet.2.1]
      exact h.log.append hquiet.2.2

theorem initialize_sound (h : Sound e s) (hh : Honest e s) : Sound e (beanpodInitialize e s).2 := by
  unfold beanpodInitialize
  split
  · exact h
  next hinit =>
    have hfalse : s.initialized = false := Bool.eq_false_iff.mpr hinit
    obtain ⟨hread₁, hread₂, hread₃⟩ := hh hfalse
    cases hconn : bpKeymasterConnect e.ipc s.ipc with
    | mk rc ipc =>
      obtain ⟨hsound, hinvokes, hlive⟩ := connect_sound h hfalse hconn
      dsimp only
      split
      · exact hsound
      next hz =>
        have hstart : Underway e { s with ipc } [] :=
          ⟨hsound, hfalse, hlive (not_not.mp hz), fun c hc => absurd hc List.not_mem_nil⟩
        rw [← hinvokes] at hread₁ hread₂ hread₃
        refine configuring_sound hstart rfl rfl hread₁ fun s₁ h₁ hn₁ => ?_
        refine configuring_sound h₁ rfl rfl (hn₁ ▸ hread₂) fun s₂ h₂ hn₂ => ?_
        refine configuring_sound h₂ rfl rfl (by rw [hn₂, hn₁]; exact hread₃) fun s₃ h₃ hn₃ => ?_
        refine ⟨h₃.sound.invokes, h₃.sound.live, fun _ _ => ⟨h₃.live, fun c hc => h₃.done c ?_⟩, h₃.sound.log⟩
        simp only [configurations, List.mem_cons, List.not_mem_nil, or_false] at hc ⊢
        tauto

theorem initialize_zero (h : (beanpodInitialize e s).1 = some 0) : (beanpodInitialize e s).2.initialized = true := by
  unfold beanpodInitialize at h ⊢
  split
  next hinit => exact hinit
  next hinit =>
    rw [if_neg hinit] at h
    cases hconn : bpKeymasterConnect e.ipc s.ipc with
    | mk rc ipc =>
      rw [hconn] at h
      dsimp only at h ⊢
      split
      next hne =>
        rw [if_pos hne] at h
        exact absurd (Option.some.inj h) hne
      next hz =>
        rw [if_neg hz] at h
        obtain ⟨s₁, h₁⟩ := configuring_zero h
        rw [h₁] at h ⊢
        obtain ⟨s₂, h₂⟩ := configuring_zero h
        rw [h₂] at h ⊢
        obtain ⟨s₃, h₃⟩ := configuring_zero h
        rw [h₃]

/-! ## Every run -/

/-- What may not happen in a step: that the connection is replaced although the
flag is set, or that the TA's refusal to be configured is taken for success. -/
def Steady (e : World) (s : State) : Op → Prop
  | .method m req =>
    if m.guarded then
      Honest e s ∧ ((beanpodInitialize e s).2.initialized = true → ¬ Resets e (beanpodInitialize e s).2 m req)
    else s.initialized = true → ¬ Resets e s m req
  | .init => Honest e s
  | .destroy => True

theorem call_sound (h : Sound e s) (hok : Steady e s (.method m req)) : Sound e (call e s m req).2 := by
  unfold call
  cases hm : m.guarded with
  | false =>
    have hsteady : s.initialized = true → ¬ Resets e s m req := by simpa [Steady, hm] using hok
    rw [if_neg Bool.false_ne_true]
    exact forward_sound h (fun hg => absurd hg (by rw [hm]; decide)) hsteady
  | true =>
    have hboth : Honest e s ∧ ((beanpodInitialize e s).2.initialized = true →
        ¬ Resets e (beanpodInitialize e s).2 m req) := by simpa only [Steady, hm, if_true] using hok
    obtain ⟨hhonest, hsteady⟩ := hboth
    have hsound := initialize_sound h hhonest
    rw [if_pos rfl]
    cases hinit : beanpodInitialize e s with
    | mk ret s₁ =>
      have hzero : ret = some 0 → s₁.initialized = true := by
        have := initialize_zero (e := e) (s := s)
        rwa [hinit] at this
      rw [hinit] at hsound hsteady
      cases ret with
      | none => exact hsound
      | some rc =>
        dsimp only
        split
        · exact hsound
        next hz => exact forward_sound hsound (fun _ => hzero (by rw [not_not.mp hz])) hsteady

theorem destroy_sound (h : Sound e s) : Sound e { s with ipc := bpKeymasterDisconnect s.ipc } := by
  obtain ⟨new, hquiet⟩ := disconnect_quiet s.ipc
  have hhandle : (bpKeymasterDisconnect s.ipc).handle = -1 := rfl
  refine ⟨?_, fun hpos => ?_, fun _ hpos => ?_, ?_⟩
  · rw [hquiet.invokes, h.invokes, hquiet.1]
  · exact absurd (hhandle ▸ hpos) (by decide)
  · exact absurd (hhandle ▸ hpos) (by decide)
  · rw [hquiet.2.1]
    exact h.log.append hquiet.2.2

theorem step_sound {op : Op} (h : Sound e s) (hok : Steady e s op) : Sound e (step e s op) := by
  cases op with
  | method m req => exact call_sound h hok
  | init => exact initialize_sound h hok
  | destroy => exact destroy_sound h

/-- **In every steady run the guarded commands meet a configured session.** -/
theorem commands_on_configured (e : World) {s : State} (h : Reach (step e) (Steady e) {} s) :
    OnConfigured e s.ipc.calls :=
  (h.invariant (start_sound e) fun _ _ => step_sound).log

/-- A world in which everything can be connected, and the `n`th invocation ends
with `result n`. -/
def bench (result : Nat → UInt32) : World where
  ipc := ⟨fun _ => ⟨0, 3, 0, true, true⟩, fun n => ⟨result n, 0, 0, List.replicate keymint10.bufferLength 0,
    List.length_replicate⟩⟩
  deserialize := fun _ _ => some kmErrorOk
  stack := fun _ => []
  device := ⟨0, 0, 0, ⟨[], by decide⟩, ⟨[], by decide⟩, ⟨[], by decide⟩, ⟨[], by decide⟩, ⟨[], by decide⟩⟩

/-- The fourth invocation, which is the first command after the configuration,
ends with `TEEC_ERROR_GENERIC`. -/
def flaky : World := bench fun n => if n = 3 then 0xFFFF0000 else 0

def getVersion : Op := .method .getVersion []

/-- The command that fails has its session replaced, and the next is sent over
one on which nothing was configured. -/
theorem command_on_fresh_session :
    ¬ ∀ s, Reach (step flaky) (fun _ _ => True) {} s → OnConfigured flaky s.ipc.calls := by
  intro h
  have hrun := h _ (.step getVersion (.step getVersion .start trivial) trivial)
  have hcalls : (step flaky (step flaky {} getVersion) getVersion).ipc.calls =
      (step flaky {} getVersion).ipc.calls ++ [.invoke Method.getVersion.command (some [])] := by decide +kernel
  have hdone : (session flaky (step flaky {} getVersion).ipc.calls).done = [] := by decide +kernel
  obtain ⟨-, hall⟩ := hrun _ .getVersion (some []) [] hcalls rfl
  have hmem := hall .configure List.mem_cons_self
  rw [hdone] at hmem
  exact absurd hmem List.not_mem_nil

/-- A run that is steady: one command, and all is well. -/
theorem commands_on_configured_once :
    OnConfigured (bench fun _ => 0) (step (bench fun _ => 0) {} getVersion).ipc.calls := by
  have hread : ∀ n m, ¬ Misread (bench fun _ => 0) n m := fun n m h => h.2.1 ⟨rfl, rfl⟩
  have hsteady : Steady (bench fun _ => 0) {} getVersion := by
    refine ⟨fun _ => ⟨hread _ _, hread _ _, hread _ _⟩, fun _ hreset => ?_⟩
    rcases hreset.2 with hneg | hneg
    · exact absurd hneg (by decide +kernel)
    · rcases hneg with hneg | ⟨-, hneg⟩
      · exact absurd hneg (by decide)
      · exact absurd hneg (by decide)
  exact commands_on_configured (bench fun _ => 0) (.step getVersion .start hsteady)

end Keymint
