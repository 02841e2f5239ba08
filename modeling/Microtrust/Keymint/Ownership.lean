/-
The operations of the KeyMint service and those of the TA.

An operation that the TA holds takes one of its few places, and only a request
with its handle can free it. The handle is in the object that `begin` made, so
the TA must not hold an operation whose object is gone. It also must not drop
one because of what clients do with others, as long as the session stands.

The TA is read off the calls made of the library: a session that is closed
takes its operations along.
-/
import Microtrust.Keymint.Survival

namespace Keymint

open Lib Keymaster

variable {lib : KeymasterDefs} {k : Libraries lib} {e : World} {s s' : State} {m : Method} {req : Bytes}

/-! ## The TA after some calls -/

theorem taView_append (calls new : List Call) : taView k e (calls ++ new) = new.foldl (TaView.see k e) (taView k e calls) :=
  List.foldl_append

/-- Connecting and disconnecting leave nothing behind where nothing was held. -/
theorem see_quiet {new : List Call} (hno : ∀ cmd input, Call.invoke cmd input ∉ new) (w : TaView) (hheld : w.held = ∅)
    (halone : w.orphaned = ∅) : new.foldl (TaView.see k e) w = w := by
  induction new with
  | nil => rfl
  | cons c new ih =>
    have hsee : w.see k e c = w := by
      obtain ⟨n, held, orphaned⟩ := w
      obtain rfl : held = ∅ := hheld
      obtain rfl : orphaned = ∅ := halone
      cases c with
      | invoke cmd input => exact absurd List.mem_cons_self (hno cmd input)
      | _ => rfl
    rw [List.foldl_cons, hsee]
    exact ih fun cmd input hmem => hno cmd input (List.mem_cons_of_mem c hmem)

/-- What the TA holds in the session. -/
def heldNow (k : Libraries lib) (e : World) (s : State) : Finset UInt64 := (taView k e s.ipc.calls).held

/-- The connection and the TA agree: there is at most one session, and none
without a connection. -/
structure Tracked (k : Libraries lib) (e : World) (s : State) : Prop where
  invokes : (taView k e s.ipc.calls).invokes = s.ipc.invokes
  alone : (taView k e s.ipc.calls).orphaned = ∅
  connected : s.ipc.handle ≠ 0
  idle : s.ipc.handle < 0 → heldNow k e s = ∅

theorem start_tracked (k : Libraries lib) (e : World) : Tracked k e {} := ⟨rfl, rfl, by decide, fun _ => rfl⟩

/-- A context that was initialized has a descriptor other than that of the
standard input. -/
def Descriptors (e : World) : Prop := ∀ n, (e.ipc.connect n).contextResult = 0 → 0 < (e.ipc.connect n).fd

/-! ## The connection -/

theorem connect_counts (env : Env keymint10) {ipc : Keymaster.State} (hle : ¬ 0 < ipc.handle) :
    (bpKeymasterConnect env ipc).2.connects = ipc.connects + 1 ∧
      ((bpKeymasterConnect env ipc).2.handle = ipc.handle ∨ (env.connect ipc.connects).contextResult = 0 ∧
        (bpKeymasterConnect env ipc).2.handle = (env.connect ipc.connects).fd) := by
  unfold bpKeymasterConnect
  rw [if_neg hle]
  dsimp only
  split
  · exact ⟨rfl, .inl rfl⟩
  next hctx =>
    split
    · exact ⟨rfl, .inl rfl⟩
    cases (env.connect ipc.connects).allocInput with
    | false => exact ⟨rfl, .inl rfl⟩
    | true =>
      cases (env.connect ipc.connects).allocOutput with
      | false => exact ⟨rfl, .inl rfl⟩
      | true => exact ⟨rfl, .inr ⟨not_not.mp hctx, rfl⟩⟩

/-- Connecting where there is no session. -/
theorem connect_tracked (hfd : Descriptors e) (ht : Tracked k e s) (hneg : s.ipc.handle < 0) :
    let s' := { s with ipc := (bpKeymasterConnect e.ipc s.ipc).2 }
    Tracked k e s' ∧ heldNow k e s' = ∅ ∧ s'.ipc.connects = s.ipc.connects + 1 := by
  intro s'
  have hle : ¬ 0 < s.ipc.handle := by omega
  obtain ⟨hcount, hhandle⟩ := connect_counts e.ipc hle
  cases hconn : bpKeymasterConnect e.ipc s.ipc with
  | mk rc ipc =>
    have hipc : s'.ipc = ipc := by
      show (bpKeymasterConnect e.ipc s.ipc).2 = ipc
      rw [hconn]
    rw [hconn] at hcount hhandle
    rcases bpKeymasterConnect_cases hconn with ⟨hpos, -⟩ | ⟨-, new, hquiet, -⟩
    · exact absurd hpos hle
    have hview : taView k e s'.ipc.calls = taView k e s.ipc.calls := by
      rw [hipc, hquiet.2.1, taView_append]
      exact see_quiet hquiet.2.2 _ (ht.idle hneg) ht.alone
    have hheld : heldNow k e s' = ∅ := by
      unfold heldNow
      rw [hview]
      exact ht.idle hneg
    refine ⟨⟨?_, ?_, ?_, fun _ => hheld⟩, hheld, ?_⟩
    · rw [hview, ht.invokes, hipc, hquiet.1]
    · rw [hview]
      exact ht.alone
    · rw [hipc]
      rcases hhandle with hsame | ⟨hctx, hnew⟩
      · rw [hsame]
        omega
      · have hpos := hfd _ hctx
        rw [hnew]
        omega
    · rw [hipc]
      exact hcount

theorem disconnect_tracked (ht : Tracked k e s) :
    let s' := { s with ipc := bpKeymasterDisconnect s.ipc }
    Tracked k e s' ∧ s'.ipc.handle < 0 ∧ s'.ipc.connects = s.ipc.connects := by
  intro s'
  have hhandle : s'.ipc.handle = -1 := rfl
  have hneg : s'.ipc.handle < 0 := by omega
  have hview : taView k e s'.ipc.calls = { taView k e s.ipc.calls with held := ∅ } ∧
      s'.ipc.invokes = s.ipc.invokes ∧ s'.ipc.connects = s.ipc.connects := by
    show taView k e (bpKeymasterDisconnect s.ipc).calls = _ ∧ (bpKeymasterDisconnect s.ipc).invokes = _ ∧
      (bpKeymasterDisconnect s.ipc).connects = _
    unfold bpKeymasterDisconnect
    by_cases hpos : 0 < s.ipc.handle
    · rw [if_pos hpos]
      exact ⟨taView_append .., rfl, rfl⟩
    · rw [if_neg hpos]
      have hne := ht.connected
      have hheld : (taView k e s.ipc.calls).held = ∅ := ht.idle (by omega)
      refine ⟨?_, rfl, rfl⟩
      rw [← hheld]
  obtain ⟨hview, hinvokes, hcount⟩ := hview
  refine ⟨⟨?_, ?_, by omega, fun _ => ?_⟩, hneg, hcount⟩
  · rw [hview, hinvokes]
    exact ht.invokes
  · rw [hview]
    exact ht.alone
  · unfold heldNow
    rw [hview]

/-- The reset after a negative value ends the session, and the operations with
it. -/
theorem reset_tracked (hfd : Descriptors e) (ht : Tracked k e s) :
    let s' := { s with ipc := (bpKeymasterConnect e.ipc (bpKeymasterDisconnect s.ipc)).2 }
    Tracked k e s' ∧ heldNow k e s' = ∅ ∧ s'.ipc.connects = s.ipc.connects + 1 := by
  obtain ⟨hdis, hneg, hcount⟩ := disconnect_tracked ht
  have hconn := connect_tracked hfd hdis hneg
  rwa [hcount] at hconn

/-! ## A command -/

/-- The handle that the TA may drop for a command. -/
def dropped (m : Method) (input : Option Bytes) : Finset UInt64 :=
  match m with
  | .updateOperation | .finishOperation | .abortOperation => {handleIn input}
  | _ => ∅

/-- What the TA does with a command, by method. -/
theorem holding_command (k : Libraries lib) (e : World) (n : Nat) (m : Method) (input : Option Bytes)
    (held : Finset UInt64) :
    holding k e n m.command input held = match m with
      | .beginOperation =>
        if Succeeded e n Method.beginOperation.command input then
          insert (k.contents.opHandle ((e.ipc.invoke n).output.take (e.ipc.invoke n).outSize)) held
        else held
      | .updateOperation =>
        if Succeeded e n Method.updateOperation.command input then held else held.erase (handleIn input)
      | .finishOperation | .abortOperation => held.erase (handleIn input)
      | _ => held := by
  cases m <;> rfl

theorem holding_subset (n : Nat) (hm : m ≠ .beginOperation) (input : Option Bytes) (held : Finset UInt64) :
    holding k e n m.command input held ⊆ held := by
  rw [holding_command]
  split
  · exact absurd rfl hm
  · split
    · exact Finset.Subset.refl held
    · exact Finset.erase_subset _ held
  · exact Finset.erase_subset _ held
  · exact Finset.erase_subset _ held
  · exact Finset.Subset.refl held

theorem holding_keeps {n : Nat} {input : Option Bytes} {held : Finset UInt64} {h : UInt64} (hh : h ∈ held)
    (hnot : h ∉ dropped m input) : h ∈ holding k e n m.command input held := by
  have herase (hne : h ∉ ({handleIn input} : Finset UInt64)) : h ∈ held.erase (handleIn input) :=
    Finset.mem_erase.mpr ⟨fun heq => hne (Finset.mem_singleton.mpr heq), hh⟩
  rw [holding_command]
  split
  · split
    · exact Finset.mem_insert_of_mem hh
    · exact hh
  · split
    · exact hh
    · exact herase hnot
  · exact herase hnot
  · exact herase hnot
  · exact hh

/-- What becomes of a command: it is too large to be sent, the session is reset
over it, or the TA gets it. -/
inductive Course (k : Libraries lib) (e : World) (s : State) (m : Method) (req : Bytes) (err : Option Int) (s' : State) :
    Prop where
  | refused (big : ¬ Fits m req) (err : err = some beanpodKmInvalidInputLength) (st : s' = s)
  | reset (err : err ≠ some beanpodKmInvalidInputLength ∧ err ≠ some kmErrorOk) (gone : heldNow k e s' = ∅)
      (later : s.ipc.connects < s'.ipc.connects)
  | sent (fits : Fits m req) (connected : 0 ≤ s.ipc.handle)
      (st : s' = { s with ipc := s.ipc.invoked m.command (inputOf m req) })
      (held : heldNow k e s' = holding k e s.ipc.invokes m.command (inputOf m req) (heldNow k e s))

theorem invoked_view (k : Libraries lib) (e : World) (s : State) (cmd : UInt32) (input : Option Bytes) :
    taView k e (s.ipc.invoked cmd input).calls = (taView k e s.ipc.calls).see k e (.invoke cmd input) :=
  taView_append ..

theorem invoked_tracked (ht : Tracked k e s) (hpos : 0 < s.ipc.handle) (cmd : UInt32) (input : Option Bytes) :
    let s' := { s with ipc := s.ipc.invoked cmd input }
    Tracked k e s' ∧ heldNow k e s' = holding k e s.ipc.invokes cmd input (heldNow k e s) := by
  intro s'
  have hview : taView k e s'.ipc.calls = (taView k e s.ipc.calls).see k e (.invoke cmd input) := invoked_view ..
  refine ⟨⟨?_, ?_, ht.connected, fun hneg => ?_⟩, ?_⟩
  · rw [hview]
    exact congrArg (· + 1) ht.invokes
  · rw [hview]
    exact ht.alone
  · exact absurd (show s.ipc.handle < 0 from hneg) (by omega)
  · unfold heldNow
    rw [hview, ← ht.invokes]
    rfl

theorem forward_course (hfd : Descriptors e) (ht : Tracked k e s) (m : Method) (req : Bytes) :
    Tracked k e (forward e s m req).2 ∧ Course k e s m req (forward e s m req).1 (forward e s m req).2 := by
  rcases forward_cases e s m req with ⟨hbig, hf⟩ | ⟨-, rc, ipc, hrc, hipc, hf⟩ | ⟨hfits, -, hhandle, ret, hf, -⟩
  · rw [hf]
    exact ⟨ht, .refused hbig rfl rfl⟩
  · rw [hf]
    have herr : some (translateError rc) ≠ some beanpodKmInvalidInputLength ∧
        some (translateError rc) ≠ some kmErrorOk :=
      ⟨fun h => translateError_ne_beanpod hrc (Option.some.inj h), fun h => translateError_ne_ok hrc (Option.some.inj h)⟩
    -- the reset starts where the command left the connection, sent or not
    have htracked : Tracked k e { s with ipc } ∧ ipc.connects = s.ipc.connects := by
      rcases hipc with rfl | ⟨hhandle, rfl⟩
      · exact ⟨ht, rfl⟩
      · have hne := ht.connected
        exact ⟨(invoked_tracked ht (by omega) _ _).1, rfl⟩
    obtain ⟨hreset, hgone, hcount⟩ := reset_tracked hfd htracked.1
    have hlater : (bpKeymasterConnect e.ipc (bpKeymasterDisconnect ipc)).2.connects = s.ipc.connects + 1 := by
      rw [← htracked.2]
      exact hcount
    exact ⟨hreset, .reset herr hgone (hlater ▸ Nat.lt_succ_self _)⟩
  · rw [hf]
    have hne := ht.connected
    obtain ⟨hsent, hheld⟩ := invoked_tracked ht (by omega) m.command (inputOf m req)
    exact ⟨hsent, .sent hfits hhandle rfl hheld⟩

/-! ## What a call leaves to others -/

/-- The TA got nothing new between the two states, and dropped at most `lost` as
long as the session stood. -/
structure Passed (k : Libraries lib) (e : World) (lost : Finset UInt64) (s s' : State) : Prop where
  tracked : Tracked k e s'
  later : s.ipc.connects ≤ s'.ipc.connects
  shrinks : heldNow k e s' ⊆ heldNow k e s
  keeps : s'.ipc.connects = s.ipc.connects → ∀ h ∈ heldNow k e s, h ∉ lost → h ∈ heldNow k e s'

variable {lost : Finset UInt64}

theorem Passed.refl (ht : Tracked k e s) : Passed k e lost s s :=
  ⟨ht, le_rfl, Finset.Subset.refl _, fun _ _ hh _ => hh⟩

theorem Passed.trans {s₁ : State} (h₁ : Passed k e lost s s₁) (h₂ : Passed k e lost s₁ s') : Passed k e lost s s' := by
  refine ⟨h₂.tracked, h₁.later.trans h₂.later, h₂.shrinks.trans h₁.shrinks, fun hsame h hh hnot => ?_⟩
  have h₁l := h₁.later
  have h₂l := h₂.later
  exact h₂.keeps (by omega) h (h₁.keeps (by omega) h hh hnot) hnot

/-- Where nothing is held any more. -/
theorem Passed.gone (ht : Tracked k e s') (hgone : heldNow k e s' = ∅) (hlater : s.ipc.connects < s'.ipc.connects) :
    Passed k e lost s s' := by
  refine ⟨ht, hlater.le, ?_, fun hsame => absurd hsame (by omega)⟩
  rw [hgone]
  exact Finset.empty_subset _

theorem forward_passed (hfd : Descriptors e) (ht : Tracked k e s) (hm : m ≠ .beginOperation)
    (hlost : dropped m (inputOf m req) ⊆ lost) : Passed k e lost s (forward e s m req).2 := by
  obtain ⟨htracked, hcourse⟩ := forward_course hfd ht m req
  cases hcourse with
  | refused _ _ st =>
    rw [st]
    exact .refl ht
  | reset _ gone later => exact .gone htracked gone later
  | sent _ _ st held =>
    refine ⟨htracked, ?_, ?_, fun _ h hh hnot => ?_⟩
    · rw [st]
      exact le_rfl
    · rw [held]
      exact holding_subset _ hm _ _
    · rw [held]
      exact holding_keeps hh fun hd => hnot (hlost hd)

theorem forward_aside (hfd : Descriptors e) (ht : Tracked k e s) (hm : m.aside = true) (req : Bytes) :
    Passed k e lost s (forward e s m req).2 := by
  refine forward_passed hfd ht ?_ ?_
  · rintro rfl
    cases hm
  · have hnone : dropped m (inputOf m req) = ∅ := by
      cases m <;> first | rfl | cases hm
    rw [hnone]
    exact Finset.empty_subset _

/-! ## Initializing -/

theorem configuring_passed {next : State → Option Int × State} (hfd : Descriptors e) (ht : Tracked k e s)
    (hm : m.aside = true) (hnext : ∀ s₁, Tracked k e s₁ → Passed k e lost s₁ (next s₁).2) :
    Passed k e lost s (configuring e s m req next).2 := by
  have hfirst : Passed k e lost s (forward e s m req).2 := forward_aside hfd ht hm req
  unfold configuring
  cases hf : forward e s m req with
  | mk err s₁ =>
    rw [hf] at hfirst
    cases err with
    | none => exact hfirst
    | some err =>
      dsimp only
      split
      · exact hfirst
      · exact hfirst.trans (hnext s₁ hfirst.tracked)

theorem initialize_passed (hfd : Descriptors e) (ht : Tracked k e s) :
    Passed k e lost s (beanpodInitialize e s).2 := by
  unfold beanpodInitialize
  split
  · exact .refl ht
  have hconn : Passed k e lost s { s with ipc := (bpKeymasterConnect e.ipc s.ipc).2 } := by
    by_cases hpos : 0 < s.ipc.handle
    · have hsame : bpKeymasterConnect e.ipc s.ipc = (0, s.ipc) := if_pos hpos
      rw [hsame]
      exact .refl ht
    · have hne := ht.connected
      obtain ⟨htracked, hgone, hcount⟩ := connect_tracked hfd ht (by omega)
      exact .gone htracked hgone (by omega)
  cases hc : bpKeymasterConnect e.ipc s.ipc with
  | mk err ipc =>
    rw [hc] at hconn
    dsimp only
    split
    · exact hconn
    refine hconn.trans ?_
    refine configuring_passed hfd hconn.tracked rfl fun s₁ h₁ => ?_
    refine configuring_passed hfd h₁ rfl fun s₂ h₂ => ?_
    refine configuring_passed hfd h₂ rfl fun s₃ h₃ => ?_
    -- only the flag is set
    exact ⟨⟨h₃.invokes, h₃.alone, h₃.connected, h₃.idle⟩, le_rfl, Finset.Subset.refl _, fun _ _ hh _ => hh⟩

/-! ## The components -/

theorem called_passed (hfd : Descriptors e) (ht : Tracked k e s) (hm : m.aside = true) (req : Bytes) :
    Passed k e lost s (called e s m req).st := by
  have hinit : Passed k e lost s (beanpodInitialize e s).2 := initialize_passed hfd ht
  rcases called_cases e s m req with ⟨-, hc⟩ | ⟨-, rc, s', hi, hc⟩
  · rw [hc]
    exact forward_aside hfd ht hm req
  · rw [hi] at hinit
    rcases hc with ⟨-, hc⟩ | ⟨-, -, -, hc⟩ | ⟨-, hc⟩ <;> rw [hc]
    · exact hinit
    · exact hinit
    · exact hinit.trans (forward_aside hfd hinit.tracked hm req)

theorem component_passed (hfd : Descriptors e) (ht : Tracked k e s) (c : ComponentCall k.utils) :
    Passed k e lost s (c.run k e s).2 := by
  unfold ComponentCall.run
  split
  · exact .refl ht
  next f hf =>
    have hcalled : Passed k e lost s (called e s f.m f.req).st := called_passed hfd ht (forwarding_spec hf).1 f.req
    unfold Forwarding.run
    dsimp only
    split
    · exact hcalled
    · split <;> exact hcalled

/-! ## Beginning an operation -/

/-- The response to a command that succeeded is the TA's, and says so. -/
theorem forwarded_succeeded (hm : m.noRequest = false) (hfits : Fits m req) (hhandle : 0 ≤ s.ipc.handle)
    (h : Succeeded e s.ipc.invokes m.command (inputOf m req)) :
    let invoked := e.ipc.invoke s.ipc.invokes
    (forwarded e s m req).error = some kmErrorOk ∧
      (forwarded e s m req).response = some (invoked.output.take invoked.outSize) := by
  intro invoked
  obtain ⟨hresult, hstatus, hsize, hread⟩ := h
  have hlen : (invoked.output.take invoked.outSize).length = invoked.outSize := by
    rw [List.length_take, invoked.fits]
    exact Nat.min_eq_left hsize
  have hinvoke := invoke_cases e.ipc s.ipc m.command (inputOf m req) ⟨e.stack s.ipc.invokes, keymint10.bufferLength⟩
    rfl hstatus
  rcases hinvoke with ⟨hbad, -⟩ | ⟨-, hbad, -⟩ | ⟨-, -, hbad, -⟩ | ⟨-, -, -, hinvoke⟩
  · exact absurd hresult hbad
  · exact absurd rfl hbad
  · exact absurd hsize (not_le.mpr hbad)
  have hout : bpKeymasterSend e.ipc (e.deserialize m.command) s.ipc m.command req (e.stack s.ipc.invokes) =
      ⟨some kmErrorOk, some (invoked.output.take invoked.outSize), s.ipc.invoked m.command (inputOf m req)⟩ := by
    have hfit := hfits hm
    have hshort : ¬ (keymint10.bufferLength < (req.take (req.length % 2 ^ 32)).length ∨
        keymint10.bufferLength < keymint10.bufferLength) := by
      rw [List.length_take]
      omega
    unfold bpKeymasterSend bpKeymasterCall
    simp only [if_neg (not_lt.mpr hfit), if_neg (not_lt.mpr hhandle), if_neg hshort]
    rw [show some (req.take (req.length % 2 ^ 32)) = inputOf m req by rw [inputOf, hm]; rfl, hinvoke,
      finish_of_nonneg (by decide), List.take_left' hlen, hread]
    rfl
  unfold forwarded
  simp only [hm, Bool.false_eq_true, if_false]
  rw [hout]
  exact ⟨rfl, rfl⟩

/-- What a `BEGIN` leaves: nothing is dropped while the session stands, and what
the TA began is in the response. -/
structure BegunBy (k : Libraries lib) (e : World) (s : State) (c : Called) : Prop where
  tracked : Tracked k e c.st
  later : s.ipc.connects ≤ c.st.ipc.connects
  keeps : c.st.ipc.connects = s.ipc.connects → heldNow k e s ⊆ heldNow k e c.st
  known : heldNow k e c.st ⊆ heldNow k e s ∨ c.error = some kmErrorOk ∧
    heldNow k e c.st ⊆ insert (k.contents.opHandle (c.response.getD [])) (heldNow k e s)

/-- Where no `BEGIN` was sent. -/
theorem Passed.begunBy {c : Called} (h : Passed k e ∅ s c.st) : BegunBy k e s c :=
  ⟨h.tracked, h.later, fun hsame x hx => h.keeps hsame x hx (Finset.notMem_empty x), .inl h.shrinks⟩

theorem forwarded_begunBy (hfd : Descriptors e) (ht : Tracked k e s) (req : Bytes) :
    BegunBy k e s (forwarded e s .beginOperation req) := by
  obtain ⟨htracked, hcourse⟩ := forward_course hfd ht .beginOperation req
  cases hcourse with
  | refused _ _ st =>
    refine Passed.begunBy ?_
    rw [show (forwarded e s .beginOperation req).st = s from st]
    exact .refl ht
  | reset _ gone later => exact (Passed.gone htracked gone later).begunBy
  | sent fits connected st held =>
    rw [holding_command] at held
    have hcount : (forwarded e s .beginOperation req).st.ipc.connects = s.ipc.connects := by
      rw [show (forwarded e s .beginOperation req).st = _ from st]
      rfl
    by_cases hok : Succeeded e s.ipc.invokes Method.beginOperation.command (inputOf .beginOperation req)
    · simp only [if_pos hok] at held
      obtain ⟨herr, hrsp⟩ := forwarded_succeeded rfl fits connected hok
      refine ⟨htracked, hcount.ge, fun _ => ?_, .inr ⟨herr, ?_⟩⟩
      · rw [show heldNow k e (forwarded e s .beginOperation req).st = _ from held]
        exact Finset.subset_insert _ _
      · rw [hrsp, show heldNow k e (forwarded e s .beginOperation req).st = _ from held]
        exact Finset.Subset.refl _
    · simp only [if_neg hok] at held
      refine ⟨htracked, hcount.ge, fun _ => held.ge, .inl held.le⟩

/-- `begin` first sees to it that the TA is configured. -/
theorem called_begunBy (hfd : Descriptors e) (ht : Tracked k e s) (req : Bytes) :
    BegunBy k e s (called e s .beginOperation req) := by
  rcases called_cases e s .beginOperation req with ⟨hfree, -⟩ | ⟨-, rc, s', hi, hc⟩
  · cases hfree
  have hready : Passed k e ∅ s s' := by
    have hinit : Passed k e ∅ s (beanpodInitialize e s).2 := initialize_passed hfd ht
    rwa [hi] at hinit
  rcases hc with ⟨-, hc⟩ | ⟨-, -, -, hc⟩ | ⟨-, hc⟩ <;> rw [hc]
  · exact hready.begunBy
  · exact hready.begunBy
  · have hsent := forwarded_begunBy hfd hready.tracked req
    have hlater₁ := hready.later
    have hlater₂ := hsent.later
    refine ⟨hsent.tracked, hlater₁.trans hlater₂, fun hsame x hx => ?_, ?_⟩
    · exact hsent.keeps (by omega) (hready.keeps (by omega) x hx (Finset.notMem_empty x))
    · refine hsent.known.imp (fun hsub => hsub.trans hready.shrinks) fun ⟨herr, hsub⟩ => ⟨herr, hsub.trans ?_⟩
      exact Finset.insert_subset_insert _ hready.shrinks

/-! ## Operations -/

/-- The handle in front of a request arrives. -/
theorem handleIn_request (hm : m.noRequest = false) (h : UInt64) {body : Bytes} (hlen : body.length + 8 < 2 ^ 32) :
    handleIn (inputOf m (leBytes 8 h.toNat ++ body)) = h := by
  have hsize : (leBytes 8 h.toNat ++ body).length < 2 ^ 32 := by
    rw [List.length_append, length_leBytes]
    omega
  have hfront : leAt (leBytes 8 h.toNat ++ body) 0 8 = h.toNat := by
    rw [leAt, List.drop_zero, List.take_left' (length_leBytes 8 _), le_leBytes_of_lt h.toNat_lt]
  unfold handleIn inputOf
  rw [hm, if_neg Bool.false_ne_true, Nat.mod_eq_of_lt hsize, List.take_length, Option.getD_some, hfront]
  exact UInt64.ofNat_toNat

variable {op : Operation} {body : Bytes}

/-- The methods of an operation that began. -/
def Method.ofOperation : Method → Bool
  | .updateOperation | .finishOperation | .abortOperation => true
  | _ => false

theorem ofOperation_cases (hm : m.ofOperation = true) :
    m = .updateOperation ∨ m = .finishOperation ∨ m = .abortOperation := by
  revert hm
  cases m <;> decide

/-- A request for the operation other than an `UPDATE` has the TA drop it, unless
it was too large. -/
theorem request_passed (hfd : Descriptors e) (ht : Tracked k e s) (hm : m.ofOperation = true) (op : Operation)
    (hlen : body.length + 8 < 2 ^ 32) :
    let out := op.request e s m body
    Passed k e {op.opHandle} s out.st ∧
      (m ≠ .updateOperation →
        (out.status = some beanpodKmInvalidInputLength → Fits m (leBytes 8 op.opHandle.toNat ++ body)) →
        op.opHandle ∉ heldNow k e out.st) := by
  intro out
  have hunguarded : m.guarded = false ∧ m.noRequest = false ∧ m ≠ .beginOperation := by
    rcases ofOperation_cases hm with rfl | rfl | rfl <;> decide
  obtain ⟨hguard, hreq, hbegin⟩ := hunguarded
  have hin := handleIn_request hreq op.opHandle hlen
  have hcall := call_unguarded hguard e s (leBytes 8 op.opHandle.toNat ++ body)
  have hst : out.st = (forward e s m (leBytes 8 op.opHandle.toNat ++ body)).2 := congrArg Prod.snd hcall
  have hstatus : out.status = (forward e s m (leBytes 8 op.opHandle.toNat ++ body)).1 := congrArg Prod.fst hcall
  rw [hst, hstatus]
  constructor
  · refine forward_passed hfd ht hbegin ?_
    rcases ofOperation_cases hm with rfl | rfl | rfl <;>
    · unfold dropped
      rw [hin]
  · intro hup hsmall
    cases (forward_course hfd ht m (leBytes 8 op.opHandle.toNat ++ body)).2 with
    | refused big err => exact absurd (hsmall err) big
    | reset _ gone =>
      rw [gone]
      exact Finset.notMem_empty _
    | sent _ _ _ held =>
      rw [held, holding_command]
      rcases ofOperation_cases hm with rfl | rfl | rfl
      · exact absurd rfl hup
      · rw [hin]
        exact Finset.notMem_erase _ _
      · rw [hin]
        exact Finset.notMem_erase _ _

/-- After `abort` the TA does not hold the operation. -/
theorem abort_passed (hfd : Descriptors e) (ht : Tracked k e s) (op : Operation) :
    Passed k e {op.opHandle} s (op.abort e s).st ∧ op.opHandle ∉ heldNow k e (op.abort e s).st := by
  have hst : (op.abort e s).st = (op.request e s .abortOperation []).st := by
    unfold Operation.abort
    dsimp only
    split <;> rfl
  obtain ⟨hpassed, hgone⟩ := request_passed (m := .abortOperation) hfd ht rfl op
    (show ([] : Bytes).length + 8 < 2 ^ 32 by decide)
  rw [hst]
  exact ⟨hpassed, hgone (by decide) fun _ => abort_fits _⟩

/-- What a method leaves of the operation: the object keeps the handle, or the TA
does not. -/
structure LeftBy (k : Libraries lib) (e : World) (s : State) (h : UInt64) (out : Ended) : Prop where
  passed : Passed k e {h} s out.st
  carried : out.op.opHandle = h ∨ h ∉ heldNow k e out.st

theorem abort_left (hfd : Descriptors e) (ht : Tracked k e s) (op : Operation) :
    LeftBy k e s op.opHandle (op.abort e s) :=
  ⟨(abort_passed hfd ht op).1, .inr (abort_passed hfd ht op).2⟩

theorem requestOrAbort_left (hfd : Descriptors e) (ht : Tracked k e s) (hm : m.ofOperation = true) (op : Operation)
    (hlen : body.length + 8 < 2 ^ 32) :
    let out := op.requestOrAbort e s m body
    LeftBy k e s op.opHandle out ∧ (m ≠ .updateOperation → op.opHandle ∉ heldNow k e out.st) := by
  intro out
  obtain ⟨hpassed, hgone⟩ := request_passed hfd ht hm op hlen
  have hout : out = op.requestOrAbort e s m body := rfl
  rw [hout]
  unfold Operation.requestOrAbort
  dsimp only
  split
  next hstatus =>
    exact ⟨⟨hpassed, .inl rfl⟩, fun hup => hgone hup fun hbig => by rw [hstatus] at hbig; cases hbig⟩
  next err hstatus =>
    split
    next herr =>
      -- the abort is for the same handle
      obtain ⟨habort, hdropped⟩ := abort_passed hfd hpassed.tracked (op.request e s m body).op
      exact ⟨⟨hpassed.trans habort, .inr hdropped⟩, fun _ => hdropped⟩
    next herr =>
      refine ⟨⟨hpassed, .inl rfl⟩, fun hup => hgone hup fun hbig => absurd ?_ herr⟩
      rw [hstatus] at hbig
      exact Option.some.inj hbig

theorem update_left (r : Replies) (hfd : Descriptors e) (ht : Tracked k e s) (op : Operation) (input : Bytes)
    (hlen : body.length + 8 < 2 ^ 32) (output : Bool) :
    LeftBy k e s op.opHandle (op.update e r s input body output) := by
  have hreq := (requestOrAbort_left (m := .updateOperation) hfd ht rfl op hlen).1
  unfold Operation.update
  dsimp only
  split
  · exact ⟨.refl ht, .inl rfl⟩
  split
  · exact hreq
  split
  · exact ⟨hreq.passed, hreq.carried⟩
  · exact ⟨hreq.passed, hreq.carried⟩

theorem finish_left (r : Replies) (hfd : Descriptors e) (ht : Tracked k e s) (op : Operation)
    (hlen : body.length + 8 < 2 ^ 32) (output : Bool) :
    LeftBy k e s op.opHandle (op.finish e r s body output) := by
  obtain ⟨hreq, hgone⟩ := requestOrAbort_left (m := .finishOperation) hfd ht rfl op hlen
  unfold Operation.finish
  dsimp only
  split
  · exact ⟨.refl ht, .inl rfl⟩
  split
  · exact hreq
  split
  · exact ⟨hreq.passed, .inr (hgone (by decide))⟩
  · exact ⟨hreq.passed, .inr (hgone (by decide))⟩

theorem step_left (r : Replies) (hfd : Descriptors e) (ht : Tracked k e s) (op : Operation) {c : OpCall} (hc : c.fits) :
    LeftBy k e s op.opHandle (op.step e r s c) := by
  cases c with
  | updateAad body => exact (requestOrAbort_left (m := .updateOperation) hfd ht rfl op hc).1
  | update input body output => exact update_left r hfd ht op input hc output
  | finish body output => exact finish_left r hfd ht op hc output
  | abort => exact abort_left hfd ht op

/-! ## The service -/

variable {r : Replies} {v v' : Service}

/-- The TA holds nothing but what an object carries; a handle that is zero stands
for none. -/
structure Owned (k : Libraries lib) (e : World) (v : Service) : Prop where
  tracked : Tracked k e v.st
  carried : Carried Operation.opHandle 0 v.operations (heldNow k e v.st)

theorem heldByTa_eq (ht : Tracked k e v.st) : v.heldByTa k e = heldNow k e v.st := by
  unfold Service.heldByTa
  dsimp only
  rw [ht.alone]
  exact Finset.union_empty _

theorem operation_getElem {i : Nat} {op : Operation} (h : v.operation i = some op) : v.operations[i]? = some (some op) := by
  unfold Service.operation at h
  rw [List.getD_eq_getElem?_getD] at h
  cases hi : v.operations[i]? with
  | none =>
    rw [hi] at h
    cases h
  | some o =>
    rw [hi] at h
    exact congrArg some h

theorem begin_owned (hfd : Descriptors e) (ho : Owned k e v) (purpose : UInt32) (keyBlob : Bytes)
    (params : List k.utils.KeyParameter) (authToken : Option AidlAuthToken) :
    Owned k e (v.next k e r (.begin purpose keyBlob params authToken)) := by
  obtain ⟨req, hnext⟩ := next_begin k e r v purpose keyBlob params authToken
  have hbegun := called_begunBy hfd ho.tracked req
  rw [hnext]
  refine ⟨hbegun.tracked, ?_⟩
  rcases hbegun.known with hsub | ⟨herr, hsub⟩
  · -- one object more does no harm
    intro x hx
    refine (ho.carried x (hsub hx)).imp_right fun ⟨op, hop, heq⟩ => ⟨op, List.mem_append_left _ hop, heq⟩
  · simp only [if_pos herr]
    exact (ho.carried.add { opHandle := k.contents.opHandle ((called e v.st .beginOperation req).response.getD []) }).mono hsub

/-- A call on an operation that leaves another object in its place, or none. -/
theorem Owned.set {i : Nat} {op : Operation} {new : Option Operation} (ho : Owned k e v) (hi : v.operation i = some op)
    (hpassed : Passed k e {op.opHandle} v.st s')
    (hnew : op.opHandle ∈ heldNow k e s' → op.opHandle = 0 ∨ ∃ op', new = some op' ∧ op'.opHandle = op.opHandle) :
    Owned k e ⟨s', v.operations.set i new⟩ := by
  refine ⟨hpassed.tracked, ho.carried.set hpassed.shrinks fun b hb hheld => ?_⟩
  obtain rfl : op = b := by
    have heq := (operation_getElem hi).symm.trans hb
    exact Option.some.inj (Option.some.inj heq)
  exact hnew hheld

theorem operation_owned (hfd : Descriptors e) (ho : Owned k e v) (i : Nat) (c : OperationCall)
    (hfits : (ServiceCall.operation i c).fits k v) : Owned k e (v.next k e r (.operation i c)) := by
  rcases next_operation k e r v i c with hnext | ⟨op, c', hi, hc, hnext⟩
  · rw [hnext]
    exact ho
  · rw [hnext]
    have hleft : LeftBy k e v.st op.opHandle (op.step e r v.st c') := step_left r hfd ho.tracked op (hfits op hi c' hc)
    refine ho.set hi hleft.passed fun hheld => .inr ⟨_, rfl, ?_⟩
    exact hleft.carried.resolve_right fun hgone => hgone hheld

theorem release_owned (hfd : Descriptors e) (ho : Owned k e v) (i : Nat) : Owned k e (v.next k e r (.release i)) := by
  rcases next_release k e r v i with hnext | ⟨op, hi, ⟨-, hnext⟩ | ⟨hzero, hnext⟩⟩
  · rw [hnext]
    exact ho
  · rw [hnext]
    obtain ⟨hpassed, hgone⟩ := abort_passed hfd ho.tracked op
    exact ho.set hi hpassed fun hheld => absurd hheld hgone
  · rw [hnext]
    exact ho.set hi (.refl ho.tracked) fun _ => .inl hzero

theorem next_owned (hfd : Descriptors e) (ho : Owned k e v) {c : ServiceCall k.utils} (hfits : c.fits k v) :
    Owned k e (v.next k e r c) := by
  cases c with
  | component c =>
    have hpassed : Passed k e ∅ v.st (c.run k e v.st).2 := component_passed hfd ho.tracked c
    exact ⟨hpassed.tracked, ho.carried.mono hpassed.shrinks⟩
  | begin purpose keyBlob params authToken => exact begin_owned hfd ho purpose keyBlob params authToken
  | operation i c => exact operation_owned hfd ho i c hfits
  | release i => exact release_owned hfd ho i

theorem reach_owned (hfd : Descriptors e) (h : Reach (Service.next k e r) (Returns k e r) {} v) : Owned k e v := by
  refine h.invariant ⟨start_tracked k e, ?_⟩ fun v c ho hok => next_owned hfd ho hok.1
  intro x hx
  exact absurd hx (Finset.notMem_empty x)

/-- **No operation is left behind with the TA.** Whatever clients do, an
operation that the TA holds has an object that will abort it; when all objects
are gone the TA holds none. A handle of zero is out of reach of the destructor.
The TA is taken to hold what a granted `BEGIN` adds, until an `UPDATE` that it
refuses, a `FINISH` or an `ABORT` (`holding`); the library is taken to connect on
descriptors above zero (`Descriptors`), and requests on an operation to be shorter than 4 GiB (`fits`). -/
theorem no_operation_left (k : Libraries lib) (e : World) (r : Replies) (hfd : Descriptors e) {v : Service}
    (h : Reach (Service.next k e r) (Returns k e r) {} v) :
    (∀ x ∈ v.heldByTa k e, x = 0 ∨ ∃ op, some op ∈ v.operations ∧ op.opHandle = x) ∧
      ((∀ o ∈ v.operations, o = none) → v.heldByTa k e ⊆ {0}) := by
  have ho := reach_owned hfd h
  rw [heldByTa_eq ho.tracked]
  refine ⟨ho.carried, fun hgone x hx => ?_⟩
  rcases ho.carried x hx with rfl | ⟨op, hop, -⟩
  · exact Finset.mem_singleton_self 0
  · cases hgone _ hop

/-- Two clients begin an operation each. -/
def bothBegun : Service :=
  ([.begin 0 [1] [] none, .begin 0 [2] [] none] : List (ServiceCall plainLibraries.utils)).foldl
    (Service.next plainLibraries granting silent) {}

/-- One finishes, and both let go. -/
def lettingGo : List (ServiceCall plainLibraries.utils) :=
  [.operation 0 (.finish none none none true), .release 0, .release 1]

theorem bothBegun_reached : Reach (Service.next plainLibraries granting silent) (Returns plainLibraries granting silent) {}
    bothBegun := by
  have hreturns : allowedAlong (Service.next plainLibraries granting silent) (Returns plainLibraries granting silent) {}
      [.begin 0 [1] [] none, .begin 0 [2] [] none] := by decide +kernel
  exact Reach.start.run hreturns

theorem granting_descriptors : Descriptors granting := fun _ _ => show (0 : Int) < 3 by decide

/-- The TA holds both operations, and in the end none. -/
theorem lettingGo_left :
    bothBegun.heldByTa plainLibraries granting = {3, 4} ∧
      (lettingGo.foldl (Service.next plainLibraries granting silent) bothBegun).heldByTa plainLibraries granting ⊆ {0} := by
  have hreturns : allowedAlong (Service.next plainLibraries granting silent) (Returns plainLibraries granting silent)
      bothBegun lettingGo := by decide +kernel
  have hgone : ∀ o ∈ (lettingGo.foldl (Service.next plainLibraries granting silent) bothBegun).operations, o = none := by
    decide +kernel
  refine ⟨by decide +kernel, ?_⟩
  exact (no_operation_left plainLibraries granting silent granting_descriptors (bothBegun_reached.run hreturns)).2 hgone

/-! ## Other operations -/

/-- The call is on no object that carries `h`. -/
def Spares (h : UInt64) (v : Service) {utils : KmUtils lib} : ServiceCall utils → Prop
  | .operation i _ | .release i => ∀ op ∈ v.operation i, op.opHandle ≠ h
  | .component _ | .begin .. => True

instance (h : UInt64) (v : Service) {utils : KmUtils lib} : (c : ServiceCall utils) → Decidable (Spares h v c)
  | .operation _ _ | .release _ => inferInstanceAs (Decidable (∀ _ ∈ _, _))
  | .component _ | .begin .. => inferInstanceAs (Decidable True)

/-- A call that spares an operation leaves it with the TA, as long as the session
stands. -/
theorem next_spares (hfd : Descriptors e) (ho : Owned k e v) {c : ServiceCall k.utils} (hfits : c.fits k v) {h : UInt64}
    (hspares : Spares h v c) :
    v.st.ipc.connects ≤ (v.next k e r c).st.ipc.connects ∧
      ((v.next k e r c).st.ipc.connects = v.st.ipc.connects → h ∈ heldNow k e v.st →
        h ∈ heldNow k e (v.next k e r c).st) := by
  have hpassed {s' : State} {x : UInt64} (hp : Passed k e {x} v.st s') (hne : x ≠ h) :
      v.st.ipc.connects ≤ s'.ipc.connects ∧
        (s'.ipc.connects = v.st.ipc.connects → h ∈ heldNow k e v.st → h ∈ heldNow k e s') :=
    ⟨hp.later, fun hsame hh => hp.keeps hsame h hh fun hx => hne (Finset.mem_singleton.mp hx).symm⟩
  cases c with
  | component c =>
    have hp : Passed k e ∅ v.st (c.run k e v.st).2 := component_passed hfd ho.tracked c
    exact ⟨hp.later, fun hsame hh => hp.keeps hsame h hh (Finset.notMem_empty h)⟩
  | begin purpose keyBlob params authToken =>
    obtain ⟨req, hnext⟩ := next_begin k e r v purpose keyBlob params authToken
    have hbegun := called_begunBy hfd ho.tracked req
    rw [hnext]
    exact ⟨hbegun.later, fun hsame hh => hbegun.keeps hsame hh⟩
  | operation i c =>
    rcases next_operation k e r v i c with hnext | ⟨op, c', hi, hc, hnext⟩
    · rw [hnext]
      exact ⟨le_rfl, fun _ hh => hh⟩
    · rw [hnext]
      exact hpassed (step_left r hfd ho.tracked op (hfits op hi c' hc)).passed (hspares op hi)
  | release i =>
    rcases next_release k e r v i with hnext | ⟨op, hi, ⟨-, hnext⟩ | ⟨-, hnext⟩⟩
    · rw [hnext]
      exact ⟨le_rfl, fun _ hh => hh⟩
    · rw [hnext]
      exact hpassed (abort_passed hfd ho.tracked op).1 (hspares op hi)
    · rw [hnext]
      exact ⟨le_rfl, fun _ hh => hh⟩

/-- **Clients do not end each other's operations.** From any state on, whatever
is called but the objects that carry the handle, the TA still holds the
operation if no other session was asked for meanwhile. What the TA holds, and what
is assumed of descriptors and requests, is as in `no_operation_left`. -/
theorem operation_undisturbed (k : Libraries lib) (e : World) (r : Replies) (hfd : Descriptors e) {h : UInt64}
    {v v' : Service} (hv : Reach (Service.next k e r) (Returns k e r) {} v)
    (hrun : Reach (Service.next k e r) (fun v c => Returns k e r v c ∧ Spares h v c) v v')
    (hsame : v'.st.ipc.connects = v.st.ipc.connects) (hh : h ∈ v.heldByTa k e) : h ∈ v'.heldByTa k e := by
  have ho := reach_owned hfd hv
  have hall : Owned k e v' ∧ v.st.ipc.connects ≤ v'.st.ipc.connects ∧
      (v'.st.ipc.connects = v.st.ipc.connects → h ∈ heldNow k e v'.st) := by
    refine hrun.invariant (P := fun w => Owned k e w ∧ v.st.ipc.connects ≤ w.st.ipc.connects ∧
      (w.st.ipc.connects = v.st.ipc.connects → h ∈ heldNow k e w.st)) ⟨ho, le_rfl, fun _ => ?_⟩ ?_
    · rwa [← heldByTa_eq ho.tracked]
    · rintro w c ⟨how, hlater, hkept⟩ ⟨hreturns, hspares⟩
      obtain ⟨hgrows, hstays⟩ := next_spares hfd how hreturns.1 hspares
      exact ⟨next_owned hfd how hreturns.1, hlater.trans hgrows, fun hw => hstays (by omega) (hkept (by omega))⟩
  rw [heldByTa_eq hall.1.tracked]
  exact hall.2.2 hsame

/-- One finishes and lets go, and keys are deleted. -/
def firstFinishes : List (ServiceCall plainLibraries.utils) :=
  [.operation 0 (.finish none none none true), .component .deleteAllKeys, .release 0]

/-- The operation of the other client is still there. -/
theorem firstFinishes_undisturbed :
    4 ∈ (firstFinishes.foldl (Service.next plainLibraries granting silent) bothBegun).heldByTa plainLibraries granting := by
  have hspares : allowedAlong (Service.next plainLibraries granting silent)
      (fun v c => Returns plainLibraries granting silent v c ∧ Spares 4 v c) bothBegun firstFinishes := by decide +kernel
  have hsame : (firstFinishes.foldl (Service.next plainLibraries granting silent) bothBegun).st.ipc.connects =
      bothBegun.st.ipc.connects := by decide +kernel
  have hheld : bothBegun.heldByTa plainLibraries granting = {3, 4} := by decide +kernel
  have hstart := bothBegun_reached
  have hrun := Reach.start.run hspares
  -- the states are not to be computed again
  generalize firstFinishes.foldl (Service.next plainLibraries granting silent) bothBegun = v' at hrun hsame ⊢
  generalize bothBegun = v at hstart hrun hsame hheld
  refine operation_undisturbed plainLibraries granting silent granting_descriptors hstart hrun hsame ?_
  rw [hheld]
  decide

end Keymint
