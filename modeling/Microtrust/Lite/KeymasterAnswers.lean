/-
What the clients of the Keymaster 4 device are given.

The device has one connection for all of them. Whatever failed on it before,
what a client is given with no error is what the TA answered to the request of
this very call; with an error it is given nothing else. There are three
exceptions: `verifyAuthorization` hands out a token and `begin` a handle in any
case, and the nonce of `getHmacSharingParameters` is then what the stack held.
-/
import Microtrust.Lite.KeymasterOperations

namespace LiteKeymaster

open Lib Keymaster

/-- Nothing is in it, but for a nonce nobody set. -/
def KeyAnswer.Empty (nonce : Bytes) : KeyAnswer → Prop
  | .nothing => True
  | .created keyBlob hardware software => keyBlob = [] ∧ hardware = [] ∧ software = []
  | .characteristics hardware software => hardware = [] ∧ software = []
  | .blob bs => bs = []
  | .certChain chain => chain = []
  | .sharing params => params.seed = [] ∧ params.nonce = nonce
  | .verified _ => False

/-- What a call may hand out with an error. -/
def KeyCall.bare (nonce : Bytes) : KeyCall → KeyAnswer → Prop
  | .verifyAuthorization .., _ => True
  | _, a => a.Empty nonce

/-- What a call ends with is its own: with no error, what is in the answer of
the TA to the request of this call, and with an error something bare. -/
structure Own {α β : Type} (env : Env) (s : State) (req : Request) (fmt : ResponseFormat α) (hands : α → β)
    (bare : β → Prop) (error : Int) (out : β) (st : State) : Prop where
  answered : error = kmErrorOk → st.served = s.served ++ [req] ∧
    (fmt.accepted (env.answer s.served.length req).payload).map hands = some out
  failed : error ≠ kmErrorOk → bare out

variable {env : Env} {s : State} {cmd : UInt32} {α : Type} {fmt : ResponseFormat α} {req : Bytes}
  {lib : KeymasterDefs} {msgs : Messages lib}

/-- All is well only with what was answered. -/
theorem Fate.ok {f : Forwarded (KeymasterResponse α)} (hf : Fate env fmt s cmd req f) (hok : f.out.error = kmErrorOk) :
    f.st.served = s.served ++ [⟨cmd, req⟩] ∧
      fmt.accepted (env.answer s.served.length ⟨cmd, req⟩).payload = some f.out.rest := by
  cases hf with
  | refused _ herror => exact absurd (herror.symm.trans hok) (by decide)
  | answered _ hserved haccepted =>
    rw [if_pos hok] at haccepted
    exact ⟨hserved, haccepted⟩
  | failed _ herror => exact absurd hok herror

theorem Fate.own {β : Type} {hands : α → β} {bare : β → Prop} {out : β} {f : Forwarded (KeymasterResponse α)}
    (hf : Fate env fmt s cmd req f) (hok : f.out.error = kmErrorOk → out = hands f.out.rest)
    (hbare : f.out.error ≠ kmErrorOk → bare out) : Own env s ⟨cmd, req⟩ fmt hands bare f.out.error out f.st := by
  refine ⟨fun he => ?_, hbare⟩
  obtain ⟨hserved, haccepted⟩ := hf.ok he
  refine ⟨hserved, ?_⟩
  rw [haccepted, hok he]
  rfl

/-- With an error the methods about keys hand out nothing. -/
theorem method_bare {c : KeyCall} {m : Method} (hm : c.method msgs = .ok m) (rest : m.α) :
    c.bare msgs.nonce (m.onError rest) := by
  cases c with
  | addRngEntropy data =>
    simp only [KeyCall.method] at hm
    split at hm
    · cases hm
    · cases hm
      trivial
  | _ =>
    cases hm
    all_goals simp [KeyCall.bare, KeyAnswer.Empty, Device.generateKey, Device.importKey, Device.importWrappedKey,
      Device.getKeyCharacteristics, Device.exportKey, Device.attestKey, Device.upgradeKey,
      Device.getHmacSharingParameters, Device.computeSharedHmac, Device.deviceLocked, Device.earlyBootEnded]

theorem method_own {c : KeyCall} {m : Method} (hidle : Idle s) (hm : c.method msgs = .ok m) (hfits : m.fits) :
    let f := c.run env msgs s
    Own env s ⟨m.cmd, m.req.getD []⟩ m.fmt m.hands (c.bare msgs.nonce) f.out.1 f.out.2 f.st := by
  intro f
  obtain ⟨g, _, hfate, hrun⟩ := m.run_fate env hidle hfits
  have hf : f = m.run env s := by
    show c.run env msgs s = m.run env s
    unfold KeyCall.run
    rw [hm]
  rw [hf, hrun]
  refine hfate.own (fun hok => if_pos hok) fun herror => ?_
  dsimp only
  rw [if_neg herror]
  exact method_bare hm g.out.rest

/-- The request that was too large is not the one that is answered. -/
theorem forwardOrAbort_own {h : UInt64} {body : Bytes} (fmt : ResponseFormat α) (hidle : Idle s)
    (hlen : body.length + 8 < 2 ^ 32) :
    let f := Device.forwardOrAbort env msgs fmt s cmd h body
    f.out.error = kmErrorOk → f.st.served = s.served ++ [⟨cmd, handleBytes h ++ body⟩] ∧
      fmt.accepted (env.answer s.served.length ⟨cmd, handleBytes h ++ body⟩).payload = some f.out.rest := by
  intro f hok
  have hrefused : ¬ kmErrorInvalidInputLength = kmErrorOk := by decide
  obtain ⟨_, hfate⟩ := forwardCommand_fate env cmd fmt hidle (length_handleBytes_append h hlen)
  have hf : f = Device.forwardOrAbort env msgs fmt s cmd h body := rfl
  unfold Device.forwardOrAbort at hf
  dsimp only at hf
  split at hf
  · rw [hf] at hok
    exact absurd hok hrefused
  · rw [hf] at hok ⊢
    exact hfate.ok hok

theorem begin_own {r : BeginOperationRequest lib} (hidle : Idle s)
    (hlen : (msgs.bytes.beginOperation r).length < 2 ^ 32) :
    let f := Device.begin env msgs s r
    Own env s ⟨kmBeginOperation, msgs.bytes.beginOperation r⟩ msgs.formats.begun
      (fun a => ⟨kmErrorOk, msgs.hidl a.outputParams, a.opHandle⟩) (fun out => out.outParams = [])
      f.out.error f.out f.st := by
  obtain ⟨_, hfate⟩ := forwardCommand_fate env kmBeginOperation msgs.formats.begun hidle hlen
  refine hfate.own (fun hok => ?_) fun herror => ?_
  · simp only [Device.begin, hok]
    rfl
  · simp only [Device.begin, if_neg herror]

theorem update_own {r : UpdateOperationRequest lib} (hidle : Idle s)
    (hlen : (msgs.bytes.updateOperation r).length + 8 < 2 ^ 32) :
    let f := Device.update env msgs s r
    Own env s ⟨kmUpdateOperation, handleBytes r.opHandle ++ msgs.bytes.updateOperation r⟩ msgs.formats.updated
      (fun a => ⟨kmErrorOk, a.inputConsumed, msgs.hidl a.outputParams, a.output⟩) (fun out => out = { error := out.error })
      f.out.error f.out f.st := by
  intro f
  have hf : f = Device.update env msgs s r := rfl
  unfold Device.update at hf
  dsimp only at hf
  split at hf
  next hok =>
    obtain ⟨hserved, haccepted⟩ := forwardOrAbort_own msgs.formats.updated hidle hlen hok
    rw [hf, hok]
    refine ⟨fun _ => ⟨hserved, ?_⟩, fun hne => absurd rfl hne⟩
    rw [haccepted]
    rfl
  next hne =>
    rw [hf]
    exact ⟨fun hok => absurd hok hne, fun _ => rfl⟩

theorem finish_own {r : FinishOperationRequest lib} (hidle : Idle s)
    (hlen : (msgs.bytes.finishOperation r).length + 8 < 2 ^ 32) :
    let f := Device.finish env msgs s r
    Own env s ⟨kmFinishOperation, handleBytes r.opHandle ++ msgs.bytes.finishOperation r⟩ msgs.formats.finished
      (fun a => ⟨kmErrorOk, 0, msgs.hidl a.outputParams, a.output⟩) (fun out => out = { error := out.error })
      f.out.error f.out f.st := by
  intro f
  have hf : f = Device.finish env msgs s r := rfl
  unfold Device.finish at hf
  dsimp only at hf
  split at hf
  next hok =>
    obtain ⟨hserved, haccepted⟩ := forwardOrAbort_own msgs.formats.finished hidle hlen hok
    rw [hf, hok]
    refine ⟨fun _ => ⟨hserved, ?_⟩, fun hne => absurd rfl hne⟩
    rw [haccepted]
    rfl
  next hne =>
    rw [hf]
    exact ⟨fun hok => absurd hok hne, fun _ => rfl⟩

/-- **Every client is given its own answer.** In whatever state a run has left
the connection, what a method of the device hands out with no error is what the
TA answered to the request of this call, with an error nothing. -/
theorem device_answers_own {d : DeviceState} (hd : DeviceReached env msgs d) :
    (∀ (c : KeyCall) (m : Method), c.method msgs = .ok m → m.fits →
      let f := c.run env msgs d.ipc
      Own env d.ipc ⟨m.cmd, m.req.getD []⟩ m.fmt m.hands (c.bare msgs.nonce) f.out.1 f.out.2 f.st) ∧
    (∀ r : BeginOperationRequest lib, (msgs.bytes.beginOperation r).length < 2 ^ 32 →
      let f := Device.begin env msgs d.ipc r
      Own env d.ipc ⟨kmBeginOperation, msgs.bytes.beginOperation r⟩ msgs.formats.begun
        (fun a => ⟨kmErrorOk, msgs.hidl a.outputParams, a.opHandle⟩) (fun out => out.outParams = [])
        f.out.error f.out f.st) ∧
    (∀ r : UpdateOperationRequest lib, (msgs.bytes.updateOperation r).length + 8 < 2 ^ 32 →
      let f := Device.update env msgs d.ipc r
      Own env d.ipc ⟨kmUpdateOperation, handleBytes r.opHandle ++ msgs.bytes.updateOperation r⟩ msgs.formats.updated
        (fun a => ⟨kmErrorOk, a.inputConsumed, msgs.hidl a.outputParams, a.output⟩)
        (fun out => out = { error := out.error }) f.out.error f.out f.st) ∧
    ∀ r : FinishOperationRequest lib, (msgs.bytes.finishOperation r).length + 8 < 2 ^ 32 →
      let f := Device.finish env msgs d.ipc r
      Own env d.ipc ⟨kmFinishOperation, handleBytes r.opHandle ++ msgs.bytes.finishOperation r⟩ msgs.formats.finished
        (fun a => ⟨kmErrorOk, 0, msgs.hidl a.outputParams, a.output⟩) (fun out => out = { error := out.error })
        f.out.error f.out f.st := by
  have hidle : Idle d.ipc := (DeviceReached.inStep hd).idle
  refine ⟨?_, ?_, ?_, ?_⟩
  · intro c m hm hfits
    exact method_own hidle hm hfits
  · intro r hlen
    exact begin_own hidle hlen
  · intro r hlen
    exact update_own hidle hlen
  · intro r hlen
    exact finish_own hidle hlen

/-- The state after the message of an `ABORT` was lost, and the connection
replaced. -/
def afterLoss : DeviceState :=
  (twoClients ++ [DeviceCall.abort 7]).foldl (DeviceState.next oneOperation plainMessages) {}

/-- The next `begin` is answered, and given what its own request was answered with. -/
theorem afterLoss_own :
    (Device.begin oneOperation plainMessages afterLoss.ipc ⟨0, [6], []⟩).out.error = kmErrorOk ∧
      (Device.begin oneOperation plainMessages afterLoss.ipc ⟨0, [6], []⟩).st.served =
        afterLoss.ipc.served ++ [⟨kmBeginOperation, [6]⟩] := by
  have hallowed : allowedAlong (DeviceState.next oneOperation plainMessages) (fun _ c => c.allowed plainMessages) {}
      (twoClients ++ [DeviceCall.abort 7]) := by decide +kernel
  have hok : (Device.begin oneOperation plainMessages afterLoss.ipc ⟨0, [6], []⟩).out.error = kmErrorOk := by
    decide +kernel
  obtain ⟨_, hbegin, _⟩ := device_answers_own (d := afterLoss) (Reach.start.run hallowed)
  exact ⟨hok, ((hbegin ⟨0, [6], []⟩ (by decide)).answered hok).1⟩

end LiteKeymaster
