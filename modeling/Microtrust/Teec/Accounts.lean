/-
The accounts of a client of the TEE client library.

Over every run of a polite client, each kind of resource is accounted for: the
descriptors of the devices that were opened are those closed and those of the
contexts that are registered, the sessions granted are those closed and those
registered, and the mappings and ids of blocks are those given back and those of
the blocks the client holds. No session is opened, used or closed through a
descriptor that is not open.
-/
import Microtrust.Teec.Runs
import Microtrust.Lib.Accounted

namespace Teec

open Lib

/-! ## What is out -/

/-- The descriptor of the device a call opened. -/
def Call.opened : Call → Option Int
  | .openDev fd => some fd
  | _ => none

/-- The descriptor through which a call speaks to the TEE about a session. -/
def Call.speaks : Call → Option Int
  | .openSession fd | .invoke fd _ _ | .closeSession fd _ => some fd
  | _ => none

namespace State

def openFds (s : State) : List Int := s.contextMap.keys.map fun k : Ref => (s.contexts k).fd

/-- What the TEE knows a session by. -/
def named (s : State) (k : Ref) : Int × UInt32 := ((s.contexts (s.sessions k).ctx).fd, (s.sessions k).sessionId)

def openSessions (s : State) : List (Int × UInt32) := s.sessionMap.keys.map s.named

/-- The descriptor is open after these calls. -/
def openAfter (calls : List Call) (fd : Int) : Prop :=
  (calls.filterMap Call.closedFd).count fd < (calls.filterMap Call.opened).count fd

end State

/-- Where a block is mapped, and what the kernel knows it by. -/
def SharedMemory.mapping (shm : SharedMemory) : Addr × UInt64 :=
  (if shm.shadowBuffer ≠ 0 then shm.shadowBuffer else shm.buffer, shm.allocedSize)

def SharedMemory.handle (shm : SharedMemory) : Int × Int := (shm.registeredFd, shm.id)

/-- A release gives the block back. -/
def SharedMemory.holding (shm : SharedMemory) : Prop :=
  shm.id ≠ -1 ∧ 0 ≤ shm.registeredFd ∧ (shm.shadowBuffer ≠ 0 ∨ shm.buffer ≠ 0)

/-- Whatever is said to the TEE is said through an open descriptor. -/
def Spoken (calls : List Call) : Prop :=
  ∀ pre c post, calls = pre ++ c :: post → ∀ fd, c.speaks = some fd → State.openAfter pre fd

structure Accounts (p : Process) : Prop where
  fds : Accounted (p.st.calls.filterMap Call.closedFd) p.st.openFds (p.st.calls.filterMap Call.opened)
  sessions : Accounted (p.st.calls.filterMap Call.closedSession) p.st.openSessions p.granted
  maps : Accounted (p.st.calls.filterMap Call.unmapped) (p.held.map fun b => (p.st.blocks b).mapping)
    (p.st.calls.filterMap Call.mapped)
  ids : Accounted (p.st.calls.filterMap Call.released) (p.held.map fun b => (p.st.blocks b).handle)
    (p.st.calls.filterMap Call.obtained)
  spoken : Spoken p.st.calls

/-- The accounts, and what keeps them: a registered session is in a registered
context, and the blocks held are ones a release gives back. -/
structure Kept (p : Process) : Prop extends Accounts p where
  owned : ∀ k ∈ p.st.sessionMap, ∃ c ∈ p.st.contextMap, c.1 = (p.st.sessions k).ctx
  holding : ∀ b ∈ p.held, (p.st.blocks b).holding
  once : p.held.Nodup

/-! ## Speaking -/

section

variable {calls new : List Call} {s s' : State} {p : Process}

theorem spoken_append (h : Spoken calls)
    (hnew : ∀ pre c post, new = pre ++ c :: post → ∀ fd, c.speaks = some fd → State.openAfter (calls ++ pre) fd) :
    Spoken (calls ++ new) := by
  intro pre c post hsplit fd hspeaks
  rcases List.append_eq_append_iff.mp hsplit with ⟨mid, hpre, hrest⟩ | ⟨mid, hcalls, hrest⟩
  · rw [hpre]
    exact hnew mid c post hrest fd hspeaks
  · cases mid with
    | nil =>
      rw [List.append_nil] at hcalls
      have hfirst := hnew [] c post hrest.symm fd hspeaks
      rwa [List.append_nil, hcalls] at hfirst
    | cons d mid =>
      cases hrest
      exact h pre c mid hcalls fd hspeaks

/-- Nothing is said. -/
theorem spoken_silent (h : Spoken calls) (hnew : ∀ c ∈ new, c.speaks = none) : Spoken (calls ++ new) := by
  refine spoken_append h ?_
  rintro pre c post rfl fd hspeaks
  rw [hnew c (by simp)] at hspeaks
  cases hspeaks

/-- It is said through descriptors that are open, and none is opened or closed meanwhile. -/
theorem spoken_through (h : Spoken calls) (hfds : ∀ c ∈ new, ∀ fd, c.speaks = some fd → State.openAfter calls fd)
    (hclosed : new.filterMap Call.closedFd = []) (hopened : new.filterMap Call.opened = []) : Spoken (calls ++ new) := by
  refine spoken_append h ?_
  rintro pre c post rfl fd hspeaks
  rw [List.filterMap_append] at hclosed hopened
  rw [State.openAfter, List.filterMap_append, List.filterMap_append, (List.append_eq_nil_iff.mp hclosed).1,
    (List.append_eq_nil_iff.mp hopened).1, List.append_nil, List.append_nil]
  exact hfds c (by simp) fd hspeaks

theorem Accounts.open_of_registered (h : Accounts p) {k : Ref} (hk : k ∈ p.st.contextMap) :
    State.openAfter p.st.calls (p.st.contexts k).fd :=
  h.fds.count_lt (List.mem_map_of_mem hk)

/-! ## One exchange -/

theorem filterMap_ledger {α : Type*} {g : Call → Option α} (fs : List Fate) (mid : List Call)
    (hmmap : ∀ fd len a, g (.mmap fd len a) = none) (hid : ∀ fd a id, g (.shmId fd a id) = none)
    (hunmap : ∀ a len, g (.munmap a len) = none) (hrelease : ∀ fd id, g (.shmRelease fd id) = none)
    (hclose : ∀ fd, g (.close fd) = none) : (ledger fs mid).filterMap g = mid.filterMap g := by
  have hacquired : (fs.flatMap Fate.acquired).filterMap g = [] := by
    rw [List.filterMap_flatMap, List.flatMap_eq_nil_iff]
    intro f _
    cases f <;> simp [Fate.acquired, hmmap, hid]
  have hgiven : (fs.flatMap Fate.given).filterMap g = [] := by
    rw [List.filterMap_flatMap, List.flatMap_eq_nil_iff]
    intro f _
    cases f with
    | untouched => simp [Fate.given, hclose, hrelease]
    | refused fd len => rfl
    | held fd a len id => by_cases h : id = -1 <;> simp [Fate.given, h, hunmap, hrelease]
  rw [ledger, List.filterMap_append, List.filterMap_append, hacquired, hgiven, List.nil_append, List.append_nil]

/-- The calls of an exchange say at most the one thing, and settle what they take. -/
structure QuietBut (call : Call) (new : List Call) : Prop where
  settled : Settled new
  closedSession : new.filterMap Call.closedSession = []
  opened : new.filterMap Call.opened = []
  speaks : ∀ c ∈ new, ∀ fd, c.speaks = some fd → call.speaks = some fd

theorem exchange_quiet (s : State) (ctx : Addr) (call : Call) (op : Option Operation)
    (answered : Reply → State → State) (hneutral : call.neutral) (hclosed : call.closedSession = none)
    (hopened : call.opened = none) (ha : ∀ r s, (answered r s).calls = s.calls)
    (htemp : ∀ o, op = some o → TempRefsReached s ctx o) :
    ∃ new, (exchange s ctx call op answered).st.calls = s.calls ++ new ∧ QuietBut call new := by
  have hsettled := (exchange_settled_iff s ctx hneutral op answered ha).mpr htemp
  have hmid {mid : List Call} (hmid : mid = [] ∨ mid = [call]) : ∀ c ∈ mid, c = call := by
    rcases hmid with rfl | rfl
    · simp
    · simp
  have hledger (fs : List Fate) {mid : List Call} (hc : ∀ c ∈ mid, c = call) (hs : Settled (ledger fs mid)) :
      QuietBut call (ledger fs mid) := by
    refine ⟨hs, ?_, ?_, ?_⟩
    · rw [filterMap_ledger fs mid (fun _ _ _ => rfl) (fun _ _ _ => rfl) (fun _ _ => rfl) (fun _ _ => rfl) fun _ => rfl,
        List.filterMap_eq_nil_iff]
      intro c hmem
      rwa [hc c hmem]
    · rw [filterMap_ledger fs mid (fun _ _ _ => rfl) (fun _ _ _ => rfl) (fun _ _ => rfl) (fun _ _ => rfl) fun _ => rfl,
        List.filterMap_eq_nil_iff]
      intro c hmem
      rwa [hc c hmem]
    · intro c hmem fd hspeaks
      have hfd : fd ∈ (ledger fs mid).filterMap Call.speaks := List.mem_filterMap.mpr ⟨c, hmem, hspeaks⟩
      rw [filterMap_ledger fs mid (fun _ _ _ => rfl) (fun _ _ _ => rfl) (fun _ _ => rfl) (fun _ _ => rfl) fun _ => rfl] at hfd
      obtain ⟨d, hd, hd'⟩ := List.mem_filterMap.mp hfd
      rwa [hc d hd] at hd'
  cases op with
  | none =>
    have hcalls := exchange_none_calls s ctx call answered ha
    have hone : [call] = ledger [] [call] := rfl
    rw [settledSince_iff hcalls, hone] at hsettled
    rw [hone] at hcalls
    exact ⟨_, hcalls, hledger [] (by simp) hsettled⟩
  | some op =>
    obtain ⟨mid, hone, hcalls⟩ := exchange_calls s ctx call op answered ha
    rw [settledSince_iff hcalls] at hsettled
    exact ⟨_, hcalls, hledger _ (hmid hone) hsettled⟩

/-! ## One step -/

/-- A step keeps the accounts if it is accounted for by itself. -/
theorem Kept.step {p' : Process} {granted : List (Int × UInt32)} (h : Kept p) (hcalls : p'.st.calls = p.st.calls ++ new)
    (hgranted : p'.granted = p.granted ++ granted)
    (hfds : (new.filterMap Call.closedFd ++ p'.st.openFds).Perm (new.filterMap Call.opened ++ p.st.openFds))
    (hsessions : (new.filterMap Call.closedSession ++ p'.st.openSessions).Perm (granted ++ p.st.openSessions))
    (hmaps : (new.filterMap Call.unmapped ++ p'.held.map fun b => (p'.st.blocks b).mapping).Perm
      (new.filterMap Call.mapped ++ p.held.map fun b => (p.st.blocks b).mapping))
    (hids : (new.filterMap Call.released ++ p'.held.map fun b => (p'.st.blocks b).handle).Perm
      (new.filterMap Call.obtained ++ p.held.map fun b => (p.st.blocks b).handle))
    (hspoken : Spoken (p.st.calls ++ new)) (howned : ∀ k ∈ p'.st.sessionMap, ∃ c ∈ p'.st.contextMap, c.1 = (p'.st.sessions k).ctx)
    (hholding : ∀ b ∈ p'.held, (p'.st.blocks b).holding) (honce : p'.held.Nodup) : Kept p' := by
  refine ⟨⟨?_, ?_, ?_, ?_, ?_⟩, howned, hholding, honce⟩
  · rw [hcalls, List.filterMap_append, List.filterMap_append]
    exact h.fds.append hfds
  · rw [hcalls, hgranted, List.filterMap_append]
    exact h.sessions.append hsessions
  · rw [hcalls, List.filterMap_append, List.filterMap_append]
    exact h.maps.append hmaps
  · rw [hcalls, List.filterMap_append, List.filterMap_append]
    exact h.ids.append hids
  · rw [hcalls]
    exact hspoken

theorem Stays.openFds (h : Stays s s') : s'.openFds = s.openFds := by
  rw [State.openFds, h.contextMap, h.contexts]
  rfl

theorem Stays.openSessions (h : Stays s s') : s'.openSessions = s.openSessions := by
  have hnamed : s'.named = s.named := by
    funext k
    rw [State.named, h.contexts, h.sessions]
    rfl
  rw [State.openSessions, h.sessionMap, hnamed]
  rfl

/-- An exchange that registers nothing. -/
theorem Kept.exchanged {call : Call} (h : Kept p) (hstays : Stays p.st s') (hcalls : s'.calls = p.st.calls ++ new)
    (hquiet : QuietBut call new) (hspeaks : ∀ fd, call.speaks = some fd → State.openAfter p.st.calls fd) :
    Kept { p with st := s' } := by
  have hclosed := hquiet.settled.closed
  refine h.step hcalls (List.append_nil _).symm ?_ ?_ ?_ ?_ ?_ ?_ ?_ h.once
  · rw [hclosed, hquiet.opened, hstays.openFds]
  · rw [hquiet.closedSession, hstays.openSessions]
  · rw [hstays.blocks]
    exact hquiet.settled.unmapped.append_right _
  · rw [hstays.blocks]
    exact hquiet.settled.released.append_right _
  · exact spoken_through h.spoken (fun c hc fd hfd => hspeaks fd (hquiet.speaks c hc fd hfd)) hclosed hquiet.opened
  · rw [hstays.sessionMap, hstays.contextMap, hstays.sessions]
    exact h.owned
  · rw [hstays.blocks]
    exact h.holding

theorem Kept.invoke {session : Addr} {cmd : UInt32} {op : Option Operation} (h : Kept p)
    (hok : p.polite (.invoke session cmd op)) : Kept (p.step (.invoke session cmd op)) := by
  obtain ⟨⟨k, hk, rfl⟩, htemp⟩ := hok
  obtain ⟨c, hc, hctx⟩ := h.owned k hk
  have htemp' (o : Operation) (ho : (op.map fun o => { o with session := k.1 }) = some o) :
      TempRefsReached p.st (p.st.sessions k).ctx o := by
    obtain ⟨o', ho', rfl⟩ := Option.map_eq_some_iff.mp ho
    exact htemp o' ho'
  have hst : (p.step (.invoke k cmd op)).st = (exchange p.st (p.st.sessions k).ctx
      (.invoke (p.st.contexts (p.st.sessions k).ctx).fd (p.st.sessions k).sessionId cmd)
      (op.map fun o => { o with session := k.1 }) fun _ s => s).st := by
    simp only [Process.step, teecInvokeCommand, if_neg k.2]
  obtain ⟨new, hcalls, hquiet⟩ := exchange_quiet p.st (p.st.sessions k).ctx
    (.invoke (p.st.contexts (p.st.sessions k).ctx).fd (p.st.sessions k).sessionId cmd) _ (fun _ s => s)
    ⟨rfl, rfl, rfl, rfl, rfl⟩ rfl rfl (fun _ _ => rfl) htemp'
  rw [← hst] at hcalls
  refine h.exchanged ?_ hcalls hquiet ?_
  · show Stays p.st (p.step (.invoke k cmd op)).st
    rw [hst]
    rcases exchange_stays p.st _ _ _ fun _ s => s with ⟨hstays, -⟩ | ⟨r, t, hstays, hstays', -⟩
    · exact hstays
    · exact hstays.trans hstays'
  · intro fd hfd
    cases hfd
    rw [← hctx]
    exact h.open_of_registered hc

/-- The TEE grants a session. -/
theorem Kept.granted {c : Ref} {session : Addr} (hz : session ≠ 0) {id : UInt32} {t : State} (h : Kept p)
    (hc : c ∈ p.st.contextMap) (hfree : ∀ k ∈ p.st.sessionMap, k.1 ≠ session) (hst : Stays { p.st with
      sessions := Function.update p.st.sessions session ⟨c, id⟩, sessionMap := p.st.sessionMap.insert ⟨session, hz⟩ } t)
    (hcalls : t.calls = p.st.calls ++ new) (hquiet : QuietBut (.openSession (p.st.contexts c).fd) new) :
    Kept { p with st := t, granted := p.granted ++ [((p.st.contexts c).fd, id)] } := by
  have hclosed := hquiet.settled.closed
  have hother {k : Ref} (hk : k ∈ p.st.sessionMap) : t.sessions k = p.st.sessions k := by
    rw [hst.sessions]
    exact Function.update_of_ne (hfree k hk) _ _
  have hown : t.sessions session = ⟨c, id⟩ := by
    rw [hst.sessions]
    exact Function.update_self ..
  have hnew : (⟨session, hz⟩ : Ref) ∉ p.st.sessionMap := fun hmem => hfree _ hmem rfl
  refine h.step hcalls rfl ?_ ?_ ?_ ?_ ?_ ?_ ?_ h.once
  · rw [hclosed, hquiet.opened]
    show t.openFds.Perm p.st.openFds
    rw [State.openFds, hst.contextMap, hst.contexts]
    exact .refl _
  · rw [hquiet.closedSession]
    have hkeys : t.sessionMap.keys.Perm (⟨session, hz⟩ :: p.st.sessionMap.keys) := by
      rw [hst.sessionMap]
      exact KeySet.keys_insert_perm hnew
    have hrest : p.st.sessionMap.keys.map t.named = p.st.openSessions := by
      refine List.map_congr_left fun k hk => ?_
      rw [State.named, State.named, hother hk, hst.contexts]
    have hnamed : t.named ⟨session, hz⟩ = ((p.st.contexts c).fd, id) := by
      rw [State.named, hown, hst.contexts]
    have hperm := hkeys.map t.named
    rwa [List.map_cons, hrest, hnamed] at hperm
  · show ((new.filterMap Call.unmapped) ++ p.held.map fun b => (t.blocks b).mapping).Perm _
    rw [hst.blocks]
    exact hquiet.settled.unmapped.append_right _
  · show ((new.filterMap Call.released) ++ p.held.map fun b => (t.blocks b).handle).Perm _
    rw [hst.blocks]
    exact hquiet.settled.released.append_right _
  · refine spoken_through h.spoken ?_ hclosed hquiet.opened
    intro d hd fd hfd
    cases hquiet.speaks d hd fd hfd
    exact h.open_of_registered hc
  · show ∀ k ∈ t.sessionMap, ∃ c ∈ t.contextMap, c.1 = (t.sessions k).ctx
    rw [hst.sessionMap, hst.contextMap]
    intro k hk
    rcases KeySet.mem_insertKeys.mp hk with rfl | hk
    · exact ⟨c, hc, by rw [hown]⟩
    · rw [hother hk]
      exact h.owned k hk
  · show ∀ b ∈ p.held, (t.blocks b).holding
    rw [hst.blocks]
    exact h.holding

theorem Kept.openSession {ctx session : Addr} {login : Login} {data : Addr} {op : Option Operation} (h : Kept p)
    (hok : p.polite (.openSession ctx session login data op)) : Kept (p.step (.openSession ctx session login data op)) := by
  obtain ⟨⟨c, hc, rfl⟩, hfree, htemp⟩ := hok
  simp only [Process.step, teecOpenSession]
  by_cases hz : c.1 = 0 ∨ session = 0
  · rw [dif_pos hz]
    exact h
  rw [dif_neg hz]
  cases hlogin : checkLogin login data with
  | error e =>
    have hne : e.1 ≠ success := by
      cases login <;> simp only [checkLogin] at hlogin <;> (try split at hlogin) <;> cases hlogin <;> decide
    simp only [if_neg hne]
    exact h
  | ok =>
    dsimp only
    have hne : session ≠ 0 := fun he => hz (.inr he)
    have hcalls (r : Reply) (s : State) : (if r.ret = success then { s with
        sessions := Function.update s.sessions session ⟨c.1, r.session⟩ } else s).calls = s.calls := by
      split <;> rfl
    obtain ⟨new, hnew, hquiet⟩ := exchange_quiet p.st c (.openSession (p.st.contexts c).fd) op _
      ⟨rfl, rfl, rfl, rfl, rfl⟩ rfl rfl hcalls htemp
    have hstays := exchange_stays p.st c (.openSession (p.st.contexts c).fd) op fun r s =>
      if r.ret = success then { s with sessions := Function.update s.sessions session ⟨c.1, r.session⟩ } else s
    generalize exchange p.st c (.openSession (p.st.contexts c).fd) op (fun r s =>
      if r.ret = success then { s with sessions := Function.update s.sessions session ⟨c.1, r.session⟩ } else s) = out at hnew hstays ⊢
    have hspeaks (fd : Int) (hfd : (Call.openSession (p.st.contexts c).fd).speaks = some fd) :
        State.openAfter p.st.calls fd := by
      cases hfd
      exact h.open_of_registered hc
    by_cases hres : out.res = success
    · rw [if_pos hres]
      rcases hstays with ⟨-, hbad⟩ | ⟨r, t, hbefore, hafter, hret⟩
      · exact absurd hres hbad
      · rw [hret] at hres
        rw [if_pos hres] at hafter
        have hafter' : Stays { p.st with
            sessions := Function.update p.st.sessions session ⟨c.1, r.session⟩
            sessionMap := p.st.sessionMap.insert ⟨session, hne⟩ }
            { out.st with sessionMap := out.st.sessionMap.insert ⟨session, hne⟩ } := by
          refine ⟨hafter.contexts.trans hbefore.contexts, ?_, hafter.blocks.trans hbefore.blocks,
            hafter.contextMap.trans hbefore.contextMap, ?_⟩
          · rw [hafter.sessions, hbefore.sessions]
          · rw [hafter.sessionMap, hbefore.sessionMap]
        have hsession : out.st.sessions session = ⟨c.1, r.session⟩ := by
          rw [hafter.sessions]
          exact Function.update_self ..
        have hpair : ((out.st.contexts c).fd, (out.st.sessions session).sessionId) = ((p.st.contexts c).fd, r.session) := by
          rw [hsession, hafter.contexts]
          show ((t.contexts c).fd, r.session) = _
          rw [hbefore.contexts]
        have hgranted := h.granted hne hc hfree hafter' hnew hquiet
        rw [← hpair] at hgranted
        rw [if_pos (hret.trans hres)]
        exact hgranted
    · simp only [if_neg hres]
      refine h.exchanged ?_ hnew hquiet hspeaks
      rcases hstays with ⟨hstays, -⟩ | ⟨r, t, hbefore, hafter, hret⟩
      · exact hstays
      · rw [hret] at hres
        rw [if_neg hres] at hafter
        exact hbefore.trans hafter

theorem Kept.closeSession (h : Kept p) (session : Addr) : Kept (p.step (.closeSession session)) := by
  simp only [Process.step]
  by_cases hmem : ∃ k ∈ p.st.sessionMap, k.1 = session
  · obtain ⟨k, hk, rfl⟩ := hmem
    obtain ⟨c, hc, hctx⟩ := h.owned k hk
    rw [closeSession_of_mem hk]
    refine h.step rfl (List.append_nil _).symm (.refl _) ?_ (.refl _) (.refl _) ?_ ?_ h.holding h.once
    · exact ((KeySet.keys_perm_erase hk).map p.st.named).symm
    · refine spoken_through h.spoken ?_ rfl rfl
      intro d hd fd hfd
      rw [List.mem_singleton.mp hd] at hfd
      cases hfd
      rw [← hctx]
      exact h.open_of_registered hc
    · intro k' hk'
      exact h.owned k' (KeySet.mem_erase.mp hk').2
  · have hsame : teecCloseSession p.st session = p.st := by
      unfold teecCloseSession
      split
      · rfl
      · next hz => exact if_neg fun hm => hmem ⟨_, hm, rfl⟩
    rw [hsame]
    exact h

theorem Kept.finalizeContext {ctx : Addr} (h : Kept p) (hok : p.polite (.finalizeContext ctx)) :
    Kept (p.step (.finalizeContext ctx)) := by
  by_cases hmem : ∃ k ∈ p.st.contextMap, k.1 = ctx
  · obtain ⟨k, hk, rfl⟩ := hmem
    have hst : p.step (.finalizeContext k) = { p with st := { p.st.log (.close (p.st.contexts k).fd) with
        contextMap := p.st.contextMap.erase k } } := by
      rw [Process.step, finalize_alone hok, Option.getD_some, dropContext_of_mem hk]
    rw [hst]
    refine h.step rfl (List.append_nil _).symm ?_ (.refl _) (.refl _) (.refl _) ?_ ?_ h.holding h.once
    · exact ((KeySet.keys_perm_erase hk).map fun k : Ref => (p.st.contexts k).fd).symm
    · refine spoken_silent h.spoken ?_
      intro d hd
      rw [List.mem_singleton.mp hd]
      rfl
    · intro k' hk'
      obtain ⟨c, hc, hctx⟩ := h.owned k' hk'
      refine ⟨c, KeySet.mem_erase.mpr ⟨?_, hc⟩, hctx⟩
      rintro rfl
      exact hok k' hk' hctx.symm
  · have hst : p.step (.finalizeContext ctx) = p := by
      rw [Process.step, finalize_alone hok, Option.getD_some, dropContext]
      split
      · rfl
      · rw [if_neg fun hm => hmem ⟨_, hm, rfl⟩]
    rw [hst]
    exact h

/-- A device is opened or closed. -/
def Call.device : Call → Bool
  | .openDev _ | .close _ => true
  | _ => false

theorem filterMap_device {α : Type*} {g : Call → Option α} (hopen : ∀ fd, g (.openDev fd) = none)
    (hclose : ∀ fd, g (.close fd) = none) (hnew : ∀ c ∈ new, c.device = true) : new.filterMap g = [] := by
  rw [List.filterMap_eq_nil_iff]
  intro c hc
  have hdev := hnew c hc
  cases c <;> simp_all [Call.device]

/-- The context was opened as a device, all others tried being closed again, or none was. -/
inductive Tried (ctx : Ref) (s s' : State) (new : List Call) : Prop where
  | none (stays : Stays s s') (fds : (new.filterMap Call.closedFd).Perm (new.filterMap Call.opened))
  | opened (fd : Int) (stays : Stays { s with
      contexts := Function.update s.contexts ctx ⟨fd⟩, contextMap := s.contextMap.insert ctx } s')
      (fds : (fd :: new.filterMap Call.closedFd).Perm (new.filterMap Call.opened))

/-- A device that is missing or refuses comes before. -/
theorem Tried.before {ctx : Ref} {t : State} (h : Tried ctx t s' new) (tries : List Call) (hstays : Stays s t)
    (htries : (tries.filterMap Call.closedFd).Perm (tries.filterMap Call.opened)) : Tried ctx s s' (tries ++ new) := by
  cases h with
  | none stays fds =>
    refine .none (hstays.trans stays) ?_
    rw [List.filterMap_append, List.filterMap_append]
    exact htries.append fds
  | opened fd stays fds =>
    refine .opened fd ?_ ?_
    · refine ⟨?_, stays.sessions.trans hstays.sessions, stays.blocks.trans hstays.blocks, ?_,
        stays.sessionMap.trans hstays.sessionMap⟩
      · rw [stays.contexts, hstays.contexts]
      · rw [stays.contextMap, hstays.contextMap]
    · rw [List.filterMap_append, List.filterMap_append]
      exact List.perm_middle.symm.trans (htries.append fds)

theorem initializeFrom_spec (ctx : Ref) (n : Nat) (s : State) :
    ∃ new, (initializeFrom ctx n s).2.calls = s.calls ++ new ∧ (∀ c ∈ new, c.device = true) ∧
      Tried ctx s (initializeFrom ctx n s).2 new := by
  induction n generalizing s with
  | zero => exact ⟨[], (List.append_nil _).symm, by simp, .none (.refl s) (.refl _)⟩
  | succ n ih =>
    rw [initializeFrom]
    cases hdev : s.env.dev s.devs with
    | missing =>
      have hopen : teecOpenDev s = (none, { s with devs := s.devs + 1 }) := by
        unfold teecOpenDev
        rw [hdev]
      rw [hopen]
      obtain ⟨new, hcalls, hdevice, htried⟩ := ih { s with devs := s.devs + 1 }
      exact ⟨new, hcalls, hdevice, htried.before [] ⟨rfl, rfl, rfl, rfl, rfl⟩ (.refl _)⟩
    | refused fd =>
      have hopen : teecOpenDev s = (none, ({ s with devs := s.devs + 1 }.log (.openDev fd)).log (.close fd)) := by
        unfold teecOpenDev
        rw [hdev]
      rw [hopen]
      obtain ⟨new, hcalls, hdevice, htried⟩ := ih (({ s with devs := s.devs + 1 }.log (.openDev fd)).log (.close fd))
      refine ⟨.openDev fd :: .close fd :: new, ?_, ?_, ?_⟩
      · refine hcalls.trans ?_
        simp [State.log]
      · simpa [Call.device] using hdevice
      · exact htried.before [.openDev fd, .close fd] ⟨rfl, rfl, rfl, rfl, rfl⟩ (.refl _)
    | ready fd =>
      have hopen : teecOpenDev s = (some fd, { s with devs := s.devs + 1 }.log (.openDev fd)) := by
        unfold teecOpenDev
        rw [hdev]
      rw [hopen]
      exact ⟨[.openDev fd], rfl, by simp [Call.device], .opened fd ⟨rfl, rfl, rfl, rfl, rfl⟩ (.refl _)⟩

theorem Kept.initializeContext {ctx : Addr} (h : Kept p) (hok : p.polite (.initializeContext ctx)) :
    Kept (p.step (.initializeContext ctx)) := by
  by_cases hz : ctx = 0
  · have hst : p.step (.initializeContext ctx) = p := by
      rw [Process.step, teecInitializeContext, dif_pos hz]
    rw [hst]
    exact h
  have hfree : (⟨ctx, hz⟩ : Ref) ∉ p.st.contextMap := fun hmem => hok _ hmem rfl
  obtain ⟨new, hcalls, hdevice, htried⟩ := initializeFrom_spec ⟨ctx, hz⟩ maxDevSeq p.st
  have hst : p.step (.initializeContext ctx) = { p with st := (initializeFrom ⟨ctx, hz⟩ maxDevSeq p.st).2 } := by
    rw [Process.step, teecInitializeContext, dif_neg hz]
  rw [hst]
  generalize (initializeFrom ⟨ctx, hz⟩ maxDevSeq p.st).2 = s' at hcalls htried
  have hclosed : new.filterMap Call.closedSession = [] := filterMap_device (fun _ => rfl) (fun _ => rfl) hdevice
  have hunmapped : new.filterMap Call.unmapped = [] := filterMap_device (fun _ => rfl) (fun _ => rfl) hdevice
  have hmapped : new.filterMap Call.mapped = [] := filterMap_device (fun _ => rfl) (fun _ => rfl) hdevice
  have hreleased : new.filterMap Call.released = [] := filterMap_device (fun _ => rfl) (fun _ => rfl) hdevice
  have hobtained : new.filterMap Call.obtained = [] := filterMap_device (fun _ => rfl) (fun _ => rfl) hdevice
  have hsilent : ∀ c ∈ new, c.speaks = none := List.filterMap_eq_nil_iff.mp (filterMap_device (fun _ => rfl) (fun _ => rfl) hdevice)
  cases htried with
  | none stays fds =>
    refine h.step hcalls (List.append_nil _).symm ?_ ?_ ?_ ?_ (spoken_silent h.spoken hsilent) ?_ ?_ h.once
    · rw [stays.openFds]
      exact fds.append_right _
    · rw [hclosed, stays.openSessions]
    · rw [hunmapped, hmapped, stays.blocks]
    · rw [hreleased, hobtained, stays.blocks]
    · rw [stays.sessionMap, stays.contextMap, stays.sessions]
      exact h.owned
    · rw [stays.blocks]
      exact h.holding
  | opened fd stays fds =>
    have hother {k : Ref} (hk : k ∈ p.st.contextMap) : s'.contexts k = p.st.contexts k := by
      rw [stays.contexts]
      exact Function.update_of_ne (hok k hk) _ _
    refine h.step hcalls (List.append_nil _).symm ?_ ?_ ?_ ?_ (spoken_silent h.spoken hsilent) ?_ ?_ h.once
    · have hopen : s'.openFds.Perm (fd :: p.st.openFds) := by
        have hkeys : s'.contextMap.keys.Perm (⟨ctx, hz⟩ :: p.st.contextMap.keys) := by
          rw [stays.contextMap]
          exact KeySet.keys_insert_perm hfree
        have hrest : p.st.contextMap.keys.map (fun k : Ref => (s'.contexts k).fd) = p.st.openFds :=
          List.map_congr_left fun k hk => congrArg Context.fd (hother hk)
        have hown : s'.contexts ctx = ⟨fd⟩ := by
          rw [stays.contexts]
          exact Function.update_self ..
        have hfds := hkeys.map fun k : Ref => (s'.contexts k).fd
        rwa [List.map_cons, hrest, hown] at hfds
      refine (hopen.append_left _).trans (List.perm_middle.trans ?_)
      rw [← List.cons_append]
      exact fds.append_right _
    · rw [hclosed, State.openSessions, stays.sessionMap]
      refine .of_eq (List.map_congr_left fun k hk => ?_)
      obtain ⟨c, hc, hctx⟩ := h.owned k hk
      rw [State.named, State.named, stays.sessions]
      dsimp only
      rw [← hctx, hother hc]
    · rw [hunmapped, hmapped, stays.blocks]
    · rw [hreleased, hobtained, stays.blocks]
    · rw [stays.sessionMap, stays.contextMap, stays.sessions]
      intro k hk
      obtain ⟨c, hc, hctx⟩ := h.owned k hk
      exact ⟨c, KeySet.mem_insertKeys.mpr (.inr hc), hctx⟩
    · rw [stays.blocks]
      exact h.holding

theorem Kept.fill (h : Kept p) (block : Addr) (shm : SharedMemory) (hok : p.polite (.fill block shm)) :
    Kept (p.step (.fill block shm)) := by
  have hblocks (b : Addr) (hb : b ∈ p.held) : (p.step (.fill block shm)).st.blocks b = p.st.blocks b := by
    refine Function.update_of_ne ?_ _ _
    rintro rfl
    exact hok hb
  refine h.step (List.append_nil _).symm (List.append_nil _).symm (.refl _) (.refl _) ?_ ?_ ?_ h.owned ?_ h.once
  · exact .of_eq (List.map_congr_left fun b hb => congrArg _ (hblocks b hb))
  · exact .of_eq (List.map_congr_left fun b hb => congrArg _ (hblocks b hb))
  · rw [List.append_nil]
    exact h.spoken
  · intro b hb
    rw [hblocks b hb]
    exact h.holding b hb

/-- A block the client has filled is mapped. -/
theorem Kept.take {block : Addr} {fd id : Int} {a : Addr} {len : UInt64} (h : Kept p) (hstays : Stays p.st s')
    (hcalls : s'.calls = p.st.calls ++ [.mmap fd len (some a), .shmId fd a id]) (hfree : block ∉ p.held)
    (hholding : (p.st.blocks block).holding) (hmapping : (p.st.blocks block).mapping = (a, len))
    (hhandle : (p.st.blocks block).handle = (fd, id)) : Kept { p with st := s', held := block :: p.held } := by
  refine h.step hcalls (List.append_nil _).symm ?_ ?_ ?_ ?_ (spoken_silent h.spoken (by simp [Call.speaks])) ?_ ?_ ?_
  · exact .of_eq hstays.openFds
  · exact .of_eq hstays.openSessions
  · rw [hstays.blocks, List.map_cons, hmapping]
    exact .refl _
  · rw [hstays.blocks, List.map_cons, hhandle]
    exact .refl _
  · rw [hstays.sessionMap, hstays.contextMap, hstays.sessions]
    exact h.owned
  · rw [hstays.blocks]
    exact List.forall_mem_cons.mpr ⟨hholding, h.holding⟩
  · exact List.nodup_cons.mpr ⟨hfree, h.once⟩

/-- A block that is held is unmapped and its id released. -/
theorem Kept.give {block : Addr} (h : Kept p) (hmem : block ∈ p.held) :
    Kept { p with
      st := (teecReleaseSharedMemory p.st (p.st.blocks block)).2
      held := p.held.erase block } := by
  have hstays := release_stays p.st (p.st.blocks block)
  have hheld : (block :: p.held.erase block).Perm p.held := (List.perm_cons_erase hmem).symm
  obtain ⟨hid, hfd, hbuf⟩ := h.holding block hmem
  have hcalls : (teecReleaseSharedMemory p.st (p.st.blocks block)).2.calls = p.st.calls ++
      [.munmap (p.st.blocks block).mapping.1 (p.st.blocks block).mapping.2,
        .shmRelease (p.st.blocks block).handle.1 (p.st.blocks block).handle.2] := by
    have hneg : ¬ (p.st.blocks block).registeredFd < 0 := by omega
    by_cases hs : (p.st.blocks block).shadowBuffer = 0
    · have hb : (p.st.blocks block).buffer ≠ 0 := hbuf.resolve_left (by simp [hs])
      simp [teecReleaseSharedMemory, hid, hneg, hs, hb, State.munmap, State.log, SharedMemory.mapping, SharedMemory.handle]
    · simp [teecReleaseSharedMemory, hid, hneg, hs, State.munmap, State.log, SharedMemory.mapping, SharedMemory.handle]
  generalize (teecReleaseSharedMemory p.st (p.st.blocks block)).2 = s' at hstays hcalls
  refine h.step hcalls (List.append_nil _).symm ?_ ?_ ?_ ?_ (spoken_silent h.spoken (by simp [Call.speaks])) ?_ ?_
    (h.once.erase block)
  · exact .of_eq hstays.openFds
  · exact .of_eq hstays.openSessions
  · rw [hstays.blocks]
    exact hheld.map fun b => (p.st.blocks b).mapping
  · rw [hstays.blocks]
    exact hheld.map fun b => (p.st.blocks b).handle
  · rw [hstays.sessionMap, hstays.contextMap, hstays.sessions]
    exact h.owned
  · rw [hstays.blocks]
    intro b hb
    exact h.holding b (List.mem_of_mem_erase hb)

/-- What a block that was got is mapped at and known by. -/
theorem hold_spec (o : Origin) (shm : SharedMemory) {fd id : Int} {a : Addr} (hfd : 0 ≤ fd) (ha : a ≠ 0) (hid : 0 ≤ id) :
    (o.hold shm fd a id).holding ∧ (o.hold shm fd a id).mapping = (a, mappedSize shm.size) ∧
      (o.hold shm fd a id).handle = (fd, id) := by
  have hne : id ≠ -1 := by omega
  cases o with
  | allocated => exact ⟨⟨hne, hfd, .inr ha⟩, rfl, rfl⟩
  | registered => exact ⟨⟨hne, hfd, .inl ha⟩, by simp [Origin.hold, SharedMemory.mapping, ha], rfl⟩

theorem Kept.get {o : Origin} {ctx block : Addr} (h : Kept p) (hok : p.polite (.get o ctx block)) :
    Kept (p.step (.get o ctx block)) := by
  obtain ⟨hfree, hid⟩ := hok
  by_cases hok : o.accepts ctx (p.st.blocks block)
  · cases hm : mapAt p.st ctx p.st.allocs with
    | none =>
      obtain ⟨shm', -, hget⟩ := get_unmapped hok hm
      have hbad : errorOutOfMemory ≠ success := by decide
      have hcall : QuietBut (.mmap (p.st.contexts ctx).fd (mappedSize (p.st.blocks block).size) none)
          [.mmap (p.st.contexts ctx).fd (mappedSize (p.st.blocks block).size) none] :=
        ⟨⟨.refl _, .refl _, rfl⟩, rfl, rfl, by simp⟩
      have hlogged : Kept { p with st := ({ p.st with allocs := p.st.allocs + 1 }.log
          (.mmap (p.st.contexts ctx).fd (mappedSize (p.st.blocks block).size) none)) } := by
        refine h.exchanged ⟨rfl, rfl, rfl, rfl, rfl⟩ rfl hcall ?_
        intro fd hfd
        cases hfd
      simp only [Process.step, hget, if_neg hbad]
      exact hlogged.fill block shm' hfree
    | some a =>
      obtain ⟨hfd, ha⟩ := fd_of_mapped hm
      have hid : 0 ≤ nextId p.st := nextId_nonneg.mpr (hid (by rw [hm]; rfl))
      obtain ⟨hholding, hmapping, hhandle⟩ := hold_spec o (p.st.blocks block) hfd ha hid
      have hown : ((p.st.setBlock block (o.hold (p.st.blocks block) (p.st.contexts ctx).fd a (nextId p.st))).blocks block) =
          o.hold (p.st.blocks block) (p.st.contexts ctx).fd a (nextId p.st) := Function.update_self ..
      simp only [Process.step, get_mapped hok hm, if_true]
      refine (h.fill block _ hfree).take ⟨rfl, rfl, rfl, rfl, rfl⟩ rfl hfree ?_ ?_ ?_
      · exact hown.symm ▸ hholding
      · exact hown.symm ▸ hmapping
      · exact hown.symm ▸ hhandle
  · -- nothing changes, the block included
    have hbad : errorBadParameters ≠ success := by decide
    simp only [Process.step, get_refused hok, if_neg hbad, State.setBlock, Function.update_eq_self]
    exact h

theorem Kept.release {block : Addr} (h : Kept p) (hok : p.polite (.release block)) : Kept (p.step (.release block)) := by
  by_cases hmem : block ∈ p.held
  · have hfree : block ∉ p.held.erase block := h.once.not_mem_erase
    exact (h.give hmem).fill block _ hfree
  · have hnot : (p.st.blocks block).id = -1 ∨ (p.st.blocks block).registeredFd < 0 := hok.resolve_left hmem
    simp only [Process.step, (release_eq_iff ..).mpr hnot, State.setBlock, Function.update_eq_self,
      List.erase_of_not_mem hmem]
    exact h

theorem filterMap_map_nil {α β : Type*} {g : Call → Option α} {f : β → Call} (h : ∀ b, g (f b) = none) (l : List β) :
    (l.map f).filterMap g = [] := by
  rw [List.filterMap_eq_nil_iff, List.forall_mem_map]
  exact fun b _ => h b

theorem destroyCommon_eq (s : State) : destroyCommon s = { s with
    sessionMap := .empty, contextMap := .empty, calls := (destroyCommon s).calls } := by
  rw [destroyCommon, eraseAll_eq, eraseAll_eq, foldl_utCloseSession, foldl_close]

/-- The destructor closes the sessions while their contexts are open. -/
theorem Kept.destroy (h : Kept p) : Kept (p.step .destroy) := by
  have hcalls := destroyCommon_calls p.st
  rw [List.append_assoc] at hcalls
  have hst := destroyCommon_eq p.st
  have hsessions : (p.st.sessionMap.keys.map (closeCall p.st)).filterMap Call.closedSession = p.st.openSessions := by
    rw [List.filterMap_map, State.openSessions, ← List.filterMap_eq_map]
    rfl
  have hfds : (p.st.contextMap.keys.map fun k : Ref => Call.close (p.st.contexts k).fd).filterMap Call.closedFd =
      p.st.openFds := by
    rw [List.filterMap_map, State.openFds, ← List.filterMap_eq_map]
    rfl
  have hspeaks : Spoken (p.st.calls ++ p.st.sessionMap.keys.map (closeCall p.st)) := by
    refine spoken_through h.spoken ?_ (closedFd_map ..) (filterMap_map_nil (fun _ => rfl) _)
    intro c hc fd hfd
    obtain ⟨k, hk, rfl⟩ := List.mem_map.mp hc
    cases hfd
    obtain ⟨c, hc, hctx⟩ := h.owned k hk
    rw [← hctx]
    exact h.open_of_registered hc
  have hnothing {α : Type} {g : Call → Option α} (hg : ∀ k, g (closeCall p.st k) = none) (hg' : ∀ fd, g (.close fd) = none) :
      (p.st.sessionMap.keys.map (closeCall p.st) ++
        p.st.contextMap.keys.map fun k : Ref => Call.close (p.st.contexts k).fd).filterMap g = [] := by
    rw [List.filterMap_append, filterMap_map_nil hg, filterMap_map_nil fun _ => hg' _, List.append_nil]
  refine h.step hcalls (List.append_nil _).symm ?_ ?_ ?_ ?_ ?_ ?_ ?_ h.once
  · rw [List.filterMap_append, closedFd_map, hfds, hnothing (fun _ => rfl) fun _ => rfl]
    show (p.st.openFds ++ (destroyCommon p.st).openFds).Perm p.st.openFds
    rw [hst]
    exact .of_eq (List.append_nil _)
  · rw [List.filterMap_append, hsessions, filterMap_map_nil fun _ => rfl, List.append_nil]
    show (p.st.openSessions ++ (destroyCommon p.st).openSessions).Perm p.st.openSessions
    rw [hst]
    exact .of_eq (List.append_nil _)
  · rw [hnothing (fun _ => rfl) fun _ => rfl, hnothing (fun _ => rfl) fun _ => rfl]
    show (p.held.map fun b => ((destroyCommon p.st).blocks b).mapping).Perm _
    rw [hst]
    exact .refl _
  · rw [hnothing (fun _ => rfl) fun _ => rfl, hnothing (fun _ => rfl) fun _ => rfl]
    show (p.held.map fun b => ((destroyCommon p.st).blocks b).handle).Perm _
    rw [hst]
    exact .refl _
  · rw [← List.append_assoc]
    refine spoken_silent hspeaks ?_
    intro c hc
    obtain ⟨k, -, rfl⟩ := List.mem_map.mp hc
    rfl
  · show ∀ k ∈ (destroyCommon p.st).sessionMap, _
    rw [hst]
    intro k hk
    cases hk
  · show ∀ b ∈ p.held, ((destroyCommon p.st).blocks b).holding
    rw [hst]
    exact h.holding

theorem kept_fresh (env : Env) : Kept (.fresh env) := by
  refine ⟨⟨accounted_nil, accounted_nil, accounted_nil, accounted_nil, ?_⟩, ?_, ?_, List.nodup_nil⟩
  · intro pre c post hsplit
    simp [Process.fresh, State.fresh] at hsplit
  · intro k hk
    cases hk
  · intro b hb
    cases hb

theorem Kept.polite {a : Act} (h : Kept p) (hok : p.polite a) : Kept (p.step a) := by
  cases a with
  | initializeContext ctx => exact h.initializeContext hok
  | finalizeContext ctx => exact h.finalizeContext hok
  | openSession ctx session login data op => exact h.openSession hok
  | invoke session cmd op => exact h.invoke hok
  | closeSession session => exact h.closeSession session
  | fill block shm => exact h.fill block shm hok
  | get o ctx block => exact h.get hok
  | release block => exact h.release hok
  | destroy => exact h.destroy

end

/-- **Over every run of a polite client the accounts are kept**, and from wherever
it is the destructor closes what is open: every descriptor opened is closed once
and every session granted is closed once. -/
theorem accounts_kept (env : Env) (p : Process) (h : Reach Process.step Process.polite (.fresh env) p) :
    Accounts p ∧ Accounts (p.step .destroy) ∧
      ((p.step .destroy).st.calls.filterMap Call.closedFd).Perm ((p.step .destroy).st.calls.filterMap Call.opened) ∧
      ((p.step .destroy).st.calls.filterMap Call.closedSession).Perm p.granted := by
  have hkept : Kept p := h.invariant (P := Kept) (kept_fresh env) fun q a hq hok => hq.polite hok
  have hend := hkept.destroy
  have hempty : (destroyCommon p.st).openFds = [] ∧ (destroyCommon p.st).openSessions = [] := by
    rw [destroyCommon_eq]
    exact ⟨rfl, rfl⟩
  refine ⟨hkept.toAccounts, hend.toAccounts, ?_, ?_⟩
  · have hfds : Accounted _ (destroyCommon p.st).openFds _ := hend.fds
    rwa [hempty.1, Accounted, List.append_nil] at hfds
  · have hsessions : Accounted _ (destroyCommon p.st).openSessions _ := hend.sessions
    rwa [hempty.2, Accounted, List.append_nil] at hsessions

/-- A temporary reference of four bytes. -/
def fourBytes : Operation := ⟨0x5, fun _ => { tmpref := ⟨0x700, 4⟩ }, 0⟩

/-- A client that gets a block, opens a session, sends four bytes in a command,
releases the block and leaves the rest to the destructor. -/
def politeActs : List Act :=
  [.initializeContext 0x10, .fill 0x30 { size := 16, flags := memInput }, .get .allocated 0x10 0x30,
    .openSession 0x10 0x20 .loginPublic 0 none, .invoke 0x20 1 (some fourBytes), .release 0x30]

def politeClient : Process := politeActs.foldl Process.step (.fresh obliging)

instance (s : State) (ctx : Addr) (op : Operation) : Decidable (TempRefsReached s ctx op) :=
  inferInstanceAs (Decidable (∀ n < payloadRefCount, _))

theorem politeClient_reached : Reach Process.step Process.polite (.fresh obliging) politeClient := by
  refine Reach.start.run ⟨?_, ?_, ?_, ?_, ?_, ?_, trivial⟩
  · intro k hk
    cases hk
  · intro hb
    cases hb
  · exact ⟨by simp [Process.step, Process.fresh], by decide⟩
  · refine ⟨⟨⟨0x10, by decide⟩, by decide, rfl⟩, ?_, by simp⟩
    intro k hk
    cases hk
  · refine ⟨⟨⟨0x20, by decide⟩, by decide, rfl⟩, ?_⟩
    intro o ho
    cases ho
    decide
  · exact .inl (by decide)

theorem politeClient_accounts : politeClient.st.openSessions = [(3, 0)] ∧ Accounts politeClient ∧
    Accounts (politeClient.step .destroy) ∧
    ((politeClient.step .destroy).st.calls.filterMap Call.closedFd).Perm
      ((politeClient.step .destroy).st.calls.filterMap Call.opened) ∧
    ((politeClient.step .destroy).st.calls.filterMap Call.closedSession).Perm politeClient.granted :=
  ⟨by decide, accounts_kept obliging politeClient politeClient_reached⟩

end Teec
