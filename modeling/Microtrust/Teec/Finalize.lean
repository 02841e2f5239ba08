/-
What TEEC_FinalizeContext leaves.

Its loop over the sessions erases the session it closed and then still
advances. It closes the sessions of its context, and only them, exactly when
in the order of the keys each of them is followed by a session of another
context; a context whose last session is still open sends the iterator past
the end. The destructor advances first and has no such condition.
-/
import Microtrust.Teec.Session

namespace Teec

open Lib

variable {s s' : State} {ctx : Addr}

/-- The call that closes a session. -/
def closeCall (s : State) (k : Ref) : Call :=
  .closeSession (s.contexts (s.sessions k).ctx).fd (s.sessions k).sessionId

theorem utCloseSession_ref (s : State) (k : Ref) : utCloseSession s k = s.log (closeCall s k) :=
  if_neg k.2

/-- A registered session is closed and erased. -/
theorem closeSession_of_mem {k : Ref} (h : k ∈ s.sessionMap) :
    teecCloseSession s k = { s.log (closeCall s k) with sessionMap := s.sessionMap.erase k } := by
  unfold teecCloseSession
  rw [dif_neg k.2, if_pos h, utCloseSession_ref]
  rfl

theorem foldl_utCloseSession (s : State) (l : List Ref) :
    l.foldl (fun s k => utCloseSession s k.1) s = { s with calls := s.calls ++ l.map (closeCall s) } := by
  induction l generalizing s with
  | nil => simp
  | cons k l ih =>
    rw [List.foldl_cons, utCloseSession_ref, ih]
    have hcall : closeCall (s.log (closeCall s k)) = closeCall s := rfl
    simp [State.log, closeCall]

theorem closedSession_own (s : State) (ctx : Addr) (l : List Ref) :
    ((l.filter (s.ownedBy ctx)).map (closeCall s)).filterMap Call.closedSession =
      (l.filter (s.ownedBy ctx)).map fun k : Ref => ((s.contexts ctx).fd, (s.sessions k).sessionId) := by
  rw [List.filterMap_map, ← List.filterMap_eq_map]
  refine List.filterMap_congr fun k hk => ?_
  have hctx : (s.sessions k).ctx = ctx := by simpa [State.ownedBy] using (List.mem_filter.mp hk).2
  simp [closeCall, Call.closedSession, hctx]

theorem closedFd_map (s : State) (l : List Ref) : (l.map (closeCall s)).filterMap Call.closedFd = [] := by
  simp [List.filterMap_eq_nil_iff, closeCall, Call.closedFd]

/-- What finalizing a context is for: of the new calls, one closes each session
of the context, one the context's descriptor if it was there, and none
another; the maps keep the rest. -/
structure Finalized (s : State) (ctx : Addr) (s' : State) (new : List Call) : Prop where
  calls : s'.calls = s.calls ++ new
  sessions : (new.filterMap Call.closedSession).Perm
    ((s.sessionMap.keys.filter (s.ownedBy ctx)).map fun k : Ref => ((s.contexts ctx).fd, (s.sessions k).sessionId))
  sessionsLeft : ∀ k, k ∈ s'.sessionMap ↔ k ∈ s.sessionMap ∧ (s.sessions k).ctx ≠ ctx
  fds : new.filterMap Call.closedFd =
    if ∃ k ∈ s.contextMap, k.1 = ctx then [(s.contexts ctx).fd] else []
  contextsLeft : ∀ k, k ∈ s'.contextMap ↔ k ∈ s.contextMap ∧ k.1 ≠ ctx

theorem dropContext_sessionMap (s : State) (ctx : Addr) : (dropContext s ctx).sessionMap = s.sessionMap := by
  unfold dropContext
  split
  · rfl
  · split <;> rfl

/-- A registered context is closed and erased. -/
theorem dropContext_of_mem {k : Ref} (h : k ∈ s.contextMap) :
    dropContext s k = { s.log (.close (s.contexts k).fd) with contextMap := s.contextMap.erase k } := by
  rw [dropContext, dif_neg k.2, if_pos h]

theorem dropContext_spec (s : State) (ctx : Addr) :
    (dropContext s ctx).calls = s.calls ++
        (if ∃ k ∈ s.contextMap, k.1 = ctx then [.close (s.contexts ctx).fd] else []) ∧
      ∀ k, k ∈ (dropContext s ctx).contextMap ↔ k ∈ s.contextMap ∧ k.1 ≠ ctx := by
  by_cases hc : ctx = 0
  · -- a null context is in no map
    have hnone : ¬ ∃ k ∈ s.contextMap, k.1 = ctx := by
      intro h
      obtain ⟨k, _, hk⟩ := h
      exact k.2 (hk.trans hc)
    rw [if_neg hnone, dropContext, dif_pos hc]
    refine ⟨by simp, fun k => ⟨fun hk => ⟨hk, fun he => k.2 (he.trans hc)⟩, And.left⟩⟩
  by_cases hm : (⟨ctx, hc⟩ : Ref) ∈ s.contextMap
  · rw [if_pos ⟨_, hm, rfl⟩, dropContext, dif_neg hc, if_pos hm]
    refine ⟨rfl, fun k => ?_⟩
    rw [KeySet.mem_erase, and_comm, Ne, Ne, Subtype.ext_iff]
  · have hnone : ¬ ∃ k ∈ s.contextMap, k.1 = ctx := by
      intro h
      obtain ⟨k, hk, he⟩ := h
      exact hm (by rwa [show (⟨ctx, hc⟩ : Ref) = k from Subtype.ext he.symm])
    rw [if_neg hnone, dropContext, dif_neg hc, if_neg hm]
    refine ⟨by simp, fun k => ⟨fun hk => ⟨hk, fun he => hnone ⟨k, hk, he⟩⟩, And.left⟩⟩

theorem finalizeSessions_some (h : finalizeSessions s ctx = some s') :
    ∃ (t : State),
      eraseLoop (s.ownedBy ctx) (fun s k => utCloseSession s k.1) s s.sessionMap.keys =
        some (t, s'.sessionMap.keys) := by
  unfold finalizeSessions at h
  split at h
  next => simp at h
  next t left hr =>
    cases h
    exact ⟨t, hr⟩

theorem finalizeSessions_of_spaced (h : Spaced (s.ownedBy ctx) s.sessionMap.keys) :
    ∃ m, m.keys = s.sessionMap.keys.filter (!s.ownedBy ctx ·) ∧
      finalizeSessions s ctx = some { s with
        sessionMap := m,
        calls := s.calls ++ (s.sessionMap.keys.filter (s.ownedBy ctx)).map (closeCall s) } := by
  have hloop : eraseLoop (s.ownedBy ctx) (fun s k => utCloseSession s k.1) s s.sessionMap.keys = _ :=
    eraseLoop_of_spaced h
  rw [foldl_utCloseSession] at hloop
  unfold finalizeSessions
  split
  next hr => rw [hr] at hloop; simp at hloop
  next t left hr =>
    rw [hr] at hloop
    simp only [Option.some.injEq, Prod.mk.injEq] at hloop
    obtain ⟨rfl, rfl⟩ := hloop
    exact ⟨_, rfl, rfl⟩

/-- With no session of its own left, a context is just closed. -/
theorem finalize_alone (h : ∀ k ∈ s.sessionMap, (s.sessions k).ctx ≠ ctx) :
    teecFinalizeContext s ctx = some (dropContext s ctx) := by
  have hno : ∀ k ∈ s.sessionMap.keys, s.ownedBy ctx k = false := fun k hk => decide_eq_false (h k hk)
  obtain ⟨m, hm, hloop⟩ := finalizeSessions_of_spaced (spaced_of_keep hno)
  have hown : s.sessionMap.keys.filter (s.ownedBy ctx) = [] := by
    rw [List.filter_eq_nil_iff]
    intro k hk
    rw [hno k hk]
    exact Bool.false_ne_true
  have hkept : m = s.sessionMap := by
    refine KeySet.ext_keys (hm.trans (List.filter_eq_self.mpr fun k hk => ?_))
    rw [hno k hk]
    rfl
  rw [hown, List.map_nil, List.append_nil, hkept] at hloop
  rw [teecFinalizeContext, hloop]
  rfl

theorem finalized_of_spaced (h : Spaced (s.ownedBy ctx) s.sessionMap.keys) :
    ∃ s' new, teecFinalizeContext s ctx = some s' ∧ Finalized s ctx s' new := by
  obtain ⟨m, hm, hloop⟩ := finalizeSessions_of_spaced h
  rw [teecFinalizeContext, hloop]
  have hdrop := dropContext_spec { s with
    sessionMap := m, calls := s.calls ++ (s.sessionMap.keys.filter (s.ownedBy ctx)).map (closeCall s) } ctx
  obtain ⟨hcalls, hcontexts⟩ := hdrop
  rw [List.append_assoc] at hcalls
  refine ⟨_, _, rfl, hcalls, ?sessions, ?sessionsLeft, ?fds, hcontexts⟩
  case sessions =>
    rw [List.filterMap_append, closedSession_own]
    have hnone : ∀ c : Prop, [Decidable c] → (if c then [Call.close (s.contexts ctx).fd] else []).filterMap
        Call.closedSession = [] := by
      intro c _
      split <;> rfl
    rw [hnone, List.append_nil]
  case sessionsLeft =>
    intro k
    rw [dropContext_sessionMap, ← KeySet.mem_keys, hm]
    simp [State.ownedBy, KeySet.mem_keys]
  case fds =>
    rw [List.filterMap_append, closedFd_map]
    split <;> rfl

/-- Finalizing a context does what it is for if and only if each of its
sessions is followed, in the order of the keys, by a session of another context. -/
theorem finalize_closes_own_iff (s : State) (ctx : Addr) :
    (∃ s' new, teecFinalizeContext s ctx = some s' ∧ Finalized s ctx s' new) ↔
      Spaced (s.ownedBy ctx) s.sessionMap.keys := by
  constructor
  · intro h
    obtain ⟨s', new, hfin, hdone⟩ := h
    rw [teecFinalizeContext, Option.map_eq_some_iff] at hfin
    obtain ⟨t, ht, rfl⟩ := hfin
    obtain ⟨u, hloop⟩ := finalizeSessions_some ht
    -- what is left is what the filter leaves, as both are sorted
    have hleft : t.sessionMap.keys = s.sessionMap.keys.filter (!s.ownedBy ctx ·) := by
      refine t.sessionMap.sorted.eq_of_mem_iff (s.sessionMap.sorted.filter _) ?_
      intro k
      have hk := hdone.sessionsLeft k
      rw [dropContext_sessionMap] at hk
      simpa [State.ownedBy, KeySet.mem_keys] using hk
    rw [hleft] at hloop
    exact spaced_of_eraseLoop hloop
  · exact finalized_of_spaced

/-- With its one session open, the context cannot be finalized: the loop erases
the last key and advances past the end. -/
theorem finalize_fails_with_session_open :
    ¬ ∃ s' new, teecFinalizeContext oneSession 0x10 = some s' ∧ Finalized oneSession 0x10 s' new := by
  have hnone : teecFinalizeContext oneSession 0x10 = none := rfl
  rw [hnone]
  simp

/-! ## The destructor -/

theorem foldl_close (s : State) (l : List Ref) :
    l.foldl (fun s k => s.log (.close (s.contexts k.1).fd)) s =
      { s with calls := s.calls ++ l.map fun k => .close (s.contexts k).fd } := by
  induction l generalizing s with
  | nil => simp
  | cons k l ih => rw [List.foldl_cons, ih]; simp [State.log]

/-- The destructor closes every session and then every context, each once. -/
theorem destroyCommon_calls (s : State) :
    (destroyCommon s).calls = s.calls ++ s.sessionMap.keys.map (closeCall s) ++
      s.contextMap.keys.map fun k => .close (s.contexts k).fd := by
  rw [destroyCommon, eraseAll_eq, eraseAll_eq, foldl_utCloseSession, foldl_close]

end Teec
