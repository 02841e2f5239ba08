/-
The flows of kmsetkey refine the model that takes the library by its results
(Microtrust.Keybox.ModelInfo).

A flow comes to an end with the first call that fails or with the answer of the
TA, and its value depends on nothing else. So the results it had, given to the
other model, lead to the same value.
-/
import Microtrust.Clients.OneCommand

namespace Clients

open Lib Teec Keymaster

section
variable {f : Frame} {s : Teec.State}

/-- The results of a flow, for that model. -/
def linkOf (steps : List Result) : Keybox.Link where
  initializeContext := steps.getD 0 success
  openSession := steps.getD 1 success
  allocateSharedMemory := steps.getD 2 success
  invokeCommand := steps.getD 3 success
  value := steps.getD 4 success
  staus := if steps.getD 5 success = success then Keybox.kmMagic else 0

/-- Everything a flow of kmsetkey can return. -/
inductive Returns {α : Type} (gaveUp : Result → α) (conclude : Teec.State → UInt32 → α × List Result) :
    List Result → α → Prop
  | context {res : Result} (h : res ≠ success) : Returns gaveUp conclude [res] (gaveUp res)
  | session {res : Result} (h : res ≠ success) : Returns gaveUp conclude [success, res] (gaveUp res)
  | block {res : Result} (h : res ≠ success) : Returns gaveUp conclude [success, success, res] (gaveUp res)
  | command {res : Result} (h : res ≠ success) :
      Returns gaveUp conclude [success, success, success, res] (gaveUp res)
  | answer (t : Teec.State) (a : UInt32) : Returns gaveUp conclude
      ([success, success, success, success] ++ (conclude t a).2) (conclude t a).1

theorem buffer_of_getBlock {t t' : Teec.State} {shm : SharedMemory} (h : getBlock f .allocated t shm = (success, t')) :
    (t'.blocks f.sharedmem).buffer ≠ 0 := by
  unfold getBlock at h
  by_cases hok : Origin.accepts .allocated f.context shm
  · cases hm : mapAt t f.context t.allocs with
    | none =>
      obtain ⟨shm', -, hget⟩ := get_unmapped hok hm
      rw [hget] at h
      cases h
    | some a =>
      rw [get_mapped hok hm] at h
      cases h
      dsimp only
      rw [Function.update_self]
      exact (fd_of_mapped hm).2
  · rw [get_refused hok] at h
    cases h

theorem keyboxFlow_returns {α : Type} {req : Request} {gaveUp : Result → α}
    {conclude : Teec.State → UInt32 → α × List Result} {e : Ended α} (h : keyboxFlow f req gaveUp conclude s = some e) :
    Returns gaveUp conclude e.steps e.value := by
  unfold keyboxFlow at h
  dsimp only at h
  split at h
  · cases h
    exact .context ‹_›
  next hres₁ =>
    rw [not_not.mp hres₁] at h
    split at h
    · obtain ⟨t, -, rfl⟩ := Option.map_eq_some_iff.mp h
      exact .session ‹_›
    next hres₂ =>
      rw [not_not.mp hres₂] at h
      split at h
      next hres₃ =>
        obtain ⟨t, -, rfl⟩ := Option.map_eq_some_iff.mp h
        refine .block fun hok => ?_
        exact buffer_of_getBlock (Prod.ext hok rfl) (hres₃.resolve_left (not_not.mpr hok))
      next hres₃ =>
        rw [not_not.mp (not_or.mp hres₃).1] at h
        obtain ⟨t, -, rfl⟩ := Option.map_eq_some_iff.mp h
        dsimp only
        split
        next hres₄ => exact .command hres₄
        next hres₄ =>
          rw [not_not.mp hres₄]
          exact .answer _ _

/-- Those results in the other model: the call was given up with one that failed,
or it came to the answer. -/
theorem Returns.link {α : Type} {gaveUp : Result → α} {conclude : Teec.State → UInt32 → α × List Result}
    {steps : List Result} {v : α} (h : Returns gaveUp conclude steps v) :
    (∃ res, v = gaveUp res ∧ (linkOf steps).setUp = some res) ∨
    ((linkOf steps).setUp = none ∧
      ((v = gaveUp (linkOf steps).invokeCommand ∧ (linkOf steps).invokeCommand ≠ 0) ∨
        ((linkOf steps).invokeCommand = 0 ∧ ∃ t a, v = (conclude t a).1 ∧
          steps = [success, success, success, success] ++ (conclude t a).2))) := by
  have hne {res : Result} (h : res ≠ success) : res ≠ 0 := h
  cases h with
  | context hres => exact .inl ⟨_, rfl, if_pos (hne hres)⟩
  | session hres => exact .inl ⟨_, rfl, (if_neg (not_not.mpr rfl)).trans (if_pos (hne hres))⟩
  | block hres =>
    refine .inl ⟨_, rfl, (if_neg (not_not.mpr rfl)).trans ((if_neg (not_not.mpr rfl)).trans ?_)⟩
    exact if_pos (.inl (hne hres))
  | command hres => exact .inr ⟨rfl, .inl ⟨rfl, hne hres⟩⟩
  | answer t a => exact .inr ⟨rfl, .inr ⟨rfl, t, a, rfl, rfl⟩⟩

/-- An import returns what the other model returns for the results that it had. -/
theorem import_refines {code : UInt32} {cmd : Keybox.Cmd} {data : Addr} {datalen : UInt32} {e : Ended Int}
    (h : importFlow f code data datalen s = some e) (k : Keybox.State) :
    (Keybox.importData k (linkOf e.steps) cmd (if data = 0 then [] else held s.mem data datalen.toNat)).1 = e.value := by
  unfold importFlow at h
  by_cases hargs : data = 0 ∨ datalen = 0
  · have hnone : (if data = 0 then [] else held s.mem data datalen.toNat) = [] := by
      rcases hargs with h₀ | h₀
      · exact if_pos h₀
      · rw [h₀]
        exact ite_self _
    rw [if_pos hargs] at h
    cases h
    rw [hnone, Keybox.importData, if_pos rfl]
  · obtain ⟨hdata, hlen⟩ := not_or.mp hargs
    have hsome : held s.mem data datalen.toNat ≠ [] := by
      intro hnil
      have hlength := congrArg List.length hnil
      rw [held, List.length_map, List.length_range] at hlength
      exact hlen (UInt32.toNat_inj.mp hlength)
    rw [if_neg hargs] at h
    rw [if_neg hdata, Keybox.importData, if_neg hsome]
    rcases (keyboxFlow_returns h).link with ⟨res, hv, hsetUp⟩ | ⟨hsetUp, ⟨hv, hres⟩ | ⟨hres, t, a, hv, hsteps⟩⟩
    · rw [hv, hsetUp]
      rfl
    · rw [hv, hsetUp]
      dsimp only
      rw [if_pos hres]
      rfl
    · have hvalue : (linkOf e.steps).value = a := by
        rw [hsteps]
        rfl
      rw [hv, hsetUp]
      dsimp only
      rw [if_neg (not_not.mpr hres), hvalue]
      by_cases ha : a ≠ 0
      · rw [if_pos ha]
        rfl
      · rw [if_neg ha, not_not.mp ha]
        rfl

theorem check_refines {e : Ended Checked} (h : utKmCheckGoogleKey f s = some e) (k : Keybox.State) :
    (Keybox.utKmCheckGoogleKey k (linkOf e.steps)).1 = e.value.rc ∧
      (Keybox.utKmCheckGoogleKey k (linkOf e.steps)).2.status = e.value.status := by
  unfold Keybox.utKmCheckGoogleKey
  dsimp only
  rcases (keyboxFlow_returns h).link with ⟨res, hv, hsetUp⟩ | ⟨hsetUp, ⟨hv, hres⟩ | ⟨hres, t, a, hv, hsteps⟩⟩
  · rw [hv, hsetUp]
    exact ⟨rfl, rfl⟩
  · rw [hv, hsetUp]
    dsimp only
    rw [if_pos hres]
    exact ⟨rfl, rfl⟩
  · rw [hsetUp]
    dsimp only
    rw [if_neg (not_not.mpr hres)]
    unfold concludeCheck at hv hsteps
    by_cases ha : a ≠ 0
    · rw [if_pos ha] at hv hsteps
      have hvalue : (linkOf e.steps).value = a := by
        rw [hsteps]
        rfl
      rw [hvalue, if_pos ha, hv]
      exact ⟨rfl, rfl⟩
    · have hvalue : (linkOf e.steps).value = 0 := by
        rw [hsteps, if_neg ha]
        dsimp only
        split <;> exact not_not.mp ha
      rw [if_neg ha] at hv hsteps
      dsimp only at hv hsteps
      rw [if_neg (not_not.mpr hvalue), Keybox.Ta.report]
      dsimp only
      by_cases hmagic : (keyStatusAt t.mem (t.blocks f.sharedmem).buffer).googleKeyStaus = Keybox.kmMagic
      · rw [if_pos hmagic] at hv hsteps
        have hstaus : (linkOf e.steps).staus = Keybox.kmMagic := by
          rw [hsteps]
          rfl
        rw [if_pos hstaus, hv]
        exact ⟨rfl, rfl⟩
      · rw [if_neg hmagic] at hv hsteps
        have hstaus : (linkOf e.steps).staus ≠ Keybox.kmMagic := by
          rw [hsteps, not_not.mp ha]
          decide
        rw [if_neg hstaus, hv]
        exact ⟨rfl, rfl⟩

end

end Clients
