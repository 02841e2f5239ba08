/-
The states a machine reaches: it starts somewhere, and each input that is
allowed in a state takes it one step on.
-/
import Mathlib.Tactic.TypeStar

namespace Lib

inductive Reach {σ ι : Type*} (step : σ → ι → σ) (ok : σ → ι → Prop) (start : σ) : σ → Prop where
  | start : Reach step ok start start
  | step {s : σ} (i : ι) : Reach step ok start s → ok s i → Reach step ok start (step s i)

/-- What holds at the start and is kept by every allowed step holds of every
state reached. -/
theorem Reach.invariant {σ ι : Type*} {step : σ → ι → σ} {ok : σ → ι → Prop} {start s : σ} {P : σ → Prop}
    (h : Reach step ok start s) (hstart : P start) (hstep : ∀ s i, P s → ok s i → P (step s i)) : P s := by
  induction h with
  | start => exact hstart
  | step i _ hok ih => exact hstep _ i ih hok

/-- Where some input always brings a state nearer to rest, inputs take it there. -/
theorem exists_rest {σ ι : Type*} {step : σ → ι → σ} {ok : ι → Prop} {P rest : σ → Prop} (rank : σ → Nat)
    (h : ∀ s, P s → rest s ∨ ∃ i, ok i ∧ rank (step s i) < rank s ∧ P (step s i)) (s : σ) (hs : P s) :
    ∃ is : List ι, (∀ i ∈ is, ok i) ∧ P (is.foldl step s) ∧ rest (is.foldl step s) := by
  induction hn : rank s using Nat.strongRecOn generalizing s with
  | ind n ih =>
    rcases h s hs with hrest | ⟨i, hi, hlt, hp⟩
    · refine ⟨[], ?_, hs, hrest⟩
      intro i hi
      cases hi
    · obtain ⟨is, his, hlast, hrest⟩ := ih _ (hn ▸ hlt) _ hp rfl
      exact ⟨i :: is, List.forall_mem_cons.mpr ⟨hi, his⟩, hlast, hrest⟩

/-- The states along an endless sequence of inputs. -/
def along {σ ι : Type*} (step : σ → ι → σ) (s : σ) (is : Nat → ι) : Nat → σ
  | 0 => s
  | n + 1 => step (along step s is n) (is n)

/-- An endless sequence in which every allowed input comes again and again, and no other. -/
structure Fair {ι : Type*} (ok : ι → Prop) (is : Nat → ι) : Prop where
  allowed : ∀ n, ok (is n)
  again : ∀ i, ok i → ∀ n, ∃ m, n ≤ m ∧ is m = i

/-- From `n` on until the input `i` comes, the states stay as they are or one
comes nearer to rest. -/
theorem nearer_by {σ ι : Type*} {step : σ → ι → σ} {s : σ} {is : Nat → ι} (rank : σ → Nat)
    (h : ∀ n, along step s is (n + 1) = along step s is n ∨ rank (along step s is (n + 1)) < rank (along step s is n))
    {n m : Nat} (hm : n ≤ m) :
    along step s is m = along step s is n ∨ rank (along step s is m) < rank (along step s is n) := by
  induction hm with
  | refl => exact .inl rfl
  | @step m hm ih =>
    rcases h m with heq | hlt
    · rwa [heq]
    · rcases ih with heq | hlt'
      · exact .inr (heq ▸ hlt)
      · exact .inr (Nat.lt_trans hlt hlt')

/-- Where each input leaves a state as it is or brings it nearer to rest, and some
input always brings it nearer, every fair sequence of inputs comes to rest. -/
theorem fair_rests {σ ι : Type*} {step : σ → ι → σ} {ok : ι → Prop} {P rest : σ → Prop} {s : σ} {is : Nat → ι}
    (rank : σ → Nat) (hkeeps : ∀ s i, P s → ok i → P (step s i) ∧ (step s i = s ∨ rank (step s i) < rank s))
    (hmoves : ∀ s, P s → rest s ∨ ∃ i, ok i ∧ rank (step s i) < rank s) (hfair : Fair ok is) (hs : P s) :
    ∃ n, rest (along step s is n) := by
  have hP (n : Nat) : P (along step s is n) := by
    induction n with
    | zero => exact hs
    | succ n ih => exact (hkeeps _ _ ih (hfair.allowed n)).1
  have hnear (n : Nat) := (hkeeps _ _ (hP n) (hfair.allowed n)).2
  have hrun (r n : Nat) (hr : rank (along step s is n) = r) : ∃ m, rest (along step s is m) := by
    induction r using Nat.strongRecOn generalizing n with
    | ind r ih =>
      rcases hmoves _ (hP n) with hrest | ⟨i, hi, hlt⟩
      · exact ⟨n, hrest⟩
      · -- by the next turn of `i` some turn has brought the state nearer
        obtain ⟨m, hm, rfl⟩ := hfair.again i hi n
        have hlt : rank (along step s is (m + 1)) < rank (along step s is n) := by
          rcases nearer_by rank hnear hm with heq | hlt'
          · rw [along, heq]
            exact hlt
          · rcases hnear m with heq | hlt''
            · rwa [along, heq]
            · exact Nat.lt_trans hlt'' hlt'
        exact ih _ (hr ▸ hlt) (m + 1) rfl
  exact hrun _ 0 rfl

/-- Inputs allowed one after another. -/
def allowedAlong {σ ι : Type*} (step : σ → ι → σ) (ok : σ → ι → Prop) : σ → List ι → Prop
  | _, [] => True
  | s, i :: is => ok s i ∧ allowedAlong step ok (step s i) is

instance decidableAllowedAlong {σ ι : Type*} (step : σ → ι → σ) (ok : σ → ι → Prop) [∀ s i, Decidable (ok s i)] :
    (s : σ) → (is : List ι) → Decidable (allowedAlong step ok s is)
  | _, [] => inferInstanceAs (Decidable True)
  | s, i :: is =>
    have := decidableAllowedAlong step ok (step s i) is
    inferInstanceAs (Decidable (ok s i ∧ allowedAlong step ok (step s i) is))

theorem Reach.run {σ ι : Type*} {step : σ → ι → σ} {ok : σ → ι → Prop} {start s : σ} {is : List ι}
    (h : Reach step ok start s) (his : allowedAlong step ok s is) : Reach step ok start (is.foldl step s) := by
  induction is generalizing s with
  | nil => exact h
  | cons i is ih => exact ih (h.step i his.1) his.2

end Lib
