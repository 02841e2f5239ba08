/-
Write-back tracking, over any changes and any marks.

A store holds changes that have not reached the disk, and marks that say
what a later sync must write. A mark covers some changes. The marks track
the store when every change in it is covered by a mark that is set; a sync
that settles what a mark covers may then clear the mark, and a store whose
marks are all clear has nothing left to write.
-/
import Mathlib.Data.Set.Insert

namespace Lib

variable {Mark Change : Type*} {covers covers' : Mark → Change → Prop}
  {marks marks' : Set Mark} {store store' : Set Change} {m : Mark} {c : Change}

/-- Every change of the store is covered by a mark that is set. -/
def Tracked (covers : Mark → Change → Prop) (marks : Set Mark) (store : Set Change) : Prop :=
  ∀ c ∈ store, ∃ m ∈ marks, covers m c

/-- More marks, fewer changes, and no cover lost where a mark is set. -/
theorem Tracked.mono (h : Tracked covers marks store) (hs : store' ⊆ store) (hm : marks ⊆ marks')
    (hc : ∀ m ∈ marks, ∀ c ∈ store', covers m c → covers' m c) : Tracked covers' marks' store' := by
  intro c hmem
  obtain ⟨m, hset, hcov⟩ := h c (hs hmem)
  exact ⟨m, hm hset, hc m hset c hmem hcov⟩

theorem Tracked.insert (h : Tracked covers marks store) (hm : m ∈ marks) (hc : covers m c) :
    Tracked covers marks (insert c store) := by
  intro c' hmem
  rcases Set.mem_insert_iff.mp hmem with rfl | hold
  · exact ⟨m, hm, hc⟩
  · exact h c' hold

/-- A mark may be cleared when another one covers what it covered. -/
theorem Tracked.clear (h : Tracked covers marks store) (hs : store' ⊆ store)
    (hc : ∀ c ∈ store', covers m c → ∃ m' ∈ marks, m' ≠ m ∧ covers m' c) :
    Tracked covers (marks \ {m}) store' := by
  intro c hmem
  obtain ⟨m₁, hset, hcov⟩ := h c (hs hmem)
  by_cases he : m₁ = m
  · subst he
    obtain ⟨m₂, hset₂, hne, hcov₂⟩ := hc c hmem hcov
    exact ⟨m₂, ⟨hset₂, hne⟩, hcov₂⟩
  · exact ⟨m₁, ⟨hset, he⟩, hcov⟩

end Lib
