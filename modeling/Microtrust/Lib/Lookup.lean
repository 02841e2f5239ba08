/-
Paths by their components.

A path below a directory is looked up one component at a time, and every
component but the last has to be a directory. What a longer path needs of the
tree is therefore what each of its prefixes needs, and one step more.
-/
import Microtrust.Lib.KernelFacts

namespace Lib

/-- The components with slashes between them. -/
def slashed (cs : List Bytes) : Bytes := [47].intercalate cs

theorem slashed_concat {cs : List Bytes} (h : cs ≠ []) (c : Bytes) : slashed (cs ++ [c]) = slashed cs ++ 47 :: c := by
  induction cs with
  | nil => exact absurd rfl h
  | cons a cs ih =>
    unfold slashed at ih ⊢
    by_cases hcs : cs = []
    · subst hcs
      simp [List.intercalate_cons_of_ne_nil]
    · rw [List.cons_append, List.intercalate_cons_of_ne_nil (by simp), ih hcs, List.intercalate_cons_of_ne_nil hcs]
      simp

@[simp] theorem slashed_singleton (c : Bytes) : slashed [c] = c := by
  simp [slashed]

/-- Each component is a name: not empty, and without a slash. -/
def Names (cs : List Bytes) : Prop := ∀ c ∈ cs, c ≠ [] ∧ 47 ∉ c

instance (cs : List Bytes) : Decidable (Names cs) := inferInstanceAs (Decidable (∀ c ∈ cs, c ≠ [] ∧ 47 ∉ c))

theorem Names.mono {cs cs' : List Bytes} (h : Names cs) (hsub : cs' ⊆ cs) : Names cs' := fun c hc => h c (hsub hc)

theorem slashed_ne_nil {cs : List Bytes} (hcs : cs ≠ []) (h : Names cs) : slashed cs ≠ [] := by
  obtain ⟨init, c, rfl⟩ := (List.eq_nil_or_concat cs).resolve_left hcs
  by_cases hinit : init = []
  · subst hinit
    simpa using (h c (by simp)).1
  · simp [slashed_concat hinit]

/-- A path of names does not end in a slash. -/
theorem slashed_rdropWhile {cs : List Bytes} (hcs : cs ≠ []) (h : Names cs) (s : Bytes) :
    (s ++ slashed cs).rdropWhile (· == 47) = s ++ slashed cs := by
  obtain ⟨init, c, rfl⟩ := (List.eq_nil_or_concat cs).resolve_left hcs
  obtain ⟨hne, hslash⟩ := h c (by simp)
  obtain ⟨pre, b, rfl⟩ := (List.eq_nil_or_concat c).resolve_left hne
  have hb : b ≠ 47 := by
    rintro rfl
    simp at hslash
  have hend : ∃ t, slashed (init ++ [pre ++ [b]]) = t ++ [b] := by
    by_cases hinit : init = []
    · subst hinit
      exact ⟨pre, by simp⟩
    · exact ⟨slashed init ++ 47 :: pre, by simp [slashed_concat hinit]⟩
  obtain ⟨t, ht⟩ := hend
  rw [List.concat_eq_append, List.concat_eq_append, ht, ← List.append_assoc, List.rdropWhile_concat]
  simp [hb]

namespace Kernel

section

variable {k : Kernel} {d p : Path} {cs : List Bytes}

theorem locateFrom_concat {c : Bytes} :
    k.locateFrom d (cs ++ [c]) = .ok p ↔ ∃ D, k.locateFrom d cs = .ok D ∧ k.node D = some .dir ∧ p = walk D c := by
  rw [locateFrom_append]
  cases hD : k.locateFrom d cs with
  | error e => simp [bind, Except.bind]
  | ok D =>
    simp only [bind, Except.bind, locateFrom]
    cases hn : k.node D with
    | none => simp [hn]
    | some nd => cases nd <;> simp [hn, eq_comm]

/-- Every place on the way is a directory. -/
theorem locateFrom_take {i : Nat} (h : k.locateFrom d cs = .ok p) (hi : i < cs.length) :
    ∃ D, k.locateFrom d (cs.take i) = .ok D ∧ k.node D = some .dir := by
  rw [← List.take_append_drop i cs, locateFrom_append] at h
  cases hD : k.locateFrom d (cs.take i) with
  | error e =>
    rw [hD] at h
    cases h
  | ok D =>
    refine ⟨D, rfl, ?_⟩
    obtain ⟨c, rest, hrest⟩ := List.exists_cons_of_ne_nil (show cs.drop i ≠ [] by simp; omega)
    rw [hD, hrest] at h
    simp only [bind, Except.bind, locateFrom] at h
    split at h
    · next hn => exact hn
    · cases h
    · cases h

/-- A path below a directory is looked up from there. -/
theorem locate_slashed {root : Bytes} {R : Path} (hR : k.locate root = .ok R) (hcs : cs ≠ []) (h : Names cs) :
    k.locate (root ++ 47 :: slashed cs) = k.locateFrom R cs := by
  unfold locate at hR ⊢
  split at hR
  · cases hR
  · rw [if_neg (by simp), List.splitOn_append_cons_self, slashed,
      List.splitOn_intercalate 47 (fun c hc => (h c hc).2) hcs, locateFrom_append, hR]
    rfl

end

/-- The path leads to a directory. -/
def IsDir (k : Kernel) (path : Bytes) : Prop := ∃ p, k.locate path = .ok p ∧ k.node p = some .dir

/-- The path leads to a regular file. -/
def IsFile (k : Kernel) (path : Bytes) : Prop := ∃ p ino, k.locate path = .ok p ∧ k.node p = some (.file ino)

/-- The path leads to a place in a directory where there is nothing. -/
def IsMissing (k : Kernel) (path : Bytes) : Prop := ∃ p, k.locate path = .ok p ∧ k.node p = none

end Kernel

end Lib
