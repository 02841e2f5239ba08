/-
Copies within a flat memory, one after the other: what they leave alone, what
they bring, and when two memories that agree somewhere still do so afterwards.
-/
import Mathlib.Order.Interval.Set.Basic

namespace Lib

/-- The `n` addresses from `a` on. -/
def cells (a n : Nat) : Set Nat := Set.Ico a (a + n)

theorem mem_cells {a n x : Nat} : x ∈ cells a n ↔ a ≤ x ∧ x < a + n := Iff.rfl

theorem cells_subset {a n b m : Nat} (h : b ≤ a) (h' : a + n ≤ b + m) : cells a n ⊆ cells b m := by
  intro x hx
  rw [mem_cells] at hx ⊢
  omega

theorem add_mem_cells {a n i : Nat} (h : i < n) : a + i ∈ cells a n := by
  rw [mem_cells]
  omega

theorem cells_subset_iff {a n m : Nat} : cells a n ⊆ cells a m ↔ n ≤ m := by
  refine ⟨?_, ?_⟩
  · intro h
    by_contra hlt
    have hmem := h (add_mem_cells (a := a) (show m < n by omega))
    rw [mem_cells] at hmem
    omega
  · intro h
    exact cells_subset (le_refl a) (by omega)

theorem exists_of_mem_cells {a n x : Nat} (h : x ∈ cells a n) : ∃ i < n, x = a + i := by
  rw [mem_cells] at h
  exact ⟨x - a, by omega, by omega⟩

/-- A copy of `len` cells from `src` on to where `dst` points. -/
structure Copy where
  dst : Nat
  src : Nat
  len : Nat
deriving DecidableEq

namespace Copy

variable {β : Type*}

def reads (c : Copy) : Set Nat := cells c.src c.len

def writes (c : Copy) : Set Nat := cells c.dst c.len

def run (c : Copy) (mem : Nat → β) : Nat → β :=
  fun a => if c.dst ≤ a ∧ a < c.dst + c.len then mem (c.src + (a - c.dst)) else mem a

def runs (cs : List Copy) (mem : Nat → β) : Nat → β := cs.foldl (fun mem c => c.run mem) mem

theorem run_of_notMem {c : Copy} {a : Nat} (h : a ∉ c.writes) (mem : Nat → β) : c.run mem a = mem a := if_neg h

section

variable {cs ds : List Copy} {a : Nat}

theorem runs_cons (c : Copy) (mem : Nat → β) : runs (c :: cs) mem = runs cs (c.run mem) := rfl

theorem runs_append (mem : Nat → β) : runs (cs ++ ds) mem = runs ds (runs cs mem) := List.foldl_append

/-- A cell no copy writes keeps its content. -/
theorem runs_of_notMem (h : ∀ c ∈ cs, a ∉ c.writes) (mem : Nat → β) : runs cs mem a = mem a := by
  induction cs generalizing mem with
  | nil => rfl
  | cons c cs ih =>
    rw [runs_cons, ih (fun d hd => h d (List.mem_cons_of_mem c hd)), run_of_notMem (h c List.mem_cons_self)]

end

end Copy

/-! ## Lists of cells -/

section

variable {β : Type*} {mem : Nat → β} {a n : Nat} {bs : List β}

/-- What the `n` cells from `a` on hold. -/
def held (mem : Nat → β) (a n : Nat) : List β := (List.range n).map fun i => mem (a + i)

/-- The memory after `bs` was stored from `a` on. -/
def stored (mem : Nat → β) (a : Nat) (bs : List β) : Nat → β :=
  fun x => if h : a ≤ x ∧ x < a + bs.length then bs.get ⟨x - a, by omega⟩ else mem x

@[simp] theorem length_held (mem : Nat → β) (a n : Nat) : (held mem a n).length = n := by
  rw [held, List.length_map, List.length_range]

theorem held_add (mem : Nat → β) (a n m : Nat) : held mem a (n + m) = held mem a n ++ held mem (a + n) m := by
  rw [held, List.range_add, List.map_append, List.map_map]
  congr 1
  refine List.map_congr_left fun i _ => ?_
  rw [Function.comp_apply, Nat.add_assoc]

theorem stored_of_notMem {x : Nat} (h : x ∉ cells a bs.length) (mem : Nat → β) : stored mem a bs x = mem x := dif_neg h

theorem held_stored (mem : Nat → β) (a : Nat) (bs : List β) : held (stored mem a bs) a bs.length = bs := by
  refine List.ext_get (by simp) fun i hi hi' => ?_
  simp [held, stored, hi']

theorem held_stored_eq (h : bs.length = n) : held (stored mem a bs) a n = bs := by
  rw [← h, held_stored]

/-- Two lists stored one behind the other. -/
theorem stored_stored (mem : Nat → β) (a : Nat) (xs ys : List β) :
    stored (stored mem a xs) (a + xs.length) ys = stored mem a (xs ++ ys) := by
  funext x
  unfold stored
  by_cases hys : a + xs.length ≤ x ∧ x < a + xs.length + ys.length
  · rw [dif_pos hys, dif_pos (by rw [List.length_append]; omega)]
    simp only [List.get_eq_getElem]
    rw [List.getElem_append_right (by omega)]
    congr 1
    omega
  · rw [dif_neg hys]
    by_cases hxs : a ≤ x ∧ x < a + xs.length
    · rw [dif_pos hxs, dif_pos (by rw [List.length_append]; omega)]
      simp only [List.get_eq_getElem]
      rw [List.getElem_append_left]
    · rw [dif_neg hxs, dif_neg (by rw [List.length_append]; omega)]

/-- Storing before or behind cells leaves what they hold. -/
theorem held_stored_apart {b : Nat} (h : a + n ≤ b ∨ b + bs.length ≤ a) (mem : Nat → β) :
    held (stored mem b bs) a n = held mem a n := by
  refine List.map_congr_left fun i hi => stored_of_notMem ?_ mem
  rw [List.mem_range] at hi
  rw [mem_cells]
  omega

end

end Lib
