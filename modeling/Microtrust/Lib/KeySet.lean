/-
A set of keys in order, as an ordered map that sends each key to itself
holds them, and the loops that erase from it while they walk over it.

`erase` returns the place after the erased key. A loop that erases and then
advances as well leaves the key at that place unexamined, and walks past the
end when the erased key was the last. What such a loop does is what it was
written for exactly when every key to erase is followed by one to keep.
-/
import Mathlib.Data.List.Sort
import Mathlib.Order.Defs.LinearOrder

namespace Lib

structure KeySet (α : Type*) [LinearOrder α] where
  keys : List α
  sorted : keys.Pairwise (· < ·)

namespace KeySet

variable {α : Type*} [LinearOrder α] {m : KeySet α} {a b : α}

def empty : KeySet α := ⟨[], .nil⟩

instance : Membership α (KeySet α) := ⟨fun m a => a ∈ m.keys⟩

instance : DecidableEq (KeySet α) := fun m n =>
  decidable_of_iff (m.keys = n.keys) (by cases m; cases n; simp)

instance : Decidable (a ∈ m) := inferInstanceAs (Decidable (a ∈ m.keys))

theorem mem_keys : a ∈ m.keys ↔ a ∈ m := Iff.rfl

theorem ext_keys {n : KeySet α} (h : m.keys = n.keys) : m = n := by
  cases m
  cases n
  cases h
  rfl

/-- The keys a loop left. -/
def restrict (m : KeySet α) (l : List α) (h : l.Sublist m.keys) : KeySet α :=
  ⟨l, m.sorted.sublist h⟩

def insertKeys (a : α) : List α → List α
  | [] => [a]
  | b :: l => if a < b then a :: b :: l else if a = b then b :: l else b :: insertKeys a l

theorem mem_insertKeys {l : List α} : b ∈ insertKeys a l ↔ b = a ∨ b ∈ l := by
  induction l with
  | nil => simp [insertKeys]
  | cons c l ih =>
    unfold insertKeys
    split
    · simp
    · split
      next h => subst h; simp
      next => simp [ih, or_left_comm]

theorem insertKeys_sorted {l : List α} (h : l.Pairwise (· < ·)) : (insertKeys a l).Pairwise (· < ·) := by
  induction l with
  | nil => simp [insertKeys]
  | cons c l ih =>
    obtain ⟨hc, hl⟩ := List.pairwise_cons.mp h
    unfold insertKeys
    split
    next hlt =>
      refine List.pairwise_cons.mpr ⟨?_, h⟩
      intro x hx
      rcases List.mem_cons.mp hx with rfl | hx
      · exact hlt
      · exact hlt.trans (hc x hx)
    next hge =>
      split
      next => exact h
      next hne =>
        refine List.pairwise_cons.mpr ⟨?_, ih hl⟩
        intro x hx
        rcases mem_insertKeys.mp hx with rfl | hx
        · exact lt_of_le_of_ne (not_lt.mp hge) (Ne.symm hne)
        · exact hc x hx

/-- `m[a] = a`. -/
def insert (m : KeySet α) (a : α) : KeySet α := ⟨insertKeys a m.keys, insertKeys_sorted m.sorted⟩

def erase (m : KeySet α) (a : α) : KeySet α := m.restrict (m.keys.erase a) List.erase_sublist

theorem nodup (m : KeySet α) : m.keys.Nodup := m.sorted.imp ne_of_lt

theorem keys_erase (m : KeySet α) (a : α) : (m.erase a).keys = m.keys.filter (· ≠ a) := by
  have h : (m.erase a).keys = m.keys.erase a := rfl
  rw [h, m.nodup.erase_eq_filter]
  refine List.filter_congr fun x _ => ?_
  by_cases hx : x = a <;> simp [hx]

theorem mem_erase : b ∈ m.erase a ↔ b ≠ a ∧ b ∈ m := by
  rw [← mem_keys, keys_erase]
  simp [mem_keys, and_comm]

theorem erase_insert (h : a ∉ m) : (m.insert a).erase a = m := by
  refine ext_keys (((m.insert a).erase a).sorted.eq_of_mem_iff m.sorted fun b => ?_)
  have hinsert : b ∈ m.insert a ↔ b = a ∨ b ∈ m := mem_insertKeys
  rw [mem_keys, mem_erase, hinsert, mem_keys]
  constructor
  · rintro ⟨hne, hb⟩
    exact hb.resolve_left hne
  · intro hb
    exact ⟨fun he => h (he ▸ hb), .inr hb⟩

theorem keys_insert_perm (h : a ∉ m) : (m.insert a).keys.Perm (a :: m.keys) := by
  refine (List.perm_ext_iff_of_nodup (m.insert a).nodup (List.nodup_cons.mpr ⟨h, m.nodup⟩)).mpr fun b => ?_
  rw [List.mem_cons]
  exact mem_insertKeys

theorem keys_perm_erase (h : a ∈ m) : m.keys.Perm (a :: (m.erase a).keys) := List.perm_cons_erase h

end KeySet

/-! ## Erasing while walking -/

section Loops

variable {α σ : Type*} {own : α → Bool} {act : σ → α → σ} {s s' : σ} {l l' : List α}

/-- The loop that assigns the result of `erase` to its iterator and then still
advances it: the new state and the keys left, or none when the iterator
passes the end. -/
def eraseLoop (own : α → Bool) (act : σ → α → σ) : σ → List α → Option (σ × List α)
  | s, [] => some (s, [])
  | s, [x] => if own x then none else some (s, [x])
  | s, x :: y :: l =>
    if own x then (eraseLoop own act (act s x) l).map fun r => (r.1, y :: r.2)
    else (eraseLoop own act s (y :: l)).map fun r => (r.1, x :: r.2)

/-- The loop that advances before it erases, over every key. -/
def eraseAll (act : σ → α → σ) : σ → List α → σ
  | s, [] => s
  | s, x :: l => eraseAll act (act s x) l

theorem eraseAll_eq : eraseAll act s l = l.foldl act s := by
  induction l generalizing s with
  | nil => rfl
  | cons x l ih => rw [eraseAll, ih, List.foldl_cons]

theorem eraseLoop_sublist (h : eraseLoop own act s l = some (s', l')) : l'.Sublist l := by
  induction s, l using eraseLoop.induct own act generalizing l' with
  | case1 s =>
    simp only [eraseLoop, Option.some.injEq] at h
    cases h
    exact .slnil
  | case2 s x hx => simp [eraseLoop, hx] at h
  | case3 s x hx =>
    simp only [eraseLoop, hx, Bool.false_eq_true, if_false, Option.some.injEq] at h
    cases h
    exact .refl _
  | case4 s x y l hx ih =>
    simp only [eraseLoop, hx, if_true, Option.map_eq_some_iff] at h
    obtain ⟨⟨t, r⟩, hr, he⟩ := h
    cases he
    exact ((ih hr).cons_cons y).cons x
  | case5 s x y l hx ih =>
    simp only [eraseLoop, hx, Bool.false_eq_true, if_false, Option.map_eq_some_iff] at h
    obtain ⟨⟨t, r⟩, hr, he⟩ := h
    cases he
    exact (ih hr).cons_cons x

/-- The first key to erase is found, however the loop goes on. -/
theorem eraseLoop_length_lt (h : eraseLoop own act s l = some (s', l')) (hown : ∃ x ∈ l, own x = true) :
    l'.length < l.length := by
  induction s, l using eraseLoop.induct own act generalizing l' with
  | case1 s =>
    obtain ⟨x, hx, -⟩ := hown
    cases hx
  | case2 s x hx => simp [eraseLoop, hx] at h
  | case3 s x hx =>
    obtain ⟨y, hy, hown⟩ := hown
    rw [List.mem_singleton.mp hy] at hown
    exact absurd hown hx
  | case4 s x y l hx ih =>
    simp only [eraseLoop, hx, if_true, Option.map_eq_some_iff] at h
    obtain ⟨⟨t, r⟩, hr, he⟩ := h
    cases he
    have hle := (eraseLoop_sublist hr).length_le
    simp only [List.length_cons]
    omega
  | case5 s x y l hx ih =>
    simp only [eraseLoop, hx, Bool.false_eq_true, if_false, Option.map_eq_some_iff] at h
    obtain ⟨⟨t, r⟩, hr, he⟩ := h
    cases he
    obtain ⟨z, hz, hown⟩ := hown
    have hz : z ∈ y :: l := by
      refine (List.mem_cons.mp hz).resolve_left fun heq => ?_
      rw [heq] at hown
      exact hx hown
    exact Nat.succ_lt_succ (ih hr ⟨z, hz, hown⟩)

/-- Every key to erase is followed by one to keep. -/
def Spaced (own : α → Bool) : List α → Prop
  | [] => True
  | [x] => own x = false
  | x :: y :: l => (own x = true → own y = false) ∧ Spaced own (y :: l)

instance decidableSpaced (own : α → Bool) : (l : List α) → Decidable (Spaced own l)
  | [] => inferInstanceAs (Decidable True)
  | [x] => inferInstanceAs (Decidable (own x = false))
  | x :: y :: l =>
    have := decidableSpaced own (y :: l)
    inferInstanceAs (Decidable ((own x = true → own y = false) ∧ Spaced own (y :: l)))

theorem spaced_cons_of_keep {x : α} (hx : own x = false) : Spaced own (x :: l) ↔ Spaced own l := by
  cases l with
  | nil => simp [Spaced, hx]
  | cons y l => simp [Spaced, hx]

theorem spaced_of_keep (h : ∀ x ∈ l, own x = false) : Spaced own l := by
  induction l with
  | nil => trivial
  | cons x l ih =>
    obtain ⟨hx, hl⟩ := List.forall_mem_cons.mp h
    exact (spaced_cons_of_keep hx).mpr (ih hl)

theorem eraseLoop_of_spaced (h : Spaced own l) :
    eraseLoop own act s l = some ((l.filter own).foldl act s, l.filter (!own ·)) := by
  induction s, l using eraseLoop.induct own act with
  | case1 s => rfl
  | case2 s x hx => simp [Spaced, hx] at h
  | case3 s x hx => simp [eraseLoop, hx]
  | case4 s x y l hx ih =>
    obtain ⟨hxy, hl⟩ := h
    have hy := hxy hx
    rw [spaced_cons_of_keep hy] at hl
    simp [eraseLoop, hx, hy, ih hl]
  | case5 s x y l hx ih =>
    simp only [Bool.not_eq_true] at hx
    simp [eraseLoop, hx, ih h.2]

/-- The loop keeps just the keys to keep only if they are spaced. -/
theorem spaced_of_eraseLoop (h : eraseLoop own act s l = some (s', l.filter (!own ·))) : Spaced own l := by
  induction s, l using eraseLoop.induct own act generalizing s' with
  | case1 s => trivial
  | case2 s x hx => simp [eraseLoop, hx] at h
  | case3 s x hx => simpa [Spaced] using hx
  | case4 s x y l hx ih =>
    simp only [eraseLoop, hx, if_true, Option.map_eq_some_iff] at h
    obtain ⟨⟨t, r⟩, hr, he⟩ := h
    have he := (Prod.mk.inj he).2
    cases hy : own y with
    | true =>
      -- the key after `x` was kept unexamined, so the filter has no room for it
      have hmem : y ∈ (x :: y :: l).filter (!own ·) := by rw [← he]; simp
      simp [hy] at hmem
    | false =>
      simp only [List.filter_cons, hx, hy, Bool.not_true, Bool.not_false, Bool.false_eq_true, if_true,
        if_false, List.cons.injEq, true_and] at he
      subst he
      exact ⟨fun _ => hy, (spaced_cons_of_keep hy).mpr (ih hr)⟩
  | case5 s x y l hx ih =>
    simp only [Bool.not_eq_true] at hx
    simp only [eraseLoop, hx, Bool.false_eq_true, if_false, Option.map_eq_some_iff] at h
    obtain ⟨⟨t, r⟩, hr, he⟩ := h
    have he := (Prod.mk.inj he).2
    simp only [List.filter_cons (x := x), hx, Bool.not_false, if_true, List.cons.injEq, true_and] at he
    subst he
    exact (spaced_cons_of_keep hx).mpr (ih hr)

end Loops

end Lib
