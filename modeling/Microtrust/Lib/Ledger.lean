/-
Handles as a client and a server see them.

The client opens handles and ends them; the server holds some. A call that
fails on its way leaves the client unsure: whether the end it asked for came
about, or what was opened for it. Such handles are lost to the client until a
later call on them gets through.
-/
import Mathlib.Data.Finset.Basic

namespace Lib

/-- What a client knows: the handles it has open, and the ones it is unsure of. -/
structure Ledger (α : Type*) [DecidableEq α] where
  opened : Finset α
  lost : Finset α

namespace Ledger

variable {α : Type*} [DecidableEq α] {l : Ledger α} {held held' : Finset α} {h : α}

/-- A handle was opened. -/
def opens (l : Ledger α) (h : α) : Ledger α := ⟨insert h l.opened, l.lost.erase h⟩

/-- A handle may have been opened that the client does not know. -/
def misses (l : Ledger α) (h : α) : Ledger α := ⟨l.opened, insert h l.lost⟩

/-- A handle was given up, and the server knows or may not. -/
def ends (l : Ledger α) (h : α) (known : Bool) : Ledger α :=
  ⟨l.opened.erase h, if known then l.lost.erase h else insert h l.lost⟩

/-- The server holds what the client has open, and beyond that only what is lost. -/
structure Agrees (l : Ledger α) (held : Finset α) : Prop where
  seen : l.opened ⊆ held
  covered : held ⊆ l.opened ∪ l.lost

theorem Agrees.opens (ha : l.Agrees held) (h : α) : (l.opens h).Agrees (insert h held) := by
  refine ⟨Finset.insert_subset_insert h ha.seen, fun x hx => ?_⟩
  rcases Finset.mem_insert.mp hx with hxh | hx
  · rw [hxh]
    exact Finset.mem_union_left _ (Finset.mem_insert_self h _)
  · have hcov := ha.covered hx
    simp only [Ledger.opens, Finset.mem_union, Finset.mem_insert, Finset.mem_erase] at hcov ⊢
    by_cases hxh : x = h
    · exact .inl (.inl hxh)
    · exact hcov.imp .inr fun hl => ⟨hxh, hl⟩

/-- The client does not hear of it, so the server may hold it or not. -/
theorem Agrees.misses (ha : l.Agrees held) (hh : held' = held ∨ held' = insert h held) :
    (l.misses h).Agrees held' := by
  have hgrown : (l.misses h).Agrees (insert h held) := by
    refine ⟨ha.seen.trans (Finset.subset_insert h held), fun x hx => ?_⟩
    simp only [Ledger.misses, Finset.mem_union, Finset.mem_insert] at hx ⊢
    rcases hx with hx | hx
    · exact .inr (.inl hx)
    · exact (Finset.mem_union.mp (ha.covered hx)).imp_right .inr
  rcases hh with hh | hh
  · subst hh
    exact ⟨ha.seen, (Finset.subset_insert h _).trans hgrown.covered⟩
  · subst hh
    exact hgrown

/-- The server has given it up too. -/
theorem Agrees.closed (ha : l.Agrees held) (h : α) (known : Bool) : (l.ends h known).Agrees (held.erase h) := by
  refine ⟨Finset.erase_subset_erase h ha.seen, fun x hx => ?_⟩
  obtain ⟨hne, hx⟩ := Finset.mem_erase.mp hx
  have hcov := ha.covered hx
  simp only [ends, Finset.mem_union, Finset.mem_erase] at hcov ⊢
  refine hcov.imp (fun ho => ⟨hne, ho⟩) fun hl => ?_
  cases known with
  | true => exact Finset.mem_erase.mpr ⟨hne, hl⟩
  | false => exact Finset.mem_insert_of_mem hl

/-- The client gives it up, and the server may hold it still. -/
theorem Agrees.unsure (ha : l.Agrees held) (hh : held' = held ∨ held' = held.erase h) :
    (l.ends h false).Agrees held' := by
  rcases hh with hh | hh
  · subst hh
    refine ⟨(Finset.erase_subset h _).trans ha.seen, fun x hx => ?_⟩
    have hcov := ha.covered hx
    simp only [ends, Finset.mem_union, Finset.mem_erase, Finset.mem_insert, Bool.false_eq_true, if_false] at hcov ⊢
    by_cases hxh : x = h
    · exact .inr (.inl hxh)
    · exact hcov.imp (fun ho => ⟨hxh, ho⟩) .inr
  · subst hh
    exact ha.closed h false

/-- What was given up before is given up once. -/
theorem ends_ends (l : Ledger α) (h : α) (known known' : Bool) : (l.ends h known).ends h known' = l.ends h known' := by
  have hopened : ((l.ends h known).ends h known').opened = (l.ends h known').opened := Finset.erase_idem
  have hlost : ((l.ends h known).ends h known').lost = (l.ends h known').lost := by
    ext x
    by_cases hx : x = h <;> cases known <;> cases known' <;> simp [ends, hx]
  exact congrArg₂ Ledger.mk hopened hlost

end Ledger

/-! ## Objects that carry handles -/

section

variable {α β : Type*} {handle : β → α} {free : α} {table : List (Option β)} {held held' : Finset α}

/-- Of the handles that the server holds, all but the one that stands for none
are carried by an object in the table. -/
def Carried (handle : β → α) (free : α) (table : List (Option β)) (held : Finset α) : Prop :=
  ∀ h ∈ held, h = free ∨ ∃ b, some b ∈ table ∧ handle b = h

theorem Carried.mono (hc : Carried handle free table held) (hsub : held' ⊆ held) : Carried handle free table held' :=
  fun h hh => hc h (hsub hh)

/-- A handle was added, and an object for it. -/
theorem Carried.add [DecidableEq α] (hc : Carried handle free table held) (b : β) :
    Carried handle free (table ++ [some b]) (insert (handle b) held) := by
  intro h hh
  rcases Finset.mem_insert.mp hh with rfl | hh
  · exact .inr ⟨b, List.mem_append_right _ List.mem_cons_self, rfl⟩
  · exact (hc h hh).imp_right fun ⟨b', hb', heq⟩ => ⟨b', List.mem_append_left _ hb', heq⟩

/-- An object was replaced, which may lose a handle that is not held any more. -/
theorem Carried.set {i : Nat} {new : Option β} (hc : Carried handle free table held) (hsub : held' ⊆ held)
    (hnew : ∀ b, table[i]? = some (some b) → handle b ∈ held' →
      handle b = free ∨ ∃ b', new = some b' ∧ handle b' = handle b) :
    Carried handle free (table.set i new) held' := by
  intro h hh
  rcases hc h (hsub hh) with hfree | ⟨b, hb, rfl⟩
  · exact .inl hfree
  obtain ⟨j, hj⟩ := List.getElem?_of_mem hb
  by_cases hij : i = j
  · subst hij
    rcases hnew b hj hh with hfree | ⟨b', rfl, heq⟩
    · exact .inl hfree
    · have hlt : i < table.length := (List.getElem?_eq_some_iff.mp hj).1
      exact .inr ⟨b', List.mem_set hlt (some b'), heq⟩
  · have hkept : (table.set i new)[j]? = some (some b) := by rw [List.getElem?_set_ne hij, hj]
    exact .inr ⟨b, List.mem_of_getElem? hkept, rfl⟩

end

end Lib
