/-
Accounts: over a run, what was taken is what was given back and what is out.

A step is accounted for by itself: what it gives back and what is out after it
are what it takes and what was out before it.
-/
import Mathlib.Data.List.Perm.Basic
import Mathlib.Data.List.Count

namespace Lib

variable {α : Type*} {back out took back' out' took' : List α}

def Accounted (back out took : List α) : Prop := (back ++ out).Perm took

theorem accounted_nil : Accounted ([] : List α) [] [] := List.Perm.nil

theorem Accounted.append (h : Accounted back out took) (hstep : (back' ++ out').Perm (took' ++ out)) :
    Accounted (back ++ back') out' (took ++ took') :=
  calc (back ++ back' ++ out')
    _ = back ++ (back' ++ out') := List.append_assoc ..
    List.Perm _ (back ++ (took' ++ out)) := hstep.append_left back
    List.Perm _ (back ++ (out ++ took')) := List.perm_append_comm.append_left back
    _ = back ++ out ++ took' := (List.append_assoc ..).symm
    List.Perm _ (took ++ took') := h.append_right took'

/-- What is out was given back less often than it was taken. -/
theorem Accounted.count_lt [DecidableEq α] (h : Accounted back out took) {a : α} (ha : a ∈ out) :
    back.count a < took.count a := by
  have hcount := h.count_eq a
  rw [List.count_append] at hcount
  have hpos : 0 < out.count a := List.count_pos_iff.mpr ha
  omega

end Lib
