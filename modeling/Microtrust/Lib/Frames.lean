/-
Messages sent as frames. Every frame of a message but the last is marked: more
follows. A reader puts the bodies together up to and including the first frame
without the mark.
-/
import Mathlib.Data.List.Forall2

namespace Lib

/-- How a frame is read: its mark, its key and its body. -/
structure Framing (φ κ β : Type*) where
  more : φ → Bool
  key : φ → κ
  body : φ → List β

namespace Framing

variable {φ κ β : Type*} (F : Framing φ κ β)

/-- The messages in a sequence of frames, with what was read of the first. The
key of a message is that of its last frame; a message without one is not
complete. -/
def decode : List β → List φ → List (κ × List β)
  | _, [] => []
  | acc, f :: fs =>
    if F.more f then decode (acc ++ F.body f) fs else (F.key f, acc ++ F.body f) :: decode [] fs

/-- The frames of one message. -/
def IsMessage (m : κ × List β) (frames : List φ) : Prop :=
  ∃ before last, frames = before ++ [last] ∧ (∀ f ∈ before, F.more f = true) ∧ F.more last = false ∧
    F.key last = m.1 ∧ frames.flatMap F.body = m.2

variable {F}

theorem decode_marked {before : List φ} (h : ∀ f ∈ before, F.more f = true) (acc : List β) (rest : List φ) :
    F.decode acc (before ++ rest) = F.decode (acc ++ before.flatMap F.body) rest := by
  induction before generalizing acc with
  | nil => simp
  | cons f before ih =>
    have hf := h f List.mem_cons_self
    rw [List.cons_append, decode, if_pos hf, ih fun g hg => h g (List.mem_cons_of_mem f hg)]
    simp

theorem IsMessage.decode_append {m : κ × List β} {frames : List φ} (h : F.IsMessage m frames) (rest : List φ) :
    F.decode [] (frames ++ rest) = m :: F.decode [] rest := by
  obtain ⟨before, last, rfl, hbefore, hlast, hkey, hbody⟩ := h
  have hm : (F.key last, before.flatMap F.body ++ F.body last) = m := by
    rw [hkey, ← List.flatMap_singleton F.body last, ← List.flatMap_append, hbody]
  rw [List.append_assoc, decode_marked hbefore, List.singleton_append, decode, hlast, List.nil_append, hm]
  rfl

/-- A stream of whole messages is read as these messages. -/
theorem decode_stream {ms : List (κ × List β)} {groups : List (List φ)} (h : List.Forall₂ F.IsMessage ms groups) :
    F.decode [] groups.flatten = ms := by
  induction h with
  | nil => rfl
  | cons hm _ ih => rw [List.flatten_cons, hm.decode_append, ih]

/-- So it can be read as these only. -/
theorem stream_unique {ms ms' : List (κ × List β)} {groups groups' : List (List φ)}
    (h : List.Forall₂ F.IsMessage ms groups) (h' : List.Forall₂ F.IsMessage ms' groups')
    (heq : groups.flatten = groups'.flatten) : ms = ms' := by
  rw [← decode_stream h, heq, decode_stream h']

end Framing

end Lib
