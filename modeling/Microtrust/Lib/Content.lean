/-
The content behind a descriptor.

A transfer of a file or a device goes to the data of one inode. What a
single transfer does is said here once, with the data as a whole function of
the inode, so that a loop of transfers is followed by rewriting.
-/
import Microtrust.Lib.KernelFacts

namespace Lib

namespace Kernel

/-- The inode whose data a transfer through `fd` moves. -/
def inode (k : Kernel) (fd : Int) : Option Nat :=
  match (k.desc fd).map Desc.obj with
  | some (.file ino) | some (.blk ino) => some ino
  | _ => none

/-- The data after `bs` was stored through `fd` at `off`. -/
def store (k : Kernel) (fd : Int) (off : Nat) (bs : Bytes) : Nat → Bytes :=
  match k.inode fd with
  | some ino => Function.update k.data ino (overlay (k.data ino) off bs)
  | none => k.data

section

variable {k k' : Kernel} {fd : Int} {r : Reply}

@[simp] theorem store_nil (off : Nat) : k.store fd off [] = k.data := by
  unfold store
  split <;> simp

theorem inode_congr (h : k'.fds = k.fds) : k'.inode fd = k.inode fd := by
  simp only [inode, desc, h]

/-- What is stored right behind `a` is stored with it. -/
theorem store_store {off : Nat} {a : Bytes} (hf : k'.fds = k.fds) (hd : k'.data = k.store fd off a) (b : Bytes) :
    k'.store fd (off + a.length) b = k.store fd off (a ++ b) := by
  unfold store at hd ⊢
  rw [inode_congr hf]
  cases hi : k.inode fd with
  | none => simpa [hi] using hd
  | some ino =>
    simp only [hi] at hd ⊢
    rw [hd, Function.update_self, overlay_append, Function.update_idem]

theorem desc_of_inode {ino : Nat} (h : k.inode fd = some ino) :
    ∃ d, k.desc fd = some d ∧ (d.obj = .file ino ∨ d.obj = .blk ino) := by
  unfold inode at h
  cases hd : k.desc fd with
  | none => simp [hd] at h
  | some d =>
    refine ⟨d, rfl, ?_⟩
    cases ho : d.obj <;> simp_all

/-- A write moves some of the bytes, at least one, to where it was asked to. -/
theorem pwrite_ok {buf : Bytes} {off : Int} {m : Nat} (hbuf : buf ≠ []) (h : k.pwrite r fd buf off = (.ok m, k')) :
    1 ≤ m ∧ m ≤ buf.length ∧ (k.inode fd ≠ none → 0 ≤ off) ∧ k'.fds = k.fds ∧
      k'.data = k.store fd off.toNat (buf.take m) := by
  have hpos : 0 < buf.length := List.length_pos_iff.mpr hbuf
  unfold pwrite at h
  cases hd : k.desc fd with
  | none => simp [hd] at h
  | some d =>
    simp only [hd] at h
    split at h
    · simp at h
    split at h
    · simp at h
    next n =>
    have htake : buf.take (min (max n 1) buf.length) ≠ [] := by
      rw [Ne, List.take_eq_nil_iff, not_or]
      exact ⟨by omega, hbuf⟩
    cases ho : d.obj with
    | dir p => simp [ho] at h
    | chr =>
      simp only [ho, Prod.mk.injEq, Except.ok.injEq] at h
      obtain ⟨rfl, rfl⟩ := h
      have hi : k.inode fd = none := by simp [inode, hd, ho]
      exact ⟨by omega, by omega, by simp [hi], rfl, by simp [store, hi]⟩
    | file ino | blk ino =>
      have hi : k.inode fd = some ino := by simp [inode, hd, ho]
      simp only [ho] at h
      split at h
      · simp at h
      next hoff =>
      simp only [Prod.mk.injEq, Except.ok.injEq] at h
      obtain ⟨rfl, rfl⟩ := h
      refine ⟨by omega, by omega, fun _ => by omega, rfl, ?_⟩
      simp [store, hi, overlay_of_ne htake, log]

theorem pwrite_error {buf : Bytes} {off : Int} {e : Errno} (h : k.pwrite r fd buf off = (.error e, k')) : k' = k := by
  unfold pwrite at h
  cases hd : k.desc fd with
  | none =>
    simp only [hd] at h
    exact (Prod.mk.inj h).2.symm
  | some d =>
    simp only [hd] at h
    split at h
    · exact (Prod.mk.inj h).2.symm
    split at h
    · exact (Prod.mk.inj h).2.symm
    · cases ho : d.obj with
      | dir p => simp_all
      | chr => simp [ho] at h
      | file ino | blk ino =>
        simp only [ho] at h
        split at h
        · exact (Prod.mk.inj h).2.symm
        · simp at h

/-- A read finds the bytes at the offset: at least one, unless there is none. -/
theorem pread_ok {ino size : Nat} {off : Int} {bs : Bytes} (hi : k.inode fd = some ino)
    (h : k.pread r fd size off = .ok bs) :
    0 ≤ off ∧ ∃ n, 1 ≤ n ∧ bs = (((k.data ino).drop off.toNat).take size).take n := by
  obtain ⟨d, hd, ho⟩ := desc_of_inode hi
  have hread : ∃ n, r = .ok n := by
    cases r with
    | ok n => exact ⟨n, rfl⟩
    | error e => rcases ho with ho | ho <;> simp [pread, hd, ho] at h
  obtain ⟨n, rfl⟩ := hread
  have hbs : (if off < 0 then Except.error Errno.EINVAL
      else .ok ((((k.data ino).drop off.toNat).take size).take (max n 1))) = Except.ok bs := by
    rcases ho with ho | ho <;> simpa [pread, hd, ho] using h
  split at hbs
  · simp at hbs
  · exact ⟨by omega, max n 1, by omega, (Except.ok.inj hbs).symm⟩

/-- The length of a file is set, and nothing else. -/
theorem ftruncate_ok {len : Int} {u : Unit} (h : k.ftruncate r fd len = (.ok u, k')) :
    0 ≤ len ∧ ∃ d ino, k.desc fd = some d ∧ d.obj = .file ino ∧
      k'.data = Function.update k.data ino (padTake (k.data ino) len.toNat) := by
  unfold ftruncate at h
  cases hd : k.desc fd with
  | none => simp [hd] at h
  | some d =>
    simp only [hd] at h
    cases ho : d.obj with
    | dir p => simp [ho] at h
    | chr => simp [ho] at h
    | blk ino => simp [ho] at h
    | file ino =>
      simp only [ho] at h
      split at h
      · simp at h
      next hlen =>
      split at h
      · simp at h
      · obtain ⟨_, rfl⟩ := Prod.mk.inj h
        simp only [Bool.or_eq_true, decide_eq_true_eq, not_or] at hlen
        exact ⟨by omega, d, ino, rfl, ho, rfl⟩

theorem ftruncate_error {len : Int} {e : Errno} (h : k.ftruncate r fd len = (.error e, k')) : k' = k := by
  rcases ftruncate_cases h with hk | ⟨d, ino, data, hd, _, rfl⟩
  · exact hk
  unfold ftruncate at h
  simp only [hd] at h
  split at h
  · split at h
    · exact (Prod.mk.inj h).2.symm
    split at h
    · exact (Prod.mk.inj h).2.symm
    · simp at h
  · exact (Prod.mk.inj h).2.symm

end

end Kernel

end Lib
