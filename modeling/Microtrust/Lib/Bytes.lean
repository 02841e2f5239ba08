/-
Byte strings and the machine integers packed in them.

A record in memory or in a message is a list of bytes. `le` reads an
unsigned little-endian integer, `leBytes` writes one, and `splice` stores a
block at an offset, filling the gap with zeros when it starts past the end
(what `pwrite` does to a file, and `memcpy` to a cleared buffer).
-/
import Mathlib

namespace Lib

abbrev Bytes := List UInt8

/-- The unsigned little-endian value of a byte string. -/
def le : Bytes → Nat
  | [] => 0
  | b :: bs => b.toNat + 256 * le bs

/-- The low `n` bytes of `v`, least significant first. -/
def leBytes : Nat → Nat → Bytes
  | 0, _ => []
  | n + 1, v => UInt8.ofNat (v % 256) :: leBytes n (v / 256)

/-- The `n`-byte little-endian field at `off`. Bytes past the end read as
absent, so a short buffer gives a shorter field. -/
def leAt (bs : Bytes) (off n : Nat) : Nat := le ((bs.drop off).take n)

/-- An unsigned value converted to a signed type of `bits` bits. -/
def toSigned (bits n : Nat) : Int :=
  let m : Nat := n % 2 ^ bits
  if 2 * m < 2 ^ bits then (m : Int) else (m : Int) - 2 ^ bits

/-- A value converted to `int`. -/
def toInt32 (n : Nat) : Int := toSigned 32 n

/-- `old` with `blk` stored at `off`. -/
def splice (old : Bytes) (off : Nat) (blk : Bytes) : Bytes :=
  old.take off ++ List.replicate (off - old.length) 0 ++ blk ++ old.drop (off + blk.length)

/-- `old` after the bytes of `data` were stored at `off`; none leave it as it is. -/
def overlay (old : Bytes) (off : Nat) (data : Bytes) : Bytes := if data = [] then old else splice old off data

/-- The C string at the start of a buffer. -/
def cstr (bs : Bytes) : Bytes := bs.takeWhile (· ≠ 0)

theorem le_lt (bs : Bytes) : le bs < 256 ^ bs.length := by
  induction bs with
  | nil => simp [le]
  | cons b bs ih =>
    have hb : b.toNat < 256 := b.toNat_lt
    simp only [le, List.length_cons, Nat.pow_succ]
    omega

theorem leAt_lt (bs : Bytes) (off n : Nat) : leAt bs off n < 256 ^ n := by
  have hlen : ((bs.drop off).take n).length ≤ n := by simp
  exact lt_of_lt_of_le (le_lt _) (Nat.pow_le_pow_right (by omega) hlen)

theorem leAt_append {a b : Bytes} {off n : Nat} (h : off + n ≤ a.length) :
    leAt (a ++ b) off n = leAt a off n := by
  unfold leAt
  rw [List.drop_append_of_le_length (by omega), List.take_append_of_le_length (by simp; omega)]

@[simp] theorem length_leBytes (n v : Nat) : (leBytes n v).length = n := by
  induction n generalizing v with
  | zero => rfl
  | succ n ih => simp [leBytes, ih]

theorem le_leBytes (n v : Nat) : le (leBytes n v) = v % 256 ^ n := by
  induction n generalizing v with
  | zero => simp [leBytes, le, Nat.mod_one]
  | succ n ih =>
    have hb : (UInt8.ofNat (v % 256)).toNat = v % 256 := by
      rw [UInt8.toNat_ofNat']
      omega
    simp only [leBytes, le, ih, hb]
    rw [Nat.pow_succ, Nat.mul_comm (256 ^ n), Nat.mod_mul]

theorem le_leBytes_of_lt {n v : Nat} (h : v < 256 ^ n) : le (leBytes n v) = v := by
  rw [le_leBytes, Nat.mod_eq_of_lt h]

theorem toInt32_of_lt {n : Nat} (h : n < 2 ^ 31) : toInt32 n = n := by
  have hm : n % 2 ^ 32 = n := Nat.mod_eq_of_lt (by omega)
  simp only [toInt32, toSigned, hm, if_pos (show 2 * n < 2 ^ 32 by omega)]

theorem toInt32_neg {n : Nat} (h₁ : 2 ^ 31 ≤ n) (h₂ : n < 2 ^ 32) : toInt32 n < 0 := by
  have hm : n % 2 ^ 32 = n := Nat.mod_eq_of_lt h₂
  simp only [toInt32, toSigned, hm, if_neg (show ¬ 2 * n < 2 ^ 32 by omega)]
  omega

theorem toInt32_eq_zero {n : UInt32} : toInt32 n.toNat = 0 ↔ n = 0 := by
  constructor
  · intro h
    by_cases hbig : 2 ^ 31 ≤ n.toNat
    · have hneg : toInt32 n.toNat < 0 := toInt32_neg hbig n.toNat_lt
      omega
    · rw [toInt32_of_lt (by omega)] at h
      exact UInt32.toNat_inj.mp (by simpa using h)
  · rintro rfl
    rfl

theorem cstr_append {v : Bytes} (h : (0 : UInt8) ∉ v) (rest : Bytes) : cstr (v ++ 0 :: rest) = v := by
  unfold cstr
  rw [List.takeWhile_append_of_pos, List.takeWhile_cons_of_neg (by simp), List.append_nil]
  intro b hb
  exact decide_eq_true fun hz => h (hz ▸ hb)

/-! ## Conversion to a signed type -/

theorem toSigned_of_lt {bits M n : Nat} (hM : 2 ^ bits = 2 * M) (h : n < M) : toSigned bits n = n := by
  simp only [toSigned, hM]
  rw [Nat.mod_eq_of_lt (by omega), if_pos (by omega)]

/-- A signed value that is not negative is the unsigned one reduced. -/
theorem toSigned_cases {bits M : Nat} (hM : 2 ^ bits = 2 * M) (n : Nat) :
    n % (2 * M) < M ∧ toSigned bits n = (n % (2 * M) : Nat) ∨ M ≤ n % (2 * M) ∧ toSigned bits n < 0 := by
  have hcast : (2 : Int) ^ bits = 2 * M := by exact_mod_cast hM
  simp only [toSigned, hM, hcast]
  have hle : M ≤ n % (2 * M) ∨ n % (2 * M) < M := by omega
  rcases hle with hle | hlt
  · have hmod : n % (2 * M) < 2 * M := Nat.mod_lt _ (by have := Nat.two_pow_pos bits; omega)
    rw [if_neg (by omega)]
    omega
  · rw [if_pos (by omega)]
    omega

/-! ## Splices -/

/-- The first `n` bytes, with zeros for those that are not there. -/
def padTake (old : Bytes) (n : Nat) : Bytes := old.take n ++ List.replicate (n - old.length) 0

@[simp] theorem length_padTake (old : Bytes) (n : Nat) : (padTake old n).length = n := by
  simp [padTake]
  omega

theorem padTake_of_le {old : Bytes} {n : Nat} (h : n ≤ old.length) : padTake old n = old.take n := by
  simp [padTake, Nat.sub_eq_zero_of_le h]

theorem splice_eq (old blk : Bytes) (off : Nat) :
    splice old off blk = padTake old off ++ blk ++ old.drop (off + blk.length) := rfl

/-- Up to the end of the block, a splice is what was there and the block. -/
theorem padTake_splice (old blk : Bytes) (off : Nat) :
    (splice old off blk).take (off + blk.length) = padTake old off ++ blk := by
  rw [splice_eq, List.take_left' (by simp)]

theorem take_splice {old : Bytes} {off : Nat} (blk : Bytes) (h : off ≤ old.length) :
    (splice old off blk).take (off + blk.length) = old.take off ++ blk := by
  rw [padTake_splice, padTake_of_le h]

theorem le_length_splice (old blk : Bytes) (off : Nat) : off + blk.length ≤ (splice old off blk).length := by
  simp [splice_eq]

/-- A block stored right behind another is stored with it. -/
theorem splice_splice (old a b : Bytes) (off : Nat) :
    splice (splice old off a) (off + a.length) b = splice old off (a ++ b) := by
  have hdrop : (splice old off a).drop (off + a.length + b.length) = old.drop (off + (a ++ b).length) := by
    rw [splice_eq, ← List.drop_drop, List.drop_left' (by simp), List.drop_drop]
    simp [Nat.add_assoc]
  rw [splice_eq (splice old off a), padTake_of_le (le_length_splice old a off), padTake_splice, hdrop, splice_eq old]
  simp

@[simp] theorem overlay_nil (old : Bytes) (off : Nat) : overlay old off [] = old := rfl

theorem overlay_of_ne {data : Bytes} (h : data ≠ []) (old : Bytes) (off : Nat) :
    overlay old off data = splice old off data := if_neg h

theorem overlay_append (old a b : Bytes) (off : Nat) :
    overlay (overlay old off a) (off + a.length) b = overlay old off (a ++ b) := by
  by_cases ha : a = []
  · simp [ha]
  by_cases hb : b = []
  · simp [hb]
  rw [overlay_of_ne ha, overlay_of_ne hb, overlay_of_ne (by simp [ha]), splice_splice]

theorem length_overlay {data : Bytes} (h : data ≠ []) (old : Bytes) (off : Nat) :
    (overlay old off data).length = max old.length (off + data.length) := by
  rw [overlay_of_ne h]
  simp [splice_eq]
  omega

end Lib
