/-
The thread that unlocks the keymaster (load_tee_fn and keymaster_unlock in
teei_daemon/main.c).

It waits for the data partition to be readable, and polls four properties for
that; other processes set them, so each reading may find another value. The
readings go round in one order, and the first that says that the wait is over
ends it. Then the driver is told, once, and `unlock_state` is set whether or
not it heard.
-/
import Mathlib.Data.Nat.Find
import Mathlib.Tactic.ByContra

namespace Daemon

/-! ## The thread -/

/-- The properties it reads: `ro.crypto.state`, `ro.crypto.type`, `vold.decrypt`
and `vendor.soter.teei.crypto.state`. -/
inductive CryptoKey where
  | state | type | decrypt | teei
deriving DecidableEq

/-- What each `property_get` of the thread finds, by its number; the default is
empty. -/
abbrev Readings := Nat → CryptoKey → String

/-- The two states of a partition that needs no decryption. -/
def readable (state : String) : Prop := state = "unencrypted" ∨ state = "unsupported"

instance (state : String) : Decidable (readable state) := inferInstanceAs (Decidable (_ ∨ _))

/-- The loop, with what was last read of `vold.decrypt`, after `n` readings: how
many were made when it ends. The fuel bounds the rounds. -/
def waitDecrypted (r : Readings) : Nat → Nat → String → Option Nat
  | 0, _, _ => none
  | fuel + 1, n, value =>
    if value = "trigger_restart_framework" then some n
    else if r n .teei = "unencrypted" then some (n + 1)
    else if readable (r (n + 1) .state) then some (n + 2)
    else if r (n + 2) .type = "file" then some (n + 3)
    else waitDecrypted r fuel (n + 4) (r (n + 3) .decrypt)

/-- The calls made of `/dev/teei_config`. -/
inductive ConfigCall where
  | openConfig | unlock | close
deriving DecidableEq

/-- How they end. -/
structure ConfigDevice where
  fd : Int
  unlocked : Int

/-- `keymaster_unlock`. What the ioctl returns is only reported. -/
def keymasterUnlock (dev : ConfigDevice) : List ConfigCall :=
  if dev.fd < 0 then [.openConfig] else [.openConfig, .unlock, .close]

/-- What the thread has done when it returns. -/
structure Loaded where
  readings : Nat
  calls : List ConfigCall
  unlockState : Nat
deriving DecidableEq

/-- `load_tee_fn`; none while it still waits. -/
def loadTeeFn (r : Readings) (dev : ConfigDevice) (fuel : Nat) : Option Loaded :=
  let value := r 0 .state
  let valueType := r 1 .type
  let waited :=
    if ¬ readable value then
      if valueType ≠ "file" then waitDecrypted r fuel 3 (r 2 .decrypt) else some 2
    else some 2
  waited.map fun n => ⟨n, keymasterUnlock dev, 1⟩

/-! ## The readings in their order -/

/-- The property that the `n`th reading is of. -/
def keyAt (n : Nat) : CryptoKey :=
  match n % 4 with
  | 0 => .state
  | 1 => .type
  | 2 => .decrypt
  | _ => .teei

/-- The value says that there is nothing to wait for. -/
def CryptoKey.releases : CryptoKey → String → Prop
  | .state, value => readable value
  | .type, value => value = "file"
  | .decrypt, value => value = "trigger_restart_framework"
  | .teei, value => value = "unencrypted"

/-- The `n`th reading ends the wait. -/
def Released (r : Readings) (n : Nat) : Prop := (keyAt n).releases (r n (keyAt n))

/-- The first from `a` on. -/
structure First (P : Nat → Prop) (a m : Nat) : Prop where
  from_le : a ≤ m
  holds : P m
  before : ∀ i, a ≤ i → i < m → ¬ P i

section First

variable {P : Nat → Prop} {a m : Nat}

theorem first_of_holds (h : P a) : First P a m ↔ m = a := by
  constructor
  · intro hm
    by_contra hne
    exact hm.before a (le_refl a) (lt_of_le_of_ne hm.from_le (Ne.symm hne)) h
  · intro hm
    subst hm
    exact ⟨le_refl m, h, fun i hi hlt => absurd hi (by omega)⟩

theorem first_of_not (h : ¬ P a) : First P a m ↔ First P (a + 1) m := by
  constructor
  · intro hm
    refine ⟨?_, hm.holds, fun i hi hlt => hm.before i (by omega) hlt⟩
    have hne : m ≠ a := by
      intro he
      exact h (he ▸ hm.holds)
    have hle := hm.from_le
    omega
  · intro hm
    refine ⟨by have := hm.from_le; omega, hm.holds, fun i hi hlt => ?_⟩
    rcases Nat.eq_or_lt_of_le hi with he | hlt'
    · exact he ▸ h
    · exact hm.before i hlt' hlt

/-- What holds somewhere holds first somewhere. -/
theorem exists_first (a : Nat) (h : ∃ n, a ≤ n ∧ P n) : ∃ m, First P a m := by
  classical
  obtain ⟨hle, hp⟩ := Nat.find_spec h
  refine ⟨Nat.find h, hle, hp, fun i hi hlt hpi => ?_⟩
  exact Nat.find_min h hlt ⟨hi, hpi⟩

end First

variable {r : Readings} {dev : ConfigDevice}

theorem keyAt_eq (q k : Nat) : keyAt (4 * q + k) = keyAt k := by
  unfold keyAt
  rw [Nat.mul_add_mod]

theorem released_iff (q k : Nat) : Released r (4 * q + k) ↔ (keyAt k).releases (r (4 * q + k) (keyAt k)) := by
  rw [Released, keyAt_eq]

/-- The readings of one round: `vold.decrypt` was read before it, and is read
again at its end. -/
theorem released_round (r : Readings) (q : Nat) :
    (Released r (4 * q + 2) ↔ r (4 * q + 2) .decrypt = "trigger_restart_framework") ∧
      (Released r (4 * q + 3) ↔ r (4 * q + 3) .teei = "unencrypted") ∧
      (Released r (4 * q + 4) ↔ readable (r (4 * q + 4) .state)) ∧
      (Released r (4 * q + 5) ↔ r (4 * q + 5) .type = "file") :=
  ⟨released_iff q 2, released_iff q 3, released_iff q 4, released_iff q 5⟩

/-- A round whose first reading ends the wait, whichever it is. -/
theorem ends_at {a j bound : Nat} (h : Released r a) (hbound : a < bound) :
    some (a + 1) = some j ↔ ∃ m, First (Released r) a m ∧ m < bound ∧ j = m + 1 := by
  constructor
  · intro hj
    exact ⟨a, (first_of_holds h).mpr rfl, hbound, (Option.some.inj hj).symm⟩
  · intro hj
    obtain ⟨m, hm, _, he⟩ := hj
    rw [(first_of_holds h).mp hm] at he
    rw [he]

theorem goes_on {a j bound : Nat} (h : ¬ Released r a) :
    (∃ m, First (Released r) a m ∧ m < bound ∧ j = m + 1) ↔
      ∃ m, First (Released r) (a + 1) m ∧ m < bound ∧ j = m + 1 := by
  simp only [first_of_not h]

/-- The loop ends with the first reading that releases it, if it has the rounds
for that. -/
theorem waitDecrypted_iff (fuel q j : Nat) :
    waitDecrypted r fuel (4 * q + 3) (r (4 * q + 2) .decrypt) = some j ↔
      ∃ m, First (Released r) (4 * q + 2) m ∧ m < 4 * (q + fuel) + 2 ∧ j = m + 1 := by
  induction fuel generalizing q with
  | zero =>
    constructor
    · intro h
      cases h
    · intro h
      obtain ⟨m, hm, hlt, _⟩ := h
      have hle := hm.from_le
      omega
  | succ fuel ih =>
    obtain ⟨hdecrypt, hteei, hstate, htype⟩ := released_round r q
    rw [waitDecrypted]
    by_cases h₂ : Released r (4 * q + 2)
    · rw [if_pos (hdecrypt.mp h₂)]
      exact ends_at h₂ (by omega)
    rw [if_neg (mt hdecrypt.mpr h₂), goes_on h₂]
    by_cases h₃ : Released r (4 * q + 3)
    · rw [if_pos (hteei.mp h₃)]
      exact ends_at h₃ (by omega)
    rw [if_neg (mt hteei.mpr h₃), goes_on h₃]
    by_cases h₄ : Released r (4 * q + 4)
    · rw [if_pos (hstate.mp h₄)]
      exact ends_at h₄ (by omega)
    rw [if_neg (mt hstate.mpr h₄), goes_on h₄]
    by_cases h₅ : Released r (4 * q + 5)
    · rw [if_pos (htype.mp h₅)]
      exact ends_at h₅ (by omega)
    rw [if_neg (mt htype.mpr h₅), goes_on h₅]
    have hnext := ih (q + 1)
    rw [show 4 * (q + 1) + 3 = 4 * q + 7 by omega, show 4 * (q + 1) + 2 = 4 * q + 6 by omega,
      show q + 1 + fuel = q + (fuel + 1) by omega] at hnext
    exact hnext

theorem loadTeeFn_iff (r : Readings) (dev : ConfigDevice) (fuel : Nat) (out : Loaded) :
    loadTeeFn r dev fuel = some out ↔
      ∃ m, First (Released r) 0 m ∧ m < 4 * fuel + 2 ∧ out = ⟨max (m + 1) 2, keymasterUnlock dev, 1⟩ := by
  have hzero : Released r 0 ↔ readable (r 0 .state) := Iff.rfl
  have hone : Released r 1 ↔ r 1 .type = "file" := Iff.rfl
  unfold loadTeeFn
  dsimp only
  by_cases h₀ : Released r 0
  · rw [if_neg (not_not.mpr (hzero.mp h₀))]
    simp only [first_of_holds h₀, exists_eq_left, Option.map_some, Option.some.injEq]
    exact ⟨fun h => ⟨by omega, h.symm⟩, fun h => h.2.symm⟩
  rw [if_pos (mt hzero.mpr h₀)]
  simp only [first_of_not h₀]
  by_cases h₁ : Released r 1
  · rw [if_neg (not_not.mpr (hone.mp h₁))]
    simp only [first_of_holds h₁, exists_eq_left, Option.map_some, Option.some.injEq]
    exact ⟨fun h => ⟨by omega, h.symm⟩, fun h => h.2.symm⟩
  rw [if_pos (mt hone.mpr h₁)]
  simp only [first_of_not h₁]
  have hloop := waitDecrypted_iff (r := r) fuel 0
  rw [Nat.zero_add] at hloop
  constructor
  · intro h
    obtain ⟨j, hj, hout⟩ := Option.map_eq_some_iff.mp h
    obtain ⟨m, hm, hlt, he⟩ := (hloop j).mp hj
    have hle := hm.from_le
    refine ⟨m, hm, by omega, ?_⟩
    rw [← hout, he, max_eq_left (by omega)]
  · intro h
    obtain ⟨m, hm, hlt, hout⟩ := h
    have hle := hm.from_le
    refine Option.map_eq_some_iff.mpr ⟨m + 1, (hloop (m + 1)).mpr ⟨m, hm, by omega, rfl⟩, ?_⟩
    rw [hout, max_eq_left (by omega)]

/-- Every property is read again and again. -/
theorem read_again (k : CryptoKey) (n : Nat) : ∃ i, n ≤ i ∧ keyAt i = k := by
  cases k with
  | state => exact ⟨4 * n, by omega, keyAt_eq n 0⟩
  | type => exact ⟨4 * n + 1, by omega, keyAt_eq n 1⟩
  | decrypt => exact ⟨4 * n + 2, by omega, keyAt_eq n 2⟩
  | teei => exact ⟨4 * n + 3, by omega, keyAt_eq n 3⟩

/-- **The keymaster is unlocked once the partition is readable, and not
before.** The thread returns with the first reading that releases it, having
told the driver once, and waits as long as there is none. If one of the four
properties keeps such a value, it returns. -/
theorem unlock_awaits_release (r : Readings) (dev : ConfigDevice) :
    (∀ fuel out, loadTeeFn r dev fuel = some out ↔
      ∃ m, First (Released r) 0 m ∧ m < 4 * fuel + 2 ∧ out = ⟨max (m + 1) 2, keymasterUnlock dev, 1⟩) ∧
    ∀ (k : CryptoKey) (n : Nat), (∀ i, n ≤ i → k.releases (r i k)) → ∃ fuel out, loadTeeFn r dev fuel = some out := by
  refine ⟨loadTeeFn_iff r dev, fun k n hk => ?_⟩
  obtain ⟨i, hi, hkey⟩ := read_again k n
  have hreleased : Released r i := by
    rw [Released, hkey]
    exact hk i hi
  obtain ⟨m, hm⟩ := exists_first 0 ⟨i, Nat.zero_le i, hreleased⟩
  exact ⟨m, _, (loadTeeFn_iff r dev m _).mpr ⟨m, hm, by omega, rfl⟩⟩

/-- The driver cannot be opened: `unlock_state` is set all the same. -/
example : loadTeeFn (fun n _ => if n < 6 then "" else "trigger_restart_framework") ⟨-1, 0⟩ 2 =
    some ⟨7, [.openConfig], 1⟩ := by decide

end Daemon
