/-
The receiving half of bp_keymaster_call in the lite tree
(km4.1/common/beanpod_keymaster_ipc.cpp), down to the caller's memory.

Every `readv` is offered the header and a window of the caller's buffer, from
`*out_size` on and no longer than what is left of it. The payload is in the
buffer before the header is looked at. Then `*out_size` grows by the payload, so
the next window starts behind it; once the buffer is full the window is empty,
and only a frame without a payload still fits.
-/
import Microtrust.Lib.Copy
import Microtrust.Lite.KeymasterPairing

namespace LiteKeymaster

open Lib Keymaster

/-! ## The loop -/

/-- The length of the window: the difference is a `size_t`, of which `std::min`
takes the low 32 bits. -/
def window (outMax size : UInt32) : UInt32 :=
  min (.ofNat maxBufferLength) (outMax.toUInt64 - size.toUInt64).toUInt32

/-- What receiving comes to: its value, `*out_size`, the memory, and where bytes
were stored in it. -/
structure Received where
  rc : Int
  size : UInt32
  mem : Nat → UInt8
  stores : List (Nat × Nat)

/-- What the server sends: how each `readv` would end, and how those after do.
A frame that does not fit is an error. -/
structure Incoming where
  frames : List (Except Errno Bytes)
  after : Errno

/-- The loop that reads the answer to where `out` points. -/
def receive (cmd : UInt32) (out : Nat) (outMax : UInt32) (after : Errno) :
    List (Except Errno Bytes) → UInt32 → (Nat → UInt8) → Received
  | [], size, mem => ⟨after.neg, size, mem, []⟩
  | .error e :: _, size, mem => ⟨e.neg, size, mem, []⟩
  | .ok m :: frames, size, mem =>
    if headerSize + (window outMax size).toNat < m.length then ⟨Errno.neg .EMSGSIZE, size, mem, []⟩
    else
      let payload := m.drop headerSize
      let store := (out + size.toNat, payload.length)
      let mem := stored mem (out + size.toNat) payload
      if m.length < headerSize then ⟨Errno.neg .EINVAL, size, mem, [store]⟩
      else if cmd ||| respBit ≠ headerCmd m &&& ~~~stopBit then ⟨Errno.neg .EINVAL, size, mem, [store]⟩
      else
        let size := size + .ofNat payload.length
        if headerCmd m &&& stopBit ≠ 0 then ⟨m.length, size, mem, [store]⟩
        else
          let r := receive cmd out outMax after frames size mem
          { r with stores := store :: r.stores }

/-- `bp_keymaster_call`, with the caller's memory. -/
def callReceiving (env : Env) (s : State) (cmd : UInt32) (input : Bytes) (out : Nat) (outSize : UInt32)
    (incoming : Incoming) (mem : Nat → UInt8) : Received :=
  if s.handle < 0 then ⟨Errno.neg .EINVAL, outSize, mem, []⟩
  else
    let rc := (sendRequest env input.length s cmd input).1
    if rc < 0 then ⟨rc, outSize, mem, []⟩
    else receive cmd out outSize incoming.after incoming.frames 0 mem

/-! ## What is accepted -/

/-- A frame of the answer to the command, whether or not it is the last. -/
def Answers (cmd : UInt32) (m : Bytes) : Prop :=
  headerSize ≤ m.length ∧ headerCmd m &&& ~~~stopBit = cmd ||| respBit

instance (cmd : UInt32) (m : Bytes) : Decidable (Answers cmd m) := inferInstanceAs (Decidable (_ ∧ _))

/-- A read that is to fail the call: an error, a short frame, or a foreign one. -/
def Fails (cmd : UInt32) : Except Errno Bytes → Prop
  | .error _ => True
  | .ok m => ¬ Answers cmd m

/-- The payloads of frames, one behind the other. -/
def payloads (ms : List Bytes) : Bytes := ms.flatMap (·.drop headerSize)

variable {cmd : UInt32} {out : Nat} {outMax size : UInt32} {after : Errno} {frames : List (Except Errno Bytes)}
  {mem : Nat → UInt8}

/-- The window is what a message may have, or what is left of the buffer. -/
theorem window_eq (h : size ≤ outMax) :
    (window outMax size).toNat = min maxBufferLength (outMax.toNat - size.toNat) := by
  have hle : size.toUInt64 ≤ outMax.toUInt64 := by
    rw [UInt64.le_iff_toNat_le, UInt32.toNat_toUInt64, UInt32.toNat_toUInt64]
    exact UInt32.le_iff_toNat_le.mp h
  have hdiff : (outMax.toUInt64 - size.toUInt64).toUInt32.toNat = outMax.toNat - size.toNat := by
    have hlt := outMax.toNat_lt
    rw [UInt64.toNat_toUInt32, UInt64.toNat_sub_of_le _ _ hle, UInt32.toNat_toUInt64, UInt32.toNat_toUInt64]
    omega
  have hmax : (UInt32.ofNat maxBufferLength).toNat = maxBufferLength := rfl
  have hwindow : window outMax size = if .ofNat maxBufferLength ≤ (outMax.toUInt64 - size.toUInt64).toUInt32
      then .ofNat maxBufferLength else (outMax.toUInt64 - size.toUInt64).toUInt32 := rfl
  rw [hwindow]
  split
  next hsmall =>
    rw [UInt32.le_iff_toNat_le, hdiff, hmax] at hsmall
    omega
  next hlarge =>
    rw [UInt32.le_iff_toNat_le, hdiff, hmax] at hlarge
    omega

theorem window_le (h : size ≤ outMax) : size.toNat + (window outMax size).toNat ≤ outMax.toNat := by
  have hsize := UInt32.le_iff_toNat_le.mp h
  rw [window_eq h]
  omega

/-- Everything stored lies in the caller's buffer, and the rest of the memory is
as it was. -/
structure Within (out : Nat) (outMax : UInt32) (mem : Nat → UInt8) (r : Received) : Prop where
  stores : ∀ w ∈ r.stores, cells w.1 w.2 ⊆ cells out outMax.toNat
  kept : ∀ a, a ∉ cells out outMax.toNat → r.mem a = mem a

theorem within_none {rc : Int} : Within out outMax mem ⟨rc, size, mem, []⟩ := ⟨nofun, fun _ _ => rfl⟩

section
variable {m : Bytes} (hsize : size ≤ outMax) (hfits : m.length ≤ headerSize + (window outMax size).toNat)
include hsize hfits

theorem payload_le : size.toNat + (m.drop headerSize).length ≤ outMax.toNat := by
  have hw := window_le hsize
  rw [List.length_drop]
  omega

theorem size_add : (size + .ofNat (m.drop headerSize).length).toNat = size.toNat + (m.drop headerSize).length := by
  have hle := payload_le hsize hfits
  have hlt := outMax.toNat_lt
  have hfits32 : (m.drop headerSize).length < 2 ^ 32 := by omega
  have hofNat : (UInt32.ofNat (m.drop headerSize).length).toNat = (m.drop headerSize).length :=
    UInt32.toNat_ofNat_of_lt' hfits32
  rw [UInt32.toNat_add, hofNat]
  exact Nat.mod_eq_of_lt (by omega)

theorem size_add_le : size + .ofNat (m.drop headerSize).length ≤ outMax := by
  rw [UInt32.le_iff_toNat_le, size_add hsize hfits]
  exact payload_le hsize hfits

theorem store_subset : cells (out + size.toNat) (m.drop headerSize).length ⊆ cells out outMax.toNat := by
  have hle := payload_le hsize hfits
  exact cells_subset (by omega) (by omega)

/-- A payload that is stored in its window. -/
theorem within_store (mem : Nat → UInt8) (rc : Int) (size' : UInt32) :
    Within out outMax mem ⟨rc, size', stored mem (out + size.toNat) (m.drop headerSize),
      [(out + size.toNat, (m.drop headerSize).length)]⟩ := by
  refine ⟨?_, ?_⟩
  · intro w hw
    rw [List.mem_singleton] at hw
    rw [hw]
    exact store_subset hsize hfits
  · intro a ha
    exact stored_of_notMem (fun hin => ha (store_subset hsize hfits hin)) mem

theorem held_size_add (mem : Nat → UInt8) :
    held (stored mem (out + size.toNat) (m.drop headerSize)) out (size + .ofNat (m.drop headerSize).length).toNat =
      held mem out size.toNat ++ m.drop headerSize := by
  rw [size_add hsize hfits, held_add, held_stored, held_stored_apart (.inl (le_refl _))]

end

theorem stops_iff {m : Bytes} (h : headerSize ≤ m.length) : stops m = true ↔ headerCmd m &&& stopBit ≠ 0 := by
  simp [stops, h]

/-- Everything that can become of one frame: the call fails, or the frame is one
of the answer, fits, and its payload is behind what was read. -/
theorem receive_cases (hsize : size ≤ outMax) (m : Bytes) (frames : List (Except Errno Bytes)) (mem : Nat → UInt8) :
    (∃ rc mem' stores, rc < 0 ∧ receive cmd out outMax after (.ok m :: frames) size mem = ⟨rc, size, mem', stores⟩ ∧
      Within out outMax mem ⟨rc, size, mem', stores⟩) ∨
    (Answers cmd m ∧ m.length ≤ headerSize + (window outMax size).toNat ∧
      receive cmd out outMax after (.ok m :: frames) size mem =
        let store := (out + size.toNat, (m.drop headerSize).length)
        let mem := stored mem (out + size.toNat) (m.drop headerSize)
        let size := size + .ofNat (m.drop headerSize).length
        if stops m then ⟨m.length, size, mem, [store]⟩
        else
          let r := receive cmd out outMax after frames size mem
          { r with stores := store :: r.stores }) := by
  rw [receive]
  split
  next => exact .inl ⟨_, _, _, Errno.neg_lt _, rfl, within_none⟩
  next hfits =>
    have hfits' : m.length ≤ headerSize + (window outMax size).toNat := by omega
    dsimp only
    split
    next => exact .inl ⟨_, _, _, Errno.neg_lt _, rfl, within_store hsize hfits' mem _ size⟩
    next hlong =>
      split
      next => exact .inl ⟨_, _, _, Errno.neg_lt _, rfl, within_store hsize hfits' mem _ size⟩
      next hcmd =>
        have hans : Answers cmd m := ⟨by omega, (not_not.mp hcmd).symm⟩
        refine .inr ⟨hans, hfits', ?_⟩
        rw [if_congr (stops_iff hans.1).symm rfl rfl]

/-! ## The whole answer -/

/-- The loop stores in the buffer only. -/
theorem receive_within (hsize : size ≤ outMax) :
    Within out outMax mem (receive cmd out outMax after frames size mem) := by
  induction frames generalizing size mem with
  | nil => exact within_none
  | cons f frames ih =>
    cases f with
    | error e => exact within_none
    | ok m =>
      rcases receive_cases hsize m frames mem with ⟨rc, mem', stores, -, hr, hw⟩ | ⟨-, hfits, hr⟩
      · rw [hr]
        exact hw
      · rw [hr]
        have hfirst : Within out outMax mem _ :=
          within_store hsize hfits mem m.length (size + .ofNat (m.drop headerSize).length)
        dsimp only
        split
        · exact hfirst
        · have hrest : Within out outMax (stored mem (out + size.toNat) (m.drop headerSize)) _ :=
            ih (size_add_le hsize hfits)
          refine ⟨?_, ?_⟩
          · intro w hw
            rcases List.mem_cons.mp hw with rfl | hw
            · exact store_subset hsize hfits
            · exact hrest.stores w hw
          · intro a ha
            exact (hrest.kept a ha).trans (hfirst.kept a ha)

/-- A value that is no error means a whole answer: frames of the command, of
which the last and only the last has the stop bit, and their payloads are behind
what was read before. -/
theorem receive_ok (hsize : size ≤ outMax) (hrc : 0 ≤ (receive cmd out outMax after frames size mem).rc) :
    ∃ before last rest, frames = (before ++ [last]).map .ok ++ rest ∧
      (∀ m ∈ before, Answers cmd m ∧ stops m = false) ∧ (Answers cmd last ∧ stops last = true) ∧
      (receive cmd out outMax after frames size mem).size.toNat =
        size.toNat + (payloads (before ++ [last])).length ∧
      held (receive cmd out outMax after frames size mem).mem out
          (receive cmd out outMax after frames size mem).size.toNat =
        held mem out size.toNat ++ payloads (before ++ [last]) := by
  induction frames generalizing size mem with
  | nil => exact absurd hrc (Int.not_le.mpr (Errno.neg_lt after))
  | cons f frames ih =>
    cases f with
    | error e => exact absurd hrc (Int.not_le.mpr (Errno.neg_lt e))
    | ok m =>
      rcases receive_cases hsize m frames mem with ⟨rc, mem', stores, hneg, hr, -⟩ | ⟨hans, hfits, hr⟩
      · rw [hr] at hrc
        exact absurd hrc (Int.not_le.mpr hneg)
      · rw [hr] at hrc ⊢
        have hadd := size_add hsize hfits
        cases hstop : stops m with
        | true =>
          refine ⟨[], m, frames, rfl, nofun, ⟨hans, hstop⟩, ?_, ?_⟩
          · simpa [payloads] using hadd
          · simpa [payloads] using held_size_add hsize hfits mem
        | false =>
          simp only [hstop, Bool.false_eq_true, if_false] at hrc ⊢
          obtain ⟨before, last, rest, rfl, hbefore, hlast, htotal, hheld⟩ := ih (size_add_le hsize hfits) hrc
          refine ⟨m :: before, last, rest, rfl, ?_, hlast, ?_, ?_⟩
          · intro m' hm'
            rcases List.mem_cons.mp hm' with rfl | hm'
            · exact ⟨hans, hstop⟩
            · exact hbefore m' hm'
          · rw [htotal, hadd, payloads, payloads, List.cons_append, List.flatMap_cons, List.length_append]
            omega
          · rw [hheld, held_size_add hsize hfits mem, payloads, payloads, List.cons_append, List.flatMap_cons,
              List.append_assoc]

/-- A read that is to fail the call does so, unless an answer ended before it. -/
theorem receive_fails (hsize : size ≤ outMax) {before : List Bytes} {f : Except Errno Bytes}
    {rest : List (Except Errno Bytes)} (hbefore : ∀ m ∈ before, stops m = false) (hf : Fails cmd f) :
    (receive cmd out outMax after (before.map .ok ++ f :: rest) size mem).rc < 0 := by
  induction before generalizing size mem with
  | nil =>
    cases f with
    | error e => exact Errno.neg_lt e
    | ok m =>
      rcases receive_cases hsize m rest mem with ⟨rc, mem', stores, hneg, hr, -⟩ | ⟨hans, -, -⟩
      · rw [List.map_nil, List.nil_append, hr]
        exact hneg
      · exact absurd hans hf
  | cons m before ih =>
    have hstop := hbefore m List.mem_cons_self
    rw [List.map_cons, List.cons_append]
    rcases receive_cases hsize m (before.map .ok ++ f :: rest) mem with ⟨rc, mem', stores, hneg, hr, -⟩ | ⟨-, hfits, hr⟩
    · rw [hr]
      exact hneg
    · rw [hr]
      simp only [hstop, Bool.false_eq_true, if_false]
      exact ih (size_add_le hsize hfits) fun m' hm' => hbefore m' (List.mem_cons_of_mem m hm')

/-- A frame of the answer that fits in the window is taken. -/
theorem receive_taken (hsize : size ≤ outMax) {m : Bytes} (hans : Answers cmd m)
    (hmax : m.length ≤ headerSize + maxBufferLength) (hroom : size.toNat + (m.drop headerSize).length ≤ outMax.toNat) (frames : List (Except Errno Bytes))
    (mem : Nat → UInt8) :
    m.length ≤ headerSize + (window outMax size).toNat ∧
      receive cmd out outMax after (.ok m :: frames) size mem =
        let store := (out + size.toNat, (m.drop headerSize).length)
        let mem := stored mem (out + size.toNat) (m.drop headerSize)
        let size := size + .ofNat (m.drop headerSize).length
        if stops m then ⟨m.length, size, mem, [store]⟩
        else
          let r := receive cmd out outMax after frames size mem
          { r with stores := store :: r.stores } := by
  have hfits : m.length ≤ headerSize + (window outMax size).toNat := by
    rw [List.length_drop] at hroom
    rw [window_eq hsize]
    have := hans.1
    omega
  refine ⟨hfits, ?_⟩
  rw [receive, if_neg (Nat.not_lt.mpr hfits)]
  dsimp only
  rw [if_neg (Nat.not_lt.mpr hans.1), if_neg (not_not.mpr hans.2.symm), if_congr (stops_iff hans.1).symm rfl rfl]

/-- Frames that are the command's and fit, one behind the other, are all taken. -/
theorem receive_accepts (hsize : size ≤ outMax) {before : List Bytes} {last : Bytes} (rest : List (Except Errno Bytes))
    (hbefore : ∀ m ∈ before, Answers cmd m ∧ stops m = false) (hlast : Answers cmd last ∧ stops last = true)
    (hmax : ∀ m ∈ before ++ [last], m.length ≤ headerSize + maxBufferLength)
    (htotal : size.toNat + (payloads (before ++ [last])).length ≤ outMax.toNat) :
    let r := receive cmd out outMax after ((before ++ [last]).map .ok ++ rest) size mem
    r.rc = last.length ∧ r.size.toNat = size.toNat + (payloads (before ++ [last])).length ∧
      held r.mem out r.size.toNat = held mem out size.toNat ++ payloads (before ++ [last]) := by
  induction before generalizing size mem with
  | nil =>
    have hone : payloads ([] ++ [last]) = last.drop headerSize := by simp [payloads]
    rw [hone] at htotal ⊢
    obtain ⟨hfits, hr⟩ := receive_taken hsize hlast.1 (hmax last (by simp)) htotal rest mem
    intro r
    have heq : r = _ := hr
    simp only [hlast.2, if_true] at heq
    rw [heq]
    exact ⟨rfl, size_add hsize hfits, held_size_add hsize hfits mem⟩
  | cons m before ih =>
    obtain ⟨hans, hstop⟩ := hbefore m List.mem_cons_self
    have hsplit : payloads (m :: before ++ [last]) = m.drop headerSize ++ payloads (before ++ [last]) := by
      simp [payloads]
    rw [hsplit, List.length_append] at htotal ⊢
    obtain ⟨hfits, hr⟩ := receive_taken hsize hans (hmax m (by simp)) (by omega)
      ((before ++ [last]).map .ok ++ rest) mem
    have hadd := size_add hsize hfits
    obtain ⟨hrc, hlen, hheld⟩ := ih
      (size_add_le hsize hfits) (fun m' hm' => hbefore m' (List.mem_cons_of_mem m hm'))
      (fun m' hm' => hmax m' (List.mem_cons_of_mem m hm')) (by omega)
    intro r
    have heq : r = _ := hr
    simp only [hstop, Bool.false_eq_true, if_false] at heq
    rw [heq]
    refine ⟨hrc, ?_, ?_⟩
    · rw [hlen, hadd]
      omega
    · rw [hheld, held_size_add hsize hfits mem, List.append_assoc]

/-- What is asked of a call about the caller's `out` and `*out_size`. -/
structure Reassembled (cmd : UInt32) (out : Nat) (outSize : UInt32) (incoming : Incoming) (mem : Nat → UInt8)
    (r : Received) : Prop where
  within : Within out outSize mem r
  whole : 0 ≤ r.rc → ∃ before last rest, incoming.frames = (before ++ [last]).map .ok ++ rest ∧
    (∀ m ∈ before, Answers cmd m ∧ stops m = false) ∧ (Answers cmd last ∧ stops last = true) ∧
    r.size.toNat = (payloads (before ++ [last])).length ∧
    held r.mem out r.size.toNat = payloads (before ++ [last])
  fails : ∀ (before : List Bytes) f rest, incoming.frames = before.map .ok ++ f :: rest → (∀ m ∈ before, stops m = false) →
    Fails cmd f → r.rc < 0

/-- **An answer is put together within the caller's buffer, or the call fails.**
Whatever the server sends, nothing outside the buffer is stored to; a value that
is no error means that the frames up to the first with the stop bit were the
command's and their payloads are in the buffer, and `*out_size` says how much
there is; and an error, a short frame or a foreign one fails the call. -/
theorem response_reassembled (env : Env) (s : State) (cmd : UInt32) (input : Bytes) (out : Nat) (outSize : UInt32)
    (incoming : Incoming) (mem : Nat → UInt8) :
    Reassembled cmd out outSize incoming mem (callReceiving env s cmd input out outSize incoming mem) := by
  have hrefused (rc : Int) (h : rc < 0) : Reassembled cmd out outSize incoming mem ⟨rc, outSize, mem, []⟩ :=
    ⟨within_none, fun hrc => absurd hrc (Int.not_le.mpr h), fun _ _ _ _ _ _ => h⟩
  have hzero : (0 : UInt32) ≤ outSize := UInt32.le_iff_toNat_le.mpr (Nat.zero_le _)
  unfold callReceiving
  split
  · exact hrefused _ (Errno.neg_lt _)
  · dsimp only
    split
    next hneg => exact hrefused _ hneg
    next =>
      refine ⟨receive_within hzero, fun hrc => ?_, ?_⟩
      · obtain ⟨before, last, rest, hframes, hbefore, hlast, hsize, hheld⟩ := receive_ok hzero hrc
        refine ⟨before, last, rest, hframes, hbefore, hlast, ?_, ?_⟩
        · simpa using hsize
        · simpa [held] using hheld
      · intro before f rest hframes hbefore hf
        rw [hframes]
        exact receive_fails hzero hbefore hf

/-- An answer to a request that was sent is accepted if its frames are the
command's, none is longer than a message may be, and the buffer has room for all. -/
theorem response_accepted (env : Env) {s : State} {cmd : UInt32} {input : Bytes} (out : Nat) {outSize : UInt32}
    {before : List Bytes} {last : Bytes} (rest : List (Except Errno Bytes)) (after : Errno) (mem : Nat → UInt8)
    (hconnected : 0 ≤ s.handle) (hsent : 0 ≤ (sendRequest env input.length s cmd input).1)
    (hbefore : ∀ m ∈ before, Answers cmd m ∧ stops m = false) (hlast : Answers cmd last ∧ stops last = true)
    (hmax : ∀ m ∈ before ++ [last], m.length ≤ headerSize + maxBufferLength)
    (hroom : (payloads (before ++ [last])).length ≤ outSize.toNat) :
    let r := callReceiving env s cmd input out outSize ⟨(before ++ [last]).map .ok ++ rest, after⟩ mem
    r.rc = last.length ∧ r.size.toNat = (payloads (before ++ [last])).length ∧
      held r.mem out r.size.toNat = payloads (before ++ [last]) := by
  have hzero : (0 : UInt32) ≤ outSize := UInt32.le_iff_toNat_le.mpr (Nat.zero_le _)
  have htotal : (0 : UInt32).toNat + (payloads (before ++ [last])).length ≤ outSize.toNat := by
    rw [UInt32.toNat_zero, Nat.zero_add]
    exact hroom
  obtain ⟨hrc, hsize, hheld⟩ :=
    receive_accepts hzero rest hbefore hlast hmax htotal
  intro r
  have heq : r = receive cmd out outSize after ((before ++ [last]).map .ok ++ rest) 0 mem := by
    show callReceiving env s cmd input out outSize _ mem = _
    unfold callReceiving
    rw [if_neg (Int.not_lt.mpr hconnected)]
    dsimp only
    rw [if_neg (Int.not_lt.mpr hsent)]
  rw [heq]
  refine ⟨hrc, ?_, ?_⟩
  · rw [hsize, UInt32.toNat_zero, Nat.zero_add]
  · rw [hheld]
    simp [held]

/-! ## The loop over a queue -/

/-- What a queue of messages comes to, read from the `n`-th `readv` on. -/
def arriving (env : Env) : Nat → List (Nat × Bytes) → List (Except Errno Bytes)
  | _, [] => []
  | n, m :: queue => (match env.readv n with
    | some e => .error e
    | none => .ok m.2) :: arriving env (n + 1) queue

/-- The loop in memory is the loop over a queue: it ends with the same value and
has read the same bytes. -/
theorem receive_eq_readResponse {env : Env} {n : Nat} {queue : List (Nat × Bytes)} (hsize : size ≤ outMax)
    (hafter : after = (env.readv (n + queue.length)).getD .EAGAIN) :
    let r := receive cmd out outMax after (arriving env n queue) size mem
    let q := readResponse env cmd outMax.toNat n queue (held mem out size.toNat)
    r.rc = q.rc ∧ held r.mem out r.size.toNat = q.out := by
  induction queue generalizing n size mem with
  | nil => exact ⟨congrArg Errno.neg hafter, rfl⟩
  | cons m queue ih =>
    have hnext : after = (env.readv (n + 1 + queue.length)).getD .EAGAIN := by
      rw [hafter, List.length_cons]
      congr 2
      omega
    cases hread : env.readv n with
    | some e =>
      simp only [arriving, hread, receive, readResponse, and_self]
    | none =>
      simp only [arriving, hread, readResponse, length_held]
      rw [receive, window_eq hsize]
      by_cases hlarge : headerSize + min maxBufferLength (outMax.toNat - size.toNat) < m.2.length
      · simp only [if_pos hlarge, and_self]
      have hfits : m.2.length ≤ headerSize + (window outMax size).toNat := by
        rw [window_eq hsize]
        omega
      simp only [if_neg hlarge]
      by_cases hshort : m.2.length < headerSize
      · simp only [if_pos hshort]
        exact ⟨trivial, held_stored_apart (.inl (le_refl _)) mem⟩
      simp only [if_neg hshort]
      by_cases hforeign : cmd ||| respBit ≠ headerCmd m.2 &&& ~~~stopBit
      · simp only [if_pos hforeign]
        exact ⟨trivial, held_stored_apart (.inl (le_refl _)) mem⟩
      simp only [if_neg hforeign]
      rw [if_congr (stops_iff (Nat.not_lt.mp hshort)).symm rfl rfl]
      have hheld : held (stored mem (out + size.toNat) (m.2.drop headerSize)) out _ = _ := held_size_add hsize hfits mem
      cases hstop : stops m.2 with
      | true => exact ⟨rfl, hheld⟩
      | false =>
        simp only [Bool.false_eq_true, if_false]
        rw [← hheld]
        exact ih (size_add_le hsize hfits) hnext

end LiteKeymaster
