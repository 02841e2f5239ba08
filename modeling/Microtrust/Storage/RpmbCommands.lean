/-
From an RPMB request to the commands of one MMC `ioctl`.

The request names three sizes and carries the data of the two writes. Its
length is checked against the sizes, in `size_t`. With 64 bits the sum cannot
wrap, and the commands then carry exactly the data of the request; with 32 bits
it can, and the commands (and the dumps of the data that precede them) reach
past the request.
-/
import Microtrust.Storage.Offsets
import Microtrust.Storage.Stale

namespace Storage

open Lib

/-! ## The sizes -/

def relSize (payload : Bytes) : Nat := leAt payload 0 4
def writeSize (payload : Bytes) : Nat := leAt payload 4 4
def rpmbReadSize (payload : Bytes) : Nat := leAt payload 8 4

/-- `expected_len`, before it is cut to a `size_t`. -/
def fullLength (payload : Bytes) : Nat := 16 + relSize payload + writeSize payload

/-- The tests of the length in `rpmb_send`. -/
def PassesLength (abi : Abi) (payload : Bytes) : Prop :=
  16 ≤ payload.length ∧ payload.length = fullLength payload % 2 ^ abi.sizeBits

instance (abi : Abi) (payload : Bytes) : Decidable (PassesLength abi payload) := inferInstanceAs (Decidable (_ ∧ _))

section Send

variable {w w' : World} {msg : Msg} {payload rest : Bytes} {rc : Int}

/-- What `rpmb_send` does, by its tests. -/
theorem rpmbSend_sends (h : rpmbSend w msg (payload ++ 0 :: rest) payload.length = (rc, w')) :
    (Refused w msg .notValid w' ∧ w'.mmc = w.mmc ∧ (PassesLength w.abi payload →
        mmcCmds (payload ++ 0 :: rest) (relSize payload) (writeSize payload) (rpmbReadSize payload) = none)) ∨
      PassesLength w.abi payload ∧ ∃ cmds e out,
        mmcCmds (payload ++ 0 :: rest) (relSize payload) (writeSize payload) (rpmbReadSize payload) = some cmds ∧
        w'.mmc = w.mmc ++ [cmds] ∧ Answers w msg e out w.st.marks w.kern w' ∧
        (e = .generic ∧ out = none ∨ e = .noError ∧ ∃ bs, out = some bs ∧ bs.length = rpmbReadSize payload) := by
  unfold rpmbSend at h
  split at h
  · next hlen =>
    have hmmc := congrArg (fun x => x.2.mmc) h
    exact .inl ⟨refused h, hmmc.symm, fun hp => absurd hp.1 (by omega)⟩
  next hlen =>
  rw [leAt_append (by omega), leAt_append (by omega), leAt_append (by omega)] at h
  dsimp only at h
  split at h
  · next hne =>
    have hmmc := congrArg (fun x => x.2.mmc) h
    exact .inl ⟨refused h, hmmc.symm, fun hp => absurd hp.2 hne⟩
  next heq =>
  have hpass : PassesLength w.abi payload := ⟨by omega, not_not.mp heq⟩
  split at h
  · next hnone =>
    have hmmc := congrArg (fun x => x.2.mmc) h
    exact .inl ⟨refused h, hmmc.symm, fun _ => hnone⟩
  next cmds hcmds =>
  refine .inr ⟨hpass, cmds, ?_⟩
  split at h
  · have hmmc := congrArg (fun x => x.2.mmc) h
    exact ⟨_, _, hcmds, hmmc.symm, respond_answers h ⟨rfl, rfl, rfl, rfl⟩ rfl rfl, .inl ⟨rfl, rfl⟩⟩
  · have hmmc := congrArg (fun x => x.2.mmc) h
    refine ⟨_, _, hcmds, hmmc.symm, respond_answers h ⟨rfl, rfl, rfl, rfl⟩ rfl rfl, .inr ⟨rfl, _, rfl, ?_⟩⟩
    rw [take_filled]
    simp [rpmbReadSize]

end Send

/-! ## The commands -/

/-- The bytes of the request a write command takes: where they start, and how
many there are. -/
def MmcCmd.range (c : MmcCmd) : Option (Nat × Nat) := c.src.map fun src => (src, c.blocks * c.blksz)

/-- The commands carry out the request: one for each size that is not zero, in
order, and the writes take the two parts of the data after one another. -/
structure Translated (payload : Bytes) (cmds : List MmcCmd) : Prop where
  length : payload.length = fullLength payload
  whole : relSize payload % mmcBlockSize = 0 ∧ writeSize payload % mmcBlockSize = 0 ∧
    rpmbReadSize payload % mmcBlockSize = 0
  fits : rpmbReadSize payload ≤ maxReadSize
  kinds : cmds.map (fun c => (c.writeFlag, c.opcode, c.blocks * mmcBlockSize)) =
    [(mmcWriteFlagRelW, mmcWriteMultipleBlock, relSize payload),
      (mmcWriteFlagW, mmcWriteMultipleBlock, writeSize payload),
      (mmcWriteFlagR, mmcReadMultipleBlock, rpmbReadSize payload)].filter (·.2.2 ≠ 0)
  blksz : ∀ c ∈ cmds, c.blksz = mmcBlockSize
  ranges : cmds.filterMap MmcCmd.range =
    [(16, relSize payload), (16 + relSize payload, writeSize payload)].filter (·.2 ≠ 0)
  data : (cmds.map MmcCmd.data).flatten = payload.drop 16

theorem mmcCmds_some {r : Bytes} {rel wr rd : Nat} {cmds : List MmcCmd} (h : mmcCmds r rel wr rd = some cmds) :
    (rel % mmcBlockSize = 0 ∧ wr % mmcBlockSize = 0 ∧ rd % mmcBlockSize = 0 ∧ rd ≤ maxReadSize) ∧
      cmds = (if rel = 0 then [] else [mmcWrite mmcWriteFlagRelW r 16 rel]) ++
        (if wr = 0 then [] else [mmcWrite mmcWriteFlagW r (16 + rel) wr]) ++
        (if rd = 0 then [] else [mmcReadCmd rd]) := by
  unfold mmcCmds at h
  split at h
  · cases h
  · next hok =>
    simp only [not_or, not_not, Nat.not_lt] at hok
    exact ⟨hok, (Option.some.inj h).symm⟩

/-- The data of a write that is left out when it is empty. -/
theorem mmcWrite_data (flag : UInt32) (r : Bytes) (src size : Nat) :
    ((if size = 0 then [] else [mmcWrite flag r src size]).map MmcCmd.data).flatten = (r.drop src).take size := by
  split
  · next h => simp [h]
  · simp [mmcWrite]

/-- Commands made of a request that is as long as its sizes say. -/
theorem mmcCmds_translated {payload rest : Bytes} {cmds : List MmcCmd} (hlen : payload.length = fullLength payload)
    (h : mmcCmds (payload ++ 0 :: rest) (relSize payload) (writeSize payload) (rpmbReadSize payload) = some cmds) :
    Translated payload cmds := by
  have hsum : payload.length = 16 + relSize payload + writeSize payload := hlen
  rw [mmcCmds_rest _ (by omega)] at h
  obtain ⟨⟨hrel, hwr, hrd, hmax⟩, hcmds⟩ := mmcCmds_some h
  have hblocks {n : Nat} (hn : n % mmcBlockSize = 0) : n / mmcBlockSize * mmcBlockSize = n :=
    Nat.div_mul_cancel (Nat.dvd_of_mod_eq_zero hn)
  refine ⟨hlen, ⟨hrel, hwr, hrd⟩, hmax, ?_, ?_, ?_, ?_⟩
  · by_cases h₁ : relSize payload = 0 <;> by_cases h₂ : writeSize payload = 0 <;>
      by_cases h₃ : rpmbReadSize payload = 0 <;>
      simp [hcmds, h₁, h₂, h₃, mmcWrite, mmcReadCmd, hblocks hrel, hblocks hwr, hblocks hrd]
  · by_cases h₁ : relSize payload = 0 <;> by_cases h₂ : writeSize payload = 0 <;>
      by_cases h₃ : rpmbReadSize payload = 0 <;>
      simp [hcmds, h₁, h₂, h₃, mmcWrite, mmcReadCmd]
  · by_cases h₁ : relSize payload = 0 <;> by_cases h₂ : writeSize payload = 0 <;>
      by_cases h₃ : rpmbReadSize payload = 0 <;>
      simp [hcmds, h₁, h₂, h₃, mmcWrite, mmcReadCmd, MmcCmd.range, hblocks hrel, hblocks hwr]
  · -- the two parts of the data, put together again
    have hread : ((if rpmbReadSize payload = 0 then [] else [mmcReadCmd (rpmbReadSize payload)]).map
        MmcCmd.data).flatten = [] := by
      split <;> simp [mmcReadCmd]
    rw [hcmds, List.map_append, List.map_append, List.flatten_append, List.flatten_append, mmcWrite_data,
      mmcWrite_data, hread, List.append_nil, ← List.drop_drop, ← List.take_add,
      List.drop_append_of_le_length (by omega), List.take_left' (by simp; omega)]

/-- **With a 64-bit `size_t`, an RPMB request is refused before any `ioctl`, or
one `ioctl` carries exactly what the request says**; if it succeeds, as many
bytes are returned as the request asks to read. -/
theorem rpmbSend_translates {w : World} (h64 : w.abi.sizeBits = 64) (msg : Msg) (payload rest : Bytes) :
    (Answers w msg .notValid none w.st.marks w.kern (rpmbSend w msg (payload ++ 0 :: rest) payload.length).2 ∧
        (rpmbSend w msg (payload ++ 0 :: rest) payload.length).2.mmc = w.mmc) ∨
      ∃ cmds e out, Translated payload cmds ∧
        (rpmbSend w msg (payload ++ 0 :: rest) payload.length).2.mmc = w.mmc ++ [cmds] ∧
        Answers w msg e out w.st.marks w.kern (rpmbSend w msg (payload ++ 0 :: rest) payload.length).2 ∧
        (e = .generic ∧ out = none ∨ e = .noError ∧ ∃ bs, out = some bs ∧ bs.length = rpmbReadSize payload) := by
  rcases rpmbSend_sends (Prod.mk.eta (p := rpmbSend w msg (payload ++ 0 :: rest) payload.length)).symm with
    ⟨ha, hmmc, _⟩ | ⟨hpass, cmds, e, out, hcmds, hmmc, ha, hout⟩
  · exact .inl ⟨ha, hmmc⟩
  · -- the sum of two 32-bit sizes does not wrap in 64 bits
    have hlen : payload.length = fullLength payload := by
      have hrel : relSize payload < 256 ^ 4 := leAt_lt payload 0 4
      have hwr : writeSize payload < 256 ^ 4 := leAt_lt payload 4 4
      rw [hpass.2, h64, Nat.mod_eq_of_lt]
      unfold fullLength
      omega
    exact .inr ⟨cmds, e, out, mmcCmds_translated hlen hcmds, hmmc, ha, hout⟩

/-- A reliable write of one block, a write of another, and a read of one. -/
def threeBlocks : Bytes :=
  leBytes 4 512 ++ leBytes 4 512 ++ leBytes 4 512 ++ [0, 0, 0, 0] ++ List.replicate 512 1 ++ List.replicate 512 2

theorem threeBlocks_length : threeBlocks.length = 1040 := by
  simp only [threeBlocks, List.length_append, length_leBytes, List.length_replicate, List.length_cons, List.length_nil]

def rpmbMsg : Msg := ⟨Cmd.rpmbSend.code, 0, 0, 0, 0, 0⟩

theorem rpmbSend_translates_three :
    ∃ cmds, (rpmbSend dataStarted rpmbMsg (threeBlocks ++ [0]) threeBlocks.length).2.mmc = [cmds] ∧
      cmds.length = 3 ∧ Translated threeBlocks cmds := by
  have hsends : (rpmbSend dataStarted rpmbMsg (threeBlocks ++ [0]) threeBlocks.length).2.mmc.length = 1 := by
    rcases rpmbSend_sends (Prod.mk.eta.symm :
        rpmbSend dataStarted rpmbMsg (threeBlocks ++ 0 :: []) threeBlocks.length = _) with
      ⟨_, _, hno⟩ | ⟨_, cmds, _, _, _, hmmc, _⟩
    · have hpass : PassesLength dataStarted.abi threeBlocks := by
        rw [PassesLength, threeBlocks_length]
        decide
      exact absurd (hno hpass) (by decide)
    · rw [hmmc]
      rfl
  rcases rpmbSend_translates (w := dataStarted) rfl rpmbMsg threeBlocks [] with ⟨_, hno⟩ | ⟨cmds, _, _, htrans, hmmc, _⟩
  · rw [hno] at hsends
    exact absurd hsends (by decide)
  · refine ⟨cmds, hmmc, ?_, htrans⟩
    rw [← List.length_map (f := fun c => (c.writeFlag, c.opcode, c.blocks * mmcBlockSize)), htrans.kinds]
    decide

/-! ## Inside the request -/

/-- Everything `rpmb_send` takes from a request of this length lies in it: the
two parts of the data, what the commands write, and what is printed. -/
structure Contained (w : World) (msg : Msg) (payload rest : Bytes) : Prop where
  regions : PassesLength w.abi payload →
    16 + relSize payload ≤ payload.length ∧ 16 + relSize payload + writeSize payload ≤ payload.length
  commands : ∀ cmds ∈ (rpmbSend w msg (payload ++ 0 :: rest) payload.length).2.mmc.drop w.mmc.length,
    ∀ c ∈ cmds, ∀ x, c.range = some x → x.1 + x.2 ≤ payload.length
  dumps : ∀ x ∈ rpmbDumps w.abi (payload ++ 0 :: rest) payload.length, x.1 + x.2 ≤ payload.length

theorem mem_rpmbDumps {abi : Abi} {payload rest : Bytes} {x : Nat × Nat}
    (h : x ∈ rpmbDumps abi (payload ++ 0 :: rest) payload.length) :
    PassesLength abi payload ∧ (x = (16, relSize payload) ∨ x = (16 + relSize payload, writeSize payload)) := by
  unfold rpmbDumps at h
  split at h
  · simp at h
  next hlen =>
  rw [leAt_append (by omega), leAt_append (by omega)] at h
  split at h
  · simp at h
  next heq =>
  refine ⟨⟨by omega, not_not.mp heq⟩, ?_⟩
  unfold requestDumps at h
  split at h
  · simp at h
  · rcases List.mem_append.mp h with h | h
    · split at h
      · simp at h
      · exact .inl (List.mem_singleton.mp h)
    · split at h
      · simp at h
      · exact .inr (List.mem_singleton.mp h)

/-- **A request stays inside itself exactly when its full length does not wrap
in `size_t`, or it fails the test of its length.** -/
theorem rpmb_contained_iff (w : World) (msg : Msg) (payload rest : Bytes) :
    Contained w msg payload rest ↔ ¬ (PassesLength w.abi payload ∧ 2 ^ w.abi.sizeBits ≤ fullLength payload) := by
  constructor
  · rintro hin ⟨hpass, hwrap⟩
    have hlen := (hin.regions hpass).2
    have hmod := Nat.mod_lt (fullLength payload) (Nat.two_pow_pos w.abi.sizeBits)
    rw [← hpass.2] at hmod
    unfold fullLength at hwrap
    omega
  · intro hno
    have hlen (hpass : PassesLength w.abi payload) : payload.length = fullLength payload := by
      have hlt : fullLength payload < 2 ^ w.abi.sizeBits := Nat.not_le.mp fun hle => hno ⟨hpass, hle⟩
      rw [hpass.2, Nat.mod_eq_of_lt hlt]
    have hsum (hpass : PassesLength w.abi payload) :
        16 + relSize payload + writeSize payload ≤ payload.length := (hlen hpass).ge
    refine ⟨fun hpass => ⟨by have := hsum hpass; omega, hsum hpass⟩, ?_, fun x hx => ?_⟩
    · intro cmds hmem c hc x hx
      rcases rpmbSend_sends (Prod.mk.eta (p := rpmbSend w msg (payload ++ 0 :: rest) payload.length)).symm with
        ⟨_, hmmc, _⟩ | ⟨hpass, cmds', _, _, hcmds, hmmc, _⟩
      · simp [hmmc] at hmem
      · rw [hmmc, List.drop_left, List.mem_singleton] at hmem
        subst hmem
        have hranges := (mmcCmds_translated (hlen hpass) hcmds).ranges
        have hmem : x ∈ cmds.filterMap MmcCmd.range := List.mem_filterMap.mpr ⟨c, hc, hx⟩
        have hsum := hsum hpass
        rw [hranges, List.mem_filter, List.mem_pair] at hmem
        rcases hmem.1 with rfl | rfl
        · dsimp only
          omega
        · exact hsum
    · obtain ⟨hpass, rfl | rfl⟩ := mem_rpmbDumps hx
      · have := hsum hpass
        dsimp only
        omega
      · exact hsum hpass

/-! A 32-bit proxy with an RPMB device is asked for two writes of 2 GiB in a
request that holds nothing but the sizes. -/

def narrowRpmb : World :=
  (start { dataOnly with rpmbDev := some [47, 116], abi := ⟨32, 32⟩ } calm (fun _ => []) bench).get (by decide)

def halfAndHalf : Bytes := [0, 0, 0, 128, 0, 0, 0, 128, 0, 0, 0, 0, 0, 0, 0, 0]

/-- The request passes, and one of the commands that are sent starts where the
request ends. The dump of the first write comes before the `ioctl` and walks past
the request as well: the process may fault there before it comes to the `ioctl`,
where the model goes on. -/
theorem rpmb_length_wraps :
    halfAndHalf.length ≤ reqBufferSize ∧ PassesLength narrowRpmb.abi halfAndHalf ∧
      answered narrowRpmb (serve narrowRpmb (request .rpmbSend 0 halfAndHalf (by decide))).2 .noError = true ∧
      (serve narrowRpmb (request .rpmbSend 0 halfAndHalf (by decide))).2.mmc.map (List.map MmcCmd.range) =
        [[some (16, 2 ^ 31), some (16 + 2 ^ 31, 2 ^ 31)]] ∧
      ∀ msg rest, ¬ Contained narrowRpmb msg halfAndHalf rest := by
  refine ⟨by decide, by decide, by decide, by decide, fun msg rest hin => ?_⟩
  have hout := (hin.regions (by decide)).2
  revert hout
  decide

end Storage
