/-
What comes back to the client.

The TEE may answer anything: sizes beyond what was shared and values for
parameters that are inputs. Post-processing copies back only what fits in the
buffer the client named, only for outputs, and only from the shared block it
mapped or the shadow it registered, so an answer reaches nothing else.
-/
import Microtrust.Teec.Copies

namespace Teec

open Lib

/-- What slot `n` copies back for the answer `params`. -/
def copyBack (blocks : Addr → SharedMemory) (op : Operation) (shms : Nat → SharedMemory) (params : Nat → IoctlParam)
    (n : Nat) : List Copy :=
  let shm := op.parent blocks n
  let tmpref := (op.params n).tmpref
  let memref := (op.params n).memref
  let size := (params n).u₁
  match op.type n with
  | some .tempOutput | some .tempInout =>
    if size ≤ tmpref.size ∧ tmpref.buffer ≠ 0 then [⟨tmpref.buffer, (shms n).buffer, size.toNat⟩] else []
  | some .whole =>
    if shm.flags &&& memOutput ≠ 0 ∧ shm.shadowBuffer ≠ 0 ∧ size ≤ shm.size
    then [⟨shm.buffer, shm.shadowBuffer, size.toNat⟩] else []
  | some .partialOutput | some .partialInout =>
    if shm.shadowBuffer ≠ 0 ∧ size ≤ memref.size
    then [⟨shm.buffer + memref.offset.toNat, shm.shadowBuffer + memref.offset.toNat, size.toNat⟩] else []
  | _ => []

/-- Slot `n` as the client finds it. -/
def answered (blocks : Addr → SharedMemory) (op : Operation) (params : Nat → IoctlParam) (n : Nat) : Parameter :=
  let p := op.params n
  let size := (params n).u₁
  match op.type n with
  | some .valueOutput | some .valueInout => { p with value := ⟨(params n).u₀.toUInt32, (params n).u₁.toUInt32⟩ }
  | some .tempOutput | some .tempInout => { p with tmpref := { p.tmpref with size } }
  | some .whole =>
    if (op.parent blocks n).flags &&& memOutput = 0 then p else { p with memref := { p.memref with size } }
  | some .partialOutput | some .partialInout => { p with memref := { p.memref with size } }
  | _ => p

/-! ## The loop -/

section
variable {s : State} {op : Operation} {shms : Nat → SharedMemory} {params : Nat → IoctlParam} {k : Nat}
  {r : Operation × State}

/-- The slots below `k` are as the client will find them, the others as they were. -/
structure Returned (s : State) (op : Operation) (shms : Nat → SharedMemory) (params : Nat → IoctlParam) (k : Nat)
    (r : Operation × State) : Prop where
  types : r.1.paramTypes = op.paramTypes
  done : ∀ n < k, r.1.params n = answered s.blocks op params n
  rest : ∀ n, k ≤ n → r.1.params n = op.params n
  state : r.2 = s.withMem (Copy.runs ((List.range k).flatMap (copyBack s.blocks op shms params)) s.mem)

/-- One round for a slot that is as it was. -/
theorem postSlot_eq (hty : r.1.paramTypes = op.paramTypes) (hk : r.1.params k = op.params k)
    (hb : r.2.blocks = s.blocks) :
    (postProcessSlot params shms r k).1.paramTypes = op.paramTypes ∧
      (postProcessSlot params shms r k).1.params =
        Function.update r.1.params k (answered s.blocks op params k) ∧
      (postProcessSlot params shms r k).2 = r.2.withMem (Copy.runs (copyBack s.blocks op shms params k) r.2.mem) := by
  obtain ⟨op', s'⟩ := r
  have htype : op'.type k = op.type k := by
    simp only [Operation.type]
    rw [hty]
  have hparent : s'.blocks (op.params k).memref.parent = op.parent s.blocks k := by
    rw [hb, Operation.parent]
  dsimp only at hk hty
  cases h : op.type k with
  | none =>
    simp only [postProcessSlot, htype, h, answered, copyBack, ← hk, Function.update_eq_self]
    exact ⟨hty, trivial, rfl⟩
  | some ty =>
    cases ty <;> simp only [postProcessSlot, htype, h, answered, copyBack, hk]
    case none | valueInput =>
      simp only [← hk, Function.update_eq_self]
      exact ⟨hty, trivial, rfl⟩
    case valueOutput | valueInout => exact ⟨hty, trivial, rfl⟩
    case tempInput | partialInput =>
      exact ⟨hty, rfl, rfl⟩
    case tempOutput | tempInout =>
      simp only [teecPostProcessTmpref, reduceCtorEq, if_false]
      refine ⟨hty, trivial, ?_⟩
      split <;> rfl
    case whole =>
      simp only [teecPostProcessWhole, hparent]
      by_cases hf : (op.parent s.blocks k).flags &&& memOutput = 0
      · simp only [hf, if_true, ne_eq, not_true_eq_false, false_and, if_false]
        exact ⟨hty, trivial, rfl⟩
      · simp only [hf, if_false, ne_eq, not_false_eq_true, true_and]
        refine ⟨hty, ?_⟩
        split <;> rfl
    case partialOutput | partialInout =>
      simp only [teecPostProcessPartial, reduceCtorEq, if_false, hparent]
      refine ⟨hty, trivial, ?_⟩
      split <;> rfl

theorem Returned.step (h : Returned s op shms params k r) :
    Returned s op shms params (k + 1) (postProcessSlot params shms r k) := by
  have hb : r.2.blocks = s.blocks := by rw [h.state, withMem_blocks]
  obtain ⟨htypes, hparams, hstate⟩ := postSlot_eq h.types (h.rest k (le_refl k)) hb
  refine ⟨htypes, ?_, ?_, ?_⟩
  · intro n hn
    rw [hparams]
    by_cases hnk : n = k
    · rw [hnk, Function.update_self]
    · rw [Function.update_of_ne hnk]
      exact h.done n (by omega)
  · intro n hn
    rw [hparams, Function.update_of_ne (by omega)]
    exact h.rest n (by omega)
  · rw [hstate, h.state, List.range_succ, List.flatMap_append, Copy.runs_append]
    simp only [List.flatMap_singleton]
    rfl

theorem returned_foldl (k : Nat) :
    Returned s op shms params k ((List.range k).foldl (postProcessSlot params shms) (op, s)) := by
  induction k with
  | zero => exact ⟨rfl, fun n hn => absurd hn (by omega), fun _ _ => rfl, rfl⟩
  | succ k ih =>
    rw [List.range_succ, List.foldl_append]
    exact ih.step

end

/-! ## What a slot may touch -/

/-- The bytes of shared memory that stand behind a parameter: the block mapped
for a temporary reference, the shadow of a registered one. -/
def Operation.sharedSpan (op : Operation) (blocks : Addr → SharedMemory) (shms : Nat → SharedMemory) (n : Nat) :
    Set Addr :=
  if op.isTemp n then cells (shms n).buffer (shms n).allocedSize.toNat
  else cells (op.parent blocks n).shadowBuffer (op.parent blocks n).allocedSize.toNat

section
variable {blocks : Addr → SharedMemory} {op : Operation} {shms : Nat → SharedMemory} {params : Nat → IoctlParam}
  {n : Nat} {c : Copy}

/-- A copy back is for an output, and fits in the client's bytes. -/
theorem writes_of_mem_copyBack (h : c ∈ copyBack blocks op shms params n) :
    op.isOutput blocks n = true ∧ c.writes ⊆ op.span blocks n := by
  unfold copyBack at h
  dsimp only at h
  cases hty : op.type n with
  | none => simp [hty] at h
  | some ty =>
    cases ty <;> simp only [hty, List.not_mem_nil] at h
    all_goals
      split at h
      · next hc =>
        simp only [List.mem_singleton] at h
        subst h
        simp only [Operation.isOutput, Operation.span, hty, Copy.writes]
        simp only [UInt64.le_iff_toNat_le] at hc
        refine ⟨by simp [hc], cells_subset (le_refl _) (by omega)⟩
      · simp at h

/-- It reads no further than the block or the shadow goes. -/
theorem reads_of_mem_copyBack (h : c ∈ copyBack blocks op shms params n)
    (htemp : op.isTemp n = true → (op.params n).tmpref.size ≤ (shms n).allocedSize)
    (hin : op.isPartial n = true → op.inside blocks n)
    (hsize : op.isRegistered n = true → (op.parent blocks n).size ≤ (op.parent blocks n).allocedSize) :
    c.reads ⊆ op.sharedSpan blocks shms n := by
  unfold copyBack at h
  dsimp only at h
  cases hty : op.type n with
  | none => simp [hty] at h
  | some ty =>
    cases ty <;> simp only [hty, List.not_mem_nil] at h <;> split at h
    case tempOutput.isTrue hc | tempInout.isTrue hc =>
      simp only [List.mem_singleton] at h
      have ht : op.isTemp n = true := by simp [Operation.isTemp, hty]
      have hroom := htemp ht
      simp only [UInt64.le_iff_toNat_le] at hc hroom
      simp only [h, Copy.reads, Operation.sharedSpan, ht, if_true]
      exact cells_subset (le_refl _) (by omega)
    case whole.isTrue hc =>
      simp only [List.mem_singleton] at h
      have ht : op.isTemp n = false := by simp [Operation.isTemp, hty]
      have hroom := hsize (by simp [Operation.isRegistered, hty])
      simp only [UInt64.le_iff_toNat_le] at hc hroom
      simp only [h, Copy.reads, Operation.sharedSpan, ht, Bool.false_eq_true, if_false]
      exact cells_subset (le_refl _) (by omega)
    case partialOutput.isTrue hc | partialInout.isTrue hc =>
      simp only [List.mem_singleton] at h
      have ht : op.isTemp n = false := by simp [Operation.isTemp, hty]
      have hpart : op.isPartial n = true := by simp [Operation.isPartial, hty]
      have hroom := hsize (by simp [Operation.isRegistered, hpart])
      have hinside := hin hpart
      unfold Operation.inside at hinside
      simp only [UInt64.le_iff_toNat_le] at hc hroom
      simp only [h, Copy.reads, Operation.sharedSpan, ht, Bool.false_eq_true, if_false]
      exact cells_subset (by omega) (by omega)
    all_goals simp at h

end

/-! ## The answer of the TEE -/

/-- The process once the TEE answered: blocks and mappings are as they were,
the memory may be any. -/
structure Asked (p : Prep) (s : State) : Prop where
  blocks : s.blocks = p.st.blocks
  maps : s.maps = p.st.maps

/-- What the client finds after the answer `params`: copies were made for
outputs only, from the shared bytes of the slot to the client's; nothing else
changed; inputs are as they were, outputs have what was returned. -/
structure CopiedBack (s : State) (op : Operation) (shms : Nat → SharedMemory) (params : Nat → IoctlParam)
    (op' : Operation) (s' : State) : Prop where
  state : s' = s.withMem (Copy.runs ((List.range payloadRefCount).flatMap (copyBack s.blocks op shms params)) s.mem)
  mapped : ∀ n < payloadRefCount, op.isTemp n = true → ((shms n).buffer, (shms n).allocedSize) ∈ s.maps
  bounded : ∀ n < payloadRefCount, ∀ c ∈ copyBack s.blocks op shms params n,
    op.isOutput s.blocks n = true ∧ c.reads ⊆ op.sharedSpan s.blocks shms n ∧ c.writes ⊆ op.span s.blocks n
  framed : ∀ a, (∀ n < payloadRefCount, op.isOutput s.blocks n = true → a ∉ op.span s.blocks n) →
    s'.mem a = s.mem a
  kept : ∀ n, op.isOutput s.blocks n = false → op'.params n = op.params n
  values : ∀ n < payloadRefCount, op.type n = some .valueOutput ∨ op.type n = some .valueInout →
    (op'.params n).value = ⟨(params n).u₀.toUInt32, (params n).u₁.toUInt32⟩
  tmprefs : ∀ n < payloadRefCount, op.isTemp n = true → op.isOutput s.blocks n = true →
    (op'.params n).tmpref.size = (params n).u₁
  memrefs : ∀ n < payloadRefCount, op.isRegistered n = true → op.isOutput s.blocks n = true →
    (op'.params n).memref.size = (params n).u₁

section
variable {blocks : Addr → SharedMemory} {op : Operation} {n : Nat} (params : Nat → IoctlParam)

theorem answered_of_input (h : op.isOutput blocks n = false) : answered blocks op params n = op.params n := by
  unfold Operation.isOutput at h
  unfold answered
  cases hty : op.type n with
  | none => rfl
  | some ty => cases ty <;> simp [hty] at h <;> simp [h]

theorem answered_value (h : op.type n = some .valueOutput ∨ op.type n = some .valueInout) :
    (answered blocks op params n).value = ⟨(params n).u₀.toUInt32, (params n).u₁.toUInt32⟩ := by
  rcases h with h | h <;> simp only [answered, h]

theorem answered_tmpref (ht : op.isTemp n = true) (h : op.isOutput blocks n = true) :
    (answered blocks op params n).tmpref.size = (params n).u₁ := by
  unfold Operation.isTemp at ht
  unfold Operation.isOutput at h
  cases hty : op.type n with
  | none => simp [hty] at ht
  | some ty => cases ty <;> simp [hty] at ht h <;> simp [answered, hty]

theorem answered_memref (hr : op.isRegistered n = true) (h : op.isOutput blocks n = true) :
    (answered blocks op params n).memref.size = (params n).u₁ := by
  unfold Operation.isRegistered Operation.isPartial at hr
  unfold Operation.isOutput at h
  cases hty : op.type n with
  | none => simp [hty] at hr
  | some ty => cases ty <;> simp [hty] at hr h <;> simp [answered, hty, h]

end

/-- Whatever the TEE answers to an accepted operation whose parts of blocks lie
inside them, in blocks no larger than what was mapped for them, is copied back
within bounds and to outputs only. -/
theorem copy_back_framed {s s' : State} {ctx : Addr} {op : Operation} {p : Prep}
    (hpre : teecPreProcessOperation s ctx (some op) = (success, p))
    (hin : ∀ n < payloadRefCount, op.isPartial n = true → op.inside s.blocks n)
    (hsize : ∀ n < payloadRefCount, op.isRegistered n = true →
      (op.parent s.blocks n).size ≤ (op.parent s.blocks n).allocedSize)
    (hasked : Asked p s') (params : Nat → IoctlParam) :
    ∃ op' s'', teecPostProcessOperation s' (some op) params p.shms = (some op', s'') ∧
      CopiedBack s' op p.shms params op' s'' := by
  have hblocks : s'.blocks = s.blocks := hasked.blocks.trans (preProcess_same hpre).blocks
  obtain ⟨⟨op', s''⟩, hfold⟩ : ∃ r, (List.range payloadRefCount).foldl (postProcessSlot params p.shms) (op, s') = r :=
    ⟨_, rfl⟩
  have hr : Returned s' op p.shms params payloadRefCount (op', s'') := hfold ▸ returned_foldl payloadRefCount
  have hbounded : ∀ n < payloadRefCount, ∀ c ∈ copyBack s'.blocks op p.shms params n,
      c.reads ⊆ op.sharedSpan s'.blocks p.shms n := by
    intro n hn c hc
    rw [hblocks] at hc ⊢
    refine reads_of_mem_copyBack hc (fun ht => ?_) (hin n hn) (hsize n hn)
    rw [(temp_mapped hpre hn ht).2.2]
    exact le_mappedSize _
  refine ⟨op', s'', by simp only [teecPostProcessOperation, hfold], hr.state, ?_, ?_, ?_, ?_, ?_, ?_, ?_⟩
  · intro n hn ht
    rw [hasked.maps]
    exact (temp_mapped hpre hn ht).1
  · intro n hn c hc
    obtain ⟨hout, hwrites⟩ := writes_of_mem_copyBack hc
    exact ⟨hout, hbounded n hn c hc, hwrites⟩
  · intro a ha
    show (op', s'').2.mem a = _
    rw [hr.state]
    refine Copy.runs_of_notMem (fun c hc => ?_) s'.mem
    obtain ⟨n, hn, hcn⟩ := List.mem_flatMap.mp hc
    obtain ⟨hout, hwrites⟩ := writes_of_mem_copyBack hcn
    exact fun hw => ha n (List.mem_range.mp hn) hout (hwrites hw)
  · intro n hout
    by_cases hn : n < payloadRefCount
    · rw [hr.done n hn, answered_of_input params hout]
    · exact hr.rest n (by omega)
  · intro n hn hty
    rw [hr.done n hn]
    exact answered_value params hty
  · intro n hn ht hout
    rw [hr.done n hn]
    exact answered_tmpref params ht hout
  · intro n hn hreg hout
    rw [hr.done n hn]
    exact answered_memref params hreg hout

/-! A client with a buffer of 16 bytes registered for input and output, and an
operation with a parameter of each kind: a temporary buffer, the whole block, a
part of it, and a value. -/

def bufferBlock : SharedMemory × State :=
  (teecRegisterSharedMemory oneSession 0x10 { buffer := 0x500, size := 16, flags := memInput ||| memOutput }).2

def sharing : State := { bufferBlock.2 with blocks := Function.update bufferBlock.2.blocks 0x30 bufferBlock.1 }

def mixedOperation : Operation :=
  ⟨0x2fc6, fun _ => { tmpref := ⟨0x600, 8⟩, memref := ⟨0x30, 4, 12⟩ }, 0⟩

/-- An answer of which five bytes fit in the temporary buffer; the other sizes
are far beyond what was shared. -/
def mixedAnswer (n : Nat) : IoctlParam := { u₁ := if n = 0 then 5 else 0xffffffffffffffff }

theorem mixed_copied_back : ∃ p op' s'',
    teecPreProcessOperation sharing 0x10 (some mixedOperation) = (success, p) ∧
      ((List.range payloadRefCount).flatMap (copyBack p.st.blocks mixedOperation p.shms mixedAnswer)).length = 1 ∧
      CopiedBack p.st mixedOperation p.shms mixedAnswer op' s'' := by
  have hpre : teecPreProcessOperation sharing 0x10 (some mixedOperation) =
      (success, (teecPreProcessOperation sharing 0x10 (some mixedOperation)).2) := by rfl
  obtain ⟨op', s'', -, h⟩ := copy_back_framed hpre (by decide) (by decide) ⟨rfl, rfl⟩ mixedAnswer
  exact ⟨_, op', s'', hpre, by decide, h⟩

end Teec
