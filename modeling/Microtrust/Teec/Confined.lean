/-
References to a part of a block, and whether they stay inside it.

Pre-processing checks the flags of the parent and nothing else: neither offset
nor size is compared with the size of the block. A part that lies outside, or
whose end wraps, is accepted as any other; its bytes are copied from beyond the
client's buffer to beyond the shadow, and the TEE is told the same range.
-/
import Microtrust.Teec.CopyBack

namespace Teec

open Lib

/-! ## What is returned for an operation that is not accepted -/

/-- The operation is refused for what it says: its types are no types, a parent
does not have the flags, or there is no context. -/
def refusedArgs (s : State) (ctx : Addr) (op : Operation) : Prop :=
  ¬ op.paramTypes ≤ 0xffff ∨
    ∃ k < payloadRefCount, reached s ctx op k ∧ passes s ctx op k = false ∧ ¬ (op.isTemp k = true ∧ ctx ≠ 0)

section
variable {s : State} {ctx : Addr} {op : Operation} {k : Nat} {p : Prep}

theorem tmpref_res {ty : ParamType} {flags : UInt32} {attr : UInt64} (hkind : tempKind ty = some (flags, attr))
    (hfail : ¬ (ctx ≠ 0 ∧ (mapAt s ctx s.allocs).isSome)) (tmpref : TempMemoryReference) (param : IoctlParam) :
    (teecPreProcessTmpref s ctx ty tmpref param {}).1 = if ctx ≠ 0 then errorOutOfMemory else errorBadParameters := by
  have hflags := tempKind_flags hkind
  have hres : (teecAllocateSharedMemory s ctx { flags, size := tmpref.size }).1 =
      if ctx ≠ 0 then errorOutOfMemory else errorBadParameters := by
    by_cases hc : ctx ≠ 0
    · have hm : mapAt s ctx s.allocs = none := by simpa [hc] using hfail
      have haccepts : Origin.accepts .allocated ctx { flags, size := tmpref.size } := ⟨hc, hflags, by simp⟩
      obtain ⟨shm', -, hget⟩ := get_unmapped haccepts hm
      rw [if_pos hc]
      exact congrArg Prod.fst hget
    · rw [if_neg hc]
      have hrefused : ¬ Origin.accepts .allocated ctx { flags, size := tmpref.size } := fun h => hc h.1
      exact congrArg Prod.fst (get_refused hrefused)
  have hne : (if ctx ≠ 0 then errorOutOfMemory else errorBadParameters) ≠ success := by
    split <;> decide
  simp only [teecPreProcessTmpref, hkind, hres, hne, if_true, ne_eq, not_false_eq_true]

/-- A slot that stops pre-processing is out of memory if it is a temporary
reference of a context, and else has bad parameters. -/
theorem slot_res (hz : p.shms k = {}) (hr : Ready s op k p) (hfail : passes s ctx op k = false) :
    (preProcessSlot ctx op k p).1 =
      if op.isTemp k = true ∧ ctx ≠ 0 then errorOutOfMemory else errorBadParameters := by
  have hblocks := hr.same.blocks
  cases hty : op.type k with
  | none => simp [preProcessSlot, hty, Operation.isTemp]
  | some ty =>
    cases hkind : tempKind ty with
    | some fa =>
      have hno : ¬ (ctx ≠ 0 ∧ (mapAt p.st ctx p.st.allocs).isSome) := by
        rw [hr.mapAt, ← passes_temp_iff hty hkind, hfail]
        exact Bool.false_ne_true
      rw [tempSlot_eq hty hkind, hz]
      dsimp only
      rw [tmpref_res hkind hno]
      simp [isTemp_of_tempKind hty hkind]
    | none =>
      cases ty <;> simp only [tempKind, reduceCtorEq] at hkind <;>
        simp only [passes, hty, decide_eq_false_iff_not, reduceCtorEq, decide_not, Bool.not_eq_false',
          decide_eq_true_eq] at hfail
      case whole =>
        simp [preProcessSlot, hty, teecPreProcessWhole, hblocks, hfail, Operation.isTemp]
      all_goals
        simp [preProcessSlot, hty, teecPreProcessPartial, partialKind, hblocks, hfail, Operation.isTemp]

end

/-- The operation is refused as having bad parameters if and only if it is so for
what it says. -/
theorem preProcess_bad (s : State) (ctx : Addr) (op : Operation) :
    (teecPreProcessOperation s ctx (some op)).1 = errorBadParameters ↔ refusedArgs s ctx op := by
  rcases preProcess_cases s ctx op with ⟨hstop, heq⟩ | ⟨hk, heq⟩
  · rw [heq]
    refine ⟨fun _ => .inl fun hle => hstop ⟨hle, fun j hj => absurd hj (by omega)⟩, fun _ => rfl⟩
  · have hloop := slots_rule (Q := fun k n _ r => r.1 = errorBadParameters ↔ ∃ j < k + n, k ≤ j ∧
      reached s ctx op j ∧ passes s ctx op j = false ∧ ¬ (op.isTemp j = true ∧ ctx ≠ 0)) ?_ ?_ ?_ payloadRefCount 0 _
      (ledger_start s ctx op) (ready_start s op) hk
    · rw [heq, hloop, refusedArgs]
      simp [hk.1]
    · intro k p _ _
      constructor
      · intro h
        cases (h : success = errorBadParameters)
      · rintro ⟨j, hj, hkj, -⟩
        omega
    · intro k n p res p' hl hr hk hslot _ _ hstop
      have hfail : passes s ctx op k = false := Bool.eq_false_iff.mpr fun h => hstop (reached_succ.mpr ⟨hk, h⟩)
      have hres := slot_res (hl.rest k (le_refl k)) hr hfail
      rw [hslot] at hres
      dsimp only at hres ⊢
      rw [hres]
      constructor
      · intro h
        refine ⟨k, by omega, le_refl k, hk, hfail, fun hargs => ?_⟩
        rw [if_pos hargs] at h
        cases h
      · rintro ⟨j, hj, hkj, hreach, -, hargs⟩
        -- no slot beyond one that stops is reached
        have hjk : j = k := by
          by_contra hne
          exact hstop ⟨hreach.1, fun i hi => hreach.2 i (by omega)⟩
        rw [hjk] at hargs
        exact if_neg hargs
    · intro k n p p' r _ _ _ _ _ hnext hq
      rw [hq]
      constructor
      · rintro ⟨j, hj, hkj, hrest⟩
        exact ⟨j, by omega, by omega, hrest⟩
      · rintro ⟨j, hj, hkj, hreach, hfail, hargs⟩
        refine ⟨j, by omega, ?_, hreach, hfail, hargs⟩
        -- slot `k` itself passes
        rcases Nat.eq_or_lt_of_le hkj with rfl | hlt
        · rw [(reached_succ.mp hnext).2] at hfail
          cases hfail
        · exact hlt

/-! ## The range the TEE is told -/

section
variable {s : State} {ctx : Addr} {op : Operation} {k : Nat} {p p' : Prep}

theorem prePartial_param {ty : ParamType} {req : UInt32} {attr : UInt64} {memref : RegisteredMemoryReference}
    {param : IoctlParam} (hkind : partialKind ty = some (req, attr))
    (h : (teecPreProcessPartial s ty memref param).1 = success) :
    (teecPreProcessPartial s ty memref param).2.1.u₀ = memref.offset ∧
      (teecPreProcessPartial s ty memref param).2.1.u₁ = memref.size := by
  simp only [teecPreProcessPartial, hkind] at h ⊢
  split at h
  next hf => cases (h : errorBadParameters = success)
  next hf =>
    rw [if_neg hf]
    exact ⟨rfl, rfl⟩

/-- A round sets the parameter of its slot only. -/
theorem slot_params (h : preProcessSlot ctx op k p = (success, p')) :
    (∀ n, n ≠ k → p'.params n = p.params n) ∧
      (op.isPartial k = true → (p'.params k).u₀ = (op.params k).memref.offset ∧
        (p'.params k).u₁ = (op.params k).memref.size) := by
  cases hty : op.type k with
  | none =>
    simp only [preProcessSlot, hty] at h
    cases h
  | some ty =>
    cases hkind : partialKind ty with
    | some ra =>
      rw [partialSlot_eq hty hkind] at h
      obtain ⟨hres, rfl⟩ := Prod.mk.inj h
      refine ⟨fun n hn => Function.update_of_ne hn _ _, fun _ => ?_⟩
      simp only [Prep.setParam, Function.update_self]
      exact prePartial_param hkind hres
    | none =>
      have hn : op.isPartial k = false := by
        cases ty <;> simp [partialKind] at hkind <;> simp [Operation.isPartial, hty]
      refine ⟨fun n hnk => ?_, fun hp => by simp [hn] at hp⟩
      cases ty <;> simp only [partialKind, reduceCtorEq] at hkind <;> simp only [preProcessSlot, hty] at h <;>
        obtain ⟨-, rfl⟩ := Prod.mk.inj h <;> exact Function.update_of_ne hnk _ _

theorem partial_params (h : teecPreProcessOperation s ctx (some op) = (success, p)) {n : Nat}
    (hn : n < payloadRefCount) (hp : op.isPartial n = true) :
    (p.params n).u₀ = (op.params n).memref.offset ∧ (p.params n).u₁ = (op.params n).memref.size := by
  refine preProcess_invariant (fun k q => ∀ n < k, op.isPartial n = true →
    (q.params n).u₀ = (op.params n).memref.offset ∧ (q.params n).u₁ = (op.params n).memref.size)
    (fun n hn => absurd hn (by omega)) ?_ h n hn hp
  intro k q q' _ _ hi hslot n hn hp
  obtain ⟨hother, hnew⟩ := slot_params hslot
  by_cases hnk : n = k
  · subst hnk
    exact hnew hp
  · rw [hother n hnk]
    exact hi n (by omega) hp

end

/-! ## Confinement -/

namespace Operation

/-- The client's bytes of the parent, and those of its shadow. -/
def clientBlock (op : Operation) (blocks : Addr → SharedMemory) (n : Nat) : Set Addr :=
  cells (op.parent blocks n).buffer (op.parent blocks n).size.toNat

def shadowBlock (op : Operation) (blocks : Addr → SharedMemory) (n : Nat) : Set Addr :=
  cells (op.parent blocks n).shadowBuffer (op.parent blocks n).size.toNat

end Operation

/-- A reference to a part of a block is accepted only if the part lies inside, and
then nothing is copied beyond the block or told the TEE of what is beyond it;
one outside is refused as a bad parameter, and nothing is copied for it. The
memory changes by what is copied for the slots, and by nothing else. -/
structure Confined (s : State) (ctx : Addr) (op : Operation) : Prop where
  memory : (teecPreProcessOperation s ctx (some op)).2.st.mem =
    Copy.runs ((List.range payloadRefCount).flatMap (copied s ctx op)) s.mem
  inside : ∀ p, teecPreProcessOperation s ctx (some op) = (success, p) → ∀ n < payloadRefCount,
    op.isPartial n = true → op.inside s.blocks n
  copiedIn : ∀ p, teecPreProcessOperation s ctx (some op) = (success, p) → ∀ n < payloadRefCount,
    op.isPartial n = true → ∀ c ∈ copied s ctx op n,
      c.reads ⊆ op.clientBlock s.blocks n ∧ c.writes ⊆ op.shadowBlock s.blocks n
  sent : ∀ p, teecPreProcessOperation s ctx (some op) = (success, p) → ∀ n < payloadRefCount,
    op.isPartial n = true → (p.params n).u₀.toNat + (p.params n).u₁.toNat ≤ (op.parent s.blocks n).size.toNat
  copiedBack : ∀ p, teecPreProcessOperation s ctx (some op) = (success, p) → ∀ n < payloadRefCount,
    op.isPartial n = true → ∀ params, ∀ c ∈ copyBack s.blocks op p.shms params n,
      c.reads ⊆ op.shadowBlock s.blocks n ∧ c.writes ⊆ op.clientBlock s.blocks n
  refused : ∀ n < payloadRefCount, op.isPartial n = true → ¬ op.inside s.blocks n →
    (teecPreProcessOperation s ctx (some op)).1 = errorBadParameters ∧ ∀ c ∈ copied s ctx op n, c.len = 0

/-- Nothing is copied for the part even if its slot passes. -/
def Operation.copiesNothing (op : Operation) (blocks : Addr → SharedMemory) (n : Nat) : Prop :=
  (op.parent blocks n).shadowBuffer = 0 ∨ op.type n = some .partialOutput ∨ (op.params n).memref.size = 0

section
variable {s : State} {ctx : Addr} {op : Operation} {n : Nat}

theorem copyIn_confined (hp : op.isPartial n = true) (h : op.inside s.blocks n) {c : Copy}
    (hc : c ∈ copyIn s ctx op n) :
    c.reads ⊆ op.clientBlock s.blocks n ∧ c.writes ⊆ op.shadowBlock s.blocks n := by
  unfold Operation.inside at h
  unfold Operation.isPartial at hp
  unfold copyIn at hc
  dsimp only at hc
  cases hty : op.type n with
  | none => simp [hty] at hc
  | some ty =>
    cases ty <;> simp only [hty, List.not_mem_nil, Bool.false_eq_true] at hc hp
    all_goals
      split at hc
      · simp only [List.mem_singleton] at hc
        subst hc
        exact ⟨cells_subset (Nat.le_add_right _ _) (by dsimp only; omega),
          cells_subset (Nat.le_add_right _ _) (by dsimp only; omega)⟩
      · simp at hc

theorem copyBack_confined {shms : Nat → SharedMemory} {params : Nat → IoctlParam} (hp : op.isPartial n = true)
    (h : op.inside s.blocks n) {c : Copy} (hc : c ∈ copyBack s.blocks op shms params n) :
    c.reads ⊆ op.shadowBlock s.blocks n ∧ c.writes ⊆ op.clientBlock s.blocks n := by
  unfold Operation.inside at h
  unfold Operation.isPartial at hp
  unfold copyBack at hc
  dsimp only at hc
  cases hty : op.type n with
  | none => simp [hty] at hc
  | some ty =>
    cases ty <;> simp only [hty, List.not_mem_nil, Bool.false_eq_true] at hc hp
    all_goals
      split at hc
      · next hsize =>
        simp only [UInt64.le_iff_toNat_le] at hsize
        simp only [List.mem_singleton] at hc
        subst hc
        exact ⟨cells_subset (Nat.le_add_right _ _) (by dsimp only; omega),
          cells_subset (Nat.le_add_right _ _) (by dsimp only; omega)⟩
      · simp at hc

theorem copiesNothing_iff (hp : op.isPartial n = true) :
    (∀ c ∈ copyIn s ctx op n, c.len = 0) ↔ op.copiesNothing s.blocks n := by
  unfold Operation.isPartial at hp
  unfold copyIn Operation.copiesNothing
  dsimp only
  have hzero : (op.params n).memref.size.toNat = 0 ↔ (op.params n).memref.size = 0 := by
    rw [← UInt64.toNat_inj]
    rfl
  cases hty : op.type n with
  | none => simp [hty] at hp
  | some ty =>
    cases ty <;> simp only [hty, Bool.false_eq_true] at hp
    case partialOutput => simp
    all_goals
      by_cases hs : (op.parent s.blocks n).shadowBuffer = 0
      · simp [hs]
      · simp [hs, hzero]

end

/-- **Parts are confined to their blocks exactly when each lies inside, or the
operation is refused for what it says and nothing was copied for the part
before that.** -/
theorem confined_iff (s : State) (ctx : Addr) (op : Operation) :
    Confined s ctx op ↔ ∀ n < payloadRefCount, op.isPartial n = true →
      op.inside s.blocks n ∨
        refusedArgs s ctx op ∧ (reached s ctx op (n + 1) → op.copiesNothing s.blocks n) := by
  constructor
  · intro h n hn hp
    by_cases hin : op.inside s.blocks n
    · exact .inl hin
    · obtain ⟨hres, hcopied⟩ := h.refused n hn hp hin
      refine .inr ⟨(preProcess_bad s ctx op).mp hres, fun hr => ?_⟩
      rw [copied, if_pos hr] at hcopied
      exact (copiesNothing_iff hp).mp hcopied
  · intro h
    -- an accepted operation was not refused, so every part lies inside
    have hinside : ∀ p, teecPreProcessOperation s ctx (some op) = (success, p) → ∀ n < payloadRefCount,
        op.isPartial n = true → op.inside s.blocks n := by
      intro p hpre n hn hp
      rcases h n hn hp with hin | ⟨hargs, -⟩
      · exact hin
      · have hbad := (preProcess_bad s ctx op).mpr hargs
        rw [hpre] at hbad
        cases (hbad : success = errorBadParameters)
    refine ⟨preProcess_mem s ctx op, hinside, ?_, ?_, ?_, ?_⟩
    · intro p hpre n hn hp c hc
      exact copyIn_confined hp (hinside p hpre n hn hp) (copyIn_of_copied hc)
    · intro p hpre n hn hp
      obtain ⟨hoff, hsize⟩ := partial_params hpre hn hp
      rw [hoff, hsize]
      exact hinside p hpre n hn hp
    · intro p hpre n hn hp params c hc
      exact copyBack_confined hp (hinside p hpre n hn hp) hc
    · intro n hn hp hout
      rcases h n hn hp with hin | ⟨hargs, hnothing⟩
      · exact absurd hin hout
      · refine ⟨(preProcess_bad s ctx op).mpr hargs, fun c hc => ?_⟩
        unfold copied at hc
        split at hc
        next hr => exact (copiesNothing_iff hp).mpr (hnothing hr) c hc
        next => simp at hc

/-- The four bytes right behind the registered block, as input. -/
def strayOperation : Operation := ⟨0xd, fun _ => { memref := ⟨0x30, 4, 16⟩ }, 0⟩

/-- The operation is accepted. -/
theorem stray_part_accepted :
    (teecPreProcessOperation sharing 0x10 (some strayOperation)).1 = success ∧
      ¬ Confined sharing 0x10 strayOperation := by
  refine ⟨by rfl, fun h => ?_⟩
  have hin := h.inside _ rfl 0 (by decide) rfl
  revert hin
  decide

end Teec
