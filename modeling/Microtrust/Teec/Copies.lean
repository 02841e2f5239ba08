/-
What an operation copies: the client's bytes to shared memory before the TEE is
asked, and shared memory to the client's bytes once it answered.

A slot copies at most once each way, and which copy it is depends on the slot
and the blocks only. So the memory pre-processing leaves is that of a list of
copies known beforehand, and the rest of what it leaves, the parameters and
the mappings among it, does not depend on the memory at all.
-/
import Microtrust.Lib.Copy
import Microtrust.Teec.SharedMemory

namespace Teec

open Lib

/-! ## What the parameters refer to -/

namespace Operation

variable (op : Operation) (blocks : Addr → SharedMemory) (n : Nat)

/-- The block a registered reference is part of. -/
def parent : SharedMemory := blocks (op.params n).memref.parent

/-- The client's bytes a parameter refers to. -/
def span : Set Addr :=
  match op.type n with
  | some .tempInput | some .tempOutput | some .tempInout =>
    cells (op.params n).tmpref.buffer (op.params n).tmpref.size.toNat
  | some .whole => cells (op.parent blocks n).buffer (op.parent blocks n).size.toNat
  | some .partialInput | some .partialOutput | some .partialInout =>
    cells ((op.parent blocks n).buffer + (op.params n).memref.offset.toNat) (op.params n).memref.size.toNat
  | _ => ∅

/-- The parameter is for the TEE to write. -/
def isOutput : Bool :=
  match op.type n with
  | some .valueOutput | some .valueInout | some .tempOutput | some .tempInout | some .partialOutput
  | some .partialInout => true
  | some .whole => (op.parent blocks n).flags &&& memOutput ≠ 0
  | _ => false

/-- A reference to a part of a block. -/
def isPartial : Bool :=
  match op.type n with
  | some .partialInput | some .partialOutput | some .partialInout => true
  | _ => false

/-- A reference to a block, or to a part of it. -/
def isRegistered : Bool := op.isPartial n || op.type n = some .whole

/-- The part referred to lies inside the block. The sum is that of the numbers,
so it does not wrap either. -/
def inside : Prop :=
  (op.params n).memref.offset.toNat + (op.params n).memref.size.toNat ≤ (op.parent blocks n).size.toNat

instance : Decidable (op.inside blocks n) := inferInstanceAs (Decidable (_ ≤ _))

end Operation

/-! ## Before the call -/

/-- What slot `n` copies to shared memory. -/
def copyIn (s : State) (ctx : Addr) (op : Operation) (n : Nat) : List Copy :=
  let shm := op.parent s.blocks n
  match op.type n with
  | some .tempInput | some .tempOutput | some .tempInout =>
    match mapAt s ctx (allocIndex s op n) with
    | some a => [⟨a, (op.params n).tmpref.buffer, (op.params n).tmpref.size.toNat⟩]
    | none => []
  | some .whole =>
    if shm.shadowBuffer ≠ 0 ∧ shm.flags &&& memInput ≠ 0
    then [⟨shm.shadowBuffer, shm.buffer, shm.size.toNat⟩] else []
  | some .partialInput | some .partialInout =>
    if shm.shadowBuffer ≠ 0
    then [⟨shm.shadowBuffer + (op.params n).memref.offset.toNat, shm.buffer + (op.params n).memref.offset.toNat,
      (op.params n).memref.size.toNat⟩] else []
  | _ => []

/-- What is copied for slot `n`: nothing if pre-processing stops before it or at it. -/
def copied (s : State) (ctx : Addr) (op : Operation) (n : Nat) : List Copy :=
  if reached s ctx op (n + 1) then copyIn s ctx op n else []

/-- The same process with another memory. -/
def State.withMem (s : State) (m : Addr → UInt8) : State := { s with mem := m }

def Prep.withMem (p : Prep) (m : Addr → UInt8) : Prep := { p with st := p.st.withMem m }

@[simp] theorem withMem_blocks (s : State) (m : Addr → UInt8) : (s.withMem m).blocks = s.blocks := rfl

/-- Allocation does not look at the memory. -/
theorem allocate_withMem (s : State) (ctx : Addr) (shm : SharedMemory) (m : Addr → UInt8) :
    teecAllocateSharedMemory (s.withMem m) ctx shm =
      ((teecAllocateSharedMemory s ctx shm).1, (teecAllocateSharedMemory s ctx shm).2.1,
        (teecAllocateSharedMemory s ctx shm).2.2.withMem m) := by
  unfold teecAllocateSharedMemory
  split
  · rfl
  split
  · rfl
  simp only [State.mmap]
  cases hm : (if (s.contexts ctx).fd < 0 then none else s.env.mmap s.allocs) with
  | none =>
    have hm' : (if ((s.withMem m).contexts ctx).fd < 0 then none
        else (s.withMem m).env.mmap (s.withMem m).allocs) = none := hm
    simp only [hm']
    rfl
  | some a =>
    have hm' : (if ((s.withMem m).contexts ctx).fd < 0 then none
        else (s.withMem m).env.mmap (s.withMem m).allocs) = some a := hm
    simp only [hm']
    rfl

section In
variable {s : State} {ctx : Addr} {op : Operation} {k : Nat} {p : Prep}

/-- A block for a temporary reference is where the kernel mapped it. -/
theorem buffer_of_allocate {shm shm' : SharedMemory} {s' : State} (hf : badFlags shm.flags = false)
    (hz : Fate.untouched.left shm) (h : teecAllocateSharedMemory s ctx shm = (success, shm', s')) :
    ctx ≠ 0 ∧ mapAt s ctx s.allocs = some shm'.buffer ∧ shm'.allocedSize = mappedSize shm.size := by
  obtain ⟨hleft, -, -, hres, -⟩ := allocate_spec hf hz h
  obtain ⟨hc, hm⟩ := hres.mp rfl
  obtain ⟨a, ha⟩ := Option.isSome_iff_exists.mp hm
  simp only [tempFate, hc, if_false, ha] at hleft
  exact ⟨hc, by rw [ha, hleft.1], hleft.2.2.2.2.1⟩

/-- The copies of one round. -/
def roundCopies (s : State) (ctx : Addr) (op : Operation) (k : Nat) : List Copy :=
  if passes s ctx op k then copyIn s ctx op k else []

theorem tempSlot_withMem {ty : ParamType} {flags : UInt32} {attr : UInt64} (hty : op.type k = some ty)
    (hkind : tempKind ty = some (flags, attr)) (hz : p.shms k = {}) (hr : Ready s op k p) (m : Addr → UInt8) :
    preProcessSlot ctx op k (p.withMem m) =
      ((preProcessSlot ctx op k p).1,
        (preProcessSlot ctx op k p).2.withMem (Copy.runs (roundCopies s ctx op k) m)) := by
  have hcopy : copyIn s ctx op k = match mapAt s ctx (allocIndex s op k) with
      | some a => [⟨a, (op.params k).tmpref.buffer, (op.params k).tmpref.size.toNat⟩]
      | none => [] := by
    cases ty <;> simp [tempKind] at hkind <;> simp only [copyIn, hty]
  have hflags := tempKind_flags hkind
  have hst : (p.withMem m).st = p.st.withMem m := rfl
  have hshms : (p.withMem m).shms k = {} := hz
  rw [tempSlot_eq hty hkind, tempSlot_eq hty hkind, hst, hshms, hz]
  simp only [teecPreProcessTmpref, hkind, allocate_withMem]
  cases ha : teecAllocateSharedMemory p.st ctx { flags, size := (op.params k).tmpref.size } with
  | mk res t =>
    obtain ⟨shm', s'⟩ := t
    obtain ⟨-, -, -, hres, -⟩ := allocate_spec hflags ⟨rfl, rfl, rfl, rfl⟩ ha
    rw [hr.mapAt, ← passes_temp_iff hty hkind] at hres
    by_cases hok : res = success
    · subst hok
      obtain ⟨-, hbuf, -⟩ := buffer_of_allocate hflags ⟨rfl, rfl, rfl, rfl⟩ ha
      rw [hr.mapAt] at hbuf
      simp only [roundCopies, hres.mp rfl, if_true, hcopy, hbuf]
      rfl
    · have hno : passes s ctx op k = false := Bool.eq_false_iff.mpr (mt hres.mpr hok)
      simp only [roundCopies, hno, hok, ne_eq, not_false_eq_true, if_true, Bool.false_eq_true, if_false]
      rfl

theorem wholeSlot_withMem (hty : op.type k = some .whole) (hr : Ready s op k p) (m : Addr → UInt8) :
    preProcessSlot ctx op k (p.withMem m) =
      ((preProcessSlot ctx op k p).1,
        (preProcessSlot ctx op k p).2.withMem (Copy.runs (roundCopies s ctx op k) m)) := by
  have hround : ∀ q : Prep, preProcessSlot ctx op k q =
      let r := teecPreProcessWhole q.st (op.params k).memref (q.params k)
      (r.1, { q.setParam k r.2.1 with st := r.2.2 }) := by
    intro q
    simp only [preProcessSlot, hty]
  have hpass : passes s ctx op k = true ↔ (op.parent s.blocks k).flags &&& (memInput ||| memOutput) ≠ 0 := by
    simp [passes, hty, Operation.parent]
  have hin : (op.parent s.blocks k).flags &&& (memInput ||| memOutput) &&& memInput =
      (op.parent s.blocks k).flags &&& memInput := by
    rw [UInt32.and_assoc]
    congr 1
  have hcopy : copyIn s ctx op k = if (op.parent s.blocks k).shadowBuffer ≠ 0 ∧
      (op.parent s.blocks k).flags &&& memInput ≠ 0
      then [⟨(op.parent s.blocks k).shadowBuffer, (op.parent s.blocks k).buffer,
        (op.parent s.blocks k).size.toNat⟩] else [] := by
    simp only [copyIn, hty]
  have hst : (p.withMem m).st = p.st.withMem m := rfl
  have hshm : p.st.blocks (op.params k).memref.parent = op.parent s.blocks k := by
    rw [hr.same.blocks, Operation.parent]
  rw [hround, hround, hst]
  simp only [teecPreProcessWhole, withMem_blocks, hshm, hin]
  by_cases hf : (op.parent s.blocks k).flags &&& (memInput ||| memOutput) = 0
  · have hno : passes s ctx op k = false := Bool.eq_false_iff.mpr fun h => hpass.mp h hf
    simp only [roundCopies, hno, hf, if_true, Bool.false_eq_true, if_false]
    rfl
  · by_cases hc : (op.parent s.blocks k).shadowBuffer ≠ 0 ∧ (op.parent s.blocks k).flags &&& memInput ≠ 0
    · simp only [roundCopies, hpass.mpr hf, if_true, hcopy, if_pos hc, hf, if_false]
      rfl
    · simp only [roundCopies, hpass.mpr hf, if_true, hcopy, if_neg hc, hf, if_false]
      rfl

theorem partialSlot_eq {ty : ParamType} {req : UInt32} {attr : UInt64} (hty : op.type k = some ty)
    (hkind : partialKind ty = some (req, attr)) (p : Prep) : preProcessSlot ctx op k p =
      let r := teecPreProcessPartial p.st ty (op.params k).memref (p.params k)
      (r.1, { p.setParam k r.2.1 with st := r.2.2 }) := by
  cases ty <;> simp [partialKind] at hkind <;> simp [preProcessSlot, hty]

theorem partialSlot_withMem {ty : ParamType} {req : UInt32} {attr : UInt64} (hty : op.type k = some ty)
    (hkind : partialKind ty = some (req, attr)) (hr : Ready s op k p) (m : Addr → UInt8) :
    preProcessSlot ctx op k (p.withMem m) =
      ((preProcessSlot ctx op k p).1,
        (preProcessSlot ctx op k p).2.withMem (Copy.runs (roundCopies s ctx op k) m)) := by
  have hpass : passes s ctx op k = true ↔ (op.parent s.blocks k).flags &&& req = req := by
    cases ty <;> simp [partialKind] at hkind <;> simp [passes, hty, hkind.1, Operation.parent]
  have hcopy : copyIn s ctx op k = if (op.parent s.blocks k).shadowBuffer ≠ 0 ∧ ty ≠ .partialOutput
      then [⟨(op.parent s.blocks k).shadowBuffer + (op.params k).memref.offset.toNat,
        (op.parent s.blocks k).buffer + (op.params k).memref.offset.toNat, (op.params k).memref.size.toNat⟩]
      else [] := by
    cases ty <;> simp [partialKind] at hkind <;> simp [copyIn, hty]
  have hst : (p.withMem m).st = p.st.withMem m := rfl
  have hshm : p.st.blocks (op.params k).memref.parent = op.parent s.blocks k := by
    rw [hr.same.blocks, Operation.parent]
  rw [partialSlot_eq hty hkind, partialSlot_eq hty hkind, hst]
  simp only [teecPreProcessPartial, hkind, withMem_blocks, hshm]
  by_cases hf : (op.parent s.blocks k).flags &&& req = req
  · by_cases hc : (op.parent s.blocks k).shadowBuffer ≠ 0 ∧ ty ≠ .partialOutput
    · simp only [roundCopies, hpass.mpr hf, if_true, hcopy, if_pos hc, hf, ne_eq, not_true_eq_false, if_false]
      rfl
    · simp only [roundCopies, hpass.mpr hf, if_true, hcopy, if_neg hc, hf, ne_eq, not_true_eq_false, if_false]
      rfl
  · have hno : passes s ctx op k = false := Bool.eq_false_iff.mpr (mt hpass.mp hf)
    simp only [roundCopies, hno, hf, ne_eq, not_false_eq_true, if_true, Bool.false_eq_true, if_false]
    rfl

/-- One round does the same whatever the memory, up to its copies. -/
theorem slot_withMem (hz : p.shms k = {}) (hr : Ready s op k p) (m : Addr → UInt8) :
    preProcessSlot ctx op k (p.withMem m) =
      ((preProcessSlot ctx op k p).1,
        (preProcessSlot ctx op k p).2.withMem (Copy.runs (roundCopies s ctx op k) m)) := by
  cases hty : op.type k with
  | none =>
    simp only [preProcessSlot, hty, roundCopies, passes]
    rfl
  | some ty =>
    cases htemp : tempKind ty with
    | some fa => exact tempSlot_withMem hty htemp hz hr m
    | none =>
      cases hpart : partialKind ty with
      | some ra => exact partialSlot_withMem hty hpart hr m
      | none =>
        cases ty <;> simp [tempKind, partialKind] at htemp hpart
        case whole => exact wholeSlot_withMem hty hr m
        all_goals
          simp only [preProcessSlot, hty, roundCopies, passes, copyIn]
          rfl

/-- Nothing is copied for the slots from one on that is not reached. -/
theorem copied_eq_nil (h : ¬ reached s ctx op (k + 1)) (n : Nat) :
    (List.range' k n).flatMap (copied s ctx op) = [] := by
  rw [List.flatMap_eq_nil_iff]
  intro j hj
  have hkj : k ≤ j := (List.mem_range'_1.mp hj).1
  exact if_neg fun hr => h ⟨hr.1, fun i hi => hr.2 i (by omega)⟩

end In

/-- All that pre-processing copies. -/
def copies (s : State) (ctx : Addr) (op : Operation) : List Copy :=
  (List.range payloadRefCount).flatMap (copied s ctx op)

section
variable (s : State) (ctx : Addr) (op : Operation)

/-- The loop in another memory ends the same way, but for the memory. -/
theorem slots_withMem (n k : Nat) (p : Prep) (hl : Ledger s ctx op k p) (hr : Ready s op k p)
    (hk : reached s ctx op k) (m : Addr → UInt8) :
    preProcessSlots ctx op (List.range' k n) (p.withMem m) =
      ((preProcessSlots ctx op (List.range' k n) p).1, (preProcessSlots ctx op (List.range' k n) p).2.withMem
        (Copy.runs ((List.range' k n).flatMap (copied s ctx op)) m)) := by
  refine slots_rule (Q := fun k n p r => ∀ m, preProcessSlots ctx op (List.range' k n) (p.withMem m) =
    (r.1, r.2.withMem (Copy.runs ((List.range' k n).flatMap (copied s ctx op)) m))) ?_ ?_ ?_ n k p hl hr hk m
  · intro k p _ _ m
    rfl
  · intro k n p res p' hl hr hk hslot _ hfail hstop m
    have hround : preProcessSlot ctx op k (p.withMem m) = _ := slot_withMem (hl.rest k (le_refl k)) hr m
    have hno : roundCopies s ctx op k = [] := if_neg fun h => hstop (reached_succ.mpr ⟨hk, h⟩)
    have hnil := copied_eq_nil hstop (n + 1)
    rw [hslot, hno] at hround
    rw [hnil]
    simp only [List.range'_succ, preProcessSlots, hround, hfail, ne_eq, not_false_eq_true, if_true]
  · intro k n p p' r hl hr hk hslot _ hnext hq m
    have hround : preProcessSlot ctx op k (p.withMem m) = _ := slot_withMem (hl.rest k (le_refl k)) hr m
    have hcopied : copied s ctx op k = roundCopies s ctx op k := by
      simp only [copied, hnext, if_true, roundCopies, (reached_succ.mp hnext).2]
    rw [hslot, ← hcopied] at hround
    simp only [List.range'_succ, preProcessSlots, hround, ne_eq, not_true_eq_false, if_false, List.flatMap_cons,
      Copy.runs_append]
    exact hq _

/-- Pre-processing does the same whatever the memory, up to its copies. -/
theorem preProcess_withMem (m : Addr → UInt8) :
    teecPreProcessOperation (s.withMem m) ctx (some op) =
      ((teecPreProcessOperation s ctx (some op)).1,
        (teecPreProcessOperation s ctx (some op)).2.withMem (Copy.runs (copies s ctx op) m)) := by
  -- whether the loop starts does not depend on the memory either
  rw [copies, List.range_eq_range']
  rcases preProcess_cases s ctx op with ⟨hstop, heq⟩ | ⟨hk, heq⟩ <;>
    rcases preProcess_cases (s.withMem m) ctx op with ⟨hstop', heq'⟩ | ⟨hk', heq'⟩
  · rw [heq, heq', copied_eq_nil fun h => hstop (reached_succ.mp h).1]
    rfl
  · exact absurd hk' hstop
  · exact absurd hk hstop'
  · rw [heq, heq']
    exact slots_withMem s ctx op payloadRefCount 0 (.start s) (ledger_start s ctx op) (ready_start s op) hk m

theorem preProcess_mem :
    (teecPreProcessOperation s ctx (some op)).2.st.mem = Copy.runs (copies s ctx op) s.mem := by
  have h := preProcess_withMem s ctx op s.mem
  exact congrArg (fun r => r.2.st.mem) h

/-- An operation is accepted if and only if every slot passes. -/
theorem preProcess_success :
    (teecPreProcessOperation s ctx (some op)).1 = success ↔ reached s ctx op payloadRefCount := by
  rcases preProcess_cases s ctx op with ⟨hstop, heq⟩ | ⟨hk, heq⟩
  · rw [heq]
    constructor
    · intro h
      cases (h : errorBadParameters = success)
    · intro h
      exact absurd ⟨h.1, fun j hj => absurd hj (by omega)⟩ hstop
  · have hloop := slots_rule (Q := fun k n _ r => r.1 = success ↔ reached s ctx op (k + n)) ?_ ?_ ?_ payloadRefCount 0 _
      (ledger_start s ctx op) (ready_start s op) hk
    · rw [heq, hloop, Nat.zero_add]
    · intro k p _ hk
      exact ⟨fun _ => hk, fun _ => rfl⟩
    · intro k n p res p' _ _ _ _ _ hfail hstop
      constructor
      · intro h
        exact absurd h hfail
      · intro h
        exact absurd ⟨h.1, fun j hj => h.2 j (by omega)⟩ hstop
    · intro k n p p' r _ _ _ _ _ _ hq
      rw [hq, show k + (n + 1) = k + 1 + n by omega]

end

/-- What every round that passes establishes holds of an accepted operation. -/
theorem preProcess_invariant {s : State} {ctx : Addr} {op : Operation} {p : Prep} (I : Nat → Prep → Prop)
    (hstart : I 0 (.start s))
    (hstep : ∀ k q q', Ledger s ctx op k q → Ready s op (k + 1) q' → I k q →
      preProcessSlot ctx op k q = (success, q') → I (k + 1) q')
    (h : teecPreProcessOperation s ctx (some op) = (success, p)) : I payloadRefCount p := by
  rcases preProcess_cases s ctx op with ⟨-, heq⟩ | ⟨hk, heq⟩
  · cases heq.symm.trans h
  · have hloop := slots_rule (Q := fun k n q r => I k q → r.1 = success → I (k + n) r.2) ?_ ?_ ?_ payloadRefCount 0 _
      (ledger_start s ctx op) (ready_start s op) hk
    · rw [← heq, h] at hloop
      simpa using hloop hstart rfl
    · intro k q _ _ hi _
      exact hi
    · intro k n q res q' _ _ _ _ _ hfail _ _ hs
      exact absurd hs hfail
    · intro k n q q' r hl _ _ hslot hr' _ hq hi hs
      rw [show k + (n + 1) = k + 1 + n by omega]
      exact hq (hstep k q q' hl hr' hi hslot) hs

theorem preProcess_same {s : State} {ctx : Addr} {op : Operation} {p : Prep}
    (h : teecPreProcessOperation s ctx (some op) = (success, p)) : Same s p.st := by
  refine preProcess_invariant (fun _ q => Same s q.st) ⟨rfl, rfl, rfl⟩ ?_ h
  intro k q q' _ hr _ _
  exact hr.same

/-! ## Where the copies go -/

namespace Operation

end Operation

section
variable {s : State} {ctx : Addr} {op : Operation} {n : Nat} {c : Copy}

theorem copyIn_of_copied (h : c ∈ copied s ctx op n) : c ∈ copyIn s ctx op n := by
  unfold copied at h
  split at h
  · exact h
  · simp at h

end

/-! ## The blocks mapped for temporary references -/

section
variable {s : State} {ctx : Addr} {op : Operation} {k : Nat} {p p' : Prep}

theorem preWhole_maps (s : State) (memref : RegisteredMemoryReference) (param : IoctlParam) :
    (teecPreProcessWhole s memref param).2.2.maps = s.maps := by
  simp only [teecPreProcessWhole]
  split
  · rfl
  · dsimp only
    split <;> rfl

theorem prePartial_maps (s : State) (ty : ParamType) (memref : RegisteredMemoryReference) (param : IoctlParam) :
    (teecPreProcessPartial s ty memref param).2.2.maps = s.maps := by
  unfold teecPreProcessPartial
  split
  · rfl
  · dsimp only
    split
    · rfl
    · dsimp only
      split <;> rfl

theorem tmpref_maps {s' : State} {ty : ParamType} {tmpref : TempMemoryReference} {param param' : IoctlParam}
    {shm' : SharedMemory} {flags : UInt32} {attr : UInt64} (hkind : tempKind ty = some (flags, attr))
    (h : teecPreProcessTmpref s ctx ty tmpref param {} = (success, param', shm', s')) :
    s'.maps = s.maps ++ [(shm'.buffer, shm'.allocedSize)] := by
  simp only [teecPreProcessTmpref, hkind] at h
  cases ha : teecAllocateSharedMemory s ctx { flags, size := tmpref.size } with
  | mk res t =>
    obtain ⟨shm₁, s₁⟩ := t
    simp only [ha] at h
    split at h
    next hfail =>
      cases h
      exact absurd rfl hfail
    next hok =>
      cases h
      simp only [ne_eq, not_not] at hok
      rw [hok] at ha
      have hflags := tempKind_flags hkind
      obtain ⟨hc, hm, hsize⟩ := buffer_of_allocate hflags ⟨rfl, rfl, rfl, rfl⟩ ha
      have haccepts : Origin.accepts .allocated ctx { flags, size := tmpref.size } := ⟨hc, hflags, by simp⟩
      have hs := congrArg (fun r => r.2.2.maps) ((get_mapped haccepts hm).symm.trans ha)
      rw [← hsize] at hs
      exact hs.symm

/-- A slot that passes keeps the mappings there are, and adds that of its block. -/
theorem slot_maps (hz : p.shms k = {}) (h : preProcessSlot ctx op k p = (success, p')) :
    p.st.maps ⊆ p'.st.maps ∧ (∀ n, n ≠ k → p'.shms n = p.shms n) ∧
      (op.isTemp k = true → ((p'.shms k).buffer, (p'.shms k).allocedSize) ∈ p'.st.maps) := by
  cases hty : op.type k with
  | none =>
    simp only [preProcessSlot, hty] at h
    cases h
  | some ty =>
    cases hkind : tempKind ty with
    | none =>
      have hn : op.isTemp k = false := by
        cases ty <;> simp [tempKind] at hkind <;> simp [Operation.isTemp, hty]
      have hsame : p'.st.maps = p.st.maps ∧ p'.shms = p.shms := by
        cases ty <;> simp only [tempKind, reduceCtorEq] at hkind <;> simp only [preProcessSlot, hty] at h <;>
          obtain ⟨-, rfl⟩ := Prod.mk.inj h
        case none | valueInput | valueOutput | valueInout => exact ⟨rfl, rfl⟩
        case whole => exact ⟨preWhole_maps .., rfl⟩
        all_goals exact ⟨prePartial_maps .., rfl⟩
      rw [hsame.1, hsame.2]
      exact ⟨fun _ hm => hm, fun _ _ => rfl, fun ht => by simp [hn] at ht⟩
    | some fa =>
      obtain ⟨flags, attr⟩ := fa
      cases ht : teecPreProcessTmpref p.st ctx ty (op.params k).tmpref (p.params k) (p.shms k) with
      | mk res t =>
        obtain ⟨param', shm', s'⟩ := t
        rw [tempSlot_eq hty hkind, ht] at h
        cases h
        rw [hz] at ht
        have hmaps := tmpref_maps hkind ht
        refine ⟨?_, ?_, ?_⟩
        · intro x hx
          rw [hmaps]
          exact List.mem_append_left _ hx
        · intro n hn
          exact Function.update_of_ne hn shm' p.shms
        · intro _
          simp [hmaps]

/-- What is mapped for the temporary references of an accepted operation is
there when the TEE is asked, and has room for what they refer to. -/
theorem temp_mapped (h : teecPreProcessOperation s ctx (some op) = (success, p)) {n : Nat}
    (hn : n < payloadRefCount) (ht : op.isTemp n = true) :
    ((p.shms n).buffer, (p.shms n).allocedSize) ∈ p.st.maps ∧
      mapAt s ctx (allocIndex s op n) = some (p.shms n).buffer ∧
      (p.shms n).allocedSize = mappedSize (op.params n).tmpref.size := by
  have hmaps : ∀ n < payloadRefCount, op.isTemp n = true →
      ((p.shms n).buffer, (p.shms n).allocedSize) ∈ p.st.maps := by
    refine preProcess_invariant (fun k q => ∀ n < k, op.isTemp n = true →
      ((q.shms n).buffer, (q.shms n).allocedSize) ∈ q.st.maps) (fun n hn => absurd hn (by omega)) ?_ h
    intro k q q' hl hr hi hslot n hn ht
    obtain ⟨hsub, hother, hnew⟩ := slot_maps (hl.rest k (le_refl k)) hslot
    by_cases hnk : n = k
    · subst hnk
      exact hnew ht
    · rw [hother n hnk]
      exact hsub (hi n (by omega) ht)
  have hleft := (preProcess_spec h).shms n hn ht
  have hall : reached s ctx op payloadRefCount := (preProcess_success s ctx op).mp (congrArg Prod.fst h)
  have hreached : reached s ctx op n := ⟨hall.1, fun j hj => hall.2 j (by omega)⟩
  have hpass : ctx ≠ 0 ∧ (mapAt s ctx (allocIndex s op n)).isSome := by
    have hp := hall.2 n hn
    unfold Operation.isTemp at ht
    unfold passes at hp
    cases hty : op.type n with
    | none => simp [hty] at ht
    | some ty => cases ty <;> simp [hty] at ht <;> simpa [hty] using hp
  obtain ⟨a, ha⟩ := Option.isSome_iff_exists.mp hpass.2
  simp only [fate, hreached, if_true, tempFate, hpass.1, if_false, ha] at hleft
  exact ⟨hmaps n hn ht, by rw [ha, hleft.1], hleft.2.2.2.2.1⟩

end

end Teec
