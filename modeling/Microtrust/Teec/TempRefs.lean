/-
What becomes of the shared blocks behind temporary references.

`teec_free_temp_refs` releases a block for every temporary slot, whether or
not pre-processing got to it. A slot it never reached has a zero-filled block,
which TEEC_ReleaseSharedMemory takes for one registered as descriptor 0: it
closes that descriptor and releases id 0. A block the kernel mapped but gave
no id is not released at all.

`Fate` says what can become of a slot. It determines the calls made for the
slot before and after the TEE is asked, and the whole call gives back what it
acquired exactly when no slot met one of the two bad fates.
-/
import Microtrust.Teec.Session

namespace Teec

open Lib

/-! ## The fate of a slot -/

/-- What pre-processing did for a temporary slot: nothing, a mapping that was
refused, or a block that is held. -/
inductive Fate where
  | untouched
  | refused (fd : Int) (len : UInt64)
  | held (fd : Int) (addr : Addr) (len : UInt64) (id : Int)

namespace Fate

/-- The calls that acquired the block. -/
def acquired : Fate → List Call
  | .untouched => []
  | .refused fd len => [.mmap fd len none]
  | .held fd a len id => [.mmap fd len (some a), .shmId fd a id]

/-- The calls `TEEC_ReleaseSharedMemory` makes for the slot. -/
def given : Fate → List Call
  | .untouched => [.close 0, .shmRelease 0 0]
  | .refused _ _ => []
  | .held fd a len id => if id = -1 then [] else [.munmap a len, .shmRelease fd id]

/-- The block descriptor as pre-processing left it. -/
def left : Fate → SharedMemory → Prop
  | .untouched, shm => shm.buffer = 0 ∧ shm.shadowBuffer = 0 ∧ shm.id = 0 ∧ shm.registeredFd = 0
  | .refused _ _, shm => shm.id = -1
  | .held fd a len id, shm =>
    shm.buffer = a ∧ shm.shadowBuffer = 0 ∧ shm.id = id ∧ shm.registeredFd = fd ∧ shm.allocedSize = len ∧
      a ≠ 0 ∧ 0 ≤ fd

/-- The slot was reached, and a block that was mapped has an id. -/
def clean : Fate → Prop
  | .untouched => False
  | .refused _ _ => True
  | .held _ _ _ id => id ≠ -1

end Fate

theorem release_calls {f : Fate} {s : State} {shm : SharedMemory} (h : f.left shm) :
    (teecReleaseSharedMemory s shm).2.calls = s.calls ++ f.given := by
  unfold teecReleaseSharedMemory
  cases f with
  | untouched =>
    obtain ⟨hb, hs, hi, hf⟩ := h
    simp [hb, hs, hi, hf, Fate.given, State.log]
  | refused fd len =>
    have hi : shm.id = -1 := h
    simp [hi, Fate.given]
  | held fd a len id =>
    obtain ⟨hb, hs, hi, hf, hl, ha, hfd⟩ := h
    by_cases hid : id = -1
    · simp [hi, hid, Fate.given]
    · have hneg : ¬ fd < 0 := by omega
      simp [hb, hs, hi, hf, hl, ha, hid, hneg, Fate.given, State.log, State.munmap]

/-! ## What is acquired is given back -/

/-- Every block mapped was unmapped and released once, no other was, and no
descriptor was closed. -/
structure Settled (new : List Call) : Prop where
  unmapped : (new.filterMap Call.unmapped).Perm (new.filterMap Call.mapped)
  released : (new.filterMap Call.released).Perm (new.filterMap Call.obtained)
  closed : new.filterMap Call.closedFd = []

/-- A call that acquires nothing and gives nothing back. -/
def Call.neutral (c : Call) : Prop :=
  c.unmapped = none ∧ c.mapped = none ∧ c.released = none ∧ c.obtained = none ∧ c.closedFd = none

/-- The calls of an operation whose temporary slots met the fates `fs`. -/
def ledger (fs : List Fate) (mid : List Call) : List Call :=
  fs.flatMap Fate.acquired ++ mid ++ fs.flatMap Fate.given

section
variable {α : Type*} {g : Call → Option α} (fs : List Fate) {mid : List Call}

theorem filterMap_ledger_acquired (hmid : ∀ c ∈ mid, g c = none) (hg : ∀ f : Fate, f.given.filterMap g = []) :
    (ledger fs mid).filterMap g = fs.flatMap fun f => f.acquired.filterMap g := by
  have hnil : (fs.flatMap Fate.given).filterMap g = [] := by
    rw [List.filterMap_flatMap, List.flatMap_eq_nil_iff]
    exact fun f _ => hg f
  rw [ledger, List.filterMap_append, List.filterMap_append, hnil, List.filterMap_flatMap,
    List.filterMap_eq_nil_iff.mpr hmid, List.append_nil, List.append_nil]

theorem filterMap_ledger_given (hmid : ∀ c ∈ mid, g c = none) (hg : ∀ f : Fate, f.acquired.filterMap g = []) :
    (ledger fs mid).filterMap g = fs.flatMap fun f => f.given.filterMap g := by
  have hnil : (fs.flatMap Fate.acquired).filterMap g = [] := by
    rw [List.filterMap_flatMap, List.flatMap_eq_nil_iff]
    exact fun f _ => hg f
  rw [ledger, List.filterMap_append, List.filterMap_append, hnil, List.filterMap_flatMap,
    List.filterMap_eq_nil_iff.mpr hmid, List.nil_append, List.nil_append]

end

/-- Lists that are nowhere longer and equally long in all are equally long everywhere. -/
theorem length_eq_of_flatMap {α β : Type*} {r b : α → List β} {fs : List α}
    (hle : ∀ f ∈ fs, (r f).length ≤ (b f).length) (heq : (fs.flatMap r).length = (fs.flatMap b).length) :
    ∀ f ∈ fs, (r f).length = (b f).length := by
  induction fs with
  | nil => simp
  | cons f fs ih =>
    have hf := hle f (by simp)
    have hfs : (fs.flatMap r).length ≤ (fs.flatMap b).length := by
      rw [List.length_flatMap, List.length_flatMap]
      exact List.sum_le_sum fun g hg => hle g (by simp [hg])
    simp only [List.flatMap_cons, List.length_append] at heq
    intro g hg
    rcases List.mem_cons.mp hg with rfl | hg
    · omega
    · exact ih (fun g hg => hle g (by simp [hg])) (by omega) g hg

namespace Fate

theorem unmapped_given_of_clean {f : Fate} (h : f.clean) :
    f.given.filterMap Call.unmapped = f.acquired.filterMap Call.mapped := by
  cases f with
  | untouched => exact absurd h id
  | refused fd len => rfl
  | held fd a len id => simp [given, acquired, show id ≠ -1 from h, List.filterMap_cons, Call.unmapped, Call.mapped]

theorem released_given_of_clean {f : Fate} (h : f.clean) :
    f.given.filterMap Call.released = f.acquired.filterMap Call.obtained := by
  cases f with
  | untouched => exact absurd h id
  | refused fd len => rfl
  | held fd a len id => simp [given, acquired, show id ≠ -1 from h, List.filterMap_cons, Call.released, Call.obtained]

theorem closed_given {f : Fate} : f.given.filterMap Call.closedFd = [] ↔ f.acquired ≠ [] := by
  cases f with
  | untouched => simp [given, acquired, Call.closedFd]
  | refused fd len => simp [given, acquired]
  | held fd a len id =>
    by_cases hid : id = -1 <;> simp [given, acquired, hid, Call.closedFd]

theorem acquired_ne_of_clean {f : Fate} (h : f.clean) : f.acquired ≠ [] := by
  cases f with
  | untouched => exact absurd h id
  | refused fd len => simp [acquired]
  | held fd a len id => simp [acquired]

theorem length_unmapped_le (f : Fate) :
    (f.given.filterMap Call.unmapped).length ≤ (f.acquired.filterMap Call.mapped).length := by
  cases f with
  | untouched => simp [given, List.filterMap_cons, Call.unmapped]
  | refused fd len => simp [given]
  | held fd a len id =>
    by_cases hid : id = -1 <;> simp [given, acquired, hid, List.filterMap_cons, Call.unmapped, Call.mapped]

theorem clean_of_acquired {f : Fate} (hne : f.acquired ≠ [])
    (hlen : (f.given.filterMap Call.unmapped).length = (f.acquired.filterMap Call.mapped).length) :
    f.clean := by
  cases f with
  | untouched => exact absurd rfl hne
  | refused fd len => trivial
  | held fd a len id =>
    intro hid
    simp [given, acquired, hid, Call.mapped] at hlen

/-- Nothing is unmapped, released or closed before the TEE is asked. -/
theorem filterMap_acquired (f : Fate) :
    f.acquired.filterMap Call.unmapped = [] ∧ f.acquired.filterMap Call.released = [] ∧
      f.acquired.filterMap Call.closedFd = [] := by
  cases f <;> simp [acquired, Call.unmapped, Call.released, Call.closedFd]

/-- Nothing is acquired after. -/
theorem filterMap_given (f : Fate) :
    f.given.filterMap Call.mapped = [] ∧ f.given.filterMap Call.obtained = [] := by
  cases f with
  | untouched => simp [given, Call.mapped, Call.obtained]
  | refused fd len => simp [given]
  | held fd a len id => by_cases hid : id = -1 <;> simp [given, hid, Call.mapped, Call.obtained]

end Fate

theorem settled_iff {fs : List Fate} {mid : List Call} (hmid : ∀ c ∈ mid, c.neutral) :
    Settled (ledger fs mid) ↔ ∀ f ∈ fs, f.clean := by
  have hunmapped := filterMap_ledger_given fs (fun c hc => (hmid c hc).1)
    fun f => f.filterMap_acquired.1
  have hmapped := filterMap_ledger_acquired fs (fun c hc => (hmid c hc).2.1)
    fun f => f.filterMap_given.1
  have hreleased := filterMap_ledger_given fs (fun c hc => (hmid c hc).2.2.1)
    fun f => f.filterMap_acquired.2.1
  have hobtained := filterMap_ledger_acquired fs (fun c hc => (hmid c hc).2.2.2.1)
    fun f => f.filterMap_given.2
  have hclosed := filterMap_ledger_given fs (fun c hc => (hmid c hc).2.2.2.2)
    fun f => f.filterMap_acquired.2.2
  constructor
  · intro h f hf
    have hne : f.acquired ≠ [] := by
      have hnil := h.closed
      rw [hclosed, List.flatMap_eq_nil_iff] at hnil
      exact Fate.closed_given.mp (hnil f hf)
    have hlen := h.unmapped.length_eq
    rw [hunmapped, hmapped] at hlen
    exact f.clean_of_acquired hne (length_eq_of_flatMap (fun f _ => f.length_unmapped_le) hlen f hf)
  · intro h
    constructor
    · rw [hunmapped, hmapped]
      exact .of_eq (List.flatMap_congr fun f hf => Fate.unmapped_given_of_clean (h f hf))
    · rw [hreleased, hobtained]
      exact .of_eq (List.flatMap_congr fun f hf => Fate.released_given_of_clean (h f hf))
    · rw [hclosed, List.flatMap_eq_nil_iff]
      exact fun f hf => Fate.closed_given.mpr (Fate.acquired_ne_of_clean (h f hf))

/-! ## The fates an operation brings about -/

/-- The kernel's answer to mapping allocation `i` through the context. -/
def mapAt (s : State) (ctx : Addr) (i : Nat) : Option Addr :=
  if (s.contexts ctx).fd < 0 then none else s.env.mmap i

/-- The fate of a slot that is reached with allocation `i` next. -/
def tempFate (s : State) (ctx : Addr) (size : UInt64) (i : Nat) : Fate :=
  if ctx = 0 then .untouched
  else
    let fd := (s.contexts ctx).fd
    let len := if size = 0 then 8 else size
    match mapAt s ctx i with
    | none => .refused fd len
    | some a => .held fd a len (if s.env.shmId i < 0 then -1 else s.env.shmId i)

/-- The number of the allocation made for slot `n`, if it comes to that. -/
def allocIndex (s : State) (op : Operation) (n : Nat) : Nat :=
  s.allocs + ((List.range n).filter op.isTemp).length

/-- Slot `n` does not stop pre-processing. -/
def passes (s : State) (ctx : Addr) (op : Operation) (n : Nat) : Bool :=
  let flags := (s.blocks (op.params n).memref.parent).flags
  match op.type n with
  | some .none | some .valueInput | some .valueOutput | some .valueInout => true
  | some .tempInput | some .tempOutput | some .tempInout =>
    ctx ≠ 0 && (mapAt s ctx (allocIndex s op n)).isSome
  | some .whole => flags &&& (memInput ||| memOutput) ≠ 0
  | some .partialInput => flags &&& memInput = memInput
  | some .partialOutput => flags &&& memOutput = memOutput
  | some .partialInout => flags &&& (memOutput ||| memInput) = memOutput ||| memInput
  | none => false

/-- Pre-processing gets to slot `n`. -/
def reached (s : State) (ctx : Addr) (op : Operation) (n : Nat) : Prop :=
  op.paramTypes ≤ 0xffff ∧ ∀ m < n, passes s ctx op m = true

instance (s : State) (ctx : Addr) (op : Operation) (n : Nat) : Decidable (reached s ctx op n) :=
  inferInstanceAs (Decidable (_ ∧ _))

theorem reached_succ {s : State} {ctx : Addr} {op : Operation} {n : Nat} :
    reached s ctx op (n + 1) ↔ reached s ctx op n ∧ passes s ctx op n = true := by
  constructor
  · intro h
    exact ⟨⟨h.1, fun m hm => h.2 m (by omega)⟩, h.2 n (by omega)⟩
  · rintro ⟨h, hn⟩
    refine ⟨h.1, fun m hm => ?_⟩
    rcases Nat.lt_succ_iff_lt_or_eq.mp hm with hm | rfl
    · exact h.2 m hm
    · exact hn

def fate (s : State) (ctx : Addr) (op : Operation) (n : Nat) : Fate :=
  if reached s ctx op n then tempFate s ctx (op.params n).tmpref.size (allocIndex s op n) else .untouched

/-- The fates of the temporary slots below `k`. -/
def fates (s : State) (ctx : Addr) (op : Operation) (k : Nat) : List Fate :=
  ((List.range k).filter op.isTemp).map (fate s ctx op)

/-- What the checks of a slot read is as it was. -/
structure Same (s s' : State) : Prop where
  env : s'.env = s.env
  contexts : s'.contexts = s.contexts
  blocks : s'.blocks = s.blocks

theorem Same.trans {s s₁ s₂ : State} (h : Same s s₁) (h' : Same s₁ s₂) : Same s s₂ :=
  ⟨h'.env.trans h.env, h'.contexts.trans h.contexts, h'.blocks.trans h.blocks⟩

theorem Same.tempFate {s s' : State} (h : Same s s') (ctx : Addr) (size : UInt64) (i : Nat) :
    tempFate s' ctx size i = tempFate s ctx size i := by
  simp only [Teec.tempFate, mapAt, h.env, h.contexts]

theorem allocate_spec {s s' : State} {ctx : Addr} {shm shm' : SharedMemory} {res : Result}
    (hf : badFlags shm.flags = false) (hz : (Fate.untouched).left shm)
    (h : teecAllocateSharedMemory s ctx shm = (res, shm', s')) :
    (tempFate s ctx shm.size s.allocs).left shm' ∧
      s'.calls = s.calls ++ (tempFate s ctx shm.size s.allocs).acquired ∧
      Same s s' ∧ (res = success ↔ ctx ≠ 0 ∧ (mapAt s ctx s.allocs).isSome) ∧
      (ctx ≠ 0 → s'.allocs = s.allocs + 1) := by
  unfold teecAllocateSharedMemory at h
  by_cases hc : ctx = 0
  · rw [if_pos hc] at h
    cases h
    simp only [tempFate, hc, if_true]
    exact ⟨hz, by simp [Fate.acquired], ⟨rfl, rfl, rfl⟩, by simp [errorBadParameters, success], by simp⟩
  simp only [if_neg hc, hf, Bool.false_eq_true, if_false] at h
  unfold State.mmap at h
  cases hm : mapAt s ctx s.allocs with
  | none =>
    have hm' : (if (s.contexts ctx).fd < 0 then none else s.env.mmap s.allocs) = none := hm
    simp only [hm'] at h
    cases h
    simp only [tempFate, hc, if_false, hm]
    exact ⟨rfl, rfl, ⟨rfl, rfl, rfl⟩, by simp [errorOutOfMemory, success], fun _ => rfl⟩
  | some a =>
    have hm' : (if (s.contexts ctx).fd < 0 then none else s.env.mmap s.allocs) = some a := hm
    simp only [hm', teecShmGetId] at h
    cases h
    simp only [tempFate, hc, if_false, hm]
    have hfd : 0 ≤ (s.contexts ctx).fd ∧ s.env.mmap s.allocs = some a := by
      split at hm'
      · simp at hm'
      · exact ⟨by omega, hm'⟩
    refine ⟨⟨rfl, rfl, rfl, rfl, rfl, s.env.mmap_ne _ _ hfd.2, hfd.1⟩, ?_, ⟨rfl, rfl, rfl⟩,
      by simp [hc], fun _ => rfl⟩
    simp [Fate.acquired, State.log]

/-! ## The loop over the slots -/

section Slots
variable {s : State} {ctx : Addr} {op : Operation} {k : Nat} {p p' : Prep} {res : Result}

/-- The slots below `k` met their fates, and no other was touched. -/
structure Ledger (s : State) (ctx : Addr) (op : Operation) (k : Nat) (p : Prep) : Prop where
  calls : p.st.calls = s.calls ++ (fates s ctx op k).flatMap Fate.acquired
  shms : ∀ n < k, op.isTemp n = true → (fate s ctx op n).left (p.shms n)
  rest : ∀ n, k ≤ n → p.shms n = {}

/-- Slot `k` will be processed as the state before the call foretells. -/
structure Ready (s : State) (op : Operation) (k : Nat) (p : Prep) : Prop where
  same : Same s p.st
  allocs : p.st.allocs = allocIndex s op k

theorem fates_succ : fates s ctx op (k + 1) =
    fates s ctx op k ++ if op.isTemp k then [fate s ctx op k] else [] := by
  rw [fates, fates, List.range_succ, List.filter_append, List.map_append]
  cases h : op.isTemp k <;> simp [h]

theorem allocIndex_succ : allocIndex s op (k + 1) = allocIndex s op k + if op.isTemp k then 1 else 0 := by
  rw [allocIndex, allocIndex, List.range_succ, List.filter_append, List.length_append]
  cases h : op.isTemp k
  · simp [h]
  · simp [h]
    omega

/-- A slot that is no temporary reference leaves the ledger as it is. -/
theorem Ledger.skip (hl : Ledger s ctx op k p) (hn : op.isTemp k = false) (hc : p'.st.calls = p.st.calls)
    (hs : p'.shms = p.shms) : Ledger s ctx op (k + 1) p' := by
  constructor
  · rw [hc, hl.calls, fates_succ, hn]
    simp
  · intro n hnk ht
    have hne : n ≠ k := by
      intro he
      rw [he, hn] at ht
      simp at ht
    rw [hs]
    exact hl.shms n (by omega) ht
  · intro n hkn
    rw [hs]
    exact hl.rest n (by omega)

theorem Ready.skip (hr : Ready s op k p) (hn : op.isTemp k = false) (hs : Same p.st p'.st)
    (ha : p'.st.allocs = p.st.allocs) : Ready s op (k + 1) p' := by
  constructor
  · exact hr.same.trans hs
  · rw [ha, hr.allocs, allocIndex_succ, hn]
    simp

theorem Ready.mapAt (hr : Ready s op k p) (ctx : Addr) :
    mapAt p.st ctx p.st.allocs = Teec.mapAt s ctx (allocIndex s op k) := by
  rw [Teec.mapAt, Teec.mapAt, hr.same.env, hr.same.contexts, hr.allocs]

theorem same_memcpy (s : State) (dst src : Addr) (n : UInt64) : Same s (s.memcpy dst src n) := ⟨rfl, rfl, rfl⟩

theorem tempKind_flags {ty : ParamType} {flags : UInt32} {attr : UInt64} (hk : tempKind ty = some (flags, attr)) :
    badFlags flags = false := by
  cases ty <;> simp only [tempKind, Option.some.injEq, Prod.mk.injEq, reduceCtorEq] at hk <;>
    obtain ⟨rfl, _⟩ := hk <;> decide

theorem tmpref_spec {s s' : State} {ty : ParamType} {tmpref : TempMemoryReference} {param param' : IoctlParam}
    {shm' : SharedMemory} {flags : UInt32} {attr : UInt64} (hk : tempKind ty = some (flags, attr))
    (h : teecPreProcessTmpref s ctx ty tmpref param {} = (res, param', shm', s')) :
    (tempFate s ctx tmpref.size s.allocs).left shm' ∧
      s'.calls = s.calls ++ (tempFate s ctx tmpref.size s.allocs).acquired ∧
      Same s s' ∧ (res = success ↔ ctx ≠ 0 ∧ (mapAt s ctx s.allocs).isSome) ∧
      (ctx ≠ 0 → s'.allocs = s.allocs + 1) := by
  have hflags := tempKind_flags hk
  unfold teecPreProcessTmpref at h
  simp only [hk] at h
  cases ha : teecAllocateSharedMemory s ctx { flags, size := tmpref.size } with
  | mk r t =>
    obtain ⟨shm₁, s₁⟩ := t
    have hspec := allocate_spec hflags ⟨rfl, rfl, rfl, rfl⟩ ha
    rw [ha] at h
    simp only at h
    split at h
    · cases h
      exact hspec
    next hok =>
      cases h
      simp only [ne_eq, not_not] at hok
      rw [hok] at hspec
      obtain ⟨hleft, hcalls, hsame, hres, hallocs⟩ := hspec
      exact ⟨hleft, hcalls, hsame.trans (same_memcpy ..), hres, hallocs⟩

theorem preWhole_spec (s : State) (memref : RegisteredMemoryReference) (param : IoctlParam) :
    let r := teecPreProcessWhole s memref param
    Same s r.2.2 ∧ r.2.2.calls = s.calls ∧ r.2.2.allocs = s.allocs ∧
      (r.1 = success ↔ (s.blocks memref.parent).flags &&& (memInput ||| memOutput) ≠ 0) := by
  unfold teecPreProcessWhole
  simp only
  split
  next hz => exact ⟨⟨rfl, rfl, rfl⟩, rfl, rfl, by simp [hz, errorBadParameters, success]⟩
  next hnz =>
    refine ⟨?_, ?_, ?_, by simp [hnz]⟩ <;> dsimp only <;> split
    · exact same_memcpy ..
    · exact ⟨rfl, rfl, rfl⟩
    all_goals rfl

theorem prePartial_spec (s : State) (ty : ParamType) (memref : RegisteredMemoryReference)
    (param : IoctlParam) {req : UInt32} {attr : UInt64} (hk : partialKind ty = some (req, attr)) :
    let r := teecPreProcessPartial s ty memref param
    Same s r.2.2 ∧ r.2.2.calls = s.calls ∧ r.2.2.allocs = s.allocs ∧
      (r.1 = success ↔ (s.blocks memref.parent).flags &&& req = req) := by
  unfold teecPreProcessPartial
  simp only [hk]
  split
  next hz => exact ⟨⟨rfl, rfl, rfl⟩, rfl, rfl, by simp [hz, errorBadParameters, success]⟩
  next hnz =>
    refine ⟨?_, ?_, ?_, by simpa using hnz⟩ <;> dsimp only <;> split
    · exact same_memcpy ..
    · exact ⟨rfl, rfl, rfl⟩
    all_goals rfl

section Temp
variable {ty : ParamType} {flags : UInt32} {attr : UInt64} (hty : op.type k = some ty)
  (hkind : tempKind ty = some (flags, attr))
include hty hkind

theorem isTemp_of_tempKind : op.isTemp k = true := by
  cases ty <;> simp [tempKind] at hkind <;> simp [Operation.isTemp, hty]

theorem passes_temp_iff : passes s ctx op k = true ↔ ctx ≠ 0 ∧ (mapAt s ctx (allocIndex s op k)).isSome := by
  cases ty <;> simp [tempKind] at hkind <;> simp [passes, hty]

theorem tempSlot_eq (p : Prep) : preProcessSlot ctx op k p =
    let r := teecPreProcessTmpref p.st ctx ty (op.params k).tmpref (p.params k) (p.shms k)
    (r.1, ⟨Function.update p.params k r.2.1, Function.update p.shms k r.2.2.1, r.2.2.2⟩) := by
  cases ty <;> simp [tempKind] at hkind <;> simp [preProcessSlot, hty]

/-- One round for a temporary slot. -/
theorem tempSlot_spec (hl : Ledger s ctx op k p) (hr : Ready s op k p)
    (hk : reached s ctx op k) (h : preProcessSlot ctx op k p = (res, p')) :
    Ledger s ctx op (k + 1) p' ∧ (res = success → Ready s op (k + 1) p') ∧
      (res = success ↔ passes s ctx op k = true) := by
  have htemp := isTemp_of_tempKind hty hkind
  have hfate : fate s ctx op k = tempFate s ctx (op.params k).tmpref.size (allocIndex s op k) := if_pos hk
  cases ht : teecPreProcessTmpref p.st ctx ty (op.params k).tmpref (p.params k) (p.shms k) with
  | mk r t =>
    obtain ⟨param', shm', s'⟩ := t
    rw [tempSlot_eq hty hkind, ht] at h
    cases h
    rw [hl.rest k (le_refl k)] at ht
    obtain ⟨hleft, hcalls, hsame, hres, hallocs⟩ := tmpref_spec hkind ht
    rw [hr.same.tempFate, hr.allocs, ← hfate] at hleft hcalls
    rw [hr.mapAt] at hres
    refine ⟨⟨?_, ?_, ?_⟩, ?_, hres.trans (passes_temp_iff hty hkind).symm⟩
    · show s'.calls = _
      rw [hcalls, hl.calls, fates_succ, htemp]
      simp
    · intro n hn hnt
      by_cases hnk : n = k
      · subst hnk
        simpa using hleft
      · simpa [Function.update_of_ne hnk] using hl.shms n (by omega) hnt
    · intro n hn
      have hnk : n ≠ k := by omega
      simpa [Function.update_of_ne hnk] using hl.rest n (by omega)
    · intro hs
      have hc := (hres.mp hs).1
      refine ⟨hr.same.trans hsame, ?_⟩
      show s'.allocs = _
      rw [hallocs hc, hr.allocs, allocIndex_succ, htemp]
      simp

end Temp

/-- One round of the loop, whatever the slot. -/
theorem slot_spec (hl : Ledger s ctx op k p) (hr : Ready s op k p) (hk : reached s ctx op k)
    (h : preProcessSlot ctx op k p = (res, p')) :
    Ledger s ctx op (k + 1) p' ∧ (res = success → Ready s op (k + 1) p') ∧
      (res = success ↔ passes s ctx op k = true) := by
  cases hty : op.type k with
  | none =>
    have hn : op.isTemp k = false := by simp [Operation.isTemp, hty]
    simp only [preProcessSlot, hty] at h
    cases h
    refine ⟨hl.skip hn rfl rfl, ?_, ?_⟩ <;> simp [passes, hty, errorBadParameters, success]
  | some ty =>
    cases hkind : tempKind ty with
    | some fa => exact tempSlot_spec hty hkind hl hr hk h
    | none =>
      have hn : op.isTemp k = false := by
        cases ty <;> simp [tempKind] at hkind <;> simp [Operation.isTemp, hty]
      -- what is left are the types that make no allocation
      have hround : Same p.st p'.st ∧ p'.st.calls = p.st.calls ∧ p'.st.allocs = p.st.allocs ∧
          p'.shms = p.shms ∧ (res = success ↔ passes s ctx op k = true) := by
        have hblocks := hr.same.blocks
        cases ty <;> simp only [tempKind, reduceCtorEq] at hkind <;> simp only [preProcessSlot, hty] at h
        case none | valueInput | valueOutput | valueInout =>
          cases h
          exact ⟨⟨rfl, rfl, rfl⟩, rfl, rfl, rfl, by simp [passes, hty]⟩
        case whole =>
          cases h
          obtain ⟨hs, hc, ha, hres⟩ := preWhole_spec p.st (op.params k).memref (p.params k)
          exact ⟨hs, hc, ha, rfl, by simpa [passes, hty, hblocks] using hres⟩
        case partialInput =>
          cases h
          obtain ⟨hs, hc, ha, hres⟩ := prePartial_spec p.st .partialInput (op.params k).memref (p.params k) rfl
          exact ⟨hs, hc, ha, rfl, by simpa [passes, hty, hblocks] using hres⟩
        case partialOutput =>
          cases h
          obtain ⟨hs, hc, ha, hres⟩ := prePartial_spec p.st .partialOutput (op.params k).memref (p.params k) rfl
          exact ⟨hs, hc, ha, rfl, by simpa [passes, hty, hblocks] using hres⟩
        case partialInout =>
          cases h
          obtain ⟨hs, hc, ha, hres⟩ := prePartial_spec p.st .partialInout (op.params k).memref (p.params k) rfl
          exact ⟨hs, hc, ha, rfl, by simpa [passes, hty, hblocks] using hres⟩
      obtain ⟨hs, hc, ha, hshms, hres⟩ := hround
      exact ⟨hl.skip hn hc hshms, fun _ => hr.skip hn hs ha, hres⟩

/-- Slots beyond one that stops pre-processing stay untouched. -/
theorem Ledger.stop (hl : Ledger s ctx op k p) (m : Nat) (hstop : ¬ reached s ctx op k) :
    Ledger s ctx op (k + m) p := by
  induction m with
  | zero => exact hl
  | succ m ih =>
    have hun : fate s ctx op (k + m) = .untouched :=
      if_neg fun h => hstop ⟨h.1, fun j hj => h.2 j (by omega)⟩
    constructor
    · rw [ih.calls, ← Nat.add_assoc, fates_succ, hun]
      cases op.isTemp (k + m) <;> simp [Fate.acquired]
    · intro n hn ht
      by_cases hnk : n = k + m
      · rw [hnk, hun, ih.rest (k + m) (le_refl _)]
        exact ⟨rfl, rfl, rfl, rfl⟩
      · exact ih.shms n (by omega) ht
    · intro n hn
      exact ih.rest n (by omega)

/-- The loop, as a rule: what it comes to when no slot is left, when a slot stops
it, and when the slot passes and the rest follows. -/
theorem slots_rule {Q : Nat → Nat → Prep → Result × Prep → Prop}
    (nil : ∀ k p, Ledger s ctx op k p → reached s ctx op k → Q k 0 p (success, p))
    (stop : ∀ k n p res p', Ledger s ctx op k p → Ready s op k p → reached s ctx op k →
      preProcessSlot ctx op k p = (res, p') → Ledger s ctx op (k + 1) p' → res ≠ success →
      ¬ reached s ctx op (k + 1) → Q k (n + 1) p (res, p'))
    (next : ∀ k n p p' r, Ledger s ctx op k p → Ready s op k p → reached s ctx op k →
      preProcessSlot ctx op k p = (success, p') → Ready s op (k + 1) p' → reached s ctx op (k + 1) →
      Q (k + 1) n p' r → Q k (n + 1) p r)
    (n k : Nat) (p : Prep) (hl : Ledger s ctx op k p) (hr : Ready s op k p) (hk : reached s ctx op k) :
    Q k n p (preProcessSlots ctx op (List.range' k n) p) := by
  induction n generalizing k p with
  | zero => exact nil k p hl hk
  | succ n ih =>
    cases hslot : preProcessSlot ctx op k p with
    | mk res p' =>
      obtain ⟨hl', hr', hpass⟩ := slot_spec hl hr hk hslot
      simp only [List.range'_succ, preProcessSlots, hslot]
      split
      next hfail =>
        exact stop k n p res p' hl hr hk hslot hl' hfail fun h => hfail (hpass.mpr (reached_succ.mp h).2)
      next hok =>
        simp only [ne_eq, not_not] at hok
        have hnext : reached s ctx op (k + 1) := reached_succ.mpr ⟨hk, hpass.mp hok⟩
        rw [hok] at hslot
        exact next k n p p' _ hl hr hk hslot (hr' hok) hnext (ih (k + 1) p' hl' (hr' hok) hnext)

/-- What pre-processing starts with. -/
def Prep.start (s : State) : Prep := ⟨fun _ => {}, fun _ => {}, s⟩

theorem ledger_start (s : State) (ctx : Addr) (op : Operation) : Ledger s ctx op 0 (.start s) :=
  ⟨by simp [fates, Prep.start], fun n hn => absurd hn (by omega), fun _ _ => rfl⟩

theorem ready_start (s : State) (op : Operation) : Ready s op 0 (.start s) :=
  ⟨⟨rfl, rfl, rfl⟩, by simp [allocIndex, Prep.start]⟩

/-- Types that say more than four slots are refused; else it is the loop. -/
theorem preProcess_cases (s : State) (ctx : Addr) (op : Operation) :
    (¬ reached s ctx op 0 ∧ teecPreProcessOperation s ctx (some op) = (errorBadParameters, .start s)) ∨
      (reached s ctx op 0 ∧ teecPreProcessOperation s ctx (some op) =
        preProcessSlots ctx op (List.range' 0 payloadRefCount) (.start s)) := by
  unfold teecPreProcessOperation
  dsimp only
  split
  next hbig => exact .inl ⟨fun h => absurd h.1 (UInt32.not_le.mpr hbig), rfl⟩
  next hsmall =>
    rw [← List.range_eq_range']
    exact .inr ⟨⟨UInt32.not_lt.mp hsmall, fun j hj => absurd hj (by omega)⟩, rfl⟩

theorem preProcess_spec (h : teecPreProcessOperation s ctx (some op) = (res, p)) :
    Ledger s ctx op payloadRefCount p := by
  have hl := ledger_start s ctx op
  rcases preProcess_cases s ctx op with ⟨hstop, heq⟩ | ⟨hk, heq⟩
  · cases heq.symm.trans h
    simpa using hl.stop payloadRefCount hstop
  · have hloop : Ledger s ctx op (0 + payloadRefCount) (preProcessSlots ctx op (List.range' 0 payloadRefCount)
        (.start s)).2 := by
      refine slots_rule (Q := fun k n _ r => Ledger s ctx op (k + n) r.2) ?_ ?_ ?_ _ _ _ hl (ready_start s op) hk
      · intro k p hl _
        exact hl
      · intro k n p res p' _ _ _ _ hl' _ hstop
        rw [show k + (n + 1) = k + 1 + n by omega]
        exact hl'.stop n hstop
      · intro k n p p' r _ _ _ _ _ _ hq
        rw [show k + (n + 1) = k + 1 + n by omega]
        exact hq
    rw [← heq, h] at hloop
    simpa using hloop

end Slots

/-! ## After the TEE was asked -/

section After
variable {s : State} {ctx : Addr} {op : Operation} {shms : Nat → SharedMemory}

theorem postSlot_spec (params : Nat → IoctlParam) (shms : Nat → SharedMemory) (r : Operation × State) (n : Nat) :
    (postProcessSlot params shms r n).1.paramTypes = r.1.paramTypes ∧
      (postProcessSlot params shms r n).2.calls = r.2.calls := by
  obtain ⟨op, s⟩ := r
  unfold postProcessSlot teecPostProcessTmpref teecPostProcessWhole teecPostProcessPartial
  dsimp only
  split <;> (try split) <;> (try split) <;> exact ⟨rfl, rfl⟩

theorem postSlots_spec (params : Nat → IoctlParam) (shms : Nat → SharedMemory) (ns : List Nat)
    (r : Operation × State) :
    (ns.foldl (postProcessSlot params shms) r).1.paramTypes = r.1.paramTypes ∧
      (ns.foldl (postProcessSlot params shms) r).2.calls = r.2.calls := by
  induction ns generalizing r with
  | nil => exact ⟨rfl, rfl⟩
  | cons n ns ih =>
    obtain ⟨hty, hcalls⟩ := postSlot_spec params shms r n
    obtain ⟨hty', hcalls'⟩ := ih (postProcessSlot params shms r n)
    exact ⟨hty'.trans hty, hcalls'.trans hcalls⟩

theorem freeSlots_spec {g : Nat → Fate} (ns : List Nat)
    (h : ∀ n ∈ ns, op.isTemp n = true → (g n).left (shms n)) :
    (ns.foldl (fun s n => if op.isTemp n then (teecReleaseSharedMemory s (shms n)).2 else s) s).calls =
      s.calls ++ ((ns.filter op.isTemp).map g).flatMap Fate.given := by
  induction ns generalizing s with
  | nil => simp
  | cons n ns ih =>
    have hrest : ∀ m ∈ ns, op.isTemp m = true → (g m).left (shms m) :=
      fun m hm => h m (List.mem_cons_of_mem n hm)
    rw [List.foldl_cons, ih hrest]
    cases ht : op.isTemp n with
    | false => simp [ht]
    | true =>
      simp only [if_true]
      rw [release_calls (h n List.mem_cons_self ht)]
      simp [ht]

/-- The types decide which blocks are freed. -/
theorem freeTempRefs_calls {op' : Operation} (hty : op'.paramTypes = op.paramTypes)
    (h : ∀ n < payloadRefCount, op.isTemp n = true → (fate s ctx op n).left (shms n)) (s' : State) :
    (teecFreeTempRefs s' (some op') shms).calls =
      s'.calls ++ (fates s ctx op payloadRefCount).flatMap Fate.given := by
  have htemp : op'.isTemp = op.isTemp := by
    funext n
    simp only [Operation.isTemp, Operation.type, hty]
  simp only [teecFreeTempRefs, htemp]
  exact freeSlots_spec _ fun n hn => h n (List.mem_range.mp hn)

end After

theorem askTee_calls (s : State) (fd : Int) (c : Call) : (s.askTee fd c).2.calls = s.calls ++ [c] := by
  unfold State.askTee
  dsimp only
  split <;> rfl

/-- The calls of an exchange: the fates of its temporary slots, around at most
the one call to the TEE. -/
theorem exchange_calls (s : State) (ctx : Addr) (call : Call) (op : Operation) (answered : Reply → State → State)
    (ha : ∀ r s, (answered r s).calls = s.calls) :
    ∃ mid, (mid = [] ∨ mid = [call]) ∧
      (exchange s ctx call (some op) answered).st.calls =
        s.calls ++ ledger (fates s ctx op payloadRefCount) mid := by
  unfold exchange
  cases hpre : teecPreProcessOperation s ctx (some op) with
  | mk res p =>
    have hl := preProcess_spec hpre
    dsimp only
    split
    next hfail =>
      refine ⟨[], .inl rfl, ?_⟩
      rw [freeTempRefs_calls rfl hl.shms, hl.calls]
      simp [ledger]
    next hok =>
      refine ⟨[call], .inr rfl, ?_⟩
      have hasked := askTee_calls p.st (p.st.contexts ctx).fd call
      cases hask : p.st.askTee (p.st.contexts ctx).fd call with
      | mk answer s' =>
        rw [hask] at hasked
        cases answer with
        | error e =>
          dsimp only
          rw [freeTempRefs_calls rfl hl.shms, hasked, hl.calls]
          simp [ledger]
        | ok r =>
          dsimp only [teecPostProcessOperation]
          obtain ⟨hty, hcalls⟩ :=
            postSlots_spec r.params p.shms (List.range payloadRefCount) (op, answered r s')
          rw [freeTempRefs_calls hty hl.shms, hcalls, ha, hasked, hl.calls]
          simp [ledger]

/-- Without an operation nothing is acquired. -/
theorem exchange_none_calls (s : State) (ctx : Addr) (call : Call) (answered : Reply → State → State)
    (ha : ∀ r s, (answered r s).calls = s.calls) :
    (exchange s ctx call none answered).st.calls = s.calls ++ [call] := by
  have hasked := askTee_calls s (s.contexts ctx).fd call
  simp only [exchange, teecPreProcessOperation, ne_eq, not_true_eq_false, if_false]
  cases hask : s.askTee (s.contexts ctx).fd call with
  | mk answer s' =>
    rw [hask] at hasked
    cases answer with
    | error e => exact hasked
    | ok r => exact (ha r s').trans hasked

/-! ## The condition -/

/-- Every temporary slot is reached, and a block mapped for it is given an id. -/
def TempRefsReached (s : State) (ctx : Addr) (op : Operation) : Prop :=
  ∀ n < payloadRefCount, op.isTemp n = true →
    reached s ctx op n ∧ ctx ≠ 0 ∧
      ((mapAt s ctx (allocIndex s op n)).isSome → 0 ≤ s.env.shmId (allocIndex s op n))

theorem clean_fate_iff {s : State} {ctx : Addr} {op : Operation} {n : Nat} :
    (fate s ctx op n).clean ↔ reached s ctx op n ∧ ctx ≠ 0 ∧
      ((mapAt s ctx (allocIndex s op n)).isSome → 0 ≤ s.env.shmId (allocIndex s op n)) := by
  unfold fate
  split
  next hr =>
    unfold tempFate
    split
    next hc => simp [Fate.clean, hc]
    next hc =>
      dsimp only
      cases hm : mapAt s ctx (allocIndex s op n) with
      | none => simp [Fate.clean, hr, hc]
      | some a =>
        dsimp only [Fate.clean]
        simp only [hr, hc, true_and, ne_eq, not_false_eq_true, Option.isSome_some, forall_const]
        split <;> omega
  next hr => simp [Fate.clean, hr]

/-- The calls made since `s` settle what they acquired. -/
def SettledSince (s s' : State) : Prop := ∃ new, s'.calls = s.calls ++ new ∧ Settled new

theorem settledSince_iff {s s' : State} {new : List Call} (h : s'.calls = s.calls ++ new) :
    SettledSince s s' ↔ Settled new := by
  constructor
  · intro hs
    obtain ⟨new', hnew, hsettled⟩ := hs
    rwa [List.append_cancel_left (h.symm.trans hnew)]
  · exact fun hs => ⟨new, h, hs⟩

theorem settled_neutral {c : Call} (h : c.neutral) : Settled [c] := by
  have hmid : ∀ d ∈ [c], d.neutral := by simpa using h
  have hs : Settled (ledger [] [c]) ↔ _ := settled_iff hmid
  simpa [ledger] using hs

theorem exchange_settled_iff (s : State) (ctx : Addr) {call : Call} (hcall : call.neutral)
    (op : Option Operation) (answered : Reply → State → State) (ha : ∀ r s, (answered r s).calls = s.calls) :
    SettledSince s (exchange s ctx call op answered).st ↔ ∀ o, op = some o → TempRefsReached s ctx o := by
  cases op with
  | none =>
    rw [settledSince_iff (exchange_none_calls s ctx call answered ha)]
    simpa using settled_neutral hcall
  | some op =>
    obtain ⟨mid, hmid, hcalls⟩ := exchange_calls s ctx call op answered ha
    have hneutral : ∀ c ∈ mid, c.neutral := by
      intro c hc
      rcases hmid with rfl | rfl
      · simp at hc
      · rwa [List.mem_singleton.mp hc]
    rw [settledSince_iff hcalls, settled_iff hneutral]
    rw [fates, List.forall_mem_map]
    simp only [List.mem_filter, List.mem_range, and_imp, clean_fate_iff, Option.some.injEq, forall_eq',
      TempRefsReached]

/-- A call of TEEC_InvokeCommand or TEEC_OpenSession gives back just what it
acquired if and only if it is turned away at once, or it has no operation, or
its pre-processing reaches every temporary slot and the kernel gives every
block mapped for one an id. -/
theorem temp_refs_settled_iff (s : State) (op : Option Operation) :
    (∀ (session : Addr) (cmd : UInt32),
      SettledSince s (teecInvokeCommand s session cmd op).st ↔
        session = 0 ∨ ∀ o, op = some o → TempRefsReached s (s.sessions session).ctx o) ∧
    (∀ (ctx session : Addr) (login : Login) (data : Addr),
      SettledSince s (teecOpenSession s ctx session login data op).st ↔
        (ctx = 0 ∨ session = 0 ∨ checkLogin login data ≠ .ok ()) ∨
          ∀ o, op = some o → TempRefsReached s ctx o) := by
  have hnothing : SettledSince s s := ⟨[], by simp, .refl _, .refl _, rfl⟩
  constructor
  · intro session cmd
    unfold teecInvokeCommand
    split
    next hz => simp [hz, hnothing]
    next hz =>
      dsimp only
      rw [exchange_settled_iff s _ ⟨rfl, rfl, rfl, rfl, rfl⟩ _ _ (fun _ _ => rfl)]
      cases op with
      | none => simp
      | some o =>
        simp only [Option.map_some, Option.some.injEq, forall_eq', hz, false_or]
        exact Iff.rfl
  · intro ctx session login data
    unfold teecOpenSession
    split
    next hz => simp [hnothing, or_assoc.symm, hz]
    next hz =>
      simp only [not_or] at hz
      split
      next res origin he => simp [he, hnothing]
      next he =>
        -- the session map changes, but no call is made for it
        have hcalls : ∀ (out : Outcome) (m : KeySet Ref),
            SettledSince s (if out.res = success then { out with st := { out.st with sessionMap := m } }
              else out).st ↔ SettledSince s out.st := by
          intro out m
          split <;> exact Iff.rfl
        dsimp only
        rw [hcalls, exchange_settled_iff s ctx ⟨rfl, rfl, rfl, rfl, rfl⟩ _ _ ?_]
        · simp [he, hz]
        · intro r s
          split <;> rfl

/-- An operation whose parameter types say more than four slots, and whose first
slot is a temporary reference. -/
def wideOperation : Operation := ⟨0x10005, fun _ => {}, 0⟩

/-- Refused before any slot was processed, the operation still has its first
block released: descriptor 0 is closed. -/
theorem refused_operation_closes_fd :
    ¬ SettledSince oneSession (teecInvokeCommand oneSession 0x20 1 (some wideOperation)).st := by
  intro h
  obtain ⟨new, hcalls, hsettled⟩ := h
  have hnew : new = [.close 0, .shmRelease 0 0] := by
    have hc : (teecInvokeCommand oneSession 0x20 1 (some wideOperation)).st.calls =
        oneSession.calls ++ [.close 0, .shmRelease 0 0] := by decide
    exact List.append_cancel_left (hcalls.symm.trans hc)
  rw [hnew] at hsettled
  exact absurd hsettled.closed (by decide)

end Teec
