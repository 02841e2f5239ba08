/-
The life of a shared memory block.

A block is allocated, or registered for a buffer of the client, and released.
What the library holds for it is told by its fields alone: the release takes an
id of -1 for a block that is not held, and believes every other. A block the
kernel gave no id has -1 though it is mapped, and one that was refused for its
flags keeps whatever the client had put in the fields.
-/
import Microtrust.Teec.TempRefs

namespace Teec

open Lib

/-- The two ways to get a block. -/
inductive Origin where
  | allocated
  | registered
deriving DecidableEq

namespace Origin

def get : Origin → State → Addr → SharedMemory → Result × SharedMemory × State
  | .allocated => teecAllocateSharedMemory
  | .registered => teecRegisterSharedMemory

/-- What is asked of the arguments. -/
def accepts (o : Origin) (ctx : Addr) (shm : SharedMemory) : Prop :=
  ctx ≠ 0 ∧ badFlags shm.flags = false ∧ (o = .registered → shm.buffer ≠ 0)

instance (o : Origin) (ctx : Addr) (shm : SharedMemory) : Decidable (o.accepts ctx shm) :=
  inferInstanceAs (Decidable (_ ∧ _))

end Origin

/-- How much is mapped for a block of this size. -/
def mappedSize (size : UInt64) : UInt64 := if size = 0 then 8 else size

theorem le_mappedSize (size : UInt64) : size ≤ mappedSize size := by
  unfold mappedSize
  split
  · next h =>
    rw [h]
    decide
  · exact UInt64.le_refl size

/-- The block once it is mapped at `a`. -/
def Origin.hold (o : Origin) (shm : SharedMemory) (fd : Int) (a : Addr) (id : Int) : SharedMemory :=
  match o with
  | .allocated =>
    { shm with buffer := a, shadowBuffer := 0, allocedSize := mappedSize shm.size, registeredFd := fd, id }
  | .registered => { shm with shadowBuffer := a, allocedSize := mappedSize shm.size, registeredFd := fd, id }

/-! ## Getting a block -/

section Get

variable {o : Origin} {s : State} {ctx : Addr} {shm : SharedMemory}

theorem get_refused (h : ¬ o.accepts ctx shm) : o.get s ctx shm = (errorBadParameters, shm, s) := by
  simp only [Origin.accepts, not_and_or, not_not, Bool.not_eq_false] at h
  cases o with
  | allocated =>
    unfold Origin.get teecAllocateSharedMemory
    rcases h with h | h | h
    · simp [h]
    · simp [h]
    · simp at h
  | registered =>
    unfold Origin.get teecRegisterSharedMemory
    rcases h with h | h | h
    · simp [h]
    · simp [h]
    · simp at h
      simp [h]

theorem mmap_none (h : mapAt s ctx s.allocs = none) (len : UInt64) :
    s.mmap (s.contexts ctx).fd len =
      (none, { s with allocs := s.allocs + 1 }.log (.mmap (s.contexts ctx).fd len none)) := by
  have h' : (if (s.contexts ctx).fd < 0 then none else s.env.mmap s.allocs) = none := h
  simp only [State.mmap, h']

theorem mmap_some {a : Addr} (h : mapAt s ctx s.allocs = some a) (len : UInt64) :
    s.mmap (s.contexts ctx).fd len = (some a,
      { { s with allocs := s.allocs + 1 }.log (.mmap (s.contexts ctx).fd len (some a)) with
        maps := s.maps ++ [(a, len)] }) := by
  have h' : (if (s.contexts ctx).fd < 0 then none else s.env.mmap s.allocs) = some a := h
  simp only [State.mmap, h']
  rfl

/-- The kernel had no memory: the block is marked as not held. -/
theorem get_unmapped (h : o.accepts ctx shm) (hm : mapAt s ctx s.allocs = none) :
    ∃ shm', shm'.id = -1 ∧ o.get s ctx shm = (errorOutOfMemory, shm',
      { s with allocs := s.allocs + 1 }.log (.mmap (s.contexts ctx).fd (mappedSize shm.size) none)) := by
  obtain ⟨hc, hf, hb⟩ := h
  have hlen : (if shm.size = 0 then 8 else shm.size) = mappedSize shm.size := rfl
  cases o with
  | allocated =>
    simp only [Origin.get, teecAllocateSharedMemory, if_neg hc, hf, Bool.false_eq_true, if_false, hlen, mmap_none hm]
    exact ⟨_, rfl, rfl⟩
  | registered =>
    simp only [Origin.get, teecRegisterSharedMemory, if_neg hc, hf, Bool.false_eq_true, if_false, if_neg (hb rfl), hlen,
      mmap_none hm]
    exact ⟨_, rfl, rfl⟩

/-- The id the kernel has for the next block, or -1. -/
def nextId (s : State) : Int := if s.env.shmId s.allocs < 0 then -1 else s.env.shmId s.allocs

theorem get_mapped {a : Addr} (h : o.accepts ctx shm) (hm : mapAt s ctx s.allocs = some a) :
    o.get s ctx shm = (success, o.hold shm (s.contexts ctx).fd a (nextId s), { s with
      allocs := s.allocs + 1
      maps := s.maps ++ [(a, mappedSize shm.size)]
      calls := s.calls ++ [.mmap (s.contexts ctx).fd (mappedSize shm.size) (some a),
        .shmId (s.contexts ctx).fd a (nextId s)] }) := by
  obtain ⟨hc, hf, hb⟩ := h
  have hlen : (if shm.size = 0 then 8 else shm.size) = mappedSize shm.size := rfl
  cases o with
  | allocated =>
    simp only [Origin.get, teecAllocateSharedMemory, if_neg hc, hf, Bool.false_eq_true, if_false, hlen,
      mmap_some hm, teecShmGetId]
    simp [State.log, nextId, Origin.hold]
  | registered =>
    simp only [Origin.get, teecRegisterSharedMemory, if_neg hc, hf, Bool.false_eq_true, if_false, if_neg (hb rfl),
      hlen, mmap_some hm, teecShmGetId]
    simp [State.log, nextId, Origin.hold]

theorem nextId_nonneg : 0 ≤ nextId s ↔ 0 ≤ s.env.shmId s.allocs := by
  unfold nextId
  split
  · omega
  · omega

/-- A descriptor through which something was mapped is one. -/
theorem fd_of_mapped {a : Addr} (h : mapAt s ctx s.allocs = some a) : 0 ≤ (s.contexts ctx).fd ∧ a ≠ 0 := by
  unfold mapAt at h
  split at h
  · cases h
  · exact ⟨by omega, s.env.mmap_ne _ _ h⟩

end Get

/-! ## Releasing it -/

/-- Nothing is done for a block that is not held. -/
theorem release_eq_iff (s : State) (shm : SharedMemory) :
    teecReleaseSharedMemory s shm = (shm, s) ↔ shm.id = -1 ∨ shm.registeredFd < 0 := by
  unfold teecReleaseSharedMemory
  split
  · next h => simp [h]
  next hid =>
  dsimp only
  split
  · next h => simp [h]
  next hfd =>
  constructor
  · intro h
    -- the block that comes out has the id -1
    exact .inl (congrArg (fun x => x.1.id) h).symm
  · intro h
    exact absurd h (by simp [hid, hfd])

/-- The block that comes out of a release is not held. -/
theorem release_release (s : State) (shm : SharedMemory) :
    teecReleaseSharedMemory (teecReleaseSharedMemory s shm).2 (teecReleaseSharedMemory s shm).1 =
      ((teecReleaseSharedMemory s shm).1, (teecReleaseSharedMemory s shm).2) := by
  rw [release_eq_iff]
  unfold teecReleaseSharedMemory
  split
  · next h => exact .inl h
  dsimp only
  split
  · next h => exact .inr h
  · exact .inl rfl

/-- A held block is unmapped where and as far as it was mapped, and released. -/
theorem release_hold (o : Origin) (s : State) (shm : SharedMemory) {fd id : Int} {a : Addr} (hfd : 0 ≤ fd)
    (ha : a ≠ 0) (hid : id ≠ -1) :
    (teecReleaseSharedMemory s (o.hold shm fd a id)).2 =
        (s.munmap a (mappedSize shm.size)).log (.shmRelease fd id) ∧
      (o = .registered → (teecReleaseSharedMemory s (o.hold shm fd a id)).1.buffer = shm.buffer) := by
  have hneg : ¬ fd < 0 := by omega
  cases o with
  | allocated => simp [teecReleaseSharedMemory, Origin.hold, hid, hneg, ha]
  | registered => simp [teecReleaseSharedMemory, Origin.hold, hid, hneg, ha]

/-! ## The life cycle -/

/-- A block that was got is held under an id; its release unmaps what was mapped
and releases the id once, and a registered block keeps its buffer. A block that
was not got leaves nothing mapped, and releasing it does nothing. -/
structure LifeCycle (o : Origin) (s : State) (ctx : Addr) (shm : SharedMemory) : Prop where
  held : ∀ shm₁ s₁, o.get s ctx shm = (success, shm₁, s₁) → 0 ≤ shm₁.id ∧ ∃ fd a,
    s₁.maps = s.maps ++ [(a, shm₁.allocedSize)] ∧
    s₁.calls = s.calls ++ [.mmap fd shm₁.allocedSize (some a), .shmId fd a shm₁.id] ∧
    (teecReleaseSharedMemory s₁ shm₁).2.calls =
      s₁.calls ++ [.munmap a shm₁.allocedSize, .shmRelease fd shm₁.id] ∧
    (teecReleaseSharedMemory s₁ shm₁).2.maps.Perm s.maps ∧
    (o = .registered → (teecReleaseSharedMemory s₁ shm₁).1.buffer = shm.buffer)
  again : ∀ shm₁ s₁, o.get s ctx shm = (success, shm₁, s₁) →
    teecReleaseSharedMemory (teecReleaseSharedMemory s₁ shm₁).2 (teecReleaseSharedMemory s₁ shm₁).1 =
      ((teecReleaseSharedMemory s₁ shm₁).1, (teecReleaseSharedMemory s₁ shm₁).2)
  failed : ∀ res shm₁ s₁, o.get s ctx shm = (res, shm₁, s₁) → res ≠ success →
    s₁.maps = s.maps ∧ teecReleaseSharedMemory s₁ shm₁ = (shm₁, s₁)

section
variable {o : Origin} {s : State} {ctx : Addr} {shm : SharedMemory}

/-- A block that was not got: only its release is left to ask about. -/
theorem lifeCycle_of_failed {res : UInt32} {shm₁ : SharedMemory} {s₁ : State} (hget : o.get s ctx shm = (res, shm₁, s₁))
    (hbad : res ≠ success) (hmaps : s₁.maps = s.maps) :
    LifeCycle o s ctx shm ↔ shm₁.id = -1 ∨ shm₁.registeredFd < 0 := by
  have hnever {shm₂ : SharedMemory} {s₂ : State} (h₂ : o.get s ctx shm = (success, shm₂, s₂)) : False :=
    hbad (congrArg Prod.fst (hget.symm.trans h₂))
  refine ⟨fun h => ?_, fun h => ⟨?_, ?_, ?_⟩⟩
  · exact (release_eq_iff ..).mp (h.failed _ _ _ hget hbad).2
  · intro _ _ h₂
    exact (hnever h₂).elim
  · intro _ _ h₂
    exact (hnever h₂).elim
  · intro _ _ _ h₂ _
    cases hget.symm.trans h₂
    exact ⟨hmaps, (release_eq_iff ..).mpr h⟩

theorem lifeCycle_refused (h : ¬ o.accepts ctx shm) :
    LifeCycle o s ctx shm ↔ shm.id = -1 ∨ shm.registeredFd < 0 :=
  lifeCycle_of_failed (get_refused h) (by decide) rfl

theorem lifeCycle_unmapped (h : o.accepts ctx shm) (hm : mapAt s ctx s.allocs = none) : LifeCycle o s ctx shm := by
  obtain ⟨shm₁, hid, hget⟩ := get_unmapped h hm
  exact (lifeCycle_of_failed hget (by decide) rfl).mpr (.inl hid)

theorem lifeCycle_mapped {a : Addr} (h : o.accepts ctx shm) (hm : mapAt s ctx s.allocs = some a) :
    LifeCycle o s ctx shm ↔ 0 ≤ s.env.shmId s.allocs := by
  have hget := get_mapped h hm
  obtain ⟨hfd, ha⟩ := fd_of_mapped hm
  have hfields : (o.hold shm (s.contexts ctx).fd a (nextId s)).id = nextId s ∧
      (o.hold shm (s.contexts ctx).fd a (nextId s)).allocedSize = mappedSize shm.size := by
    cases o <;> exact ⟨rfl, rfl⟩
  constructor
  · intro h
    have hid := (h.held _ _ hget).1
    rwa [hfields.1, nextId_nonneg] at hid
  · intro h
    have hid : 0 ≤ nextId s := nextId_nonneg.mpr h
    refine ⟨fun shm₁ s₂ h₁ => ?_, fun shm₁ s₂ _ => release_release s₂ shm₁, fun res _ _ h₁ hres => ?_⟩
    · cases hget.symm.trans h₁
      have hrelease (t : State) := release_hold o t shm hfd ha (show nextId s ≠ -1 by omega)
      obtain ⟨hst, hbuf⟩ := hrelease _
      rw [hfields.1, hfields.2, hst]
      refine ⟨hid, _, a, rfl, rfl, by simp [State.log, State.munmap], ?_, hbuf⟩
      show ((s.maps ++ [(a, mappedSize shm.size)]).erase (a, mappedSize shm.size)).Perm s.maps
      simpa using (List.perm_append_singleton (a, mappedSize shm.size) s.maps).erase (a, mappedSize shm.size)
    · cases hget.symm.trans h₁
      exact absurd rfl hres

end

/-- **A block has its life cycle exactly when the kernel gives an id for what it
maps, and a block that is refused for its arguments was already marked as not
held.** -/
theorem life_cycle_iff (o : Origin) (s : State) (ctx : Addr) (shm : SharedMemory) :
    LifeCycle o s ctx shm ↔
      if o.accepts ctx shm then (mapAt s ctx s.allocs).isSome → 0 ≤ s.env.shmId s.allocs
      else shm.id = -1 ∨ shm.registeredFd < 0 := by
  split
  · next hok =>
    cases hm : mapAt s ctx s.allocs with
    | none => simpa using lifeCycle_unmapped hok hm
    | some a => simpa using lifeCycle_mapped hok hm
  · next hno => exact lifeCycle_refused hno

/-! A kernel that maps memory and has no id for it. -/

def idless : State := (teecInitializeContext (.fresh { obliging with shmId := fun _ => -1 }) 0x10).2

/-- The block is reported as got, has the id -1, and stays mapped for good. -/
theorem block_without_id_leaks :
    ∃ shm₁ s₁, Origin.accepts .allocated 0x10 { size := 16, flags := memInput } ∧
      teecAllocateSharedMemory idless 0x10 { size := 16, flags := memInput } = (success, shm₁, s₁) ∧
      shm₁.id = -1 ∧ s₁.maps = [(0x1000, 16)] ∧ teecReleaseSharedMemory s₁ shm₁ = (shm₁, s₁) ∧
      ¬ LifeCycle .allocated idless 0x10 { size := 16, flags := memInput } := by
  refine ⟨_, _, by decide, rfl, by decide, by decide, (release_eq_iff ..).mpr (.inl (by decide)), fun h => ?_⟩
  have hid := (h.held _ _ rfl).1
  revert hid
  decide

/-- A cleared block that was refused for its flags is released as if it were
held: descriptor 0 is closed. -/
example : (teecReleaseSharedMemory idless {}).2.calls = idless.calls ++ [.close 0, .shmRelease 0 0] := by rfl

end Teec
