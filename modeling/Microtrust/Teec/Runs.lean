/-
Whole runs of a client of the TEE client library: the calls of the API one after
another, on a process that has just loaded it, up to the destructor.

The client's structures stay where they are, a block in the table of blocks. Next
to the library's state a process keeps what the client was given: the sessions the
TEE granted, by the descriptor and the id, and the blocks it holds.
-/
import Microtrust.Teec.Exchange
import Microtrust.Teec.Finalize
import Microtrust.Lib.Reach

namespace Teec

open Lib

/-! ## The client -/

structure Process where
  st : State
  granted : List (Int × UInt32)
  held : List Addr

def Process.fresh (env : Env) : Process := ⟨.fresh env, [], []⟩

/-- A call of the API, or the client filling a block of its own. -/
inductive Act where
  | initializeContext (ctx : Addr)
  | finalizeContext (ctx : Addr)
  | openSession (ctx session : Addr) (login : Login) (connectionData : Addr) (op : Option Operation)
  | invoke (session : Addr) (cmd : UInt32) (op : Option Operation)
  | closeSession (session : Addr)
  | fill (block : Addr) (shm : SharedMemory)
  | get (o : Origin) (ctx block : Addr)
  | release (block : Addr)
  | destroy

def State.setBlock (s : State) (block : Addr) (shm : SharedMemory) : State :=
  { s with blocks := Function.update s.blocks block shm }

namespace Process

/-- A process that the iterator past the end of a map has not stopped. -/
def step (p : Process) : Act → Process
  | .initializeContext ctx => { p with st := (teecInitializeContext p.st ctx).2 }
  | .finalizeContext ctx => { p with st := (teecFinalizeContext p.st ctx).getD p.st }
  | .openSession ctx session login data op =>
    let out := teecOpenSession p.st ctx session login data op
    { p with
      st := out.st
      granted := if out.res = success
        then p.granted ++ [((out.st.contexts ctx).fd, (out.st.sessions session).sessionId)] else p.granted }
  | .invoke session cmd op => { p with st := (teecInvokeCommand p.st session cmd op).st }
  | .closeSession session => { p with st := teecCloseSession p.st session }
  | .fill block shm => { p with st := p.st.setBlock block shm }
  | .get o ctx block =>
    let (res, shm, s) := o.get p.st ctx (p.st.blocks block)
    { p with st := s.setBlock block shm, held := if res = success then block :: p.held else p.held }
  | .release block =>
    let (shm, s) := teecReleaseSharedMemory p.st (p.st.blocks block)
    { p with st := s.setBlock block shm, held := p.held.erase block }
  | .destroy => { p with st := destroyCommon p.st }

/-- What the API asks of its client, and the two conditions under which an
operation and a block give back what they take: a context is initialized and a
session opened only where none is, in a context that is there; sessions are
closed before their context is finalized; a block is filled and got only while it
is not held, and one that is not held is released only if it says so. -/
def polite (p : Process) : Act → Prop
  | .initializeContext ctx => ∀ k ∈ p.st.contextMap, k.1 ≠ ctx
  | .finalizeContext ctx => ∀ k ∈ p.st.sessionMap, (p.st.sessions k).ctx ≠ ctx
  | .openSession ctx session _ _ op =>
    (∃ k ∈ p.st.contextMap, k.1 = ctx) ∧ (∀ k ∈ p.st.sessionMap, k.1 ≠ session) ∧
      ∀ o, op = some o → TempRefsReached p.st ctx o
  | .invoke session _ op =>
    (∃ k ∈ p.st.sessionMap, k.1 = session) ∧
      ∀ o, op = some o → TempRefsReached p.st (p.st.sessions session).ctx o
  | .closeSession _ => True
  | .fill block _ => block ∉ p.held
  | .get _ ctx block => block ∉ p.held ∧ ((mapAt p.st ctx p.st.allocs).isSome → 0 ≤ p.st.env.shmId p.st.allocs)
  | .release block => block ∈ p.held ∨ (p.st.blocks block).id = -1 ∨ (p.st.blocks block).registeredFd < 0
  | .destroy => True

end Process

/-! ## What an exchange leaves alone -/

/-- All but memory, the mappings, the counters and the calls is as it was. -/
structure Stays (s s' : State) : Prop where
  contexts : s'.contexts = s.contexts
  sessions : s'.sessions = s.sessions
  blocks : s'.blocks = s.blocks
  contextMap : s'.contextMap = s.contextMap
  sessionMap : s'.sessionMap = s.sessionMap

section

variable {s s' s'' : State} {ctx : Addr} {op : Operation}

theorem Stays.refl (s : State) : Stays s s := ⟨rfl, rfl, rfl, rfl, rfl⟩

theorem Stays.trans (h : Stays s s') (h' : Stays s' s'') : Stays s s'' :=
  ⟨h'.contexts.trans h.contexts, h'.sessions.trans h.sessions, h'.blocks.trans h.blocks,
    h'.contextMap.trans h.contextMap, h'.sessionMap.trans h.sessionMap⟩

theorem allocate_stays (s : State) (ctx : Addr) (shm : SharedMemory) :
    Stays s (teecAllocateSharedMemory s ctx shm).2.2 := by
  unfold teecAllocateSharedMemory
  split
  · exact .refl s
  split
  · exact .refl s
  simp only [State.mmap]
  cases (if (s.contexts ctx).fd < 0 then none else s.env.mmap s.allocs) <;> exact ⟨rfl, rfl, rfl, rfl, rfl⟩

theorem tmpref_stays (s : State) (ctx : Addr) (ty : ParamType) (tmpref : TempMemoryReference) (param : IoctlParam)
    (shm : SharedMemory) : Stays s (teecPreProcessTmpref s ctx ty tmpref param shm).2.2.2 := by
  unfold teecPreProcessTmpref
  split
  · exact .refl s
  next flags attr _ =>
    have h := allocate_stays s ctx { shm with flags, size := tmpref.size }
    dsimp only
    split
    · exact h
    · exact h.trans ⟨rfl, rfl, rfl, rfl, rfl⟩

theorem slot_stays (ctx : Addr) (op : Operation) (n : Nat) (p : Prep) :
    Stays p.st (preProcessSlot ctx op n p).2.st := by
  by_cases ht : op.isTemp n = true
  · cases hty : op.type n with
    | none => simp [Operation.isTemp, hty] at ht
    | some ty =>
      cases ty <;> simp only [preProcessSlot, hty]
      case tempInput | tempOutput | tempInout => exact tmpref_stays ..
      all_goals simp [Operation.isTemp, hty] at ht
  · obtain ⟨m, hm⟩ : ∃ m, (preProcessSlot ctx op n p).2.st = p.st.withMem m :=
      slot_withMem_of_plain (by simpa using ht) p
    rw [hm]
    exact ⟨rfl, rfl, rfl, rfl, rfl⟩

theorem slots_stays (ctx : Addr) (op : Operation) (ns : List Nat) (p : Prep) :
    Stays p.st (preProcessSlots ctx op ns p).2.st := by
  induction ns generalizing p with
  | nil => exact .refl p.st
  | cons n ns ih =>
    have hslot := slot_stays ctx op n p
    rw [preProcessSlots]
    dsimp only
    split
    · exact hslot
    · exact hslot.trans (ih _)

theorem preProcess_stays (s : State) (ctx : Addr) (op : Option Operation) :
    Stays s (teecPreProcessOperation s ctx op).2.st := by
  unfold teecPreProcessOperation
  dsimp only
  split
  · exact .refl s
  split
  · exact .refl s
  · exact slots_stays ctx _ _ ⟨fun _ => {}, fun _ => {}, s⟩

theorem release_stays (s : State) (shm : SharedMemory) : Stays s (teecReleaseSharedMemory s shm).2 := by
  unfold teecReleaseSharedMemory
  split
  · exact .refl s
  dsimp only
  split
  · exact .refl s
  dsimp only
  split
  · exact ⟨rfl, rfl, rfl, rfl, rfl⟩
  · split <;> exact ⟨rfl, rfl, rfl, rfl, rfl⟩

theorem freeTempRefs_stays (s : State) (op : Option Operation) (shms : Nat → SharedMemory) :
    Stays s (teecFreeTempRefs s op shms) := by
  unfold teecFreeTempRefs
  cases op with
  | none => exact .refl s
  | some op =>
    dsimp only
    generalize List.range payloadRefCount = ns
    induction ns generalizing s with
    | nil => exact .refl s
    | cons n ns ih =>
      rw [List.foldl_cons]
      refine Stays.trans ?_ (ih _)
      split
      · exact release_stays ..
      · exact .refl s

theorem postProcess_stays (s : State) (op : Option Operation) (params : Nat → IoctlParam)
    (shms : Nat → SharedMemory) : Stays s (teecPostProcessOperation s op params shms).2 := by
  cases op with
  | none => exact .refl s
  | some op =>
    have hret : Returned s op shms params payloadRefCount _ := returned_foldl payloadRefCount
    simp only [teecPostProcessOperation]
    rw [hret.state]
    exact ⟨rfl, rfl, rfl, rfl, rfl⟩

theorem askTee_stays (s : State) (fd : Int) (call : Call) : Stays s (s.askTee fd call).2 := by
  obtain ⟨hcarried, hblocks⟩ := askTee_carried s fd call
  exact ⟨hcarried.contexts, hcarried.sessions, hblocks, hcarried.contextMap, hcarried.sessionMap⟩

/-- Of an exchange only what the answer does to the session is seen. -/
theorem exchange_stays (s : State) (ctx : Addr) (call : Call) (op : Option Operation) (answered : Reply → State → State) :
    (Stays s (exchange s ctx call op answered).st ∧ (exchange s ctx call op answered).res ≠ success) ∨
    ∃ r t, Stays s t ∧ Stays (answered r t) (exchange s ctx call op answered).st ∧
      (exchange s ctx call op answered).res = r.ret := by
  have hpre := preProcess_stays s ctx op
  unfold exchange
  cases hp : teecPreProcessOperation s ctx op with
  | mk res p =>
    rw [hp] at hpre
    dsimp only
    split
    next hfail => exact .inl ⟨hpre.trans (freeTempRefs_stays ..), hfail⟩
    next =>
      have hask := askTee_stays p.st (p.st.contexts ctx).fd call
      cases ha : p.st.askTee (p.st.contexts ctx).fd call with
      | mk answer t =>
        rw [ha] at hask
        cases answer with
        | error e => exact .inl ⟨(hpre.trans hask).trans (freeTempRefs_stays ..), ioctlErrnoToRes_ne e⟩
        | ok r =>
          refine .inr ⟨r, t, hpre.trans hask, ?_, rfl⟩
          exact (postProcess_stays ..).trans (freeTempRefs_stays ..)

end

end Teec
