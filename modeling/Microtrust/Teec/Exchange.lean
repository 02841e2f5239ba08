/-
One exchange with the TEE.

What is answered reaches the client through the operation and through shared
memory. Its connections are not touched, but for a session that is granted: it
is entered in the map of sessions, and its structure names the context.
-/
import Microtrust.Teec.CopyBack

namespace Teec

open Lib

theorem ioctlErrnoToRes_ne (e : Errno) : ioctlErrnoToRes e ≠ success := by
  unfold ioctlErrnoToRes
  split <;> decide

/-! ## The answer -/

/-- The operation is accepted and the TEE answers `r`. -/
structure Replied (s : State) (ctx : Addr) (op : Operation) (r : Reply) : Prop where
  accepted : reached s ctx op payloadRefCount
  fd : 0 ≤ (s.contexts ctx).fd
  reply : s.env.tee s.asked = .ok r

section
variable {s : State} {ctx : Addr} {op : Operation} {p : Prep}

theorem allocate_asked (s : State) (ctx : Addr) (shm : SharedMemory) :
    (teecAllocateSharedMemory s ctx shm).2.2.asked = s.asked := by
  unfold teecAllocateSharedMemory
  split
  · rfl
  split
  · rfl
  simp only [State.mmap]
  cases (if (s.contexts ctx).fd < 0 then none else s.env.mmap s.allocs) <;> rfl

theorem tmpref_asked (s : State) (ctx : Addr) (ty : ParamType) (tmpref : TempMemoryReference) (param : IoctlParam)
    (shm : SharedMemory) : (teecPreProcessTmpref s ctx ty tmpref param shm).2.2.2.asked = s.asked := by
  unfold teecPreProcessTmpref
  split
  · rfl
  next flags attr _ =>
    have h := allocate_asked s ctx { shm with flags, size := tmpref.size }
    dsimp only
    split
    · exact h
    · exact h

theorem prePartial_asked (s : State) (ty : ParamType) (memref : RegisteredMemoryReference) (param : IoctlParam) :
    (teecPreProcessPartial s ty memref param).2.2.asked = s.asked := by
  unfold teecPreProcessPartial
  split
  · rfl
  dsimp only
  split
  · rfl
  dsimp only
  split <;> rfl

theorem preWhole_asked (s : State) (memref : RegisteredMemoryReference) (param : IoctlParam) :
    (teecPreProcessWhole s memref param).2.2.asked = s.asked := by
  unfold teecPreProcessWhole
  dsimp only
  split
  · rfl
  dsimp only
  split <;> rfl

/-- Preparing an operation does not ask the TEE. -/
theorem slot_asked (ctx : Addr) (op : Operation) (k : Nat) (p : Prep) :
    (preProcessSlot ctx op k p).2.st.asked = p.st.asked := by
  cases hty : op.type k with
  | none => simp only [preProcessSlot, hty]
  | some ty =>
    cases ty <;> simp only [preProcessSlot, hty]
    case none | valueInput | valueOutput | valueInout => rfl
    case tempInput | tempOutput | tempInout => exact tmpref_asked ..
    case whole => exact preWhole_asked ..
    case partialInput | partialOutput | partialInout => exact prePartial_asked ..

theorem preProcess_asked (h : teecPreProcessOperation s ctx (some op) = (success, p)) : p.st.asked = s.asked := by
  refine preProcess_invariant (fun _ q => q.st.asked = s.asked) rfl ?_ h
  intro k q q' _ _ hq hslot
  have hk := slot_asked ctx op k q
  rw [hslot] at hk
  exact hk.trans hq

theorem freeTempRefs_none (s : State) (shms : Nat → SharedMemory) (h : ∀ n < payloadRefCount, op.isTemp n = false) :
    teecFreeTempRefs s (some op) shms = s := by
  have hfold (ns : List Nat) (hns : ∀ n ∈ ns, op.isTemp n = false) (s : State) :
      ns.foldl (fun s n => if op.isTemp n then (teecReleaseSharedMemory s (shms n)).2 else s) s = s := by
    induction ns with
    | nil => rfl
    | cons n ns ih =>
      rw [List.foldl_cons, hns n List.mem_cons_self]
      exact ih fun m hm => hns m (List.mem_cons_of_mem n hm)
  exact hfold _ (fun n hn => h n (List.mem_range.mp hn)) s

/-- The TEE answers through an open descriptor, or there is an error. -/
theorem askTee_cases (s : State) (fd : Int) (call : Call) :
    (∃ r s', s.askTee fd call = (.ok r, s') ∧ 0 ≤ fd ∧ s.env.tee s.asked = .ok r ∧ s'.blocks = s.blocks) ∨
    (∃ e s', s.askTee fd call = (.error e, s') ∧ ∀ r, 0 ≤ fd → s.env.tee s.asked ≠ .ok r) := by
  unfold State.askTee
  by_cases hfd : fd < 0
  · simp only [hfd, if_true]
    exact .inr ⟨_, _, rfl, fun r h => absurd hfd (by omega)⟩
  · simp only [hfd, if_false]
    cases htee : s.env.tee s.asked with
    | error e => exact .inr ⟨e, _, rfl, fun r _ => nofun⟩
    | ok r => exact .inl ⟨r, _, rfl, by omega, rfl, rfl⟩

/-- Everything an operation without temporary references can come to: the TEE
answers, or there is an error. -/
theorem exchange_cases {call : Call} {out : Outcome} (htemp : ∀ n < payloadRefCount, op.isTemp n = false)
    (h : exchange s ctx call (some op) (fun _ s => s) = out) :
    (∃ r op', Replied s ctx op r ∧ out.res = r.ret ∧ out.op = some op' ∧ out.st.blocks = s.blocks ∧
      ∀ n < payloadRefCount, op'.params n = answered s.blocks op r.params n) ∨
    ((∀ r, ¬ Replied s ctx op r) ∧ out.res ≠ success) := by
  unfold exchange at h
  have hok := preProcess_success s ctx op
  cases hpre : teecPreProcessOperation s ctx (some op) with
  | mk res p =>
    rw [hpre] at hok h
    dsimp only at hok h
    split at h
    next hfail =>
      subst h
      exact .inr ⟨fun r hr => hfail (hok.mpr hr.accepted), hfail⟩
    next hres =>
      simp only [ne_eq, not_not] at hres
      subst hres
      have hsame := preProcess_same hpre
      have hasked := preProcess_asked hpre
      rcases askTee_cases p.st (p.st.contexts ctx).fd call with ⟨r, s', hask, hfd, htee, hblocks⟩ | ⟨e, s', hask, hno⟩
      · rw [hask] at h
        rw [hsame.contexts] at hfd
        rw [hsame.env, hasked] at htee
        rw [hsame.blocks] at hblocks
        simp only [teecPostProcessOperation] at h
        have hret : Returned s' op p.shms r.params payloadRefCount _ := returned_foldl payloadRefCount
        generalize (List.range payloadRefCount).foldl (postProcessSlot r.params p.shms) (op, s') = q at h hret
        subst h
        have htypes : ∀ n < payloadRefCount, q.1.isTemp n = false := by
          intro n hn
          rw [← htemp n hn]
          simp only [Operation.isTemp, Operation.type, hret.types]
        refine .inl ⟨r, q.1, ⟨hok.mp rfl, hfd, htee⟩, rfl, rfl, ?_, ?_⟩
        · dsimp only
          rw [freeTempRefs_none _ _ htypes, hret.state, withMem_blocks, hblocks]
        · intro n hn
          rw [hret.done n hn, hblocks]
      · rw [hask] at h
        rw [hsame.contexts, hsame.env, hasked] at hno
        subst h
        exact .inr ⟨fun r hr => hno r hr.fd hr.reply, ioctlErrnoToRes_ne e⟩

end

/-! ## What stays -/

/-- The connections are as they were, and the calls `new` were made. -/
structure Carried (s s' : State) (new : List Call) : Prop where
  calls : s'.calls = s.calls ++ new
  env : s'.env = s.env
  contexts : s'.contexts = s.contexts
  sessions : s'.sessions = s.sessions
  contextMap : s'.contextMap = s.contextMap
  sessionMap : s'.sessionMap = s.sessionMap

section
variable {s s' : State} {ctx : Addr} {op : Operation}

theorem slot_withMem_of_plain {n : Nat} (h : op.isTemp n = false) (p : Prep) :
    ∃ m, (preProcessSlot ctx op n p).2.st = p.st.withMem m := by
  cases hty : op.type n with
  | none => exact ⟨p.st.mem, by simp only [preProcessSlot, hty]; rfl⟩
  | some ty =>
    cases ty <;> simp only [preProcessSlot, hty]
    case none | valueInput | valueOutput | valueInout => exact ⟨p.st.mem, rfl⟩
    case tempInput | tempOutput | tempInout => simp [Operation.isTemp, hty] at h
    case whole =>
      unfold teecPreProcessWhole
      dsimp only
      split
      · exact ⟨p.st.mem, rfl⟩
      · dsimp only
        split
        · exact ⟨_, rfl⟩
        · exact ⟨p.st.mem, rfl⟩
    case partialInput | partialOutput | partialInout =>
      simp only [teecPreProcessPartial, partialKind]
      split
      · exact ⟨p.st.mem, rfl⟩
      · dsimp only
        split
        · exact ⟨_, rfl⟩
        · exact ⟨p.st.mem, rfl⟩

theorem slots_withMem_of_plain (ns : List Nat) (h : ∀ n ∈ ns, op.isTemp n = false) (p : Prep) :
    ∃ m, (preProcessSlots ctx op ns p).2.st = p.st.withMem m := by
  induction ns generalizing p with
  | nil => exact ⟨p.st.mem, rfl⟩
  | cons n ns ih =>
    obtain ⟨m, hm⟩ : ∃ m, (preProcessSlot ctx op n p).2.st = p.st.withMem m :=
      slot_withMem_of_plain (h n List.mem_cons_self) p
    rw [preProcessSlots]
    cases hslot : preProcessSlot ctx op n p with
    | mk res q =>
      rw [hslot] at hm
      dsimp only
      split
      · exact ⟨m, hm⟩
      · obtain ⟨m', hm'⟩ := ih (fun k hk => h k (List.mem_cons_of_mem n hk)) q
        exact ⟨m', by rw [hm', hm]; rfl⟩

/-- Without temporary references nothing is prepared but memory. -/
theorem preProcess_withMem_of_plain (h : ∀ n < payloadRefCount, op.isTemp n = false) (s : State) (ctx : Addr) :
    ∃ m, (teecPreProcessOperation s ctx (some op)).2.st = s.withMem m := by
  unfold teecPreProcessOperation
  dsimp only
  split
  · exact ⟨s.mem, rfl⟩
  · exact slots_withMem_of_plain _ (fun n hn => h n (List.mem_range.mp hn)) ⟨fun _ => {}, fun _ => {}, s⟩

theorem askTee_carried (s : State) (fd : Int) (call : Call) :
    Carried s (s.askTee fd call).2 [call] ∧ (s.askTee fd call).2.blocks = s.blocks := by
  unfold State.askTee
  dsimp only
  split <;> exact ⟨⟨rfl, rfl, rfl, rfl, rfl, rfl⟩, rfl⟩

theorem Carried.withMem {new : List Call} (h : Carried s s' new) (m : Addr → UInt8) : Carried s (s'.withMem m) new :=
  ⟨h.calls, h.env, h.contexts, h.sessions, h.contextMap, h.sessionMap⟩

theorem Carried.of_withMem {m : Addr → UInt8} {new : List Call} (h : Carried (s.withMem m) s' new) : Carried s s' new :=
  ⟨h.calls, h.env, h.contexts, h.sessions, h.contextMap, h.sessionMap⟩

/-- An operation without temporary references leaves the connections and the
blocks alone, however it ends. -/
theorem exchange_carried (h : ∀ n < payloadRefCount, op.isTemp n = false) (s : State) (ctx : Addr) (call : Call) :
    ∃ mid, (mid = [] ∨ mid = [call]) ∧ Carried s (exchange s ctx call (some op) fun _ s => s).st mid ∧
      (exchange s ctx call (some op) fun _ s => s).st.blocks = s.blocks := by
  obtain ⟨m, hm⟩ := preProcess_withMem_of_plain h s ctx
  unfold exchange
  cases hpre : teecPreProcessOperation s ctx (some op) with
  | mk res p =>
    rw [hpre] at hm
    dsimp only at hm ⊢
    split
    · rw [freeTempRefs_none _ _ h]
      dsimp only
      rw [hm]
      exact ⟨[], .inl rfl, ⟨(List.append_nil _).symm, rfl, rfl, rfl, rfl, rfl⟩, rfl⟩
    · refine ⟨[call], .inr rfl, ?_⟩
      rw [hm]
      obtain ⟨hcarried, hblocks⟩ := askTee_carried (s.withMem m) ((s.withMem m).contexts ctx).fd call
      cases hask : (s.withMem m).askTee ((s.withMem m).contexts ctx).fd call with
      | mk answer s' =>
        rw [hask] at hcarried hblocks
        cases answer with
        | error e =>
          dsimp only
          rw [freeTempRefs_none _ _ h]
          exact ⟨hcarried.of_withMem, hblocks⟩
        | ok r =>
          simp only [teecPostProcessOperation]
          have hret : Returned s' op p.shms r.params payloadRefCount _ := returned_foldl payloadRefCount
          generalize (List.range payloadRefCount).foldl (postProcessSlot r.params p.shms) (op, s') = q at hret
          have htypes : ∀ n < payloadRefCount, q.1.isTemp n = false := by
            intro n hn
            rw [← h n hn]
            simp only [Operation.isTemp, Operation.type, hret.types]
          rw [freeTempRefs_none _ _ htypes, hret.state]
          exact ⟨(hcarried.of_withMem).withMem _, hblocks⟩

/-- So do getting a block and releasing one. -/
theorem get_carried (o : Origin) (s : State) (ctx : Addr) (shm : SharedMemory) :
    ∃ new, Carried s (o.get s ctx shm).2.2 new := by
  by_cases hok : o.accepts ctx shm
  · cases hm : mapAt s ctx s.allocs with
    | none =>
      obtain ⟨shm', -, hget⟩ := get_unmapped hok hm
      rw [hget]
      exact ⟨_, rfl, rfl, rfl, rfl, rfl, rfl⟩
    | some a =>
      rw [get_mapped hok hm]
      exact ⟨_, rfl, rfl, rfl, rfl, rfl, rfl⟩
  · rw [get_refused hok]
    exact ⟨[], (List.append_nil _).symm, rfl, rfl, rfl, rfl, rfl⟩

theorem release_carried (s : State) (shm : SharedMemory) : ∃ new, Carried s (teecReleaseSharedMemory s shm).2 new := by
  have hnone : ∃ new, Carried s s new := ⟨[], (List.append_nil _).symm, rfl, rfl, rfl, rfl, rfl⟩
  have htwo (c : Call) (c' : Call) (m : List (Addr × UInt64)) : ∃ new, Carried s (({ s with maps := m }.log c).log c') new :=
    ⟨[c, c'], by simp [State.log], rfl, rfl, rfl, rfl, rfl⟩
  unfold teecReleaseSharedMemory
  split
  · exact hnone
  dsimp only
  split
  · exact hnone
  dsimp only
  split
  · exact htwo ..
  · split <;> exact htwo ..

/-- Everything opening a session through an open context can do: the TEE grants
one, or all stays as it was. -/
theorem openSession_cases {ctx session : Ref} {out : Outcome} (hfd : 0 ≤ (s.contexts ctx).fd)
    (h : teecOpenSession s ctx session .loginPublic 0 none = out) :
    (∃ r m, s.env.tee s.asked = .ok r ∧ r.ret = success ∧ out.res = success ∧ out.st = { s with
      mem := m
      asked := s.asked + 1
      calls := s.calls ++ [.openSession (s.contexts ctx).fd]
      sessions := Function.update s.sessions session ⟨ctx, r.session⟩
      sessionMap := s.sessionMap.insert session }) ∨
    ((∀ r, s.env.tee s.asked = .ok r → r.ret ≠ success) ∧ out.res ≠ success ∧
      Carried s out.st [.openSession (s.contexts ctx).fd]) := by
  have hnull : ¬ (ctx.1 = 0 ∨ session.1 = 0) := not_or.mpr ⟨ctx.2, session.2⟩
  unfold teecOpenSession at h
  rw [dif_neg hnull] at h
  simp only [checkLogin, ne_eq, not_true_eq_false, if_false, exchange, teecPreProcessOperation, State.askTee,
    not_lt.mpr hfd] at h
  cases htee : s.env.tee s.asked with
  | error e =>
    simp only [htee, ioctlErrnoToRes_ne, if_false] at h
    subst h
    refine .inr ⟨?_, ioctlErrnoToRes_ne e, rfl, rfl, rfl, rfl, rfl, rfl⟩
    intro r hr
    cases hr
  | ok r =>
    by_cases hret : r.ret = success
    · simp only [htee, hret, if_true] at h
      subst h
      exact .inl ⟨r, _, rfl, hret, rfl, rfl⟩
    · simp only [htee, hret, if_false] at h
      subst h
      refine .inr ⟨?_, hret, rfl, rfl, rfl, rfl, rfl, rfl⟩
      intro r' hr
      cases hr
      exact hret

end

end Teec
