/-
The clients of the TEE client library that send one command: ut_gk_transfer_buff
in gatekeeper/ut_gatekeeper.cpp, and ut_km_import_google_key_model,
ut_km_import_google_key and ut_km_check_google_key in km4.1/kmsetkey/ut_km_tac.cpp.

Each takes a context, a session in it and a block of shared memory, with their
structures on its stack, and gives them back by a ladder of labels whichever way
it leaves. The ladder ends with TEEC_FinalizeContext, which closes every session
that names the context by its address. That there is none but the flow's own is
left to the library: a session that an earlier client at the same address left
behind is taken for one of the flow.
-/
import Microtrust.Keybox.ModelInfo
import Microtrust.Keymaster.Connect

namespace Clients

open Lib Teec Keymaster

/-! ## What the flows share -/

/-- Where the structures of a flow are. -/
structure Frame where
  context : Ref
  session : Ref
  sharedmem : Ref

/-- How a flow ended: its value, the results of its steps, the session it opened,
by the descriptor and the id, and the process. -/
structure Ended (α : Type) where
  value : α
  steps : List Result
  opened : List (Int × UInt32)
  st : Teec.State

section
variable (f : Frame)

/-- `memset` of the context and the session. -/
def clearFrame (t : Teec.State) : Teec.State :=
  { t with
    contexts := Function.update t.contexts f.context ⟨0⟩
    sessions := Function.update t.sessions f.session ⟨0, 0⟩ }

/-- A block is got for the structure on the stack, filled in as `shm`. -/
def getBlock (o : Origin) (t : Teec.State) (shm : SharedMemory) : Result × Teec.State :=
  match o.get t f.context shm with
  | (res, shm, t) => (res, { t with blocks := Function.update t.blocks f.sharedmem shm })

/-- The session that was opened. -/
def openedSession (t : Teec.State) : List (Int × UInt32) :=
  [((t.contexts f.context).fd, (t.sessions f.session).sessionId)]

/-! The labels of the ladder; in kmsetkey they are called `cleanup`. -/

def release₂ (t : Teec.State) : Option Teec.State := teecFinalizeContext t f.context

def release₃ (t : Teec.State) : Option Teec.State := release₂ f (teecCloseSession t f.session)

def release₄ (t : Teec.State) : Option Teec.State := release₃ f (releaseBlock t f.sharedmem)

/-! ## The gatekeeper -/

/-- `GATEKEEPER_BUFF_SIZE`. -/
def gatekeeperBuffSize : UInt64 := 4096

/-- `GK_COMMAND_MAGIC`. -/
def gkCommandMagic : UInt32 := 0x51

/-- `TEEC_PARAM_TYPES(TEEC_MEMREF_WHOLE, TEEC_NONE, TEEC_NONE, TEEC_NONE)`. -/
def transferOperation (size : UInt64) : Operation where
  paramTypes := 0xc
  params := fun n => if n = 0 then { memref := ⟨f.sharedmem, size, 0⟩ } else {}

/-- `ut_gk_transfer_buff`. A session that is refused finalizes the context before
it goes to the label that does so. -/
def utGkTransferBuff (buff : Addr) (t : Teec.State) : Option (Ended Bool) :=
  if buff = 0 then some ⟨false, [], [], t⟩
  else
    match teecInitializeContext (clearFrame f t) f.context with
    | (res₁, t) =>
      if res₁ ≠ success then some ⟨false, [res₁], [], t⟩
      else
        let out := teecOpenSession t f.context f.session .loginPublic 0 none
        if out.res ≠ success then
          ((teecFinalizeContext out.st f.context).bind (release₂ f)).map fun t => ⟨false, [res₁, out.res], [], t⟩
        else
          let shm := { out.st.blocks f.sharedmem with
            buffer := buff, size := gatekeeperBuffSize, flags := memInput ||| memOutput }
          match getBlock f .registered out.st shm with
          | (res₃, t) =>
            if res₃ ≠ success then
              (release₃ f t).map fun t' => ⟨false, [res₁, out.res, res₃], openedSession f out.st, t'⟩
            else
              let op := transferOperation f (t.blocks f.sharedmem).size
              let inv := teecInvokeCommand t f.session gkCommandMagic (some op)
              (release₄ f inv.st).map fun t' =>
                ⟨inv.res = success, [res₁, out.res, res₃, inv.res], openedSession f out.st, t'⟩

/-! ## The keybox -/

/-- What the flows of kmsetkey differ in: the block, where its content comes from,
the types of the parameters, and the command. -/
structure Request where
  size : UInt64
  flags : UInt32
  data : Option Addr
  paramTypes : UInt32
  cmd : UInt32

/-- The block is cleared, and the data is copied to it. -/
def fillBlock (req : Request) (t : Teec.State) : Teec.State :=
  let shm := t.blocks f.sharedmem
  let t := t.withMem fun a => if shm.buffer ≤ a ∧ a < shm.buffer + shm.size.toNat then 0 else t.mem a
  match req.data with
  | none => t
  | some data => t.memcpy shm.buffer data req.size

def keyboxOperation (req : Request) (size : UInt64) : Operation where
  paramTypes := req.paramTypes
  params := fun n => if n = 1 then { memref := ⟨f.sharedmem, size, 0⟩ } else {}

/-- What the three flows of kmsetkey do. `gaveUp` is the value for a call that
failed; `conclude` is what becomes of `operation.params[0].value.a`. -/
def keyboxFlow {α : Type} (req : Request) (gaveUp : Result → α) (conclude : Teec.State → UInt32 → α × List Result)
    (t : Teec.State) : Option (Ended α) :=
  match teecInitializeContext (clearFrame f t) f.context with
  | (res₁, t) =>
    if res₁ ≠ success then some ⟨gaveUp res₁, [res₁], [], t⟩
    else
      let out := teecOpenSession t f.context f.session .loginPublic 0 none
      if out.res ≠ success then
        (release₂ f out.st).map fun t => ⟨gaveUp out.res, [res₁, out.res], [], t⟩
      else
        match getBlock f .allocated out.st { out.st.blocks f.sharedmem with size := req.size, flags := req.flags } with
        | (res₃, t) =>
          if res₃ ≠ success ∨ (t.blocks f.sharedmem).buffer = 0 then
            (release₃ f t).map fun t' => ⟨gaveUp res₃, [res₁, out.res, res₃], openedSession f out.st, t'⟩
          else
            let op := keyboxOperation f req (t.blocks f.sharedmem).size
            let inv := teecInvokeCommand (fillBlock f req t) f.session req.cmd (some op)
            let (value, last) :=
              if inv.res ≠ success then (gaveUp inv.res, [])
              else conclude inv.st ((inv.op.getD op).params 0).value.a
            (release₄ f inv.st).map fun t' =>
              ⟨value, [res₁, out.res, res₃, inv.res] ++ last, openedSession f out.st, t'⟩

/-- What both imports share: the business error of the TA is the value. -/
def importFlow (cmd : UInt32) (data : Addr) (datalen : UInt32) (t : Teec.State) : Option (Ended Int) :=
  if data = 0 ∨ datalen = 0 then some ⟨-1, [], [], t⟩
  else keyboxFlow f ⟨datalen.toUInt64, memInput, some data, 0xd2, cmd⟩ asInt (fun _ a => (asInt a, [a])) t

/-- `ut_km_import_google_key_model`, with `CMD_WRITE_KEYBOX_MODEL_INFO`. -/
def utKmImportGoogleKeyModel (data : Addr) (datalen : UInt32) (t : Teec.State) : Option (Ended Int) :=
  importFlow f 102 data datalen t

/-- `ut_km_import_google_key`. -/
def utKmImportGoogleKey (data : Addr) (datalen : UInt32) (t : Teec.State) : Option (Ended Int) :=
  importFlow f 0 data datalen t

/-- The value of `ut_km_check_google_key`, and the two properties it sets,
`GOOGLE_KEY_STATUS` and `GOOGLE_KEY_MODEL`. -/
structure Checked where
  rc : Int
  status : Bytes
  model : Bytes

/-- `sizeof(key_status_t)`. -/
def keyStatusSize : UInt64 := 120

/-- The fields of `key_status_t` that are read, at `a`. -/
def keyStatusAt (mem : Addr → UInt8) (a : Addr) : Keybox.KeyStatus where
  googleKeyStaus := .ofNat (le (held mem a 4))
  googleKeyModelInfoLen := .ofNat (le (held mem (a + 16) 4))
  googleKeyModelInfo := held mem (a + 20) Keybox.teePropValueMax

/-- What `ut_km_check_google_key` makes of the answer. -/
def concludeCheck (t : Teec.State) (a : UInt32) : Checked × List Result :=
  if a ≠ 0 then (⟨-1, Keybox.fail, Keybox.fail⟩, [a])
  else
    let keyStatus := keyStatusAt t.mem (t.blocks f.sharedmem).buffer
    if keyStatus.googleKeyStaus = Keybox.kmMagic then
      let model := if Keybox.lenValid keyStatus.googleKeyModelInfoLen then cstr keyStatus.googleKeyModelInfo
        else Keybox.unknown
      (⟨0, Keybox.ok, model⟩, [a, 0])
    else (⟨-1, Keybox.fail, Keybox.fail⟩, [a, -1])

/-- `ut_km_check_google_key`, with `CMD_TA_GET_KEYBOX_STATUS`. -/
def utKmCheckGoogleKey (t : Teec.State) : Option (Ended Checked) :=
  keyboxFlow f ⟨keyStatusSize, memOutput, none, 0xe2, 101⟩ (fun res => ⟨asInt res, Keybox.fail, Keybox.fail⟩)
    (concludeCheck f) t

end

/-! ## What is asked of a flow -/

/-- The descriptor is open after the calls `pre`. -/
def OpenAfter (pre : List Teec.Call) (fd : Int) : Prop :=
  (pre.filterMap Call.closedFd).count fd < (pre.filterMap openedFd).count fd

/-- Everything that was acquired was given back, once, and a block while the
context it was mapped through was still open. -/
structure Balanced (new : List Teec.Call) (opened : List (Int × UInt32)) : Prop extends Undone new opened where
  unmapped : ∀ pre post a len, new = pre ++ .munmap a len :: post →
    ∃ fd, .mmap fd len (some a) ∈ pre ∧ OpenAfter pre fd
  released : ∀ pre post fd id, new = pre ++ .shmRelease fd id :: post → OpenAfter pre fd

/-- A flow returned; since the state `s` its calls are balanced and the maps are
the same, and it reports a success only if all of its `n` steps succeeded. -/
def Sound {α : Type} (s : Teec.State) (reports : α → Prop) (n : Nat) (ran : Option (Ended α)) : Prop :=
  ∃ e new, ran = some e ∧ e.st.calls = s.calls ++ new ∧ Balanced new e.opened ∧
    e.st.sessionMap = s.sessionMap ∧ e.st.contextMap = s.contextMap ∧
    (reports e.value → e.steps = List.replicate n success)

/-- No session names the flow's context. -/
def Unnamed (f : Frame) (s : Teec.State) : Prop := ∀ k ∈ s.sessionMap, (s.sessions k).ctx ≠ f.context

/-! ## The calls -/

section
variable {fds : List Nat} {fd : Nat} {id : UInt32} {len : UInt64} {a : Addr} {i : Int} {mid : List Teec.Call}
  {new : List Teec.Call} {opened : List (Int × UInt32)}

/-- A list taken apart at an element that is not at its ends. -/
theorem split_between {α : Type*} {l m pre post : List α} {c z : α} (h : l ++ m ++ [z] = pre ++ c :: post)
    (hl : c ∉ l) (hz : c ≠ z) : ∃ pre' post', pre = l ++ pre' ∧ m = pre' ++ c :: post' := by
  rw [List.append_assoc] at h
  obtain ⟨pre', rfl, hrest⟩ : ∃ pre', pre = l ++ pre' ∧ m ++ [z] = pre' ++ c :: post := by
    rcases List.append_eq_append_iff.mp h with ⟨pre', hpre, hrest⟩ | ⟨rest, hl', hrest⟩
    · exact ⟨pre', hpre, hrest⟩
    · cases rest with
      | nil => exact ⟨[], by rw [hl', List.append_nil, List.append_nil], hrest.symm⟩
      | cons x rest =>
        cases hrest
        exact absurd (by rw [hl']; simp) hl
  rcases List.append_eq_append_iff.mp hrest with ⟨rest, hm, hlast⟩ | ⟨rest, hm, hlast⟩
  · have hmem : c ∈ [z] := by
      rw [hlast]
      simp
    exact absurd (List.mem_singleton.mp hmem) hz
  · cases rest with
    | nil =>
      cases hlast
      exact absurd rfl hz
    | cons x rest =>
      cases hlast
      exact ⟨pre', rest, rfl, hm⟩

theorem openAfter_begun {pre : List Teec.Call} (hclosed : pre.filterMap Call.closedFd = [])
    (hopened : pre.filterMap openedFd = []) : OpenAfter (begun fds fd ++ pre) fd := by
  unfold OpenAfter begun
  simp only [List.filterMap_append, closedFd_tries, openedFd_tries, hclosed, hopened, List.append_nil]
  show (fds.map Nat.cast ++ []).count (fd : Int) < (fds.map Nat.cast ++ [(fd : Int)]).count (fd : Int)
  rw [List.append_nil, List.count_append, List.count_singleton_self]
  omega

theorem not_mem_begun {c : Teec.Call} (hdev : openedFd c = none) (hclose : c.closedFd = none) (hs : c ≠ .openSession fd) :
    c ∉ begun fds fd := by
  intro h
  rcases List.mem_append.mp h with h | h
  · obtain ⟨fd', -, hc⟩ := List.mem_flatMap.mp h
    simp only [List.mem_cons, List.not_mem_nil, or_false] at hc
    rcases hc with rfl | rfl
    · cases hdev
    · cases hclose
  · simp only [List.mem_cons, List.not_mem_nil, or_false] at h
    rcases h with rfl | rfl
    · cases hdev
    · exact hs rfl

/-- What is asked of the calls between the session and the end of the context. -/
theorem balanced_ended (hclosed : mid.filterMap Call.closedFd = []) (hopened : mid.filterMap openedFd = [])
    (hsessions : mid.filterMap Call.closedSession = opened)
    (hmaps : (mid.filterMap Call.unmapped).Perm (mid.filterMap Call.mapped))
    (hids : (mid.filterMap Call.released).Perm ((mid.filterMap Call.obtained).filter (·.2 ≠ -1)))
    (hunmap : ∀ pre post a len, mid = pre ++ .munmap a len :: post → .mmap fd len (some a) ∈ pre)
    (hrelease : ∀ (fd' : Int) id, .shmRelease fd' id ∈ mid → fd' = fd) : Balanced (ended fds fd mid) opened := by
  have hopen {pre post : List Teec.Call} {c : Teec.Call} (h : mid = pre ++ c :: post) :
      OpenAfter (begun fds fd ++ pre) fd := by
    rw [h, List.filterMap_append, List.append_eq_nil_iff] at hclosed hopened
    exact openAfter_begun hclosed.1 hopened.1
  refine ⟨(undone_ended hclosed hopened).mpr ⟨hsessions, hmaps, hids⟩, ?_, ?_⟩
  · intro pre post a len h
    obtain ⟨pre', post', rfl, hmid⟩ := split_between h (not_mem_begun rfl rfl nofun) nofun
    exact ⟨fd, List.mem_append_right _ (hunmap _ _ _ _ hmid), hopen hmid⟩
  · intro pre post fd' id h
    obtain ⟨pre', post', rfl, hmid⟩ := split_between h (not_mem_begun rfl rfl nofun) nofun
    obtain rfl : fd' = fd := hrelease fd' id (by rw [hmid]; simp)
    exact hopen hmid

theorem balanced_tries (fds : List Nat) : Balanced (tries fds) [] := by
  have hno {c : Teec.Call} {pre post : List Teec.Call} (hdev : openedFd c = none) (hclose : c.closedFd = none) :
      tries fds ≠ pre ++ c :: post := by
    intro h
    have hmem : c ∈ tries fds := by
      rw [h]
      simp
    obtain ⟨fd, -, hc⟩ := List.mem_flatMap.mp hmem
    simp only [List.mem_cons, List.not_mem_nil, or_false] at hc
    rcases hc with rfl | rfl
    · cases hdev
    · cases hclose
  exact ⟨undone_tries fds, fun _ _ _ _ h => absurd h (hno rfl rfl), fun _ _ _ _ h => absurd h (hno rfl rfl)⟩

theorem balanced_refused (fds : List Nat) (fd : Nat) : Balanced (begun fds fd ++ [.close fd]) [] := by
  have h : Balanced (ended fds fd []) [] := balanced_ended rfl rfl rfl (.refl _) (.refl _) (by simp) (by simp)
  rwa [ended, List.append_nil] at h

theorem balanced_unmapped (fds : List Nat) (fd : Nat) (id : UInt32) (len : UInt64) :
    Balanced (ended fds fd [.mmap fd len none, .closeSession fd id]) [((fd : Int), id)] := by
  refine balanced_ended rfl rfl rfl (.refl _) (.refl _) ?_ (by simp)
  intro pre post a len h
  have hmem : Teec.Call.munmap a len ∈ pre ++ .munmap a len :: post := by simp
  rw [← h] at hmem
  simp at hmem

/-- The calls between the session and the end of the context when there was a
block; `asks` are those of the command. -/
def blockCalls (fd : Nat) (id : UInt32) (len : UInt64) (a : Addr) (i : Int) (asks : List Teec.Call) : List Teec.Call :=
  Call.mmap fd len (some a) :: Call.shmId fd a i ::
    (asks ++ [Call.munmap a len, Call.shmRelease fd i, Call.closeSession fd id])

theorem balanced_used (fds : List Nat) (fd : Nat) (id : UInt32) (len : UInt64) (a : Addr) (hi : i ≠ -1)
    {asks : List Teec.Call} (hasks : asks = [] ∨ ∃ fd' id' cmd, asks = [Call.invoke fd' id' cmd]) :
    Balanced (ended fds fd (blockCalls fd id len a i asks)) [((fd : Int), id)] := by
  have hids : [((fd : Int), i)].Perm ([((fd : Int), i)].filter (·.2 ≠ -1)) := by
    rw [List.filter_cons_of_pos (by simpa using hi)]
    exact .refl _
  have hunmap (hno : ∀ a len, Call.munmap a len ∉ asks) (pre post : List Teec.Call) (a' : Addr) (len' : UInt64)
      (h : blockCalls fd id len a i asks = pre ++ Call.munmap a' len' :: post) : Call.mmap fd len' (some a') ∈ pre := by
    have hmem : Call.munmap a' len' ∈ blockCalls fd id len a i asks := by
      rw [h]
      simp
    simp only [blockCalls, List.mem_cons, List.mem_append, hno, false_or, reduceCtorEq, Call.munmap.injEq,
      List.not_mem_nil, or_false] at hmem
    obtain ⟨rfl, rfl⟩ := hmem
    -- the mapping comes first
    cases pre with
    | nil => cases h
    | cons c pre =>
      rw [← (List.cons.inj h).1]
      exact List.mem_cons_self
  have hrelease (hno : ∀ fd' id', Call.shmRelease fd' id' ∉ asks) (fd' : Int) (id' : Int)
      (h : Call.shmRelease fd' id' ∈ blockCalls fd id len a i asks) : fd' = fd := by
    simp only [blockCalls, List.mem_cons, List.mem_append, hno, false_or, reduceCtorEq, Call.shmRelease.injEq,
      List.not_mem_nil, or_false] at h
    exact h.1
  rcases hasks with rfl | ⟨fd', id', cmd, rfl⟩
  · exact balanced_ended rfl rfl rfl (.refl _) hids (hunmap (by simp)) (hrelease (by simp))
  · exact balanced_ended rfl rfl rfl (.refl _) hids (hunmap (by simp)) (hrelease (by simp))

end

/-! ## The process -/

section
variable {f : Frame} {s t t' : Teec.State} {m : KeySet Ref} {fd : Nat} {id : UInt32} {new more : List Teec.Call}

/-- Since the state `s` the calls `new` were made, and they left the flow with its
context; `m` are the sessions. -/
structure Holds (f : Frame) (s : Teec.State) (m : KeySet Ref) (t : Teec.State) (fd : Nat) (new : List Teec.Call) :
    Prop where
  calls : t.calls = s.calls ++ new
  env : t.env = s.env
  context : t.contexts f.context = ⟨fd⟩
  contextMap : t.contextMap = s.contextMap.insert f.context
  sessions : ∀ k ∈ s.sessionMap, t.sessions k = s.sessions k
  sessionMap : t.sessionMap = m

/-- And with a session. -/
structure HasSession (f : Frame) (s t : Teec.State) (fd : Nat) (id : UInt32) (new : List Teec.Call) : Prop
    extends Holds f s (s.sessionMap.insert f.session) t fd new where
  session : t.sessions f.session = ⟨f.context, id⟩

theorem Holds.carried (h : Holds f s m t fd new) (hc : Carried t t' more) : Holds f s m t' fd (new ++ more) := by
  refine ⟨?_, hc.env.trans h.env, ?_, hc.contextMap.trans h.contextMap, ?_, hc.sessionMap.trans h.sessionMap⟩
  · rw [hc.calls, h.calls, List.append_assoc]
  · rw [hc.contexts, h.context]
  · rw [hc.sessions]
    exact h.sessions

theorem HasSession.carried (h : HasSession f s t fd id new) (hc : Carried t t' more) :
    HasSession f s t' fd id (new ++ more) :=
  ⟨h.toHolds.carried hc, by rw [hc.sessions, h.session]⟩

theorem HasSession.opened (h : HasSession f s t fd id new) : openedSession f t = [((fd : Int), id)] := by
  rw [openedSession, h.context, h.session]

theorem HasSession.close (h : HasSession f s t fd id new) (hfree : f.session ∉ s.sessionMap) :
    Holds f s s.sessionMap (teecCloseSession t f.session) fd (new ++ [Teec.Call.closeSession fd id]) := by
  have hmem : f.session ∈ t.sessionMap := by
    rw [h.sessionMap]
    exact KeySet.mem_insertKeys.mpr (.inl rfl)
  have hclose := closeSession_of_mem hmem
  rw [closeCall, h.session, h.context] at hclose
  rw [hclose]
  refine ⟨?_, h.env, h.context, h.contextMap, h.sessions, ?_⟩
  · show t.calls ++ [Teec.Call.closeSession fd id] = _
    rw [h.calls, List.append_assoc]
  · show t.sessionMap.erase f.session = s.sessionMap
    rw [h.sessionMap, KeySet.erase_insert hfree]

/-! ### The context at the end -/

theorem finalize_length_le (h : teecFinalizeContext t f.context = some t') :
    t'.sessionMap.keys.length ≤ t.sessionMap.keys.length := by
  rw [teecFinalizeContext, Option.map_eq_some_iff] at h
  obtain ⟨u, hu, rfl⟩ := h
  obtain ⟨v, hloop⟩ := finalizeSessions_some hu
  rw [dropContext_sessionMap]
  exact (eraseLoop_sublist hloop).length_le

/-- A session that names the context is lost. -/
theorem Holds.finalize_named (h : Holds f s s.sessionMap t fd new) (hnamed : ¬ Unnamed f s)
    (hfinal : teecFinalizeContext t f.context = some t') :
    t'.sessionMap.keys.length < s.sessionMap.keys.length := by
  rw [teecFinalizeContext, Option.map_eq_some_iff] at hfinal
  obtain ⟨u, hu, rfl⟩ := hfinal
  obtain ⟨v, hloop⟩ := finalizeSessions_some hu
  rw [dropContext_sessionMap, ← h.sessionMap]
  refine eraseLoop_length_lt hloop ?_
  simp only [Unnamed, not_forall, not_not] at hnamed
  obtain ⟨k, hk, hctx⟩ := hnamed
  refine ⟨k, by rw [h.sessionMap]; exact hk, ?_⟩
  rw [Teec.State.ownedBy, h.sessions k hk, hctx]
  exact decide_eq_true rfl

theorem Holds.finalize (h : Holds f s s.sessionMap t fd new) (hctx : f.context ∉ s.contextMap) (hun : Unnamed f s) :
    ∃ t', teecFinalizeContext t f.context = some t' ∧ t'.calls = s.calls ++ (new ++ [Teec.Call.close fd]) ∧
      t'.sessionMap = s.sessionMap ∧ t'.contextMap = s.contextMap ∧ t'.sessions = t.sessions := by
  have hfree : ∀ k ∈ t.sessionMap, (t.sessions k).ctx ≠ f.context := by
    intro k hk
    rw [h.sessionMap] at hk
    rw [h.sessions k hk]
    exact hun k hk
  have hmem : f.context ∈ t.contextMap := by
    rw [h.contextMap]
    exact KeySet.mem_insertKeys.mpr (.inl rfl)
  refine ⟨_, finalize_alone hfree, ?_⟩
  rw [dropContext_of_mem hmem]
  refine ⟨?_, h.sessionMap, ?_, rfl⟩
  · show t.calls ++ [Teec.Call.close (t.contexts f.context).fd] = _
    rw [h.calls, h.context, List.append_assoc]
  · show t.contextMap.erase f.context = s.contextMap
    rw [h.contextMap, KeySet.erase_insert hctx]

variable {α : Type} {reports : α → Prop} {n : Nat} {v : α} {steps : List Result} {opened : List (Int × UInt32)}

theorem not_sound_of_fewer {ran : Option (Ended α)}
    (h : ∀ e, ran = some e → e.st.sessionMap.keys.length < s.sessionMap.keys.length) : ¬ Sound s reports n ran := by
  rintro ⟨e, -, hran, -, -, hmap, -⟩
  have hlt := h e hran
  rw [hmap] at hlt
  exact lt_irrefl _ hlt

theorem Holds.sound_iff (h : Holds f s s.sessionMap t fd new) (hctx : f.context ∉ s.contextMap)
    (hbal : Balanced (new ++ [Teec.Call.close fd]) opened) (hsteps : reports v → steps = List.replicate n success) :
    Sound s reports n ((release₂ f t).map fun t' => ⟨v, steps, opened, t'⟩) ↔ Unnamed f s := by
  by_cases hun : Unnamed f s
  · obtain ⟨t', hfinal, hcalls, hmap, hcmap, -⟩ := h.finalize hctx hun
    refine iff_of_true ⟨⟨v, steps, opened, t'⟩, _, ?_, hcalls, hbal, hmap, hcmap, hsteps⟩ hun
    rw [release₂, hfinal]
    rfl
  · refine iff_of_false (not_sound_of_fewer fun e he => ?_) hun
    obtain ⟨t', hfinal, rfl⟩ := Option.map_eq_some_iff.mp he
    exact h.finalize_named hun hfinal

/-- A flow that finalizes it twice: the second time finds nothing. -/
theorem Holds.sound_twice_iff (h : Holds f s s.sessionMap t fd new) (hctx : f.context ∉ s.contextMap)
    (hbal : Balanced (new ++ [Teec.Call.close fd]) opened) (hsteps : reports v → steps = List.replicate n success) :
    Sound s reports n (((teecFinalizeContext t f.context).bind (release₂ f)).map fun t' => ⟨v, steps, opened, t'⟩) ↔
      Unnamed f s := by
  by_cases hun : Unnamed f s
  · obtain ⟨t', hfinal, hcalls, hmap, hcmap, hsessions⟩ := h.finalize hctx hun
    have hfree : ∀ k ∈ t'.sessionMap, (t'.sessions k).ctx ≠ f.context := by
      intro k hk
      rw [hmap] at hk
      rw [hsessions, h.sessions k hk]
      exact hun k hk
    have hagain : release₂ f t' = some t' := by
      rw [release₂, finalize_alone hfree, dropContext, dif_neg f.context.2, if_neg (by rwa [hcmap])]
    refine iff_of_true ⟨⟨v, steps, opened, t'⟩, _, ?_, hcalls, hbal, hmap, hcmap, hsteps⟩ hun
    rw [hfinal, Option.bind_some, hagain]
    rfl
  · refine iff_of_false (not_sound_of_fewer fun e he => ?_) hun
    obtain ⟨u, hboth, rfl⟩ := Option.map_eq_some_iff.mp he
    obtain ⟨t', hfinal, hagain⟩ := Option.bind_eq_some_iff.mp hboth
    exact (finalize_length_le hagain).trans_lt (h.finalize_named hun hfinal)

/-! ### The block and the command -/

variable {o : Origin} {shm : SharedMemory} {res : Result} {a : Addr} {i : Int}

theorem getBlock_cases (hctx : t.contexts f.context = ⟨fd⟩) (hok : o.accepts f.context shm)
    (h : getBlock f o t shm = (res, t')) :
    (res ≠ success ∧ Carried t t' [.mmap fd (mappedSize shm.size) none]) ∨
    (res = success ∧ ∃ a, a ≠ 0 ∧ t'.blocks f.sharedmem = o.hold shm fd a (nextId t) ∧
      Carried t t' [.mmap fd (mappedSize shm.size) (some a), .shmId fd a (nextId t)]) := by
  have hfd : (t.contexts f.context).fd = fd := by rw [hctx]
  unfold getBlock at h
  cases hm : mapAt t f.context t.allocs with
  | none =>
    obtain ⟨shm', -, hget⟩ := get_unmapped hok hm
    rw [hget, hfd] at h
    cases h
    exact .inl ⟨by decide, rfl, rfl, rfl, rfl, rfl, rfl⟩
  | some a =>
    rw [get_mapped hok hm, hfd] at h
    cases h
    exact .inr ⟨rfl, a, (fd_of_mapped hm).2, Function.update_self .., rfl, rfl, rfl, rfl, rfl, rfl⟩

theorem releaseBlock_carried (hb : t.blocks f.sharedmem = o.hold shm fd a i) (ha : a ≠ 0) (hi : i ≠ -1) :
    Carried t (releaseBlock t f.sharedmem) [.munmap a (mappedSize shm.size), .shmRelease fd i] := by
  obtain ⟨hst, -⟩ := release_hold o t shm (Int.natCast_nonneg fd) ha hi
  unfold releaseBlock
  rw [hb]
  cases hrel : teecReleaseSharedMemory t (o.hold shm fd a i) with
  | mk shm' u =>
    rw [hrel] at hst
    dsimp only at hst ⊢
    subst hst
    refine ⟨?_, rfl, rfl, rfl, rfl, rfl⟩
    simp [Teec.State.log, Teec.State.munmap]

/-- The types name no temporary reference. -/
def Plain (paramTypes : UInt32) : Prop := ∀ n < payloadRefCount, (Operation.mk paramTypes (fun _ => {}) 0).isTemp n = false

instance (paramTypes : UInt32) : Decidable (Plain paramTypes) := inferInstanceAs (Decidable (∀ n < _, _))

/-- Whatever becomes of the command, it leaves the rest alone. -/
theorem invoke_carried {cmd : UInt32} {op : Operation} {inv : Teec.Outcome}
    (h : teecInvokeCommand t f.session cmd (some op) = inv) (hplain : Plain op.paramTypes) :
    ∃ asks, (asks = [] ∨ ∃ fd' id' cmd', asks = [Call.invoke fd' id' cmd']) ∧ Carried t inv.st asks ∧
      inv.st.blocks = t.blocks := by
  rw [teecInvokeCommand, if_neg f.session.2] at h
  subst h
  have hplain' : ∀ n < payloadRefCount, ({ op with session := f.session.1 } : Operation).isTemp n = false := hplain
  obtain ⟨asks, hasks, hrest⟩ := exchange_carried hplain' t (t.sessions f.session).ctx
    (.invoke (t.contexts (t.sessions f.session).ctx).fd (t.sessions f.session).sessionId cmd)
  refine ⟨asks, ?_, hrest⟩
  rcases hasks with rfl | rfl
  · exact .inl rfl
  · exact .inr ⟨_, _, _, rfl⟩

/-! ### The ways a flow goes -/

variable {fds : List Nat}

theorem initialize_cases (hfree : f.session ∉ s.sessionMap)
    (h : teecInitializeContext (clearFrame f s) f.context = (res, t)) :
    (res ≠ success ∧ ¬ DeviceReady s maxDevSeq ∧
      ∃ fds, t.calls = s.calls ++ tries fds ∧ t.sessionMap = s.sessionMap ∧ t.contextMap = s.contextMap) ∨
    (res = success ∧ DeviceReady s maxDevSeq ∧ t.allocs = s.allocs ∧
      ∃ fds fd, Holds f s s.sessionMap t fd (tries fds ++ [Teec.Call.openDev fd])) := by
  rw [teecInitializeContext, dif_neg f.context.2] at h
  obtain ⟨hkept, fds, ⟨rfl, hno, hcalls, hmap⟩ | ⟨rfl, hready, fd, hcalls, hctx, hmap⟩⟩ := initializeFrom_cases h
  · exact .inl ⟨by decide, hno, fds, hcalls, hkept.sessionMap, hmap⟩
  · refine .inr ⟨rfl, hready, hkept.allocs, fds, fd, hcalls, hkept.env, hctx, hmap, fun k hk => ?_, hkept.sessionMap⟩
    have hne : k.1 ≠ f.session.1 := fun he => hfree (Subtype.ext he ▸ hk)
    rw [hkept.sessions]
    exact Function.update_of_ne hne ..

theorem Holds.openSession {out : Teec.Outcome} (h : Holds f s s.sessionMap t fd (tries fds ++ [Teec.Call.openDev fd]))
    (hfree : f.session ∉ s.sessionMap) (hout : teecOpenSession t f.context f.session .loginPublic 0 none = out) :
    (out.res ≠ success ∧ Holds f s s.sessionMap out.st fd (begun fds fd)) ∨
    (out.res = success ∧ out.st.allocs = t.allocs ∧ ∃ id, HasSession f s out.st fd id (begun fds fd)) := by
  have hbegun : tries fds ++ [Teec.Call.openDev fd] ++ [Teec.Call.openSession fd] = begun fds fd := by simp [begun]
  have hfd : (t.contexts f.context).fd = fd := by rw [h.context]
  have hpos : 0 ≤ (t.contexts f.context).fd := by
    rw [hfd]
    exact Int.natCast_nonneg fd
  rcases openSession_cases hpos hout with ⟨r, m, -, -, hres, hst⟩ | ⟨-, hres, hcarried⟩
  · rw [hfd] at hst
    rw [hst]
    refine .inr ⟨hres, rfl, r.session, ⟨?_, h.env, h.context, h.contextMap, fun k hk => ?_, ?_⟩, Function.update_self ..⟩
    · rw [← hbegun, ← List.append_assoc, ← h.calls]
    · have hne : k.1 ≠ f.session.1 := fun he => hfree (Subtype.ext he ▸ hk)
      exact (Function.update_of_ne hne ..).trans (h.sessions k hk)
    · rw [h.sessionMap]
  · rw [hfd] at hcarried
    rw [← hbegun]
    exact .inl ⟨hres, h.carried hcarried⟩

theorem HasSession.release₃_sound_iff {len : UInt64}
    (h : HasSession f s t fd id (begun fds fd ++ [Teec.Call.mmap fd len none]))
    (hctx : f.context ∉ s.contextMap) (hfree : f.session ∉ s.sessionMap)
    (hsteps : reports v → steps = List.replicate n success) :
    Sound s reports n ((release₃ f t).map fun t' => ⟨v, steps, [((fd : Int), id)], t'⟩) ↔ Unnamed f s := by
  refine (h.close hfree).sound_iff hctx ?_ hsteps
  have hended : begun fds fd ++ [Teec.Call.mmap fd len none] ++ [Teec.Call.closeSession fd id] ++ [Teec.Call.close fd] =
      ended fds fd [.mmap fd len none, .closeSession fd id] := by
    simp [ended]
  rw [hended]
  exact balanced_unmapped fds fd id len

theorem HasSession.release₄_sound_iff {asks : List Teec.Call}
    (h : HasSession f s t fd id (begun fds fd ++
      [Call.mmap fd (mappedSize shm.size) (some a), Call.shmId fd a i] ++ asks))
    (hasks : asks = [] ∨ ∃ fd' id' cmd', asks = [Call.invoke fd' id' cmd'])
    (hb : t.blocks f.sharedmem = o.hold shm fd a i) (ha : a ≠ 0) (hi : i ≠ -1)
    (hctx : f.context ∉ s.contextMap) (hfree : f.session ∉ s.sessionMap)
    (hsteps : reports v → steps = List.replicate n success) :
    Sound s reports n ((release₄ f t).map fun t' => ⟨v, steps, [((fd : Int), id)], t'⟩) ↔ Unnamed f s := by
  have hreleased := h.carried (releaseBlock_carried hb ha hi)
  refine (hreleased.close hfree).sound_iff hctx ?_ hsteps
  have hended : begun fds fd ++ [Call.mmap fd (mappedSize shm.size) (some a), Call.shmId fd a i] ++ asks ++
      [Call.munmap a (mappedSize shm.size), Call.shmRelease fd i] ++ [Call.closeSession fd id] ++ [Call.close fd] =
      ended fds fd (blockCalls fd id (mappedSize shm.size) a i asks) := by
    simp [ended, blockCalls]
  rw [hended]
  exact balanced_used fds fd id _ a hi hasks

end

/-! ## When a flow is sound -/

section
variable {f : Frame} {s : Teec.State}

theorem sound_gaveUp {α : Type} {reports : α → Prop} {n : Nat} {e : Ended α} {fds : List Nat}
    (hcalls : e.st.calls = s.calls ++ tries fds) (hopened : e.opened = []) (hmap : e.st.sessionMap = s.sessionMap)
    (hcmap : e.st.contextMap = s.contextMap) (hno : ¬ reports e.value) : Sound s reports n (some e) :=
  ⟨e, _, rfl, hcalls, hopened ▸ balanced_tries fds, hmap, hcmap, fun hr => absurd hr hno⟩

theorem sound_refused {α : Type} {reports : α → Prop} {n : Nat} {v : α} (hno : ¬ reports v) :
    Sound s reports n (some ⟨v, [], [], s⟩) :=
  have hnone : s.calls = s.calls ++ tries [] := (List.append_nil _).symm
  sound_gaveUp hnone rfl rfl rfl hno

theorem nextId_ne {t : Teec.State} (hid : 0 ≤ s.env.shmId s.allocs) (henv : t.env = s.env) (hallocs : t.allocs = s.allocs) :
    nextId t ≠ -1 := by
  have hpos : 0 ≤ nextId t := by
    rw [nextId_nonneg, henv, hallocs]
    exact hid
  omega

theorem transfer_sound_iff {buff : Addr} (hbuff : buff ≠ 0) (hctx : f.context ∉ s.contextMap)
    (hfree : f.session ∉ s.sessionMap) (hid : 0 ≤ s.env.shmId s.allocs) :
    Sound s (· = true) 4 (utGkTransferBuff f buff s) ↔ (DeviceReady s maxDevSeq → Unnamed f s) := by
  unfold utGkTransferBuff
  rw [if_neg hbuff]
  cases hinit : teecInitializeContext (clearFrame f s) f.context with
  | mk res₁ t =>
    dsimp only
    rcases initialize_cases hfree hinit with ⟨hres₁, hno, fds, hcalls, hmap, hcmap⟩ | ⟨rfl, hready, hallocs, fds, fd, hholds⟩
    · rw [if_pos hres₁]
      exact iff_of_true (sound_gaveUp hcalls rfl hmap hcmap Bool.false_ne_true) fun hready => absurd hready hno
    rw [if_neg (not_not.mpr rfl), forall_prop_of_true hready]
    generalize hout : teecOpenSession t f.context f.session .loginPublic 0 none = out
    rcases hholds.openSession hfree hout with ⟨hres₂, hholds₂⟩ | ⟨hres₂, hallocs₂, id, hsession⟩
    · -- the context is finalized here and once more at the label
      rw [if_pos hres₂]
      exact hholds₂.sound_twice_iff hctx (balanced_refused fds fd) fun h => absurd h Bool.false_ne_true
    rw [if_neg (not_not.mpr hres₂), hsession.opened]
    generalize hshm : ({ out.st.blocks f.sharedmem with
      buffer := buff, size := gatekeeperBuffSize, flags := memInput ||| memOutput } : SharedMemory) = shm
    have hok : Origin.accepts .registered f.context shm := by
      have hflags : badFlags (memInput ||| memOutput) = false := by decide
      subst hshm
      exact ⟨f.context.2, hflags, fun _ => hbuff⟩
    cases hget : getBlock f .registered out.st shm with
    | mk res₃ t₃ =>
      dsimp only
      rcases getBlock_cases hsession.context hok hget with ⟨hres₃, hcarried⟩ | ⟨rfl, a, ha, hblock, hcarried⟩
      · rw [if_pos hres₃]
        exact (hsession.carried hcarried).release₃_sound_iff hctx hfree fun h => absurd h Bool.false_ne_true
      rw [if_neg (not_not.mpr rfl)]
      have hplain : Plain 0xc := by decide
      generalize hinv : teecInvokeCommand t₃ f.session gkCommandMagic _ = inv
      obtain ⟨asks, hasks, hcarried', hblocks⟩ := invoke_carried hinv hplain
      refine ((hsession.carried hcarried).carried hcarried').release₄_sound_iff hasks
        (hblocks ▸ hblock) ha (nextId_ne hid hsession.env (hallocs₂.trans hallocs)) hctx hfree fun h => ?_
      rw [hres₂, of_decide_eq_true h]
      rfl

theorem fillBlock_carried (f : Frame) (req : Request) (t : Teec.State) :
    Carried t (fillBlock f req t) [] ∧ (fillBlock f req t).blocks = t.blocks := by
  unfold fillBlock
  dsimp only
  split <;> exact ⟨⟨(List.append_nil _).symm, rfl, rfl, rfl, rfl, rfl⟩, rfl⟩

/-- The flows of kmsetkey, with what is asked of the values: none of a call that
failed reports a success, and one of an answer only if its `n` steps succeeded. -/
theorem keyboxFlow_sound_iff {α : Type} {reports : α → Prop} {n : Nat} {req : Request} {gaveUp : Result → α}
    {conclude : Teec.State → UInt32 → α × List Result} (hflags : badFlags req.flags = false)
    (hplain : Plain req.paramTypes)
    (hgave : ∀ res, res ≠ success → ¬ reports (gaveUp res))
    (hconclude : ∀ t a, reports (conclude t a).1 → (conclude t a).2 = List.replicate n success)
    (hctx : f.context ∉ s.contextMap) (hfree : f.session ∉ s.sessionMap) (hid : 0 ≤ s.env.shmId s.allocs) :
    Sound s reports (4 + n) (keyboxFlow f req gaveUp conclude s) ↔ (DeviceReady s maxDevSeq → Unnamed f s) := by
  unfold keyboxFlow
  cases hinit : teecInitializeContext (clearFrame f s) f.context with
  | mk res₁ t =>
    dsimp only
    rcases initialize_cases hfree hinit with ⟨hres₁, hno, fds, hcalls, hmap, hcmap⟩ | ⟨rfl, hready, hallocs, fds, fd, hholds⟩
    · rw [if_pos hres₁]
      exact iff_of_true (sound_gaveUp hcalls rfl hmap hcmap (hgave _ hres₁)) fun hready => absurd hready hno
    rw [if_neg (not_not.mpr rfl), forall_prop_of_true hready]
    generalize hout : teecOpenSession t f.context f.session .loginPublic 0 none = out
    rcases hholds.openSession hfree hout with ⟨hres₂, hholds₂⟩ | ⟨hres₂, hallocs₂, id, hsession⟩
    · rw [if_pos hres₂]
      exact hholds₂.sound_iff hctx (balanced_refused fds fd) fun h => absurd h (hgave _ hres₂)
    rw [if_neg (not_not.mpr hres₂), hsession.opened]
    have hok : Origin.accepts .allocated f.context { out.st.blocks f.sharedmem with size := req.size, flags := req.flags } :=
      ⟨f.context.2, hflags, nofun⟩
    cases hget : getBlock f .allocated out.st _ with
    | mk res₃ t₃ =>
      dsimp only
      rcases getBlock_cases hsession.context hok hget with ⟨hres₃, hcarried⟩ | ⟨rfl, a, ha, hblock, hcarried⟩
      · rw [if_pos (.inl hres₃)]
        exact (hsession.carried hcarried).release₃_sound_iff hctx hfree fun h => absurd h (hgave _ hres₃)
      -- what the kernel mapped is not at null, so the test of the buffer adds nothing
      have hbuffer : ¬ (success ≠ success ∨ (t₃.blocks f.sharedmem).buffer = 0) := by
        rw [hblock]
        exact not_or.mpr ⟨not_not.mpr rfl, ha⟩
      rw [if_neg hbuffer]
      obtain ⟨hfilled, hsame⟩ := fillBlock_carried f req t₃
      generalize hinv : teecInvokeCommand (fillBlock f req t₃) f.session req.cmd _ = inv
      obtain ⟨asks, hasks, hcarried', hblocks⟩ := invoke_carried hinv hplain
      have hused := ((hsession.carried hcarried).carried hfilled).carried hcarried'
      rw [List.append_nil] at hused
      refine hused.release₄_sound_iff hasks ((hblocks.trans hsame) ▸ hblock) ha
        (nextId_ne hid hsession.env (hallocs₂.trans hallocs)) hctx hfree fun h => ?_
      rw [hres₂]
      by_cases hres₄ : inv.res = success
      · rw [if_neg (not_not.mpr hres₄)] at h ⊢
        rw [hconclude _ _ h, hres₄, List.replicate_add]
        rfl
      · rw [if_pos hres₄] at h
        exact absurd h (hgave _ hres₄)

theorem import_sound_iff {cmd : UInt32} {data : Addr} {datalen : UInt32} (hctx : f.context ∉ s.contextMap)
    (hfree : f.session ∉ s.sessionMap) (hid : 0 ≤ s.env.shmId s.allocs) :
    Sound s (· = 0) 5 (importFlow f cmd data datalen s) ↔
      (data ≠ 0 → datalen ≠ 0 → DeviceReady s maxDevSeq → Unnamed f s) := by
  unfold importFlow
  by_cases hargs : data = 0 ∨ datalen = 0
  · rw [if_pos hargs]
    refine iff_of_true (sound_refused (by decide)) fun hdata hlen => ?_
    exact absurd hargs (not_or.mpr ⟨hdata, hlen⟩)
  · obtain ⟨hdata, hlen⟩ := not_or.mp hargs
    rw [if_neg hargs, forall_prop_of_true hdata, forall_prop_of_true hlen]
    have hflags : badFlags memInput = false := by decide
    have hplain : Plain 0xd2 := by decide
    refine keyboxFlow_sound_iff (n := 1) hflags hplain (fun res => asInt_ne_zero) ?_ hctx hfree hid
    intro t a ha
    rw [asInt_eq_zero.mp ha]
    rfl

theorem check_sound_iff (hctx : f.context ∉ s.contextMap) (hfree : f.session ∉ s.sessionMap)
    (hid : 0 ≤ s.env.shmId s.allocs) :
    Sound s (·.rc = 0) 6 (utKmCheckGoogleKey f s) ↔ (DeviceReady s maxDevSeq → Unnamed f s) := by
  have hflags : badFlags memOutput = false := by decide
  have hplain : Plain 0xe2 := by decide
  refine keyboxFlow_sound_iff (n := 2) hflags hplain (fun res => asInt_ne_zero) ?_ hctx hfree hid
  intro t a
  unfold concludeCheck
  by_cases ha : a ≠ 0
  · rw [if_pos ha]
    intro hrc
    cases hrc
  rw [if_neg ha]
  dsimp only
  split
  · rw [not_not.mp ha]
    exact fun _ => rfl
  · intro hrc
    cases hrc

end

/-- **The flows balance what they take exactly if no session names their context
to begin with.** A flow that is given nothing to send or finds no device opens
nothing; every other one closes at the end whatever session the library still
has under the address of its context. -/
theorem flows_balanced_iff (f : Frame) (s : Teec.State) (buff data : Addr) (datalen : UInt32)
    (hctx : f.context ∉ s.contextMap) (hfree : f.session ∉ s.sessionMap) (hid : 0 ≤ s.env.shmId s.allocs) :
    (Sound s (· = true) 4 (utGkTransferBuff f buff s) ↔ (buff ≠ 0 → DeviceReady s maxDevSeq → Unnamed f s)) ∧
    (Sound s (· = 0) 5 (utKmImportGoogleKeyModel f data datalen s) ↔
      (data ≠ 0 → datalen ≠ 0 → DeviceReady s maxDevSeq → Unnamed f s)) ∧
    (Sound s (· = 0) 5 (utKmImportGoogleKey f data datalen s) ↔
      (data ≠ 0 → datalen ≠ 0 → DeviceReady s maxDevSeq → Unnamed f s)) ∧
    (Sound s (·.rc = 0) 6 (utKmCheckGoogleKey f s) ↔ (DeviceReady s maxDevSeq → Unnamed f s)) := by
  refine ⟨?_, import_sound_iff hctx hfree hid, import_sound_iff hctx hfree hid, check_sound_iff hctx hfree hid⟩
  by_cases hbuff : buff = 0
  · rw [hbuff, utGkTransferBuff, if_pos rfl]
    exact iff_of_true (sound_refused Bool.false_ne_true) fun h => absurd rfl h
  · rw [transfer_sound_iff hbuff hctx hfree hid, forall_prop_of_true hbuff]

/-- A stack, somewhere. -/
def stack : Frame := ⟨⟨0x10, by decide⟩, ⟨0x60, by decide⟩, ⟨0x70, by decide⟩⟩

theorem flows_balanced_fresh :
    Sound (.fresh obliging) (· = true) 4 (utGkTransferBuff stack 0x100 (.fresh obliging)) ∧
    Sound (.fresh obliging) (·.rc = 0) 6 (utKmCheckGoogleKey stack (.fresh obliging)) :=
  have h := flows_balanced_iff stack (.fresh obliging) 0x100 0x100 4 (by decide) (by decide) (by decide)
  have hnone : Unnamed stack (.fresh obliging) := fun _ hk => nomatch hk
  ⟨h.1.mpr fun _ _ => hnone, h.2.2.2.mpr fun _ => hnone⟩

/-- A process in which a client had two sessions in a context at 0x10, and another
client one in a context at 0x40, when the first finalized its context. -/
def leftBehind : Teec.State :=
  let t := (teecInitializeContext (.fresh obliging) 0x10).2
  let t := (teecOpenSession t 0x10 0x20 .loginPublic 0 none).st
  let t := (teecOpenSession t 0x10 0x30 .loginPublic 0 none).st
  let t := (teecInitializeContext t 0x40).2
  let t := (teecOpenSession t 0x40 0x50 .loginPublic 0 none).st
  (teecFinalizeContext t 0x10).getD t

/-- The second session was left registered; a flow whose context comes to lie at
the same address closes it, though it did not open it. -/
theorem flow_closes_session_left_behind :
    stack.context ∉ leftBehind.contextMap ∧ stack.session ∉ leftBehind.sessionMap ∧
    (∀ i, 0 ≤ leftBehind.env.shmId i) ∧
    ¬ Sound leftBehind (· = true) 4 (utGkTransferBuff stack 0x100 leftBehind) ∧
    ¬ Sound leftBehind (· = 0) 5 (utKmImportGoogleKeyModel stack 0x100 4 leftBehind) ∧
    ¬ Sound leftBehind (· = 0) 5 (utKmImportGoogleKey stack 0x100 4 leftBehind) ∧
    ¬ Sound leftBehind (·.rc = 0) 6 (utKmCheckGoogleKey stack leftBehind) := by
  have hone {α : Type} {reports : α → Prop} {n : Nat} {ran : Option (Ended α)}
      (h : ran.map (fun e => e.st.sessionMap.keys.map (·.1)) = some [0x50]) : ¬ Sound leftBehind reports n ran := by
    refine not_sound_of_fewer fun e he => ?_
    rw [he, Option.map_some, Option.some.injEq] at h
    have hlen := congrArg List.length h
    rw [List.length_map] at hlen
    rw [hlen]
    decide
  exact ⟨by decide, by decide, Int.natCast_nonneg, hone rfl, hone rfl, hone rfl, hone rfl⟩

end Clients
