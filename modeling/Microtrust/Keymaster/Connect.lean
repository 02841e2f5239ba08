/-
Connecting to the keymaster TA (bp_keymaster_connect in
km4.1/common/beanpod_keymaster_ipc.cpp and its copy in keymint1.0/common), with
the TEE client library under it.

A connection is a context, a session in it, and two blocks of shared memory.
When one of them cannot be had the others are to be given back. The copy in
keymint1.0 then returns; the one in km4.1 goes on as if nothing had happened.
-/
import Microtrust.Keymaster.Ipc
import Microtrust.Teec.Exchange
import Microtrust.Teec.Finalize

namespace Keymaster

open Lib Teec

/-! ## The function -/

/-- Where the globals of the file are. -/
structure Globals where
  context : Ref
  session : Ref
  inputSM : Ref
  outputSM : Ref
  apart : inputSM ≠ outputSM

/-- The client's process: the library with the client's structures, and `handle_`. -/
structure Client where
  teec : Teec.State
  handle : Int

/-- How an attempt to connect ended: its value, the results of the calls that
acquire something, and the session it opened, by the descriptor and the id. -/
structure Attempt where
  rc : Int
  results : List Result
  opened : List (Int × UInt32)
  st : Client

variable (v : Variant) (g : Globals)

/-- `memset` of the context and the session. -/
def clearGlobals (t : Teec.State) : Teec.State :=
  { t with
    contexts := Function.update t.contexts g.context ⟨0⟩
    sessions := Function.update t.sessions g.session ⟨0, 0⟩ }

def allocateBlock (t : Teec.State) (p : Ref) (flags : UInt32) : Result × Teec.State :=
  match teecAllocateSharedMemory t g.context { t.blocks p with size := .ofNat v.bufferLength, flags } with
  | (res, shm, t) => (res, { t with blocks := Function.update t.blocks p shm })

def releaseBlock (t : Teec.State) (p : Ref) : Teec.State :=
  match teecReleaseSharedMemory t (t.blocks p) with
  | (shm, t) => { t with blocks := Function.update t.blocks p shm }

/-- `TEEC_CloseSession` and `TEEC_FinalizeContext`. -/
def giveUp (t : Teec.State) : Option Teec.State := teecFinalizeContext (teecCloseSession t g.session) g.context

/-- The end of `bp_keymaster_connect`, where the output block is still to be had. -/
def connectOutput (handle : Int) (results : List Result) (opened : List (Int × UInt32)) (t : Teec.State) :
    Option Attempt :=
  match allocateBlock v g t g.outputSM memOutput with
  | (res, t) =>
    let failed := decide (res ≠ success ∨ (t.blocks g.outputSM).buffer = 0)
    (if failed then giveUp g (releaseBlock t g.inputSM) else some t).bind fun t =>
      if failed && v.stopsOnFailedAlloc then some ⟨-1, results ++ [res], opened, t, handle⟩
      else some ⟨0, results ++ [res], opened, t, (t.contexts g.context).fd⟩

/-- The second half of `bp_keymaster_connect`, with a session: the two blocks. -/
def connectBlocks (handle : Int) (results : List Result) (t : Teec.State) : Option Attempt :=
  let opened := [((t.contexts g.context).fd, (t.sessions g.session).sessionId)]
  match allocateBlock v g t g.inputSM memInput with
  | (res, t) =>
    let failed := decide (res ≠ success ∨ (t.blocks g.inputSM).buffer = 0)
    (if failed then giveUp g t else some t).bind fun t =>
      if failed && v.stopsOnFailedAlloc then some ⟨-1, results ++ [res], opened, t, handle⟩
      else connectOutput v g handle (results ++ [res]) opened t

/-- `bp_keymaster_connect`. -/
def Client.bpKeymasterConnect (s : Client) : Option Attempt :=
  if 0 < s.handle then some ⟨0, [], [], s⟩
  else
    match teecInitializeContext (clearGlobals g s.teec) g.context with
    | (res, t) =>
      if res ≠ success then some ⟨asInt res, [res], [], t, s.handle⟩
      else
        let out := teecOpenSession t g.context g.session .loginPublic 0 none
        if out.res ≠ success then
          (teecFinalizeContext out.st g.context).map fun t => ⟨asInt out.res, [res, out.res], [], t, s.handle⟩
        else connectBlocks v g s.handle [res, out.res] out.st

/-! ## All or nothing -/

def openedFd : Teec.Call → Option Int
  | .openDev fd => some fd
  | _ => none

/-- Everything that the new calls acquired they gave back, once. -/
structure Undone (new : List Teec.Call) (opened : List (Int × UInt32)) : Prop where
  fds : (new.filterMap Call.closedFd).Perm (new.filterMap openedFd)
  sessions : new.filterMap Call.closedSession = opened
  maps : (new.filterMap Call.unmapped).Perm (new.filterMap Call.mapped)
  ids : (new.filterMap Call.released).Perm ((new.filterMap Call.obtained).filter (·.2 ≠ -1))

/-- The connection stands: one descriptor and one session were kept, and both
blocks are mapped. -/
structure Standing (t : Teec.State) (handle : Int) (new : List Teec.Call) (opened : List (Int × UInt32)) : Prop where
  handle : handle = (t.contexts g.context).fd
  context : g.context ∈ t.contextMap
  fds : (new.filterMap openedFd).Perm ((t.contexts g.context).fd :: new.filterMap Call.closedFd)
  session : g.session ∈ t.sessionMap ∧ (t.sessions g.session).ctx = g.context
  opened : opened = [((t.contexts g.context).fd, (t.sessions g.session).sessionId)]
  unclosed : new.filterMap Call.closedSession = []
  input : ((t.blocks g.inputSM).buffer, (t.blocks g.inputSM).allocedSize) ∈ t.maps
  output : ((t.blocks g.outputSM).buffer, (t.blocks g.outputSM).allocedSize) ∈ t.maps

/-- What connecting is to do: a value of 0 means that the connection stands,
and a failed step leaves nothing behind. -/
def AllOrNothing (s : Client) : Prop :=
  ∃ att new, s.bpKeymasterConnect v g = some att ∧ att.st.teec.calls = s.teec.calls ++ new ∧
    (att.rc = 0 → Standing g att.st.teec att.st.handle new att.opened) ∧
    ((∃ res ∈ att.results, res ≠ success) → att.rc ≠ 0 ∧ att.st.handle ≤ 0 ∧ Undone new att.opened)

/-- No session but the client's own is one of the client's context. -/
def Alone (t : Teec.State) : Prop := ∀ k ∈ t.sessionMap, k ≠ g.session → (t.sessions k).ctx ≠ g.context

variable {v g} {t t' : Teec.State} {res : Result}

/-! ## Initializing the context -/

/-- One of the next `n` devices answers as it should. -/
def DeviceReady (t : Teec.State) (n : Nat) : Prop := ∃ i < n, ∃ fd, t.env.dev (t.devs + i) = .ready fd

theorem deviceReady_succ {n : Nat} (henv : t'.env = t.env) (hdevs : t'.devs = t.devs + 1)
    (hno : ∀ fd, t.env.dev t.devs ≠ .ready fd) : DeviceReady t (n + 1) ↔ DeviceReady t' n := by
  constructor
  · rintro ⟨i, hi, fd, hfd⟩
    cases i with
    | zero => exact absurd hfd (hno fd)
    | succ i => exact ⟨i, by omega, fd, by rw [henv, hdevs, ← hfd]; congr 1; omega⟩
  · rintro ⟨i, hi, fd, hfd⟩
    exact ⟨i + 1, by omega, fd, by rw [← hfd, henv, hdevs]; congr 1; omega⟩

/-- Devices that were opened and closed again. -/
def tries (fds : List Nat) : List Teec.Call := fds.flatMap fun fd : Nat => [.openDev fd, .close fd]

/-- What initializing a context leaves of the rest. -/
structure Kept (t t' : Teec.State) : Prop where
  env : t'.env = t.env
  sessions : t'.sessions = t.sessions
  sessionMap : t'.sessionMap = t.sessionMap
  allocs : t'.allocs = t.allocs
  asked : t'.asked = t.asked

theorem Kept.trans {t₁ : Teec.State} (h : Kept t t₁) (h' : Kept t₁ t') : Kept t t' :=
  ⟨h'.env.trans h.env, h'.sessions.trans h.sessions, h'.sessionMap.trans h.sessionMap,
    h'.allocs.trans h.allocs, h'.asked.trans h.asked⟩

theorem teecOpenDev_cases (t : Teec.State) :
    (∃ fd t', t.env.dev t.devs = .ready fd ∧ teecOpenDev t = (some fd, t') ∧
      Kept t t' ∧ t'.contextMap = t.contextMap ∧ t'.calls = t.calls ++ [Teec.Call.openDev fd]) ∨
    (∃ fds t', (∀ fd, t.env.dev t.devs ≠ .ready fd) ∧ teecOpenDev t = (none, t') ∧
      Kept t t' ∧ t'.contextMap = t.contextMap ∧ t'.devs = t.devs + 1 ∧ t'.calls = t.calls ++ tries fds) := by
  unfold teecOpenDev
  cases hdev : t.env.dev t.devs with
  | ready fd => exact .inl ⟨fd, _, rfl, rfl, ⟨rfl, rfl, rfl, rfl, rfl⟩, rfl, rfl⟩
  | missing => exact .inr ⟨[], _, nofun, rfl, ⟨rfl, rfl, rfl, rfl, rfl⟩, rfl, rfl, (List.append_nil _).symm⟩
  | refused fd =>
    refine .inr ⟨[fd], _, nofun, rfl, ⟨rfl, rfl, rfl, rfl, rfl⟩, rfl, rfl, ?_⟩
    simp [Teec.State.log, tries]

theorem initializeFrom_cases {ctx : Ref} {n : Nat} (h : initializeFrom ctx n t = (res, t')) :
    Kept t t' ∧ ∃ fds,
      (res = errorItemNotFound ∧ ¬ DeviceReady t n ∧ t'.calls = t.calls ++ tries fds ∧
        t'.contextMap = t.contextMap) ∨
      (res = success ∧ DeviceReady t n ∧ ∃ fd : Nat, t'.calls = t.calls ++ (tries fds ++ [Teec.Call.openDev fd]) ∧
        t'.contexts ctx = ⟨fd⟩ ∧ t'.contextMap = t.contextMap.insert ctx) := by
  induction n generalizing t with
  | zero =>
    cases h
    exact ⟨⟨rfl, rfl, rfl, rfl, rfl⟩, [], .inl ⟨rfl, fun ⟨i, hi, _⟩ => absurd hi (Nat.not_lt_zero i),
      (List.append_nil _).symm, rfl⟩⟩
  | succ n ih =>
    rw [initializeFrom] at h
    rcases teecOpenDev_cases t with ⟨fd, t₁, hdev, hopen, hkept, hmap, hcalls⟩ |
      ⟨fds₁, t₁, hno, hopen, hkept, hmap, hdevs, hcalls⟩
    · rw [hopen] at h
      cases h
      refine ⟨⟨hkept.env, hkept.sessions, hkept.sessionMap, hkept.allocs, hkept.asked⟩, [],
        .inr ⟨rfl, ⟨0, Nat.succ_pos n, fd, hdev⟩, fd, hcalls, Function.update_self .., ?_⟩⟩
      rw [← hmap]
    · rw [hopen] at h
      obtain ⟨hkept', fds, hcases⟩ := ih h
      have hall (rest : List Teec.Call) :
          t₁.calls ++ (tries fds ++ rest) = t.calls ++ (tries (fds₁ ++ fds) ++ rest) := by
        simp [hcalls, tries]
      refine ⟨hkept.trans hkept', fds₁ ++ fds, ?_⟩
      rw [deviceReady_succ hkept.env hdevs hno, ← hmap]
      rcases hcases with ⟨hres, hnone, hc, hrest⟩ | ⟨hres, hsome, fd, hc, hrest⟩
      · refine .inl ⟨hres, hnone, ?_, hrest⟩
        simpa using hc.trans (by simpa using hall [])
      · exact .inr ⟨hres, hsome, fd, hc.trans (hall _), hrest⟩

/-! ## The session and the blocks -/

/-- Since the state `s` the calls `new` were made, and they left the client with
a context and a session. -/
structure Held (g : Globals) (s t : Teec.State) (fd : Nat) (id : UInt32) (new : List Teec.Call) : Prop where
  calls : t.calls = s.calls ++ new
  env : t.env = s.env
  context : t.contexts g.context = ⟨fd⟩
  contextMap : g.context ∈ t.contextMap
  session : t.sessions g.session = ⟨g.context, id⟩
  sessionMap : g.session ∈ t.sessionMap
  alone : Alone g t

variable {s : Teec.State} {fd : Nat} {id : UInt32} {new : List Teec.Call}

theorem Held.carried {more : List Teec.Call} (h : Held g s t fd id new) (hc : Carried t t' more) :
    Held g s t' fd id (new ++ more) := by
  obtain ⟨hcalls, henv, hctx, hcmap, hsession, hmap, halone⟩ := h
  refine ⟨?_, hc.env.trans henv, ?_, ?_, ?_, ?_, ?_⟩
  · rw [hc.calls, hcalls, List.append_assoc]
  · rw [hc.contexts, hctx]
  · rwa [hc.contextMap]
  · rw [hc.sessions, hsession]
  · rwa [hc.sessionMap]
  · rwa [Alone, hc.sessionMap, hc.sessions]

/-- The client's context has no session, though it still names its descriptor. -/
structure Free (g : Globals) (t : Teec.State) (fd : Nat) : Prop where
  context : t.contexts g.context = ⟨fd⟩
  gone : g.session ∉ t.sessionMap
  free : ∀ k ∈ t.sessionMap, (t.sessions k).ctx ≠ g.context

theorem Free.congr (h : Free g t fd) (hc : t'.contexts = t.contexts) (hm : t'.sessionMap = t.sessionMap)
    (hs : t'.sessions = t.sessions) : Free g t' fd := by
  obtain ⟨hctx, hgone, hfree⟩ := h
  rw [← hc] at hctx
  rw [← hm] at hgone hfree
  rw [← hs] at hfree
  exact ⟨hctx, hgone, hfree⟩

theorem Free.dropContext (h : Free g t fd) (ctx : Addr) : Free g (dropContext t ctx) fd := by
  unfold Teec.dropContext
  split
  · exact h
  · split
    · exact h.congr rfl rfl rfl
    · exact h

/-- Giving up once more does no harm. -/
theorem Free.giveUp (h : Free g t fd) : ∃ t', giveUp g t = some t' ∧ Free g t' fd := by
  have hclose : teecCloseSession t g.session = t := by
    unfold teecCloseSession
    rw [dif_neg g.session.2, if_neg h.gone]
  refine ⟨_, ?_, h.dropContext g.context⟩
  rw [Keymaster.giveUp, hclose]
  exact finalize_alone h.free

theorem giveUp_spec (h : Held g s t fd id new) :
    ∃ t', giveUp g t = some t' ∧
      t'.calls = s.calls ++ (new ++ [Teec.Call.closeSession fd id, .close fd]) ∧ Free g t' fd := by
  have hclose := closeSession_of_mem h.sessionMap
  rw [closeCall, h.session, h.context] at hclose
  have hfree : Free g (teecCloseSession t g.session) fd := by
    rw [hclose]
    refine ⟨h.context, fun hmem => (KeySet.mem_erase.mp hmem).1 rfl, fun k hk => ?_⟩
    obtain ⟨hne, hmem⟩ := KeySet.mem_erase.mp hk
    exact h.alone k hmem hne
  refine ⟨_, finalize_alone hfree.free, ?_, hfree.dropContext g.context⟩
  have hmem : g.context ∈ (teecCloseSession t g.session).contextMap := by
    rw [hclose]
    exact h.contextMap
  rw [dropContext_of_mem hmem, hclose]
  show t.calls ++ [Teec.Call.closeSession fd id] ++ [Teec.Call.close (t.contexts g.context).fd] = _
  rw [h.calls, h.context]
  simp

/-- Cleared and without a session, the client's context has none. -/
theorem Kept.free (h : Kept (clearGlobals g s) t) (halone : Alone g s) :
    ∀ k ∈ t.sessionMap, k ≠ g.session → (t.sessions k).ctx ≠ g.context := by
  intro k hk hne
  rw [h.sessionMap] at hk
  rw [h.sessions]
  have hsame : (clearGlobals g s).sessions k = s.sessions k :=
    Function.update_of_ne (fun he => hne (Subtype.ext he)) ..
  rw [hsame]
  exact halone k hk hne

theorem Kept.cleared (h : Kept (clearGlobals g s) t) : (t.sessions g.session).ctx ≠ g.context := by
  have hzero : (clearGlobals g s).sessions g.session = ⟨0, 0⟩ := Function.update_self ..
  rw [h.sessions, hzero]
  exact g.context.2.symm

/-- The TEE grants the session that is asked for. -/
def Granted (t : Teec.State) : Prop := ∃ r, t.env.tee t.asked = .ok r ∧ r.ret = success

/-- Everything opening the session can do: the TEE grants one, or the context is
closed. -/
theorem teecOpenSession_cases {out : Teec.Outcome} (hkept : Kept (clearGlobals g s) t) (halone : Alone g s)
    (hcalls : t.calls = s.calls ++ new) (hctx : t.contexts g.context = ⟨fd⟩) (hmem : g.context ∈ t.contextMap)
    (h : teecOpenSession t g.context g.session .loginPublic 0 none = out) :
    (out.res = success ∧ Granted s ∧
      ∃ id, Held g s out.st fd id (new ++ [Teec.Call.openSession fd]) ∧ out.st.allocs = s.allocs) ∨
    (out.res ≠ success ∧ ¬ Granted s ∧
      ∃ t', teecFinalizeContext out.st g.context = some t' ∧
        t'.calls = s.calls ++ (new ++ [Teec.Call.openSession fd, .close fd])) := by
  have hask : t.env.tee t.asked = s.env.tee s.asked := by rw [hkept.env, hkept.asked]; rfl
  have hfd : 0 ≤ (t.contexts g.context).fd := by
    rw [hctx]
    exact Int.natCast_nonneg fd
  rcases openSession_cases hfd h with ⟨r, m, hr, hret, hres, hst⟩ | ⟨hno, hres, hcarried⟩
  · rw [hst]
    refine .inl ⟨hres, ⟨r, hask.symm.trans hr, hret⟩, r.session,
      ⟨?_, hkept.env, hctx, hmem, Function.update_self .., KeySet.mem_insertKeys.mpr (.inl rfl), ?_⟩, hkept.allocs⟩
    · rw [hctx, hcalls, List.append_assoc]
    · intro k hk hne
      have hmem' : k ∈ t.sessionMap := (KeySet.mem_insertKeys.mp hk).resolve_left hne
      dsimp only
      rw [Function.update_of_ne (fun he => hne (Subtype.ext he))]
      exact hkept.free halone k hmem' hne
  · refine .inr ⟨hres, fun hgranted => ?_, ?_⟩
    · obtain ⟨r, hr, hret⟩ := hgranted
      exact hno r (hask.trans hr) hret
    · -- a context that was not given a session is closed alone
      have hfree : ∀ k ∈ out.st.sessionMap, (out.st.sessions k).ctx ≠ g.context := by
        rw [hcarried.sessionMap, hcarried.sessions]
        intro k hk
        by_cases hne : k = g.session
        · rw [hne]
          exact hkept.cleared
        · exact hkept.free halone k hk hne
      refine ⟨_, finalize_alone hfree, ?_⟩
      rw [dropContext_of_mem (hcarried.contextMap ▸ hmem)]
      show out.st.calls ++ [Teec.Call.close (out.st.contexts g.context).fd] = _
      rw [hcarried.calls, hcalls, hcarried.contexts, hctx]
      simp

/-- The length of a block. -/
def blockLen (v : Variant) : UInt64 := if UInt64.ofNat v.bufferLength = 0 then 8 else .ofNat v.bufferLength

/-- The id of the `i`th block. -/
def blockId (s : Teec.State) (i : Nat) : Int := if s.env.shmId i < 0 then -1 else s.env.shmId i

/-- A block that was mapped at `a`. -/
structure Mapped (t : Teec.State) (p : Ref) (fd : Nat) (a : Addr) (len : UInt64) (i : Int) : Prop where
  buffer : (t.blocks p).buffer = a
  allocedSize : (t.blocks p).allocedSize = len
  shadowBuffer : (t.blocks p).shadowBuffer = 0
  registeredFd : (t.blocks p).registeredFd = fd
  id : (t.blocks p).id = i
  maps : (a, len) ∈ t.maps

/-- Everything allocating a block can do. -/
theorem allocateBlock_cases {p : Ref} {flags : UInt32} (h : Held g s t fd id new) (hf : badFlags flags = false)
    (hr : allocateBlock v g t p flags = (res, t')) :
    t'.allocs = t.allocs + 1 ∧ (∀ q, q ≠ p → t'.blocks q = t.blocks q) ∧ t.maps ⊆ t'.maps ∧
      ((s.env.mmap t.allocs = none ∧ res = errorOutOfMemory ∧
          Held g s t' fd id (new ++ [Teec.Call.mmap fd (blockLen v) none])) ∨
        ∃ a, s.env.mmap t.allocs = some a ∧ res = success ∧
          Mapped t' p fd a (blockLen v) (blockId s t.allocs) ∧
          Held g s t' fd id (new ++ [Teec.Call.mmap fd (blockLen v) (some a), .shmId fd a (blockId s t.allocs)])) := by
  have hfd : (t.contexts g.context).fd = fd := by rw [h.context]
  have hmapAt : mapAt t g.context t.allocs = s.env.mmap t.allocs := by
    rw [mapAt, hfd, if_neg (not_lt.mpr (Int.natCast_nonneg fd)), h.env]
  have hlen : mappedSize (UInt64.ofNat v.bufferLength) = blockLen v := rfl
  have hid : nextId t = blockId s t.allocs := by
    rw [nextId, blockId, h.env]
  have hother (u : Teec.State) (shm : SharedMemory) (q : Ref) (hq : q ≠ p) :
      Function.update u.blocks p shm q = u.blocks q := Function.update_of_ne (fun he => hq (Subtype.ext he)) ..
  have hok : Origin.accepts .allocated g.context
      { t.blocks p with size := .ofNat v.bufferLength, flags } := ⟨g.context.2, hf, by simp⟩
  unfold allocateBlock at hr
  cases hmap : s.env.mmap t.allocs with
  | none =>
    obtain ⟨shm', -, hget⟩ := get_unmapped hok (hmapAt.trans hmap)
    have hget : teecAllocateSharedMemory t g.context _ = _ := hget
    rw [hget, hfd, hlen] at hr
    cases hr
    exact ⟨rfl, hother t shm', List.Subset.refl _, .inl ⟨rfl, rfl, h.carried ⟨rfl, rfl, rfl, rfl, rfl, rfl⟩⟩⟩
  | some a =>
    have hget : teecAllocateSharedMemory t g.context _ = _ := get_mapped hok (hmapAt.trans hmap)
    rw [hget, hfd, hlen, hid] at hr
    cases hr
    refine ⟨rfl, hother t _, List.subset_append_left .., .inr ⟨a, rfl, rfl, ?_, h.carried ⟨rfl, rfl, rfl, rfl, rfl, rfl⟩⟩⟩
    exact ⟨by simp [Origin.hold], by simp [Origin.hold, hlen], by simp [Origin.hold], by simp [Origin.hold],
      by simp [Origin.hold], List.mem_append_right _ (List.mem_singleton_self _)⟩

theorem releaseBlock_spec {p : Ref} {a : Addr} {len : UInt64} {i : Int} (h : Held g s t fd id new)
    (hm : Mapped t p fd a len i) (ha : a ≠ 0) :
    Held g s (releaseBlock t p) fd id (new ++ if i = -1 then [] else [Teec.Call.munmap a len, .shmRelease fd i]) := by
  have hfd : ¬ ((fd : Int) < 0) := by omega
  refine h.carried ?_
  unfold releaseBlock teecReleaseSharedMemory
  rw [hm.id, hm.registeredFd, hm.shadowBuffer, hm.buffer, hm.allocedSize]
  by_cases hi : i = -1
  · rw [if_pos hi, if_pos hi]
    exact ⟨(List.append_nil _).symm, rfl, rfl, rfl, rfl, rfl⟩
  · rw [if_neg hi, if_neg hi]
    simp only [hfd, if_false, ne_eq, not_true_eq_false, ha, not_false_eq_true, if_true]
    refine ⟨?_, rfl, rfl, rfl, rfl, rfl⟩
    show t.calls ++ [Teec.Call.munmap a len] ++ [Teec.Call.shmRelease fd i] = _
    simp

/-! ## The ways an attempt ends -/

/-- The calls up to a granted session. -/
def begun (fds : List Nat) (fd : Nat) : List Teec.Call := tries fds ++ [.openDev fd, .openSession fd]

/-- What a kind of call counts to in `tries`. -/
theorem filterMap_tries {α : Type*} (f : Teec.Call → Option α) (fds : List Nat)
    (hf : ∀ fd : Nat, f (.openDev fd) = none ∧ f (.close fd) = none) : (tries fds).filterMap f = [] := by
  rw [List.filterMap_eq_nil_iff]
  intro c hc
  obtain ⟨fd, -, hc⟩ := List.mem_flatMap.mp hc
  simp only [List.mem_cons, List.not_mem_nil, or_false] at hc
  rcases hc with rfl | rfl
  · exact (hf fd).1
  · exact (hf fd).2

theorem closedFd_tries (fds : List Nat) : (tries fds).filterMap Call.closedFd = fds.map Nat.cast := by
  induction fds with
  | nil => rfl
  | cons fd fds ih => exact congrArg _ ih

theorem openedFd_tries (fds : List Nat) : (tries fds).filterMap openedFd = fds.map Nat.cast := by
  induction fds with
  | nil => rfl
  | cons fd fds ih => exact congrArg _ ih

theorem undone_tries (fds : List Nat) : Undone (tries fds) [] := by
  refine ⟨?_, filterMap_tries _ fds fun _ => ⟨rfl, rfl⟩, ?_, ?_⟩
  · rw [closedFd_tries, openedFd_tries]
  · rw [filterMap_tries _ fds fun _ => ⟨rfl, rfl⟩, filterMap_tries _ fds fun _ => ⟨rfl, rfl⟩]
  · rw [filterMap_tries _ fds fun _ => ⟨rfl, rfl⟩, filterMap_tries _ fds fun _ => ⟨rfl, rfl⟩]
    exact .refl _

/-- The calls of an attempt that closed its context at the end. -/
def ended (fds : List Nat) (fd : Nat) (mid : List Teec.Call) : List Teec.Call := begun fds fd ++ mid ++ [.close fd]

/-- What is left to ask of them when `mid` closes and opens no other context. -/
theorem undone_ended {fds : List Nat} {fd : Nat} {mid : List Teec.Call} {opened : List (Int × UInt32)}
    (hclosed : mid.filterMap Call.closedFd = []) (hopened : mid.filterMap openedFd = []) :
    Undone (ended fds fd mid) opened ↔
      mid.filterMap Call.closedSession = opened ∧
      (mid.filterMap Call.unmapped).Perm (mid.filterMap Call.mapped) ∧
      (mid.filterMap Call.released).Perm ((mid.filterMap Call.obtained).filter (·.2 ≠ -1)) := by
  have hfds : ((ended fds fd mid).filterMap Call.closedFd).Perm ((ended fds fd mid).filterMap openedFd) := by
    simp only [ended, begun, List.filterMap_append, closedFd_tries, openedFd_tries, hclosed, hopened, List.append_nil]
    show (fds.map Nat.cast ++ [] ++ [(fd : Int)]).Perm (fds.map Nat.cast ++ [(fd : Int)] ++ [])
    simp
  have hrest {α : Type} (f : Teec.Call → Option α) (hf : ∀ fd : Nat, f (.openDev fd) = none ∧ f (.close fd) = none)
      (hs : f (.openSession fd) = none) : (ended fds fd mid).filterMap f = mid.filterMap f := by
    simp only [ended, begun, List.filterMap_append, filterMap_tries f fds hf, List.filterMap_cons, List.filterMap_nil,
      (hf fd).1, (hf fd).2, hs, List.nil_append, List.append_nil]
  have hsessions := hrest Call.closedSession (fun _ => ⟨rfl, rfl⟩) rfl
  have hunmapped := hrest Call.unmapped (fun _ => ⟨rfl, rfl⟩) rfl
  have hmapped := hrest Call.mapped (fun _ => ⟨rfl, rfl⟩) rfl
  have hreleased := hrest Call.released (fun _ => ⟨rfl, rfl⟩) rfl
  have hobtained := hrest Call.obtained (fun _ => ⟨rfl, rfl⟩) rfl
  constructor
  · rintro ⟨-, hs, hm, hi⟩
    rw [hsessions] at hs
    rw [hunmapped, hmapped] at hm
    rw [hreleased, hobtained] at hi
    exact ⟨hs, hm, hi⟩
  · rintro ⟨hs, hm, hi⟩
    refine ⟨hfds, hsessions.trans hs, ?_, ?_⟩
    · rw [hunmapped, hmapped]
      exact hm
    · rw [hreleased, hobtained]
      exact hi

variable {handle : Int} {results : List Result} {fds : List Nat} {opened : List (Int × UInt32)} {a : Addr} {i : Int}

theorem Mapped.mono {p : Ref} {len : UInt64} (h : Mapped t p fd a len i) (hb : t'.blocks p = t.blocks p)
    (hm : t.maps ⊆ t'.maps) : Mapped t' p fd a len i := by
  obtain ⟨h₁, h₂, h₃, h₄, h₅, h₆⟩ := h
  rw [← hb] at h₁ h₂ h₃ h₄ h₅
  exact ⟨h₁, h₂, h₃, h₄, h₅, hm h₆⟩

/-- What is to be given back of a block with the id `i`. -/
def giving (v : Variant) (fd : Nat) (a : Addr) (i : Int) : List Teec.Call :=
  if i = -1 then [] else [.munmap a (blockLen v), .shmRelease fd i]

/-- The calls that map a block. -/
def mapping (v : Variant) (fd : Nat) (a : Addr) (i : Int) : List Teec.Call :=
  [.mmap fd (blockLen v) (some a), .shmId fd a i]

/-- Everything that can become of the blocks: both are mapped, or one is not,
and then it depends on the variant whether that ends the attempt. -/
inductive Blocks (v : Variant) (g : Globals) (s : Teec.State) (fd : Nat) (id : UInt32) (handle : Int)
    (new : List Teec.Call) (results : List Result) : Option Attempt → Prop
  | noInput {t : Teec.State} (hin : s.env.mmap s.allocs = none) (hv : v.stopsOnFailedAlloc = true)
      (hc : t.calls = s.calls ++ (new ++ [.mmap fd (blockLen v) none] ++ [.closeSession fd id, .close fd])) :
      Blocks v g s fd id handle new results
        (some ⟨-1, results ++ [errorOutOfMemory], [(fd, id)], t, handle⟩)
  | noOutput {t : Teec.State} {a : Addr} (hin : s.env.mmap s.allocs = some a)
      (hout : s.env.mmap (s.allocs + 1) = none) (hv : v.stopsOnFailedAlloc = true)
      (hc : t.calls = s.calls ++ (new ++ mapping v fd a (blockId s s.allocs) ++ [.mmap fd (blockLen v) none] ++
        giving v fd a (blockId s s.allocs) ++ [.closeSession fd id, .close fd])) :
      Blocks v g s fd id handle new results
        (some ⟨-1, results ++ [success, errorOutOfMemory], [(fd, id)], t, handle⟩)
  | wentOn {att : Option Attempt} (hno : s.env.mmap s.allocs = none ∨ s.env.mmap (s.allocs + 1) = none)
      (hv : v.stopsOnFailedAlloc = false)
      (hatt : ∃ a, att = some a ∧ a.rc = 0 ∧ a.st.handle = fd ∧ errorOutOfMemory ∈ a.results) :
      Blocks v g s fd id handle new results att
  | both {t : Teec.State} {a a' : Addr} {i i' : Int} (hin : s.env.mmap s.allocs = some a)
      (hout : s.env.mmap (s.allocs + 1) = some a')
      (hh : Held g s t fd id (new ++ mapping v fd a i ++ mapping v fd a' i'))
      (hmi : Mapped t g.inputSM fd a (blockLen v) i) (hmo : Mapped t g.outputSM fd a' (blockLen v) i') :
      Blocks v g s fd id handle new results (some ⟨0, results ++ [success, success], [(fd, id)], t, fd⟩)

theorem connectOutput_cases
    (h : Held g s t fd id (new ++ mapping v fd a (blockId s s.allocs)))
    (hm : Mapped t g.inputSM fd a (blockLen v) (blockId s s.allocs)) (hmap : s.env.mmap s.allocs = some a)
    (hallocs : t.allocs = s.allocs + 1) :
    Blocks v g s fd id handle new results (connectOutput v g handle (results ++ [success]) [(↑fd, id)] t) := by
  have ha : a ≠ 0 := s.env.mmap_ne s.allocs a hmap
  unfold connectOutput
  cases hout : allocateBlock v g t g.outputSM memOutput with
  | mk res t₁ =>
    obtain ⟨-, hother, hmaps, ⟨hmap', rfl, hheld⟩ | ⟨a', hmap', rfl, hmapped, hheld⟩⟩ :=
      allocateBlock_cases h (by decide) hout
    · rw [hallocs] at hmap'
      have hfailed : (errorOutOfMemory ≠ success ∨ (t₁.blocks g.outputSM).buffer = 0) := .inl (by decide)
      have hinput := hm.mono (hother g.inputSM g.apart) hmaps
      obtain ⟨t₂, hgive, hcalls, hfree⟩ := giveUp_spec (releaseBlock_spec hheld hinput ha)
      simp only [decide_eq_true hfailed, if_true, hgive, Option.bind_some, Bool.true_and]
      cases hv : v.stopsOnFailedAlloc with
      | true =>
        rw [if_pos rfl, List.append_assoc]
        exact .noOutput hmap hmap' hv hcalls
      | false =>
        refine .wentOn (.inr hmap') hv ⟨_, rfl, rfl, ?_, by simp⟩
        rw [hfree.context]
    · rw [hallocs] at hmap'
      have hgood : ¬ (success ≠ success ∨ (t₁.blocks g.outputSM).buffer = 0) := by
        rw [hmapped.buffer]
        exact not_or.mpr ⟨not_not.mpr rfl, s.env.mmap_ne _ a' hmap'⟩
      simp only [decide_eq_false hgood, Bool.false_eq_true, if_false, Option.bind_some, Bool.false_and, hheld.context,
        List.append_assoc]
      exact .both hmap hmap' hheld (hm.mono (hother g.inputSM g.apart) hmaps) hmapped

theorem Free.allocateBlock (h : Free g t fd) (p : Ref) (flags : UInt32) :
    Free g (allocateBlock v g t p flags).2 fd := by
  obtain ⟨new, hc⟩ := get_carried .allocated t g.context { t.blocks p with size := .ofNat v.bufferLength, flags }
  exact h.congr hc.contexts hc.sessionMap hc.sessions

theorem Free.releaseBlock (h : Free g t fd) (p : Ref) : Free g (releaseBlock t p) fd := by
  obtain ⟨new, hc⟩ := release_carried t (t.blocks p)
  exact h.congr hc.contexts hc.sessionMap hc.sessions

/-- Where a failed allocation ends nothing, the rest goes through the motions. -/
theorem connectOutput_free (hv : v.stopsOnFailedAlloc = false) (h : Free g t fd) :
    ∃ att, connectOutput v g handle results opened t = some att ∧ att.rc = 0 ∧ att.st.handle = fd ∧
      ∃ res, att.results = results ++ [res] := by
  have hfree := h.allocateBlock (v := v) g.outputSM memOutput
  obtain ⟨t₁, hgive, hfree₁⟩ := (hfree.releaseBlock g.inputSM).giveUp
  unfold connectOutput
  cases hout : Keymaster.allocateBlock v g t g.outputSM memOutput with
  | mk res t' =>
    rw [hout] at hfree hgive
    simp only [hv, Bool.and_false, Bool.false_eq_true, if_false]
    split
    · exact ⟨_, by rw [hgive]; rfl, rfl, by rw [hfree₁.context], res, rfl⟩
    · exact ⟨_, rfl, rfl, by rw [hfree.context], res, rfl⟩

theorem connectBlocks_cases (h : Held g s t fd id new) (hallocs : t.allocs = s.allocs) :
    Blocks v g s fd id handle new results (connectBlocks v g handle results t) := by
  have hopened : ((t.contexts g.context).fd, (t.sessions g.session).sessionId) = ((fd : Int), id) := by
    rw [h.context, h.session]
  unfold connectBlocks
  rw [hopened]
  cases hin : allocateBlock v g t g.inputSM memInput with
  | mk res t₁ =>
    obtain ⟨hal₁, -, -, ⟨hmap, rfl, hheld⟩ | ⟨a, hmap, rfl, hmapped, hheld⟩⟩ :=
      allocateBlock_cases h (by decide) hin
    · rw [hallocs] at hmap
      have hfailed : (errorOutOfMemory ≠ success ∨ (t₁.blocks g.inputSM).buffer = 0) := .inl (by decide)
      obtain ⟨t₂, hgive, hcalls, hfree⟩ := giveUp_spec hheld
      simp only [decide_eq_true hfailed, if_true, hgive, Option.bind_some, Bool.true_and]
      cases hv : v.stopsOnFailedAlloc with
      | true => exact .noInput hmap hv hcalls
      | false =>
        obtain ⟨att, hatt, hrc, hhandle, res, hres⟩ := connectOutput_free hv hfree
        exact .wentOn (.inl hmap) hv ⟨att, hatt, hrc, hhandle, by simp [hres]⟩
    · rw [hallocs] at hmap hmapped hheld
      have hgood : ¬ (success ≠ success ∨ (t₁.blocks g.inputSM).buffer = 0) := by
        rw [hmapped.buffer]
        exact not_or.mpr ⟨not_not.mpr rfl, s.env.mmap_ne _ a hmap⟩
      simp only [decide_eq_false hgood, Bool.false_eq_true, if_false, Option.bind_some, Bool.false_and]
      exact connectOutput_cases hheld hmapped hmap (hal₁.trans (by rw [hallocs]))

/-- How the calls of the library end, for the model that takes them by their
results. -/
def outcomes (g : Globals) (t : Teec.State) : Connecting :=
  let (res, t₁) := teecInitializeContext (clearGlobals g t) g.context
  { contextResult := res
    fd := (t₁.contexts g.context).fd
    sessionResult := (teecOpenSession t₁ g.context g.session .loginPublic 0 none).res
    allocInput := (t.env.mmap t.allocs).isSome
    allocOutput := (t.env.mmap (t.allocs + 1)).isSome }

variable {c : Client} {att : Attempt}

/-- Everything an attempt to connect can do: no device, no session, or the blocks. -/
theorem connect_cases (v : Variant) (hh : c.handle ≤ 0) (halone : Alone g c.teec) :
    let o := outcomes g c.teec
    (¬ DeviceReady c.teec maxDevSeq ∧ o.contextResult ≠ success ∧ ∃ fds t,
      c.bpKeymasterConnect v g = some ⟨asInt o.contextResult, [o.contextResult], [], t, c.handle⟩ ∧
      t.calls = c.teec.calls ++ tries fds) ∨
    (¬ Granted c.teec ∧ o.contextResult = success ∧ o.sessionResult ≠ success ∧ ∃ fds fd t,
      c.bpKeymasterConnect v g = some ⟨asInt o.sessionResult, [success, o.sessionResult], [], t, c.handle⟩ ∧
      t.calls = c.teec.calls ++ ended fds fd []) ∨
    (DeviceReady c.teec maxDevSeq ∧ Granted c.teec ∧ o.contextResult = success ∧ o.sessionResult = success ∧
      ∃ (fds : List Nat) (fd : Nat) (id : UInt32), o.fd = fd ∧
        Blocks v g c.teec fd id c.handle (begun fds fd) [success, success] (c.bpKeymasterConnect v g)) := by
  unfold outcomes
  cases hinit : teecInitializeContext (clearGlobals g c.teec) g.context with
  | mk res t =>
    have hconn : c.bpKeymasterConnect v g = if res ≠ success then some ⟨asInt res, [res], [], t, c.handle⟩
        else
          let out := teecOpenSession t g.context g.session .loginPublic 0 none
          if out.res ≠ success then
            (teecFinalizeContext out.st g.context).map fun t => ⟨asInt out.res, [res, out.res], [], t, c.handle⟩
          else connectBlocks v g c.handle [res, out.res] out.st := by
      rw [Client.bpKeymasterConnect, if_neg (not_lt.mpr hh), hinit]
    rw [teecInitializeContext, dif_neg g.context.2] at hinit
    dsimp only
    obtain ⟨hkept, fds, ⟨rfl, hno, hcalls, -⟩ | ⟨rfl, hready, fd, hcalls, hctx, hmap⟩⟩ := initializeFrom_cases hinit
    · have hne : errorItemNotFound ≠ success := by decide
      rw [if_pos hne] at hconn
      exact .inl ⟨hno, hne, fds, t, hconn, hcalls⟩
    · rw [if_neg (not_not.mpr rfl)] at hconn
      have hmem : g.context ∈ t.contextMap := by
        rw [hmap]
        exact KeySet.mem_insertKeys.mpr (.inl rfl)
      rcases teecOpenSession_cases hkept halone hcalls hctx hmem rfl with
        ⟨hres, hgranted, id, hheld, hallocs⟩ | ⟨hres, hnot, t', hfinal, hcalls'⟩
      · simp only [hres, ne_eq, not_true_eq_false, if_false] at hconn
        have hbegun : tries fds ++ [Teec.Call.openDev fd] ++ [Teec.Call.openSession fd] = begun fds fd := by simp [begun]
        rw [hbegun] at hheld
        refine .inr (.inr ⟨hready, hgranted, rfl, hres, fds, fd, id, by rw [hctx], ?_⟩)
        rw [hconn]
        exact connectBlocks_cases hheld hallocs
      · simp only [hres, ne_eq, not_false_eq_true, if_true, hfinal, Option.map_some] at hconn
        have hended : tries fds ++ [Teec.Call.openDev fd] ++ [Teec.Call.openSession fd, .close fd] = ended fds fd [] := by
          simp [ended, begun]
        rw [hended] at hcalls'
        exact .inr (.inl ⟨hnot, rfl, hres, fds, fd, t', hconn, hcalls'⟩)

/-- The value and the handle that the model of the results gives. -/
theorem bpKeymasterConnect_value {env : Env v} {s : State} (h : s.handle ≤ 0) :
    let o := env.connect s.connects
    ((bpKeymasterConnect env s).1, (bpKeymasterConnect env s).2.handle) =
      if o.contextResult ≠ 0 then (asInt o.contextResult, s.handle)
      else if o.sessionResult ≠ 0 then (asInt o.sessionResult, s.handle)
      else if v.stopsOnFailedAlloc && !(o.allocInput && o.allocOutput) then (-1, s.handle)
      else (0, o.fd) := by
  unfold bpKeymasterConnect
  rw [if_neg (not_lt.mpr h)]
  dsimp only
  by_cases hctx : (env.connect s.connects).contextResult ≠ 0
  · rw [if_pos hctx, if_pos hctx]
    rfl
  by_cases hsession : (env.connect s.connects).sessionResult ≠ 0
  · rw [if_neg hctx, if_neg hctx, if_pos hsession, if_pos hsession]
    rfl
  rw [if_neg hctx, if_neg hctx, if_neg hsession, if_neg hsession]
  cases (env.connect s.connects).allocInput <;> cases (env.connect s.connects).allocOutput <;>
    cases v.stopsOnFailedAlloc <;> rfl

/-- Connecting refines the model that takes the library by its results: it
returns the same value and leaves the same handle. -/
theorem connect_refines (hh : c.handle ≤ 0) (halone : Alone g c.teec) {env : Env v} {s : State}
    (hs : s.handle = c.handle) (henv : env.connect s.connects = outcomes g c.teec) :
    ∃ att, c.bpKeymasterConnect v g = some att ∧
      ((bpKeymasterConnect env s).1, (bpKeymasterConnect env s).2.handle) = (att.rc, att.st.handle) := by
  rw [bpKeymasterConnect_value (hs.trans_le hh), henv, hs]
  rcases connect_cases v hh halone with ⟨-, hres, fds, t, hconn, -⟩ | ⟨-, hctx, hres, fds, fd, t, hconn, -⟩ |
    ⟨-, -, hctx, hres, fds, fd, id, hfd, hblocks⟩
  · exact ⟨_, hconn, if_pos hres⟩
  · exact ⟨_, hconn, (if_neg (not_not.mpr hctx)).trans (if_pos hres)⟩
  · have hctx₀ : (outcomes g c.teec).contextResult = 0 := hctx
    have hres₀ : (outcomes g c.teec).sessionResult = 0 := hres
    rw [if_neg (not_not.mpr hctx₀), if_neg (not_not.mpr hres₀), hfd]
    show ∃ att, _ ∧ (if (v.stopsOnFailedAlloc && !((c.teec.env.mmap c.teec.allocs).isSome &&
      (c.teec.env.mmap (c.teec.allocs + 1)).isSome)) = true then (-1, c.handle) else (0, (fd : Int))) = _
    generalize hconn : c.bpKeymasterConnect v g = out at hblocks
    cases hblocks with
    | noInput hin hv hc => exact ⟨_, rfl, by rw [hin, hv]; rfl⟩
    | noOutput hin hout hv hc => exact ⟨_, rfl, by rw [hin, hout, hv]; rfl⟩
    | wentOn hno hv hatt =>
      obtain ⟨att, rfl, hrc, hhandle, -⟩ := hatt
      exact ⟨att, rfl, by rw [hv, hrc, hhandle]; rfl⟩
    | both hin hout hheld hmi hmo => exact ⟨_, rfl, by rw [hin, hout]; simp⟩

/-! ## When it is all or nothing -/

/-- The blocks can be had, or can be given back: in km4.1 both are mapped; in
keymint1.0 the output block is, if the input block was mapped but has no id. -/
def BlocksSound (v : Variant) (t : Teec.State) : Prop :=
  if v.stopsOnFailedAlloc
  then (t.env.mmap t.allocs).isSome → t.env.shmId t.allocs < 0 → (t.env.mmap (t.allocs + 1)).isSome
  else (t.env.mmap t.allocs).isSome ∧ (t.env.mmap (t.allocs + 1)).isSome

theorem allOrNothing_attempt (h : c.bpKeymasterConnect v g = some att)
    (hc : att.st.teec.calls = c.teec.calls ++ new) :
    AllOrNothing v g c ↔ (att.rc = 0 → Standing g att.st.teec att.st.handle new att.opened) ∧
      ((∃ res ∈ att.results, res ≠ success) → att.rc ≠ 0 ∧ att.st.handle ≤ 0 ∧ Undone new att.opened) := by
  constructor
  · rintro ⟨att', new', h', hc', hrest⟩
    rw [h, Option.some.injEq] at h'
    subst h'
    rw [hc, List.append_cancel_left_eq] at hc'
    subst hc'
    exact hrest
  · intro hrest
    exact ⟨att, new, h, hc, hrest⟩

/-- An attempt that failed and says so has only to have undone what it did. -/
theorem allOrNothing_failed (hneg : att.rc ≠ 0) (hfail : ∃ res ∈ att.results, res ≠ success)
    (hh : att.st.handle ≤ 0) (h : c.bpKeymasterConnect v g = some att)
    (hc : att.st.teec.calls = c.teec.calls ++ new) : AllOrNothing v g c ↔ Undone new att.opened := by
  rw [allOrNothing_attempt h hc]
  exact ⟨fun hrest => (hrest.2 hfail).2.2, fun hu => ⟨fun hz => absurd hz hneg, fun _ => ⟨hneg, hh, hu⟩⟩⟩

theorem asInt_ne_zero (h : res ≠ success) : asInt res ≠ 0 := fun hz => h (asInt_eq_zero.mp hz)

theorem blockId_eq (t : Teec.State) (n : Nat) : blockId t n = -1 ↔ t.env.shmId n < 0 := by
  unfold blockId
  split <;> omega

/-- An input block without an output block is given back if it has an id. -/
theorem undone_giving :
    Undone (ended fds fd (mapping v fd a i ++ [Teec.Call.mmap fd (blockLen v) none] ++ giving v fd a i ++
      [Teec.Call.closeSession fd id])) [((fd : Int), id)] ↔ i ≠ -1 := by
  by_cases hid : i = -1
  · -- the release does nothing for a block without an id, and its mapping stays
    rw [giving, if_pos hid, undone_ended rfl rfl]
    exact iff_of_false (fun hu => List.not_perm_nil_cons _ _ hu.2.1) (not_not.mpr hid)
  · rw [giving, if_neg hid, undone_ended rfl rfl]
    refine iff_of_true ⟨rfl, .refl _, ?_⟩ hid
    show [((fd : Int), i)].Perm ([((fd : Int), i)].filter (·.2 ≠ -1))
    rw [List.filter_cons_of_pos (by simpa using hid)]
    exact .refl _

/-- What is there when both blocks were mapped. -/
theorem Held.standing {a' : Addr} {i' : Int}
    (h : Held g s t fd id (begun fds fd ++ mapping v fd a i ++ mapping v fd a' i'))
    (hmi : Mapped t g.inputSM fd a (blockLen v) i) (hmo : Mapped t g.outputSM fd a' (blockLen v) i') :
    Standing g t fd (begun fds fd ++ mapping v fd a i ++ mapping v fd a' i') [((fd : Int), id)] := by
  have hfd : (t.contexts g.context).fd = fd := by rw [h.context]
  refine ⟨hfd.symm, h.contextMap, ?_, ⟨h.sessionMap, by rw [h.session]⟩, ?_, ?_, ?_, ?_⟩
  · rw [hfd]
    simp only [begun, List.filterMap_append, closedFd_tries, openedFd_tries]
    show (fds.map Nat.cast ++ [(fd : Int)] ++ [] ++ []).Perm (fd :: (fds.map Nat.cast ++ [] ++ [] ++ []))
    simp only [List.append_nil]
    exact List.perm_append_singleton ..
  · rw [hfd, h.session]
  · simp only [begun, List.filterMap_append, filterMap_tries Call.closedSession fds fun _ => ⟨rfl, rfl⟩]
    rfl
  · rw [hmi.buffer, hmi.allocedSize]
    exact hmi.maps
  · rw [hmo.buffer, hmo.allocedSize]
    exact hmo.maps

theorem allOrNothing_blocks {out : Option Attempt} (hh : c.handle ≤ 0) (hconn : c.bpKeymasterConnect v g = out)
    (h : Blocks v g c.teec fd id c.handle (begun fds fd) [success, success] out) :
    AllOrNothing v g c ↔ BlocksSound v c.teec := by
  have hneg : (-1 : Int) ≠ 0 := by decide
  cases h with
  | noInput hin hv hc =>
    rename_i t
    have hsound : BlocksSound v c.teec := by
      rw [BlocksSound, if_pos hv, hin]
      exact fun h => Bool.noConfusion h
    have hnew : t.calls = c.teec.calls ++ ended fds fd [.mmap fd (blockLen v) none, .closeSession fd id] := by
      rw [hc]
      simp [ended]
    refine iff_of_true ((allOrNothing_failed hneg ⟨errorOutOfMemory, by simp, by decide⟩ hh hconn hnew).mpr ?_) hsound
    exact (undone_ended rfl rfl).mpr ⟨rfl, .refl _, .refl _⟩
  | noOutput hin hout hv hc =>
    rename_i t a
    have hnew : t.calls = c.teec.calls ++ ended fds fd (mapping v fd a (blockId c.teec c.teec.allocs) ++
        [Teec.Call.mmap fd (blockLen v) none] ++ giving v fd a (blockId c.teec c.teec.allocs) ++
        [Teec.Call.closeSession fd id]) := by
      rw [hc]
      simp [ended]
    rw [allOrNothing_failed hneg ⟨errorOutOfMemory, by simp, by decide⟩ hh hconn hnew, undone_giving, ne_eq, blockId_eq,
      BlocksSound, if_pos hv, hin, hout]
    exact ⟨fun h _ hlt => absurd hlt h, fun h hlt => Bool.noConfusion (h rfl hlt)⟩
  | wentOn hno hv hatt =>
    have hunsound : ¬ BlocksSound v c.teec := by
      rw [BlocksSound, hv, if_neg Bool.false_ne_true]
      rintro ⟨hin, hout⟩
      rcases hno with hno | hno
      · rw [hno] at hin
        cases hin
      · rw [hno] at hout
        cases hout
    refine iff_of_false ?_ hunsound
    rintro ⟨att, new, hatt', -, -, hfail⟩
    obtain ⟨att', ha, hrc, -, hmem⟩ := hatt
    obtain rfl : att = att' := Option.some.inj (hatt'.symm.trans (hconn.trans ha))
    exact (hfail ⟨errorOutOfMemory, hmem, by decide⟩).1 hrc
  | both hin hout hheld hmi hmo =>
    rename_i t a a' i i'
    have hsound : BlocksSound v c.teec := by
      rw [BlocksSound, hin, hout]
      split
      · exact fun _ _ => rfl
      · exact ⟨rfl, rfl⟩
    refine iff_of_true ((allOrNothing_attempt hconn hheld.calls).mpr ⟨fun _ => ?_, ?_⟩) hsound
    · exact hheld.standing hmi hmo
    · rintro ⟨res, hres, hne⟩
      have hall : ∀ r ∈ [success, success] ++ [success, success], r = success := by simp
      exact absurd (hall res hres) hne

/-- **Connecting is all or nothing exactly when the blocks allow it.** In km4.1 a
block that cannot be had is reported to nobody: the connection is dismantled and
0 is returned. In keymint1.0 the input block stays mapped when it has no id and
there is no output block, as the release refuses a block without an id. -/
theorem all_or_nothing_iff (v : Variant) (g : Globals) (c : Client) (hh : c.handle ≤ 0) (halone : Alone g c.teec) :
    AllOrNothing v g c ↔ (DeviceReady c.teec maxDevSeq → Granted c.teec → BlocksSound v c.teec) := by
  rcases connect_cases v hh halone with ⟨hno, hne, fds, t, hconn, hcalls⟩ |
    ⟨hnot, -, hne, fds, fd, t, hconn, hcalls⟩ | ⟨hready, hgranted, -, -, fds, fd, id, -, hblocks⟩
  · refine iff_of_true ((allOrNothing_failed (asInt_ne_zero hne) ⟨_, List.mem_singleton_self _, hne⟩ hh hconn
      hcalls).mpr (undone_tries fds)) fun hready => absurd hready hno
  · refine iff_of_true ((allOrNothing_failed (asInt_ne_zero hne) ⟨_, by simp, hne⟩ hh hconn hcalls).mpr ?_)
      fun _ hgranted => absurd hgranted hnot
    exact (undone_ended rfl rfl).mpr ⟨rfl, .refl _, .refl _⟩
  · rw [allOrNothing_blocks hh rfl hblocks]
    exact ⟨fun h _ _ => h, fun h => h hready hgranted⟩

/-- The globals, somewhere. -/
def bench : Globals := ⟨⟨0x100, by decide⟩, ⟨0x200, by decide⟩, ⟨0x300, by decide⟩, ⟨0x400, by decide⟩, by decide⟩

/-- There is no memory to map. -/
def exhausted : Teec.Env := { obliging with mmap := fun _ => none, mmap_ne := fun _ _ h => nomatch h }

/-- The first block is mapped but given no id, and there is no second. -/
def nameless : Teec.Env where
  dev := obliging.dev
  mmap := fun i => if i = 0 then some 0x1000 else none
  mmap_ne := by
    intro i a h
    split at h
    · cases h
      decide
    · cases h
  shmId := fun _ => -1
  tee := obliging.tee

/-- With no memory, km4.1 closes the session and the context and then returns 0
with the handle of the closed context. With an input block that has no id and
no output block, keymint1.0 fails and leaves the input block mapped. -/
theorem connect_reports_or_leaks :
    ¬ AllOrNothing km41 bench ⟨.fresh exhausted, -1⟩ ∧ ¬ AllOrNothing keymint10 bench ⟨.fresh nameless, -1⟩ := by
  refine ⟨?_, ?_⟩
  · rintro ⟨att, new, hatt, -, -, hfail⟩
    have hrun : (Client.bpKeymasterConnect km41 bench ⟨.fresh exhausted, -1⟩).map (fun a => (a.rc, a.results)) =
        some (0, [success, success, errorOutOfMemory, errorOutOfMemory]) := rfl
    rw [hatt, Option.map_some, Option.some.injEq, Prod.mk.injEq] at hrun
    exact (hfail ⟨errorOutOfMemory, by rw [hrun.2]; decide, by decide⟩).1 hrun.1
  · rintro ⟨att, new, hatt, hcalls, -, hfail⟩
    have hrun : (Client.bpKeymasterConnect keymint10 bench ⟨.fresh nameless, -1⟩).map
        (fun a => (a.results, a.st.teec.calls)) =
        some ([success, success, success, errorOutOfMemory], [.openDev 3, .openSession 3,
          .mmap 3 143360 (some 0x1000), .shmId 3 0x1000 (-1), .mmap 3 143360 none, .closeSession 3 0, .close 3]) := rfl
    rw [hatt, Option.map_some, Option.some.injEq, Prod.mk.injEq] at hrun
    obtain ⟨-, -, hundone⟩ := hfail ⟨errorOutOfMemory, by rw [hrun.1]; decide, by decide⟩
    obtain rfl := hrun.2.symm.trans hcalls
    exact List.not_perm_nil_cons _ _ hundone.maps

theorem all_or_nothing_iff_obliging : AllOrNothing keymint10 bench ⟨.fresh obliging, -1⟩ :=
  (all_or_nothing_iff keymint10 bench ⟨.fresh obliging, -1⟩ (by decide) (fun _ hk => nomatch hk)).mpr
    fun _ _ => (fun _ _ => rfl : (obliging.mmap 0).isSome → obliging.shmId 0 < 0 → (obliging.mmap 1).isSome)

end Keymaster
