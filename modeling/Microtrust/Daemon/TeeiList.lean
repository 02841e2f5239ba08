/-
The list of the daemon (teei_daemon/teei_list.h): circular, linked both ways,
with a head that is no member.

The heap has the links of every node by its address. An entry is linked in and
taken out by writing to it and to its two neighbours, which are one node, the
head, in a list with no other member.
-/
import Microtrust.Lib.Ring

namespace Daemon

open Lib

/-! ## The operations -/

abbrev Addr := Nat

/-- `struct teei_list`. -/
abbrev TeeiList := Links Addr

abbrev Heap := Addr → TeeiList

def listPoisonPrev : Addr := 0xDEADBEEF
def listPoisonNext : Addr := 0xFADEBABE

def setNext (heap : Heap) (p v : Addr) : Heap := Function.update heap p { heap p with next := v }

def setPrev (heap : Heap) (p v : Addr) : Heap := Function.update heap p { heap p with prev := v }

/-- `INIT_LIST_HEAD`. -/
def initListHead (heap : Heap) (ptr : Addr) : Heap := setPrev (setNext heap ptr ptr) ptr ptr

/-- `__teei_list_add`. -/
def rawTeeiListAdd (heap : Heap) (prev next entry : Addr) : Heap :=
  let heap := setPrev heap entry prev
  let heap := setNext heap entry next
  let heap := setNext heap prev entry
  setPrev heap next entry

def teeiListAdd (heap : Heap) (head entry : Addr) : Heap := rawTeeiListAdd heap head (heap head).next entry

def teeiListAddTail (heap : Heap) (tnode entry : Addr) : Heap := rawTeeiListAdd heap (heap tnode).prev tnode entry

/-- `__teei_list_del`. -/
def rawTeeiListDel (heap : Heap) (entry prev next : Addr) : Heap :=
  let heap := setNext heap prev (heap entry).next
  let heap := setPrev heap next (heap entry).prev
  let heap := setNext heap entry listPoisonNext
  setPrev heap entry listPoisonPrev

def teeiListDel (heap : Heap) (entry : Addr) : Heap := rawTeeiListDel heap entry (heap entry).prev (heap entry).next

def teeiListPopTail (heap : Heap) (head : Addr) : Addr × Heap :=
  let entry := (heap head).prev
  (entry, teeiListDel heap (heap head).prev)

def teeiListPop (heap : Heap) (head : Addr) : Addr × Heap :=
  let entry := (heap head).next
  (entry, teeiListDel heap (heap head).next)

def teeiListEmpty (heap : Heap) (head : Addr) : Int := if (heap head).next = head then 1 else 0

/-- The nodes `list_for_each` comes to; none if it has not ended after so many rounds. -/
def listForEach (heap : Heap) (head : Addr) (rounds : Nat) : Option (List Addr) := circuit heap head rounds (heap head).next

/-! ## Links after a write -/

section

variable (heap : Heap) (p v a : Addr)

@[simp] theorem setNext_next : (setNext heap p v a).next = if a = p then v else (heap a).next := by
  unfold setNext
  by_cases h : a = p
  · simp [h]
  · rw [Function.update_of_ne h, if_neg h]

@[simp] theorem setNext_prev : (setNext heap p v a).prev = (heap a).prev := by
  unfold setNext
  by_cases h : a = p
  · simp [h]
  · rw [Function.update_of_ne h]

@[simp] theorem setPrev_prev : (setPrev heap p v a).prev = if a = p then v else (heap a).prev := by
  unfold setPrev
  by_cases h : a = p
  · simp [h]
  · rw [Function.update_of_ne h, if_neg h]

@[simp] theorem setPrev_next : (setPrev heap p v a).next = (heap a).next := by
  unfold setPrev
  by_cases h : a = p
  · simp [h]
  · rw [Function.update_of_ne h]

end

variable {heap : Heap} {head e x z a : Addr} {l : List Addr}

theorem rawTeeiListAdd_next :
    (rawTeeiListAdd heap x z e a).next = if a = x then e else if a = e then z else (heap a).next := by
  simp [rawTeeiListAdd]

theorem rawTeeiListAdd_prev :
    (rawTeeiListAdd heap x z e a).prev = if a = z then e else if a = e then x else (heap a).prev := by
  simp [rawTeeiListAdd]

theorem rawTeeiListDel_next :
    (rawTeeiListDel heap e x z a).next =
      if a = e then listPoisonNext else if a = x then (heap e).next else (heap a).next := by
  simp [rawTeeiListDel]

theorem rawTeeiListDel_prev :
    (rawTeeiListDel heap e x z a).prev =
      if a = e then listPoisonPrev else if a = z then (heap e).prev else (heap a).prev := by
  simp [rawTeeiListDel]

theorem links_ext {s t : TeeiList} (hnext : s.next = t.next) (hprev : s.prev = t.prev) : s = t := by
  cases s
  cases t
  cases hnext
  cases hprev
  rfl

/-- Only the entry and its neighbours are written. -/
theorem rawTeeiListAdd_apart (hx : a ≠ x) (hz : a ≠ z) (he : a ≠ e) : rawTeeiListAdd heap x z e a = heap a := by
  refine links_ext ?_ ?_
  · rw [rawTeeiListAdd_next, if_neg hx, if_neg he]
  · rw [rawTeeiListAdd_prev, if_neg hz, if_neg he]

theorem rawTeeiListDel_apart (hx : a ≠ x) (hz : a ≠ z) (he : a ≠ e) : rawTeeiListDel heap e x z a = heap a := by
  refine links_ext ?_ ?_
  · rw [rawTeeiListDel_next, if_neg he, if_neg hx]
  · rw [rawTeeiListDel_prev, if_neg he, if_neg hz]

/-! ## One operation -/

/-- An operation took the list from `l` to `l'`: the ring has the new members, and
no node outside both lists was written. -/
structure Moved (head : Addr) (l l' : List Addr) (heap heap' : Heap) : Prop where
  ring : Ring heap' head l'
  apart : ∀ a, a ∉ head :: l → a ∉ l' → heap' a = heap a

/-- An entry is linked in between two parts of the list. -/
theorem add_moved {l₁ l₂ : List Addr} (h : Ring heap head (l₁ ++ l₂)) (he : e ∉ head :: (l₁ ++ l₂)) :
    ∃ x z, (l₁ = [] → x = head) ∧ (l₂ = [] → z = head) ∧ Joined heap x z ∧
      Moved head (l₁ ++ l₂) (l₁ ++ e :: l₂) heap (rawTeeiListAdd heap x z e) := by
  obtain ⟨x, z, hfirst, hlast, hx, hz, hjoined, hinsert⟩ := h.insert he
  have hex : e ≠ x := fun heq => he (heq ▸ hx)
  have hez : e ≠ z := fun heq => he (heq ▸ hz)
  refine ⟨x, z, hfirst, hlast, hjoined, hinsert _ ⟨?_, ?_⟩ ⟨?_, ?_⟩ ⟨?_, ?_⟩, ?_⟩
  · intro a ha hax
    have hae : a ≠ e := fun heq => he (heq ▸ ha)
    rw [rawTeeiListAdd_next, if_neg hax, if_neg hae]
  · intro a ha haz
    have hae : a ≠ e := fun heq => he (heq ▸ ha)
    rw [rawTeeiListAdd_prev, if_neg haz, if_neg hae]
  · rw [rawTeeiListAdd_next, if_pos rfl]
  · rw [rawTeeiListAdd_prev, if_neg hez, if_pos rfl]
  · rw [rawTeeiListAdd_next, if_neg hex, if_pos rfl]
  · rw [rawTeeiListAdd_prev, if_pos rfl]
  · intro a ha ha'
    refine rawTeeiListAdd_apart (fun heq => ha (heq ▸ hx)) (fun heq => ha (heq ▸ hz)) ?_
    rintro rfl
    exact ha' (by simp)

theorem teeiListAdd_moved (h : Ring heap head l) (he : e ∉ head :: l) :
    Moved head l (e :: l) heap (teeiListAdd heap head e) := by
  obtain ⟨x, z, hx, -, hjoined, hmoved⟩ := add_moved (show Ring heap head ([] ++ l) from h) he
  rw [hx rfl] at hjoined hmoved
  rw [teeiListAdd, hjoined.1]
  exact hmoved

theorem teeiListAddTail_moved (h : Ring heap head l) (he : e ∉ head :: l) :
    Moved head l (l ++ [e]) heap (teeiListAddTail heap head e) := by
  rw [← List.append_nil l] at h he
  obtain ⟨x, z, -, hz, hjoined, hmoved⟩ := add_moved h he
  rw [hz rfl] at hjoined hmoved
  rw [List.append_nil] at hmoved
  rw [teeiListAddTail, hjoined.2]
  exact hmoved

theorem teeiListDel_moved {l₁ l₂ : List Addr} (h : Ring heap head (l₁ ++ e :: l₂)) :
    Moved head (l₁ ++ e :: l₂) (l₁ ++ l₂) heap (teeiListDel heap e) := by
  obtain ⟨x, z, hx, hz, hbefore, hbehind, hremove⟩ := h.remove
  have he : e ∉ head :: (l₁ ++ l₂) := by
    have hnodup := h.nodup
    rw [← List.cons_append, List.nodup_middle] at hnodup
    exact (List.nodup_cons.mp hnodup).1
  have hxe : x ≠ e := fun heq => he (heq ▸ hx)
  have hze : z ≠ e := fun heq => he (heq ▸ hz)
  have hdel : teeiListDel heap e = rawTeeiListDel heap e x z := by rw [teeiListDel, hbefore.2, hbehind.1]
  rw [hdel]
  refine ⟨hremove _ ⟨?_, ?_⟩ ⟨?_, ?_⟩, ?_⟩
  · intro a ha hax
    have hae : a ≠ e := fun heq => he (heq ▸ ha)
    rw [rawTeeiListDel_next, if_neg hae, if_neg hax]
  · intro a ha haz
    have hae : a ≠ e := fun heq => he (heq ▸ ha)
    rw [rawTeeiListDel_prev, if_neg hae, if_neg haz]
  · rw [rawTeeiListDel_next, if_neg hxe, if_pos rfl, hbehind.1]
  · rw [rawTeeiListDel_prev, if_neg hze, if_pos rfl, hbefore.2]
  · intro a ha _
    have hmem (c : Addr) (hc : c ∈ head :: (l₁ ++ l₂)) : a ≠ c := by
      rintro rfl
      refine ha ?_
      simp only [List.mem_cons, List.mem_append] at hc ⊢
      tauto
    refine rawTeeiListDel_apart (hmem x hx) (hmem z hz) ?_
    rintro rfl
    exact ha (by simp)

/-! ## Any operations -/

/-- An operation on the list of a head. -/
inductive Op where
  | add (entry : Addr)
  | addTail (entry : Addr)
  | del (entry : Addr)
  | pop
  | popTail
deriving DecidableEq

namespace Op

/-- What it returns, if anything, and the heap it leaves. -/
def onHeap (head : Addr) : Op → Heap → Option Addr × Heap
  | .add entry, heap => (none, teeiListAdd heap head entry)
  | .addTail entry, heap => (none, teeiListAddTail heap head entry)
  | .del entry, heap => (none, teeiListDel heap entry)
  | .pop, heap => ((teeiListPop heap head).1, (teeiListPop heap head).2)
  | .popTail, heap => ((teeiListPopTail heap head).1, (teeiListPopTail heap head).2)

/-- The same on a sequence of members; none where it is not allowed. -/
def onSeq (head : Addr) : Op → List Addr → Option (Option Addr × List Addr)
  | .add entry, l => if entry ∈ head :: l then none else some (none, entry :: l)
  | .addTail entry, l => if entry ∈ head :: l then none else some (none, l ++ [entry])
  | .del entry, l => if entry ∈ l then some (none, l.erase entry) else none
  | .pop, l => l.head?.map fun x => (some x, l.tail)
  | .popTail, l => l.getLast?.map fun x => (some x, l.dropLast)

/-- The node it links in. -/
def added : Op → Option Addr
  | .add entry | .addTail entry => some entry
  | _ => none

end Op

def runHeap (head : Addr) : List Op → Heap → List (Option Addr) × Heap
  | [], heap => ([], heap)
  | op :: ops, heap =>
    let r := op.onHeap head heap
    let rest := runHeap head ops r.2
    (r.1 :: rest.1, rest.2)

def runSeq (head : Addr) : List Op → List Addr → Option (List (Option Addr) × List Addr)
  | [], l => some ([], l)
  | op :: ops, l => do
    let (out, l) ← op.onSeq head l
    let (outs, l) ← runSeq head ops l
    return (out :: outs, l)

variable {op : Op} {out : Option Addr} {l' : List Addr}

/-- Every operation that is allowed does to the ring what it does to the
sequence, and returns the same. -/
theorem onHeap_moved (h : Ring heap head l) (hop : op.onSeq head l = some (out, l')) :
    (op.onHeap head heap).1 = out ∧ Moved head l l' heap (op.onHeap head heap).2 := by
  cases op with
  | add entry =>
    simp only [Op.onSeq] at hop
    split at hop
    next => cases hop
    next he =>
      cases hop
      exact ⟨rfl, teeiListAdd_moved h he⟩
  | addTail entry =>
    simp only [Op.onSeq] at hop
    split at hop
    next => cases hop
    next he =>
      cases hop
      exact ⟨rfl, teeiListAddTail_moved h he⟩
  | del entry =>
    simp only [Op.onSeq] at hop
    split at hop
    next he =>
      cases hop
      obtain ⟨l₁, l₂, hnot, rfl, herase⟩ := List.exists_erase_eq he
      rw [herase]
      exact ⟨rfl, teeiListDel_moved h⟩
    next => cases hop
  | pop =>
    cases l with
    | nil => cases hop
    | cons x l =>
      cases hop
      have hpop : teeiListPop heap head = (x, teeiListDel heap x) := by rw [teeiListPop, h.next_head]
      rw [Op.onHeap, hpop]
      exact ⟨rfl, teeiListDel_moved (show Ring heap head ([] ++ x :: l) from h)⟩
  | popTail =>
    rcases List.eq_nil_or_concat l with rfl | ⟨l, x, rfl⟩
    · cases hop
    · rw [List.concat_eq_append] at h hop ⊢
      simp only [Op.onSeq, List.getLast?_concat, Option.map_some, List.dropLast_concat] at hop
      cases hop
      have hpop : teeiListPopTail heap head = (x, teeiListDel heap x) := by rw [teeiListPopTail, h.prev_head]
      rw [Op.onHeap, hpop]
      have hmoved := teeiListDel_moved h
      rw [List.append_nil] at hmoved
      exact ⟨rfl, hmoved⟩

/-! ## Refinement -/

/-- The heap has the list with these members: `list_for_each` comes to each of
them once and ends, going on and going back undo each other, and the list is
empty if there are none; and what is allowed next leaves nodes outside alone. -/
structure Refines (head : Addr) (l : List Addr) (heap : Heap) : Prop where
  visits : ∀ rounds, l.length < rounds → listForEach heap head rounds = some l
  once : (head :: l).Nodup
  inverse : ∀ x ∈ head :: l, (heap (heap x).next).prev = x ∧ (heap (heap x).prev).next = x
  empty : teeiListEmpty heap head ≠ 0 ↔ l = []
  untouched : ∀ (op : Op) (out : Option Addr) (l' : List Addr), op.onSeq head l = some (out, l') →
    ∀ a, a ∉ head :: l → a ∉ l' → (op.onHeap head heap).2 a = heap a

theorem refines_of_ring (h : Ring heap head l) : Refines head l heap where
  visits := fun _ hrounds => h.circuit hrounds
  once := h.nodup
  inverse := fun _ hx => h.inverse hx
  empty := by
    rw [← h.next_eq_head_iff, teeiListEmpty]
    by_cases hnext : (heap head).next = head
    · simp [hnext]
    · simp [hnext]
  untouched := fun _ _ _ hop => (onHeap_moved h hop).2.apart

theorem ring_initListHead (heap : Heap) (head : Addr) : Ring (initListHead heap head) head [] := by
  refine ring_nil (links_ext ?_ ?_)
  · simp [initListHead]
  · simp [initListHead]

theorem initListHead_apart (h : a ≠ head) : initListHead heap head a = heap a := by
  refine links_ext ?_ ?_
  · simp [initListHead, h]
  · simp [initListHead, h]

/-- Members come from what is added. -/
theorem mem_onSeq (hop : op.onSeq head l = some (out, l')) (ha : a ∈ l') : a ∈ l ∨ op.added = some a := by
  cases op with
  | add entry | addTail entry =>
    simp only [Op.onSeq] at hop
    split at hop
    next => cases hop
    next =>
      cases hop
      simp only [List.mem_cons, List.mem_append, List.not_mem_nil, or_false] at ha
      simp only [Op.added, Option.some.injEq]
      tauto
  | del entry =>
    simp only [Op.onSeq] at hop
    split at hop
    next =>
      cases hop
      exact .inl (List.mem_of_mem_erase ha)
    next => cases hop
  | pop =>
    simp only [Op.onSeq, Option.map_eq_some_iff] at hop
    obtain ⟨x, -, hx⟩ := hop
    cases hx
    exact .inl (List.mem_of_mem_tail ha)
  | popTail =>
    simp only [Op.onSeq, Option.map_eq_some_iff] at hop
    obtain ⟨x, -, hx⟩ := hop
    cases hx
    exact .inl (List.dropLast_subset _ ha)

/-- A run on a ring is a run on its members. -/
theorem runHeap_ring {ops : List Op} {outs : List (Option Addr)} (h : Ring heap head l)
    (hrun : runSeq head ops l = some (outs, l')) :
    (runHeap head ops heap).1 = outs ∧ Ring (runHeap head ops heap).2 head l' ∧
      ∀ a, a ∉ head :: l → (∀ op ∈ ops, op.added ≠ some a) → (runHeap head ops heap).2 a = heap a := by
  induction ops generalizing heap l outs with
  | nil =>
    cases hrun
    exact ⟨rfl, h, fun _ _ _ => rfl⟩
  | cons op ops ih =>
    simp only [runSeq, Option.bind_eq_bind, Option.bind_eq_some_iff] at hrun
    obtain ⟨⟨out, l₁⟩, hop, ⟨outs', l₂⟩, hrest, hret⟩ := hrun
    cases hret
    obtain ⟨hout, hmoved⟩ := onHeap_moved h hop
    obtain ⟨houts, hring, hapart⟩ := ih hmoved.ring hrest
    refine ⟨?_, hring, ?_⟩
    · show (op.onHeap head heap).1 :: (runHeap head ops (op.onHeap head heap).2).1 = _
      rw [hout, houts]
    · intro a ha hadded
      have hnew : a ∉ l₁ := by
        intro hmem
        rcases mem_onSeq hop hmem with hl | hnow
        · exact ha (List.mem_cons_of_mem head hl)
        · exact hadded op List.mem_cons_self hnow
      have hout₁ : a ∉ head :: l₁ := by
        rw [List.mem_cons, not_or]
        exact ⟨fun heq => ha (heq ▸ List.mem_cons_self), hnew⟩
      exact (hapart a hout₁ fun op' hop' => hadded op' (List.mem_cons_of_mem op hop')).trans (hmoved.apart a ha hnew)

/-- **The list refines a sequence.** Whatever operations are made on a list from
`INIT_LIST_HEAD` on, each where it is allowed, they return what they do on the
sequence of its members and leave the list of what the sequence has become; and
nodes that were never linked in are as they were. -/
theorem teei_list_refines (head : Addr) (heap : Heap) (ops : List Op) (outs : List (Option Addr)) (l : List Addr)
    (h : runSeq head ops [] = some (outs, l)) :
    (runHeap head ops (initListHead heap head)).1 = outs ∧ Refines head l (runHeap head ops (initListHead heap head)).2 ∧
      ∀ a, a ≠ head → (∀ op ∈ ops, op.added ≠ some a) → (runHeap head ops (initListHead heap head)).2 a = heap a := by
  obtain ⟨houts, hring, hapart⟩ := runHeap_ring (ring_initListHead heap head) h
  refine ⟨houts, refines_of_ring hring, ?_⟩
  intro a ha hadded
  have hout : a ∉ [head] := fun hmem => ha (List.mem_singleton.mp hmem)
  exact (hapart a hout hadded).trans (initListHead_apart ha)

/-- Two entries are added and the first is taken out: the head is the only
neighbour of the one left. -/
theorem one_left : Refines 0x10 [0x30]
    (runHeap 0x10 [.add 0x30, .add 0x20, .pop] (initListHead (fun _ => ⟨0, 0⟩) 0x10)).2 :=
  (teei_list_refines 0x10 (fun _ => ⟨0, 0⟩) [.add 0x30, .add 0x20, .pop] [none, none, some 0x20] [0x30] rfl).2.1

end Daemon
