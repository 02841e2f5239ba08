/-
The queue of property settings (teei_daemon/main.c). The main thread puts in what
it is asked to set, and the thread of `property_setting_fn` takes it out, sets
the property and frees the entry.

The two threads take turns in any order, and a turn is one statement: one call,
one store to a link, or one look at the head. `property_setting_fn` looks at the
first entry before it takes the mutex, so it may look while the main thread is
half through `teei_list_add`.

`handle_vfs_command` comes as a binary (libteei_daemon_vfs.so). What it does for
a setting is read off its code: the entry is made, linked in behind the head and
posted with the mutex held, and taken out again if `sem_post` fails.

Entries are named by the address of their `head` member.
-/
import Microtrust.Daemon.TeeiList
import Microtrust.Lib.Reach
import Mathlib.Data.List.Infix

namespace Daemon.Queue

open Lib

/-! ## The list operations, statement by statement -/

/-- A store to a link, of a value or of another node's link. -/
inductive Stmt where
  | setNext (p v : Addr)
  | setPrev (p v : Addr)
  | copyNext (p q : Addr)
  | copyPrev (p q : Addr)
deriving DecidableEq

namespace Stmt

def run (heap : Heap) : Stmt → Heap
  | .setNext p v => Daemon.setNext heap p v
  | .setPrev p v => Daemon.setPrev heap p v
  | .copyNext p q => Daemon.setNext heap p (heap q).next
  | .copyPrev p q => Daemon.setPrev heap p (heap q).prev

/-- The nodes it reads or writes. -/
def nodes : Stmt → List Addr
  | .setNext p _ | .setPrev p _ => [p]
  | .copyNext p q | .copyPrev p q => [p, q]

end Stmt

/-- The body of `__teei_list_add`. -/
def addStmts (prev next entry : Addr) : List Stmt :=
  [.setPrev entry prev, .setNext entry next, .setNext prev entry, .setPrev next entry]

/-- The body of `__teei_list_del`. -/
def delStmts (entry prev next : Addr) : List Stmt :=
  [.copyNext prev entry, .copyPrev next entry, .setNext entry listPoisonNext, .setPrev entry listPoisonPrev]

/-- The heap some statements leave. -/
def after (stmts : List Stmt) (heap : Heap) : Heap := stmts.foldl Stmt.run heap

/-! ## The two threads -/

/-- `struct teei_property_struct`, but for its links. -/
structure Setting where
  path : String
  context : String
deriving DecidableEq

/-- Where the `head` member lies in the structure: the entry is null if its node is here. -/
def headOffset : Addr := 16

/-- `SEM_VALUE_MAX`. -/
def semValueMax : Nat := 0x3fffffff

/-- Where the main thread is. -/
inductive Sender where
  | idle
  /-- The entry is filled, the mutex comes next. -/
  | made (e : Addr)
  | locked (e : Addr)
  /-- In `teei_list_add`, with these statements to go. -/
  | adding (e : Addr) (todo : List Stmt)
  /-- Linked in, `sem_post` comes next. -/
  | added (e : Addr)
  /-- Posted, the mutex is to be released. -/
  | posted
  /-- `sem_post` failed: in `teei_list_del`. -/
  | removing (e : Addr) (todo : List Stmt)
  | removed (e : Addr)
  /-- To be freed, having failed. -/
  | failed (e : Addr)
deriving DecidableEq

/-- The entry in the list that is not posted yet. -/
def Sender.unposted : Sender → List Addr
  | .added e => [e]
  | _ => []

/-- Where `property_setting_fn` is. -/
inductive Setter where
  | waiting
  /-- `sem_wait` returned 0. -/
  | woken
  /-- It has looked at the first entry; the mutex comes next. -/
  | got (e : Addr)
  | locked (e : Addr)
  /-- In `teei_list_del`. -/
  | removing (e : Addr) (todo : List Stmt)
  | removed (e : Addr)
  /-- The mutex is released; `property_set` comes next. -/
  | setting (e : Addr)
  | freeing (e : Addr)
  /-- It could not lock the mutex and returned -1. -/
  | ended
deriving DecidableEq

structure State where
  heap : Heap
  fields : Addr → Setting
  /-- The entries that `malloc` gave and `free` has not taken back. -/
  live : List Addr
  locked : Bool
  sem : Nat
  main : Sender
  setter : Setter
  /-- The settings posted, and the calls of `property_set`. -/
  sent : List Setting
  set : List Setting

/-- What `main` starts the threads with. -/
def start (heap : Heap) (head : Addr) : State where
  heap := initListHead heap head
  fields := fun _ => ⟨"", ""⟩
  live := []
  locked := false
  sem := 0
  main := .idle
  setter := .waiting
  sent := []
  set := []

/-- A turn: the main thread is asked to set a property and `malloc` gives it an
entry, or one of the threads goes on. `ok` says whether a `sem_wait` or
`pthread_mutex_lock` that comes next succeeds. -/
inductive Turn where
  | request (e : Addr) (setting : Setting)
  | main (ok : Bool)
  | setter (ok : Bool)
deriving DecidableEq

/-- The main thread's next statement. -/
def stepMain (head : Addr) (ok : Bool) (s : State) : State :=
  match s.main with
  | .idle => s
  | .made e =>
    if ok then if s.locked then s else { s with locked := true, main := .locked e }
    else { s with main := .failed e }
  | .locked e => { s with main := .adding e (addStmts head (s.heap head).next e) }
  | .adding e (c :: todo) => { s with heap := c.run s.heap, main := .adding e todo }
  | .adding e [] => { s with main := .added e }
  | .added e =>
    if s.sem < semValueMax then { s with sem := s.sem + 1, main := .posted, sent := s.sent ++ [s.fields e] }
    else { s with main := .removing e (delStmts e (s.heap e).prev (s.heap e).next) }
  | .posted => { s with locked := false, main := .idle }
  | .removing e (c :: todo) => { s with heap := c.run s.heap, main := .removing e todo }
  | .removing e [] => { s with main := .removed e }
  | .removed e => { s with locked := false, main := .failed e }
  | .failed e => { s with live := s.live.erase e, main := .idle }

/-- The next statement of `property_setting_fn`. -/
def stepSetter (head : Addr) (ok : Bool) (s : State) : State :=
  match s.setter with
  | .waiting => if ok ∧ 0 < s.sem then { s with sem := s.sem - 1, setter := .woken } else s
  | .woken =>
    -- `list_first_entry`, and the test against null
    if (s.heap head).next = headOffset then { s with setter := .waiting }
    else { s with setter := .got (s.heap head).next }
  | .got e =>
    if ok then if s.locked then s else { s with locked := true, setter := .locked e }
    else { s with setter := .ended }
  | .locked e => { s with setter := .removing e (delStmts e (s.heap e).prev (s.heap e).next) }
  | .removing e (c :: todo) => { s with heap := c.run s.heap, setter := .removing e todo }
  | .removing e [] => { s with setter := .removed e }
  | .removed e => { s with locked := false, setter := .setting e }
  | .setting e => { s with set := s.set ++ [s.fields e], setter := .freeing e }
  | .freeing e => { s with live := s.live.erase e, setter := .waiting }
  | .ended => s

def step (head : Addr) (s : State) : Turn → State
  | .request e setting =>
    if s.main = .idle then
      { s with
        live := e :: s.live, fields := Function.update s.fields e setting,
        heap := initListHead s.heap e, main := .made e }
    else s
  | .main ok => stepMain head ok s
  | .setter ok => stepSetter head ok s

/-- The nodes a turn reads or writes. -/
def touched (head : Addr) (s : State) : Turn → List Addr
  | .request _ _ => []
  | .main _ =>
    match s.main with
    | .locked _ => [head]
    | .adding _ (c :: _) | .removing _ (c :: _) => c.nodes
    | .added e | .failed e => [e]
    | _ => []
  | .setter _ =>
    match s.setter with
    | .woken => [head]
    | .locked e | .setting e | .freeing e => [e]
    | .removing _ (c :: _) => c.nodes
    | _ => []

/-- `malloc` gives what is not in use, and not so many settings wait that the
semaphore is full. -/
def allowed (head : Addr) (s : State) : Turn → Prop
  | .request e _ => e ∉ head :: s.live ∧ e ≠ headOffset
  | .main _ => s.main.unposted ≠ [] → s.sem < semValueMax
  | .setter _ => True

instance (head : Addr) (s : State) : (t : Turn) → Decidable (allowed head s t)
  | .request _ _ => inferInstanceAs (Decidable (_ ∧ _))
  | .main _ => inferInstanceAs (Decidable (_ → _))
  | .setter _ => inferInstanceAs (Decidable True)

/-! ## Halfway through an operation -/

section

variable {base heap : Heap} {head e a x z : Addr} {l : List Addr} {c : Stmt} {all todo : List Stmt}

theorem after_addStmts (base : Heap) (head e : Addr) :
    after (addStmts head (base head).next e) base = teeiListAdd base head e := rfl

theorem after_delStmts (base : Heap) (e : Addr) :
    after (delStmts e (base e).prev (base e).next) base = teeiListDel base e := rfl

/-- Of the statements `all` of an operation on `base`, `todo` are still to come. -/
def Halfway (base heap : Heap) (all todo : List Stmt) : Prop := ∃ done, all = done ++ todo ∧ heap = after done base

theorem Halfway.begin (base : Heap) (all : List Stmt) : Halfway base base all all := ⟨[], rfl, rfl⟩

theorem Halfway.next (h : Halfway base heap all (c :: todo)) : Halfway base (c.run heap) all todo := by
  obtain ⟨done, hall, hheap⟩ := h
  refine ⟨done ++ [c], ?_, ?_⟩
  · rw [hall, List.append_assoc]
    rfl
  · rw [hheap, after, after, List.foldl_append]
    rfl

theorem Halfway.finish (h : Halfway base heap all []) : heap = after all base := by
  obtain ⟨done, hall, hheap⟩ := h
  rw [hall, List.append_nil]
  exact hheap

theorem Halfway.mem (h : Halfway base heap all (c :: todo)) : c ∈ all := by
  obtain ⟨done, hall, -⟩ := h
  rw [hall]
  exact List.mem_append_right done List.mem_cons_self

/-- While an entry is linked in, the head points to what it did or to the entry. -/
theorem Halfway.next_head (h : Halfway base heap (addStmts head z e) todo) (he : e ≠ head) :
    (heap head).next = (base head).next ∨ (heap head).next = e := by
  obtain ⟨done, hall, rfl⟩ := h
  have hprefix : done <+: addStmts head z e := ⟨todo, hall.symm⟩
  have hdone : done ∈ (addStmts head z e).inits := (List.mem_inits done _).mpr hprefix
  simp only [addStmts, List.inits, List.map_cons, List.map_nil, List.mem_cons, List.not_mem_nil, or_false] at hdone
  rcases hdone with rfl | rfl | rfl | rfl | rfl
  · exact .inl rfl
  · exact .inl (by simp [after, Stmt.run])
  · exact .inl (by simp [after, Stmt.run, he.symm])
  · exact .inr (by simp [after, Stmt.run])
  · exact .inr (by simp [after, Stmt.run])

theorem nodes_addStmts (hc : c ∈ addStmts x z e) (ha : a ∈ c.nodes) : a = e ∨ a = x ∨ a = z := by
  simp only [addStmts, List.mem_cons, List.not_mem_nil, or_false] at hc
  rcases hc with rfl | rfl | rfl | rfl
  · exact .inl (by simpa [Stmt.nodes] using ha)
  · exact .inl (by simpa [Stmt.nodes] using ha)
  · exact .inr (.inl (by simpa [Stmt.nodes] using ha))
  · exact .inr (.inr (by simpa [Stmt.nodes] using ha))

theorem nodes_delStmts (hc : c ∈ delStmts e x z) (ha : a ∈ c.nodes) : a = e ∨ a = x ∨ a = z := by
  simp only [delStmts, List.mem_cons, List.not_mem_nil, or_false] at hc
  rcases hc with rfl | rfl | rfl | rfl
  · have ha : a = x ∨ a = e := by simpa [Stmt.nodes] using ha
    exact ha.elim (fun h => .inr (.inl h)) .inl
  · have ha : a = z ∨ a = e := by simpa [Stmt.nodes] using ha
    exact ha.elim (fun h => .inr (.inr h)) .inl
  · exact .inl (by simpa [Stmt.nodes] using ha)
  · exact .inl (by simpa [Stmt.nodes] using ha)

theorem next_head_mem (h : Ring base head l) : (base head).next ∈ head :: l := by
  cases l with
  | nil => rw [h.next_eq_head_iff.mpr rfl]; exact List.mem_cons_self
  | cons y l => rw [h.next_head]; simp

/-- The neighbours of a member. -/
theorem neighbours_mem (h : Ring base head l) (he : e ∈ l) : (base e).prev ∈ head :: l ∧ (base e).next ∈ head :: l := by
  obtain ⟨l₁, l₂, rfl⟩ := List.append_of_mem he
  obtain ⟨x, z, hx, hz, hbefore, hbehind, -⟩ := h.remove
  have hwider : head :: (l₁ ++ l₂) ⊆ head :: (l₁ ++ e :: l₂) := by
    intro a ha
    simp only [List.mem_cons, List.mem_append] at ha ⊢
    tauto
  rw [hbefore.2, hbehind.1]
  exact ⟨hwider hx, hwider hz⟩

end

end Daemon.Queue
