/-
What holds of the property queue at every turn.

The links are those of a ring, or on their way from one ring to the next: the
thread that is inside a list operation has done a part of its statements. The
members of the ring, what each thread has in hand and what the semaphore counts
account for every entry in use and every setting posted.
-/
import Microtrust.Daemon.PropertyQueue

namespace Daemon.Queue

open Lib

/-! ## What a thread has in hand -/

namespace Sender

/-- The main thread holds the mutex. -/
def inside : Sender → Bool
  | .locked _ | .adding _ _ | .added _ | .posted | .removing _ _ | .removed _ => true
  | _ => false

/-- The entry it has that is not in the list. -/
def own : Sender → List Addr
  | .made e | .locked e | .adding e _ | .failed e => [e]
  | _ => []

/-- The entry it is linking in, and what is to do. -/
def linking : Sender → Option (Addr × List Stmt)
  | .adding e todo => some (e, todo)
  | _ => none

/-- It is taking its entry out again. -/
def withdraws : Sender → Bool
  | .removing _ _ | .removed _ => true
  | _ => false

end Sender

namespace Setter

def inside : Setter → Bool
  | .locked _ | .removing _ _ | .removed _ => true
  | _ => false

/-- What it was woken for is still in the list. -/
def owes : Setter → Nat
  | .woken | .got _ | .locked _ | .removing _ _ | .ended => 1
  | _ => 0

/-- The entry it has taken out and not set yet. -/
def taken : Setter → List Addr
  | .removed e | .setting e => [e]
  | _ => []

def dying : Setter → List Addr
  | .freeing e => [e]
  | _ => []

def unlinking : Setter → Option (Addr × List Stmt)
  | .removing e todo => some (e, todo)
  | _ => none

end Setter

/-- The links, against those at the last moment when no operation was half done. -/
def HeapOk (head : Addr) (s : State) (base : Heap) : Prop :=
  match s.main.linking with
  | some (e, todo) => Halfway base s.heap (addStmts head (base head).next e) todo
  | none =>
    match s.setter.unlinking with
    | some (e, todo) => Halfway base s.heap (delStmts e (base e).prev (base e).next) todo
    | none => s.heap = base

/-- The entry `property_setting_fn` is about to take out is in the list, or was
seen there while the main thread was linking it in. -/
def SetterOk (s : State) (l : List Addr) : Prop :=
  match s.setter with
  | .got e => e ∈ l ∨ ∃ todo, s.main.linking = some (e, todo)
  | .locked e | .removing e _ => e ∈ l
  | _ => True

/-- The entries that are posted and not taken out, after a turn. -/
def nextPosted (s : State) (posted : List Addr) : Turn → List Addr
  | .request _ _ => posted
  | .main _ =>
    match s.main with
    | .added e => e :: posted
    | _ => posted
  | .setter _ =>
    match s.setter with
    | .removing e [] => posted.erase e
    | _ => posted

/-- The members of the list are the entry that is not posted, if there is one,
and those posted and not taken out: as many as the semaphore counts and the
setter owes. -/
structure Inv (head : Addr) (s : State) (base : Heap) (posted : List Addr) : Prop where
  ring : Ring base head (s.main.unposted ++ posted)
  heap : HeapOk head s base
  lock : s.locked = (s.main.inside || s.setter.inside)
  apart : ¬ (s.main.inside = true ∧ s.setter.inside = true)
  posts : s.main.withdraws = false
  count : s.sem + s.setter.owes = posted.length
  live : s.live.Perm (s.main.own ++ (s.main.unposted ++ posted) ++ (s.setter.taken ++ s.setter.dying))
  fresh : (head :: s.live).Nodup ∧ headOffset ∉ s.live
  sent : s.sent.Perm (s.set ++ (s.setter.taken ++ posted).map s.fields)
  setter : SetterOk s (s.main.unposted ++ posted)

section

variable {head : Addr} {s : State} {base : Heap} {posted : List Addr}

theorem Setter.unlinking_of_outside {p : Setter} (h : p.inside = false) : p.unlinking = none := by
  cases p <;> simp_all [Setter.inside, Setter.unlinking]

theorem Sender.outside {p : Sender} (h : p.inside = false) : p.linking = none ∧ p.unposted = [] := by
  cases p <;> simp_all [Sender.inside, Sender.linking, Sender.unposted]

/-- With the mutex free, neither thread is inside. -/
theorem Inv.outside (h : Inv head s base posted) (hfree : s.locked = false) :
    s.main.inside = false ∧ s.setter.inside = false := by
  have hlock := h.lock
  rw [hfree] at hlock
  simpa using hlock.symm

theorem Inv.setter_outside (h : Inv head s base posted) (hmain : s.main.inside = true) : s.setter.inside = false := by
  simpa [hmain] using h.apart

theorem Inv.main_outside (h : Inv head s base posted) (hsetter : s.setter.inside = true) : s.main.inside = false := by
  simpa [hsetter] using h.apart

theorem Inv.heap_of_outside (h : Inv head s base posted) (hmain : s.main.linking = none)
    (hsetter : s.setter.unlinking = none) : s.heap = base := by
  have hheap := h.heap
  rwa [HeapOk, hmain, hsetter] at hheap

/-- The setter has not seen an entry of the main thread that is not in the list. -/
theorem SetterOk.mono {s s' : State} {l l' : List Addr} (h : SetterOk s l) (hsetter : s'.setter = s.setter)
    (hl : l ⊆ l') (hseen : ∀ e todo, s.main.linking = some (e, todo) → e ∈ l' ∨ ∃ todo, s'.main.linking = some (e, todo)) :
    SetterOk s' l' := by
  unfold SetterOk at h ⊢
  rw [hsetter]
  split
  next e hs =>
    rw [hs] at h
    rcases h with h | ⟨todo, h⟩
    · exact .inl (hl h)
    · exact hseen e todo h
  next e hs => rw [hs] at h; exact hl h
  next e todo hs => rw [hs] at h; exact hl h
  next => trivial

/-- The entry is linked in: what was half done is done. -/
theorem adding_done {heap : Heap} {fields : Addr → Setting} {live : List Addr} {locked : Bool} {sem : Nat} {e : Addr}
    {setter : Setter} {sent set : List Setting}
    (h : Inv head ⟨heap, fields, live, locked, sem, .adding e [], setter, sent, set⟩ base posted) :
    Inv head ⟨heap, fields, live, locked, sem, .added e, setter, sent, set⟩ heap posted := by
  have hout : setter.unlinking = none := Setter.unlinking_of_outside (h.setter_outside rfl)
  have hheap : heap = teeiListAdd base head e := by
    rw [← after_addStmts]
    exact Halfway.finish h.heap
  have he : e ∉ head :: posted := by
    have hfresh := h.fresh.1
    have hperm := h.live.cons head
    have hnodup := hperm.nodup_iff.mp hfresh
    simp only [Sender.own, Sender.unposted, List.nil_append, List.cons_append, List.nodup_cons, List.mem_cons,
      List.mem_append] at hnodup ⊢
    tauto
  refine { h with ring := ?_, heap := ?_, setter := ?_ }
  · rw [hheap]
    exact (teeiListAdd_moved h.ring he).ring
  · show HeapOk head _ heap
    simp only [HeapOk, Sender.linking, hout]
  · refine h.setter.mono rfl (List.subset_cons_self e _) ?_
    intro e' todo hseen
    cases hseen
    exact .inl List.mem_cons_self

/-- What is posted waits behind what was set and is taken. -/
theorem perm_posted (set : List Setting) (taken posted : List Addr) (e : Addr) (fields : Addr → Setting) :
    (set ++ (taken ++ posted).map fields ++ [fields e]).Perm (set ++ (taken ++ e :: posted).map fields) := by
  rw [List.append_assoc]
  refine List.Perm.append_left set ?_
  have hmove : (taken ++ posted ++ [e]).Perm (taken ++ e :: posted) := by
    rw [List.append_assoc]
    exact (List.perm_append_singleton e posted).append_left taken
  simpa using hmove.map fields

/-- What is left after a `free` is still in use once. -/
theorem fresh_erase {live : List Addr} (h : (head :: live).Nodup ∧ headOffset ∉ live) (e : Addr) :
    (head :: live.erase e).Nodup ∧ headOffset ∉ live.erase e := by
  refine ⟨h.1.sublist (List.erase_sublist.cons_cons head), ?_⟩
  intro hmem
  exact h.2 (List.mem_of_mem_erase hmem)

theorem stepMain_inv (h : Inv head s base posted) {ok : Bool} (hok : allowed head s (.main ok)) :
    ∃ base', Inv head (stepMain head ok s) base' (nextPosted s posted (.main ok)) := by
  obtain ⟨heap, fields, live, locked, sem, main, setter, sent, set⟩ := s
  cases main with
  | idle => exact ⟨base, h⟩
  | made e =>
    cases ok with
    | false => exact ⟨base, { h with }⟩
    | true =>
      cases locked with
      | true => exact ⟨base, h⟩
      | false =>
        have hout : setter.inside = false := (h.outside rfl).2
        exact ⟨base, { h with lock := rfl, apart := by simp [stepMain, hout] }⟩
  | locked e =>
    have hheap : heap = base := h.heap_of_outside rfl (Setter.unlinking_of_outside (h.setter_outside rfl))
    subst hheap
    refine ⟨heap, { h with heap := Halfway.begin _ _, setter := ?_ }⟩
    exact h.setter.mono rfl (List.Subset.refl _) (by simp [Sender.linking])
  | adding e todo =>
    cases todo with
    | nil => exact ⟨heap, adding_done h⟩
    | cons c todo =>
      refine ⟨base, { h with heap := Halfway.next h.heap, setter := ?_ }⟩
      refine h.setter.mono rfl (List.Subset.refl _) ?_
      intro e' todo' hseen
      cases hseen
      exact .inr ⟨todo, rfl⟩
  | added e =>
    have hstep : stepMain head ok ⟨heap, fields, live, locked, sem, .added e, setter, sent, set⟩ =
        ⟨heap, fields, live, locked, sem + 1, .posted, setter, sent ++ [fields e], set⟩ :=
      if_pos (hok (List.cons_ne_nil e []))
    rw [hstep]
    refine ⟨base, { h with count := ?_, sent := ?_, setter := ?_ }⟩
    · have hcount : sem + setter.owes = posted.length := h.count
      show sem + 1 + setter.owes = posted.length + 1
      omega
    · exact (h.sent.append_right [fields e]).trans (perm_posted set setter.taken posted e fields)
    · exact h.setter.mono rfl (List.Subset.refl _) (by simp [Sender.linking])
  | posted =>
    have hout : setter.inside = false := h.setter_outside rfl
    exact ⟨base, { h with
      lock := by simp [stepMain, hout, Sender.inside], apart := by simp [stepMain, Sender.inside] }⟩
  | removing e todo => exact absurd h.posts (by simp [Sender.withdraws])
  | removed e => exact absurd h.posts (by simp [Sender.withdraws])
  | failed e =>
    refine ⟨base, { h with live := ?_, fresh := fresh_erase h.fresh e }⟩
    have hlive : live.Perm (e :: (posted ++ (setter.taken ++ setter.dying))) := h.live
    have hrest := hlive.erase e
    rwa [List.erase_cons_head] at hrest

/-- The entry is out of the list. -/
theorem removing_done {heap : Heap} {fields : Addr → Setting} {live : List Addr} {locked : Bool} {sem : Nat} {e : Addr}
    {main : Sender} {sent set : List Setting}
    (h : Inv head ⟨heap, fields, live, locked, sem, main, .removing e [], sent, set⟩ base posted) :
    Inv head ⟨heap, fields, live, locked, sem, main, .removed e, sent, set⟩ heap (posted.erase e) := by
  obtain ⟨hlinking, hunposted⟩ : main.linking = none ∧ main.unposted = [] := Sender.outside (h.main_outside rfl)
  have he : e ∈ main.unposted ++ posted := h.setter
  have hring : Ring base head (main.unposted ++ posted) := h.ring
  have hheap : heap = teeiListDel base e := by
    have hhalf := h.heap
    simp only [HeapOk, hlinking] at hhalf
    rw [← after_delStmts]
    exact Halfway.finish hhalf
  have hlive := h.live
  have hcount : sem + 1 = posted.length := h.count
  simp only [hunposted, List.nil_append] at he hring hlive
  have hperm : posted.Perm (e :: posted.erase e) := List.perm_cons_erase he
  refine { h with ring := ?_, heap := ?_, count := ?_, live := ?_, sent := ?_, setter := trivial }
  · obtain ⟨l₁, l₂, -, hposted, herase⟩ := List.exists_erase_eq he
    show Ring heap head (main.unposted ++ posted.erase e)
    rw [hunposted, herase, List.nil_append, hheap]
    rw [hposted] at hring
    exact (teeiListDel_moved hring).ring
  · show HeapOk head _ heap
    simp only [HeapOk, hlinking, Setter.unlinking]
  · show sem = (posted.erase e).length
    rw [List.length_erase_of_mem he]
    omega
  · refine hlive.trans ?_
    show (main.own ++ posted ++ []).Perm (main.own ++ (main.unposted ++ posted.erase e) ++ [e])
    rw [hunposted, List.append_nil, List.nil_append, List.append_assoc]
    exact (hperm.trans (List.perm_append_singleton e _).symm).append_left main.own
  · refine h.sent.trans (List.Perm.append_left set ?_)
    exact hperm.map fields

theorem Inv.mem_live (h : Inv head s base posted) {a : Addr} (ha : a ∈ s.main.unposted ++ posted) : a ∈ s.live :=
  h.live.mem_iff.mpr (List.mem_append_left _ (List.mem_append_right _ ha))

theorem Inv.linking_live (h : Inv head s base posted) {e : Addr} {todo : List Stmt}
    (he : s.main.linking = some (e, todo)) : e ∈ s.live := by
  refine h.live.mem_iff.mpr (List.mem_append_left _ (List.mem_append_left _ ?_))
  cases hm : s.main with
  | adding e' todo' =>
    rw [hm] at he
    cases he
    exact List.mem_singleton_self e
  | _ => rw [hm] at he; cases he

theorem Inv.unlinking_mem (h : Inv head s base posted) {e : Addr} {todo : List Stmt}
    (he : s.setter.unlinking = some (e, todo)) : e ∈ s.main.unposted ++ posted := by
  have hsetter := h.setter
  unfold SetterOk at hsetter
  cases hs : s.setter with
  | removing e' todo' =>
    rw [hs] at he hsetter
    cases he
    exact hsetter
  | _ => rw [hs] at he; cases he

/-- What the setter sees at the head when it was woken: an entry of the list, or
the one that is being linked in. -/
theorem Inv.first_seen (h : Inv head s base posted) (howes : s.setter.owes = 1) (hout : s.setter.unlinking = none) :
    ((s.heap head).next ∈ s.main.unposted ++ posted ∨ ∃ todo, s.main.linking = some ((s.heap head).next, todo)) ∧
      (s.heap head).next ∈ s.live := by
  obtain ⟨y, rest, hmembers⟩ : ∃ y rest, s.main.unposted ++ posted = y :: rest := by
    refine List.exists_cons_of_ne_nil fun hnil => ?_
    have hcount := h.count
    rw [(List.append_eq_nil_iff.mp hnil).2, howes] at hcount
    simp at hcount
  have hfirst : (base head).next ∈ s.main.unposted ++ posted := by
    have hring := h.ring
    rw [hmembers] at hring ⊢
    rw [hring.next_head]
    exact List.mem_cons_self
  have hheap := h.heap
  rw [HeapOk, hout] at hheap
  cases hlinking : s.main.linking with
  | none =>
    rw [hlinking] at hheap
    rw [show s.heap = base from hheap]
    exact ⟨.inl hfirst, h.mem_live hfirst⟩
  | some linked =>
    obtain ⟨e, todo⟩ := linked
    rw [hlinking] at hheap
    have hlive := h.linking_live hlinking
    have hne : e ≠ head := by
      rintro rfl
      exact (List.nodup_cons.mp h.fresh.1).1 hlive
    rcases Halfway.next_head hheap hne with hnext | hnext
    · rw [hnext]
      exact ⟨.inl hfirst, h.mem_live hfirst⟩
    · rw [hnext]
      exact ⟨.inr ⟨todo, rfl⟩, hlive⟩

theorem stepSetter_inv (h : Inv head s base posted) (ok : Bool) :
    ∃ base', Inv head (stepSetter head ok s) base' (nextPosted s posted (.setter ok)) := by
  obtain ⟨heap, fields, live, locked, sem, main, setter, sent, set⟩ := s
  cases setter with
  | waiting =>
    by_cases hwake : ok = true ∧ 0 < sem
    · have hstep : stepSetter head ok ⟨heap, fields, live, locked, sem, main, .waiting, sent, set⟩ =
          ⟨heap, fields, live, locked, sem - 1, main, .woken, sent, set⟩ := if_pos hwake
      rw [hstep]
      refine ⟨base, { h with count := ?_ }⟩
      have hcount : sem + 0 = posted.length := h.count
      show sem - 1 + 1 = posted.length
      omega
    · have hstep : stepSetter head ok ⟨heap, fields, live, locked, sem, main, .waiting, sent, set⟩ = _ := if_neg hwake
      rw [hstep]
      exact ⟨base, h⟩
  | woken =>
    obtain ⟨hseen, hlive⟩ := h.first_seen rfl rfl
    have hnull : (heap head).next ≠ headOffset := fun heq => h.fresh.2 (heq ▸ hlive)
    have hstep : stepSetter head ok ⟨heap, fields, live, locked, sem, main, .woken, sent, set⟩ =
        ⟨heap, fields, live, locked, sem, main, .got (heap head).next, sent, set⟩ := if_neg hnull
    rw [hstep]
    exact ⟨base, { h with setter := hseen }⟩
  | got e =>
    cases ok with
    | false => exact ⟨base, { h with setter := trivial }⟩
    | true =>
      cases locked with
      | true => exact ⟨base, h⟩
      | false =>
        have hout : main.inside = false := (h.outside rfl).1
        refine ⟨base, { h with
          lock := by simp [stepSetter, Setter.inside], apart := by simp [stepSetter, hout], setter := ?_ }⟩
        have hseen : e ∈ main.unposted ++ posted ∨ ∃ todo, main.linking = some (e, todo) := h.setter
        rw [(Sender.outside hout).1] at hseen
        exact hseen.resolve_right (by simp)
  | locked e =>
    have hheap : heap = base := h.heap_of_outside (Sender.outside (h.main_outside rfl)).1 rfl
    subst hheap
    refine ⟨heap, { h with heap := ?_ }⟩
    simp only [stepSetter, HeapOk, (Sender.outside (h.main_outside rfl)).1]
    exact Halfway.begin _ _
  | removing e todo =>
    cases todo with
    | nil => exact ⟨heap, removing_done h⟩
    | cons c todo =>
      refine ⟨base, { h with heap := ?_ }⟩
      have hhalf := h.heap
      simp only [stepSetter, HeapOk, (Sender.outside (h.main_outside rfl)).1] at hhalf ⊢
      exact Halfway.next hhalf
  | removed e =>
    have hout : main.inside = false := h.main_outside rfl
    exact ⟨base, { h with
      lock := by simp [stepSetter, hout, Setter.inside], apart := by simp [stepSetter, Setter.inside] }⟩
  | setting e =>
    refine ⟨base, { h with live := ?_, sent := ?_ }⟩
    · exact h.live
    · have hsent : sent.Perm (set ++ (fields e :: posted.map fields)) := h.sent
      show sent.Perm (set ++ [fields e] ++ posted.map fields)
      rwa [List.append_assoc]
  | freeing e =>
    refine ⟨base, { h with live := ?_, fresh := fresh_erase h.fresh e }⟩
    have hlive : live.Perm (main.own ++ (main.unposted ++ posted) ++ [e]) := h.live
    have hrest := (hlive.trans (List.perm_append_singleton e _)).erase e
    rw [List.erase_cons_head] at hrest
    show (live.erase e).Perm (main.own ++ (main.unposted ++ posted) ++ [])
    rwa [List.append_nil]
  | ended => exact ⟨base, h⟩

/-! A new entry is nowhere in the list: that its links are cleared is not seen there. -/

theorem run_initListHead {base : Heap} {c : Stmt} {e : Addr} (he : e ∉ c.nodes) :
    c.run (initListHead base e) = initListHead (c.run base) e := by
  funext a
  cases c with
  | setNext p v | setPrev p v =>
    have hpe : p ≠ e := by simpa [Stmt.nodes, eq_comm] using he
    refine links_ext ?_ ?_
    · by_cases ha : a = e <;> simp [Stmt.run, initListHead, ha, hpe.symm]
    · by_cases ha : a = e <;> simp [Stmt.run, initListHead, ha, hpe.symm]
  | copyNext p q | copyPrev p q =>
    obtain ⟨hpe, hqe⟩ : e ≠ p ∧ e ≠ q := by simpa [Stmt.nodes] using he
    refine links_ext ?_ ?_
    · by_cases ha : a = e <;> simp [Stmt.run, initListHead, ha, hpe, hqe.symm]
    · by_cases ha : a = e <;> simp [Stmt.run, initListHead, ha, hpe, hqe.symm]

theorem after_initListHead {base : Heap} {stmts : List Stmt} {e : Addr} (he : ∀ c ∈ stmts, e ∉ c.nodes) :
    after stmts (initListHead base e) = initListHead (after stmts base) e := by
  induction stmts generalizing base with
  | nil => rfl
  | cons c stmts ih =>
    obtain ⟨hc, hstmts⟩ := List.forall_mem_cons.mp he
    show after stmts (c.run (initListHead base e)) = initListHead (after stmts (c.run base)) e
    rw [run_initListHead hc, ih hstmts]

theorem Halfway.initListHead {base heap : Heap} {all todo : List Stmt} {e : Addr} (h : Halfway base heap all todo)
    (he : ∀ c ∈ all, e ∉ c.nodes) : Halfway (initListHead base e) (initListHead heap e) all todo := by
  obtain ⟨done, hall, rfl⟩ := h
  refine ⟨done, hall, (after_initListHead fun c hc => he c ?_).symm⟩
  rw [hall]
  exact List.mem_append_left todo hc

theorem ring_initListHead_apart {base : Heap} {l : List Addr} {e : Addr} (h : Ring base head l) (he : e ∉ head :: l) :
    Ring (initListHead base e) head l := by
  refine ⟨isChain_imp ?_ h.joined, h.nexts, h.prevs⟩
  rintro a ha b hb ⟨hnext, hprev⟩
  have hmem (x : Addr) (hx : x ∈ head :: (l ++ [head])) : x ≠ e := by
    rintro rfl
    refine he ?_
    simp only [List.mem_cons, List.mem_append, List.not_mem_nil, or_false] at hx ⊢
    tauto
  refine ⟨?_, ?_⟩
  · rwa [initListHead_apart (hmem a (List.dropLast_subset _ ha))]
  · rwa [initListHead_apart (hmem b (List.mem_of_mem_tail hb))]

/-- The fields of the entries in use are as they were. -/
theorem Inv.fields_kept (h : Inv head s base posted) {e : Addr} {setting : Setting} (he : e ∉ s.live) :
    (s.setter.taken ++ posted).map (Function.update s.fields e setting) = (s.setter.taken ++ posted).map s.fields := by
  refine List.map_congr_left fun x hx => Function.update_of_ne ?_ _ _
  rintro rfl
  refine he (h.live.mem_iff.mpr ?_)
  simp only [List.mem_append] at hx ⊢
  tauto

theorem request_inv (h : Inv head s base posted) {e : Addr} {setting : Setting} (he : e ∉ head :: s.live)
    (hnull : e ≠ headOffset) : ∃ base', Inv head (step head s (.request e setting)) base' posted := by
  obtain ⟨heap, fields, live, locked, sem, main, setter, sent, set⟩ := s
  by_cases hidle : main = .idle
  swap
  · have hstep : step head ⟨heap, fields, live, locked, sem, main, setter, sent, set⟩ (.request e setting) = _ :=
      if_neg hidle
    rw [hstep]
    exact ⟨base, h⟩
  subst hidle
  have hlive : e ∉ live := fun hmem => he (List.mem_cons_of_mem head hmem)
  have hout : e ∉ head :: posted := by
    intro hmem
    rcases List.mem_cons.mp hmem with rfl | hmem
    · exact he List.mem_cons_self
    · exact hlive (h.mem_live hmem)
  have hmember {x : Addr} (hx : x ∈ head :: posted) : x ≠ e := fun heq => hout (heq ▸ hx)
  refine ⟨initListHead base e, { h with
    ring := ring_initListHead_apart h.ring hout, heap := ?_, live := h.live.cons e, fresh := ?_, sent := ?_,
    setter := h.setter.mono rfl (List.Subset.refl _) (by simp [Sender.linking]) }⟩
  · have hheap := h.heap
    simp only [HeapOk, Sender.linking, step, if_true] at hheap ⊢
    split at hheap
    next x todo hs =>
      have hx : x ∈ posted := h.unlinking_mem hs
      rw [initListHead_apart (hmember (List.mem_cons_of_mem head hx))]
      refine hheap.initListHead fun c hc hmem => ?_
      obtain ⟨hprev, hnext⟩ := neighbours_mem h.ring hx
      rcases nodes_delStmts hc hmem with rfl | rfl | rfl
      · exact hout (List.mem_cons_of_mem head hx)
      · exact hout hprev
      · exact hout hnext
    next => rw [hheap]
  · obtain ⟨hnodup, hoff⟩ := h.fresh
    refine ⟨(List.Perm.swap head e live).nodup_iff.mp (List.nodup_cons.mpr ⟨he, hnodup⟩), ?_⟩
    intro hmem
    exact (List.mem_cons.mp hmem).elim (fun heq => hnull heq.symm) hoff
  · show sent.Perm (set ++ (setter.taken ++ posted).map (Function.update fields e setting))
    rw [h.fields_kept hlive]
    exact h.sent

theorem step_inv {t : Turn} (h : Inv head s base posted) (ht : allowed head s t) :
    ∃ base', Inv head (step head s t) base' (nextPosted s posted t) := by
  cases t with
  | request e setting => exact request_inv h ht.1 ht.2
  | main ok => exact stepMain_inv h ht
  | setter ok => exact stepSetter_inv h ok

theorem start_inv (heap : Heap) (head : Addr) : Inv head (start heap head) (initListHead heap head) [] where
  ring := ring_initListHead heap head
  heap := rfl
  lock := rfl
  apart := by simp [start, Sender.inside]
  posts := rfl
  count := rfl
  live := .nil
  fresh := ⟨List.nodup_singleton head, List.not_mem_nil⟩
  sent := .nil
  setter := trivial

theorem reach_inv {heap : Heap} (h : Reach (step head) (allowed head) (start heap head) s) :
    ∃ base posted, Inv head s base posted := by
  refine h.invariant (P := fun s => ∃ base posted, Inv head s base posted) ⟨_, _, start_inv heap head⟩ ?_
  rintro s t ⟨base, posted, hinv⟩ ht
  obtain ⟨base', hnext⟩ := step_inv hinv ht
  exact ⟨base', _, hnext⟩

end

end Daemon.Queue
