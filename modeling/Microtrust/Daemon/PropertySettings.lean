/-
The property queue in every order of turns: it is sound, it drains, and a
property is given its values in the order they were posted unless two of them
wait at once.
-/
import Microtrust.Daemon.PropertyTurns
import Mathlib.Data.List.Perm.Subperm

namespace Daemon.Queue

open Lib

variable {head : Addr} {s : State} {base : Heap} {posted : List Addr}

/-! ## Soundness -/

/-- The entry `property_setting_fn` goes on to use. -/
def Setter.entry : Setter → Option Addr
  | .got e | .locked e | .removing e _ | .removed e | .setting e | .freeing e => some e
  | _ => none

/-- No thread touches what is not in use, what is taken for an entry is one and not
the head, no setting is made that was not posted or made twice, and those not
made yet are waited for. When both threads are at rest nothing is left. -/
structure Sound (head : Addr) (s : State) : Prop where
  safe : ∀ t, ∀ a ∈ touched head s t, a ∈ head :: s.live
  entry : ∀ e, s.setter.entry = some e → e ∈ s.live ∧ e ≠ head
  once : s.set.Subperm s.sent
  waits : s.sent.length = s.set.length + s.setter.taken.length + s.setter.owes + s.sem
  rest : s.main = .idle → s.setter = .waiting → s.sem = 0 →
    s.set.Perm s.sent ∧ s.live = [] ∧ s.heap head = ⟨head, head⟩

theorem Inv.entry_live (h : Inv head s base posted) {e : Addr} (he : s.setter.entry = some e) : e ∈ s.live := by
  have hsetter := h.setter
  have hlive (hmem : e ∈ s.setter.taken ++ s.setter.dying) : e ∈ s.live :=
    h.live.mem_iff.mpr (List.mem_append_right _ hmem)
  unfold SetterOk at hsetter
  cases hs : s.setter with
  | got e' =>
    rw [hs] at he hsetter
    cases he
    rcases hsetter with hmem | ⟨todo, hlinking⟩
    · exact h.mem_live hmem
    · exact h.linking_live hlinking
  | locked e' | removing e' =>
    rw [hs] at he hsetter
    cases he
    exact h.mem_live hsetter
  | removed e' | setting e' | freeing e' =>
    rw [hs] at he hlive
    cases he
    exact hlive (by simp [Setter.taken, Setter.dying])
  | _ => rw [hs] at he; cases he

theorem Inv.members_live (h : Inv head s base posted) : head :: (s.main.unposted ++ posted) ⊆ head :: s.live := by
  intro a ha
  rcases List.mem_cons.mp ha with rfl | ha
  · exact List.mem_cons_self
  · exact List.mem_cons_of_mem head (h.mem_live ha)

/-- The main thread touches the head, its entry and the entry that was first. -/
theorem Inv.main_touches (h : Inv head s base posted) {ok : Bool} {a : Addr} (ha : a ∈ touched head s (.main ok)) :
    a ∈ head :: s.live := by
  have howned (hmem : a ∈ s.main.own) : a ∈ head :: s.live :=
    List.mem_cons_of_mem head (h.live.mem_iff.mpr (List.mem_append_left _ (List.mem_append_left _ hmem)))
  simp only [touched] at ha
  split at ha
  next => exact List.mem_singleton.mp ha ▸ List.mem_cons_self
  next e c todo hm =>
    have hhalf := h.heap
    rw [HeapOk, hm] at hhalf
    rcases nodes_addStmts (Halfway.mem hhalf) ha with rfl | rfl | rfl
    · exact howned (by rw [hm]; exact List.mem_singleton_self a)
    · exact List.mem_cons_self
    · exact h.members_live (next_head_mem h.ring)
  next e c todo hm => exact absurd h.posts (by simp [hm, Sender.withdraws])
  next e hm =>
    refine h.members_live (List.mem_cons_of_mem head (List.mem_append_left posted ?_))
    rw [hm]
    exact ha
  next e hm => exact howned (by rw [hm]; exact ha)
  next => cases ha

/-- The setter touches the head, its entry and the neighbours of that. -/
theorem Inv.setter_touches (h : Inv head s base posted) {ok : Bool} {a : Addr} (ha : a ∈ touched head s (.setter ok)) :
    a ∈ head :: s.live := by
  have hentry {e : Addr} (he : s.setter.entry = some e) (hmem : a ∈ [e]) : a ∈ head :: s.live := by
    rw [List.mem_singleton.mp hmem]
    exact List.mem_cons_of_mem head (h.entry_live he)
  simp only [touched] at ha
  split at ha
  next => exact List.mem_singleton.mp ha ▸ List.mem_cons_self
  next e hs => exact hentry (by rw [hs]; rfl) ha
  next e hs => exact hentry (by rw [hs]; rfl) ha
  next e hs => exact hentry (by rw [hs]; rfl) ha
  next e c todo hs =>
    have hunlinking : s.setter.unlinking = some (e, c :: todo) := by rw [hs]; rfl
    have hout : s.main.linking = none := (Sender.outside (h.main_outside (by rw [hs]; rfl))).1
    have hhalf := h.heap
    rw [HeapOk, hout, hunlinking] at hhalf
    have hmem := h.unlinking_mem hunlinking
    obtain ⟨hprev, hnext⟩ := neighbours_mem h.ring hmem
    rcases nodes_delStmts (Halfway.mem hhalf) ha with rfl | rfl | rfl
    · exact List.mem_cons_of_mem head (h.mem_live hmem)
    · exact h.members_live hprev
    · exact h.members_live hnext
  next => cases ha

/-- **In every order of turns the queue is sound**, if `malloc` gives memory that is
not in use and the semaphore is never full. -/
theorem queue_sound (heap : Heap) (head : Addr) (s : State)
    (h : Reach (step head) (allowed head) (start heap head) s) : Sound head s := by
  obtain ⟨base, posted, hinv⟩ := reach_inv h
  refine ⟨?_, ?_, ?_, ?_, ?_⟩
  · intro t a ha
    cases t with
    | request e setting => cases ha
    | main ok => exact hinv.main_touches ha
    | setter ok => exact hinv.setter_touches ha
  · intro e he
    have hlive := hinv.entry_live he
    refine ⟨hlive, ?_⟩
    rintro rfl
    exact (List.nodup_cons.mp hinv.fresh.1).1 hlive
  · exact ((List.prefix_append _ _).sublist.subperm).trans hinv.sent.symm.subperm
  · have hlength := hinv.sent.length_eq
    have hcount := hinv.count
    simp only [List.length_append, List.length_map] at hlength
    omega
  · intro hmain hsetter hsem
    have hcount := hinv.count
    have hlive := hinv.live
    have hsent := hinv.sent
    have hring := hinv.ring
    have hheap := hinv.heap_of_outside (by rw [hmain]; rfl) (by rw [hsetter]; rfl)
    rw [hsem, hsetter] at hcount
    obtain rfl : posted = [] := List.length_eq_zero_iff.mp hcount.symm
    rw [hmain] at hlive hring
    rw [hsetter] at hlive hsent
    refine ⟨?_, List.perm_nil.mp hlive, ?_⟩
    · simpa [Setter.taken] using hsent.symm
    · rw [hheap]
      obtain ⟨hnext, hprev⟩ := (List.isChain_cons_cons.mp hring.joined).1
      exact links_ext hnext hprev

/-! A run: two settings of one property are asked for before the setter runs. -/

/-- A setting goes all the way through the main thread. -/
def sends (e : Addr) (setting : Setting) : List Turn := .request e setting :: List.replicate 9 (.main true)

/-- The setter takes an entry and makes its setting. -/
def sets : List Turn := List.replicate 12 (.setter true)

def noLinks : Heap := fun _ => ⟨0, 0⟩

def bothWait : State := (sends 0x20 ⟨"mode", "1"⟩ ++ sends 0x60 ⟨"mode", "2"⟩).foldl (step 0x10) (start noLinks 0x10)

theorem bothWait_reached : Reach (step 0x10) (allowed 0x10) (start noLinks 0x10) bothWait :=
  Reach.start.run (by decide)

theorem bothWait_sound : bothWait.sem = 2 ∧ Sound 0x10 bothWait :=
  ⟨by decide, queue_sound noLinks 0x10 bothWait bothWait_reached⟩

/-! ## It drains -/

/-- How far a thread is from rest; a post counts for what the setter does about it. -/
def Sender.rank : Sender → Nat
  | .idle => 0
  | .failed _ | .posted => 1
  | .removed _ => 2
  | .removing _ todo => 3 + todo.length
  | .added _ => 14
  | .adding _ todo => 15 + todo.length
  | .locked _ => 20
  | .made _ => 21

def Setter.rank : Setter → Nat
  | .waiting | .ended => 0
  | .freeing _ => 1
  | .setting _ => 2
  | .removed _ => 3
  | .removing _ todo => 4 + todo.length
  | .locked _ => 9
  | .got _ => 10
  | .woken => 11

def State.rank (s : State) : Nat := 12 * s.sem + s.setter.rank + s.main.rank

/-- The setter comes nearer, or waits for a post or for the main thread. -/
theorem setter_moves (h : Inv head s base posted) (hended : s.setter ≠ .ended) :
    (stepSetter head true s).rank < s.rank ∨
      stepSetter head true s = s ∧ (s.setter = .waiting ∧ s.sem = 0 ∨ s.main.inside = true) := by
  obtain ⟨heap, fields, live, locked, sem, main, setter, sent, set⟩ := s
  cases setter with
  | waiting =>
    cases sem with
    | zero => exact .inr ⟨rfl, .inl ⟨rfl, rfl⟩⟩
    | succ n =>
      left
      simp [stepSetter, State.rank, Setter.rank]
      omega
  | woken =>
    have hlive := (h.first_seen rfl rfl).2
    have hnull : (heap head).next ≠ headOffset := fun heq => h.fresh.2 (heq ▸ hlive)
    left
    simp [stepSetter, State.rank, Setter.rank, hnull]
  | got e =>
    cases locked with
    | true =>
      have hlock : true = (main.inside || false) := h.lock
      exact .inr ⟨rfl, .inr (by simpa using hlock.symm)⟩
    | false =>
      left
      simp [stepSetter, State.rank, Setter.rank]
  | removing e todo =>
    left
    cases todo with
    | nil => simp [stepSetter, State.rank, Setter.rank]
    | cons c todo => simp [stepSetter, State.rank, Setter.rank]
  | locked e | removed e | setting e | freeing e =>
    left
    simp [stepSetter, State.rank, Setter.rank, delStmts]
  | ended => exact absurd rfl hended

/-- The main thread comes nearer, or has nothing to do or waits for the setter. -/
theorem main_moves (h : Inv head s base posted) (hok : allowed head s (.main true)) :
    (stepMain head true s).rank < s.rank ∨
      stepMain head true s = s ∧ (s.main = .idle ∨ s.main.inside = false ∧ s.locked = true) := by
  obtain ⟨heap, fields, live, locked, sem, main, setter, sent, set⟩ := s
  cases main with
  | idle => exact .inr ⟨rfl, .inl rfl⟩
  | made e =>
    cases locked with
    | true => exact .inr ⟨rfl, .inr ⟨rfl, rfl⟩⟩
    | false => exact .inl (by simp [stepMain, State.rank, Sender.rank])
  | adding e todo =>
    left
    cases todo with
    | nil => simp [stepMain, State.rank, Sender.rank]
    | cons c todo => simp [stepMain, State.rank, Sender.rank]
  | added e =>
    have hsem : sem < semValueMax := hok (List.cons_ne_nil e [])
    left
    simp [stepMain, State.rank, Sender.rank, hsem]
    omega
  | removing e todo => exact absurd h.posts (by simp [Sender.withdraws])
  | locked e | posted | removed e | failed e =>
    left
    simp [stepMain, State.rank, Sender.rank, addStmts]

/-- The semaphore has room for what the main thread may still post. -/
def State.room (s : State) : Prop := s.main.rank ≤ 1 ∨ s.sem < semValueMax

theorem allowed_of_room (h : s.room) (ok : Bool) : allowed head s (.main ok) := by
  intro hadded
  refine h.resolve_left fun hrank => ?_
  cases hm : s.main with
  | added e => rw [hm] at hrank; simp [Sender.rank] at hrank
  | _ => rw [hm] at hadded; exact hadded rfl

theorem stepMain_room (h : s.room) (hpost : s.main.withdraws = false) :
    (stepMain head true s).room ∧ (stepMain head true s).setter = s.setter ∧ s.sent <+: (stepMain head true s).sent := by
  obtain ⟨heap, fields, live, locked, sem, main, setter, sent, set⟩ := s
  have hroom : main.rank ≤ 1 ∨ sem < semValueMax := h
  cases main with
  | idle => exact ⟨h, rfl, List.prefix_rfl⟩
  | made e =>
    have hsem : sem < semValueMax := hroom.resolve_left (by simp [Sender.rank])
    cases locked <;> exact ⟨.inr hsem, rfl, List.prefix_rfl⟩
  | locked e => exact ⟨.inr (hroom.resolve_left (by simp [Sender.rank])), rfl, List.prefix_rfl⟩
  | adding e todo =>
    have hsem : sem < semValueMax := hroom.resolve_left (by simp [Sender.rank]; omega)
    cases todo <;> exact ⟨.inr hsem, rfl, List.prefix_rfl⟩
  | added e =>
    have hsem : sem < semValueMax := hroom.resolve_left (by simp [Sender.rank])
    have hstep : stepMain head true ⟨heap, fields, live, locked, sem, .added e, setter, sent, set⟩ =
        ⟨heap, fields, live, locked, sem + 1, .posted, setter, sent ++ [fields e], set⟩ := if_pos hsem
    rw [hstep]
    exact ⟨.inl (Nat.le_refl 1), rfl, List.prefix_append _ _⟩
  | posted | failed e => exact ⟨.inl (Nat.zero_le 1), rfl, List.prefix_rfl⟩
  | removing e todo | removed e => simp [Sender.withdraws] at hpost

theorem stepSetter_room (h : s.room) (hended : s.setter ≠ .ended) :
    (stepSetter head true s).room ∧ (stepSetter head true s).setter ≠ .ended ∧ (stepSetter head true s).sent = s.sent := by
  obtain ⟨heap, fields, live, locked, sem, main, setter, sent, set⟩ := s
  cases setter with
  | waiting =>
    cases sem with
    | zero => exact ⟨h, hended, rfl⟩
    | succ n =>
      refine ⟨h.imp_right fun hlt => Nat.lt_of_succ_lt hlt, ?_, rfl⟩
      simp [stepSetter]
  | woken =>
    simp only [stepSetter]
    split <;> exact ⟨h, by simp, rfl⟩
  | got e => cases locked <;> exact ⟨h, by simp [stepSetter], rfl⟩
  | removing e todo => cases todo <;> exact ⟨h, by simp [stepSetter], rfl⟩
  | locked e | removed e | setting e | freeing e => exact ⟨h, by simp [stepSetter], rfl⟩
  | ended => exact absurd rfl hended

/-- Both threads have nothing to do. -/
def State.atRest (s : State) : Prop := s.main = .idle ∧ s.setter = .waiting ∧ s.sem = 0

/-- A thread goes on, and what it calls succeeds. -/
def Turn.goesOn (t : Turn) : Prop := t = .main true ∨ t = .setter true

/-- A state reached from `s` by going on, from which the setter has not returned. -/
structure Draining (heap : Heap) (head : Addr) (s r : State) : Prop where
  reached : Reach (step head) (allowed head) (start heap head) r
  works : r.setter ≠ .ended
  room : r.room
  grows : s.sent <+: r.sent

/-- Going on changes nothing or brings the state nearer to rest. -/
theorem Draining.keeps {heap : Heap} {r : State} (h : Draining heap head s r) (t : Turn) (ht : t.goesOn) :
    Draining heap head s (step head r t) ∧ (step head r t = r ∨ (step head r t).rank < r.rank) := by
  obtain ⟨base, posted, hinv⟩ := reach_inv h.reached
  rcases ht with rfl | rfl
  · have hok : allowed head r (.main true) := allowed_of_room h.room true
    have hkeeps : (stepMain head true r).room ∧ (stepMain head true r).setter = r.setter ∧
      r.sent <+: (stepMain head true r).sent := stepMain_room h.room hinv.posts
    obtain ⟨hroom, hsetter, hgrows⟩ := hkeeps
    refine ⟨⟨h.reached.step _ hok, fun hend => h.works (hsetter.symm.trans hend), hroom, h.grows.trans hgrows⟩, ?_⟩
    exact (main_moves hinv hok).symm.imp_left And.left
  · have hkeeps : (stepSetter head true r).room ∧ (stepSetter head true r).setter ≠ .ended ∧
      (stepSetter head true r).sent = r.sent := stepSetter_room h.room h.works
    obtain ⟨hroom, hworks, hsame⟩ := hkeeps
    refine ⟨⟨h.reached.step _ trivial, hworks, hroom, ?_⟩, (setter_moves hinv h.works).symm.imp_left And.left⟩
    show s.sent <+: (stepSetter head true r).sent
    rw [hsame]
    exact h.grows

/-- Before they are at rest, one of the threads comes nearer by going on. -/
theorem Draining.moves {heap : Heap} {r : State} (h : Draining heap head s r) :
    r.atRest ∨ ∃ t : Turn, t.goesOn ∧ (step head r t).rank < r.rank := by
  obtain ⟨base, posted, hinv⟩ := reach_inv h.reached
  rcases setter_moves hinv h.works with hnear | ⟨-, hwaits⟩
  · exact .inr ⟨.setter true, .inr rfl, hnear⟩
  rcases main_moves hinv (allowed_of_room h.room true) with hnear | ⟨-, hidle | ⟨hout, hlocked⟩⟩
  · exact .inr ⟨.main true, .inl rfl, hnear⟩
  · rcases hwaits with ⟨hwaiting, hsem⟩ | hinside
    · exact .inl ⟨hidle, hwaiting, hsem⟩
    · rw [hidle] at hinside
      cases hinside
  · -- the mutex is taken, but neither thread has it
    rcases hwaits with ⟨hwaiting, -⟩ | hinside
    · have hlock := hinv.lock
      rw [hlocked, hout, hwaiting] at hlock
      cases hlock
    · rw [hout] at hinside
      cases hinside

/-- At rest, every setting that was posted has been made and every entry freed. -/
theorem Draining.drained {heap : Heap} {r : State} (h : Draining heap head s r) (hrest : r.atRest) :
    s.sent <+: r.sent ∧ r.set.Perm r.sent ∧ r.live = [] := by
  obtain ⟨hmain, hsetter, hsem⟩ := hrest
  obtain ⟨hset, hlive, -⟩ := (queue_sound heap head r h.reached).rest hmain hsetter hsem
  exact ⟨h.grows, hset, hlive⟩

theorem State.atRest.stays {r : State} (h : r.atRest) (t : Turn) (ht : t.goesOn) : step head r t = r := by
  obtain ⟨hmain, hsetter, hsem⟩ := h
  rcases ht with rfl | rfl
  · simp only [step, stepMain, hmain]
  · simp only [step, stepSetter, hsetter, hsem, lt_irrefl, and_false, if_false]

/-- **The queue drains.** From every state the threads reach, unless the setter has
given up, they come to rest by going on, however many settings wait: with every
posted setting made and every entry freed. They do so in every order in which both
go on again and again. It is assumed that the semaphore has room for one post more
if the main thread is to make one: a failed `sem_post` is left out. -/
theorem queue_drains (heap : Heap) (head : Addr) (s : State)
    (h : Reach (step head) (allowed head) (start heap head) s) (hended : s.setter ≠ .ended) (hroom : s.room) :
    (∃ turns : List Turn, (∀ t ∈ turns, t.goesOn) ∧
      s.sent <+: (turns.foldl (step head) s).sent ∧
      (turns.foldl (step head) s).set.Perm (turns.foldl (step head) s).sent ∧
      (turns.foldl (step head) s).live = []) ∧
    ∀ turns : Nat → Turn, Fair Turn.goesOn turns → ∃ n, ∀ m, n ≤ m →
      s.sent <+: (along (step head) s turns m).sent ∧
      (along (step head) s turns m).set.Perm (along (step head) s turns m).sent ∧
      (along (step head) s turns m).live = [] := by
  have hs : Draining heap head s s := ⟨h, hended, hroom, List.prefix_rfl⟩
  constructor
  · have hmoves (r : State) (hr : Draining heap head s r) : r.atRest ∨
        ∃ t : Turn, t.goesOn ∧ (step head r t).rank < r.rank ∧ Draining heap head s (step head r t) :=
      hr.moves.imp_right fun ⟨t, ht, hnear⟩ => ⟨t, ht, hnear, (hr.keeps t ht).1⟩
    obtain ⟨turns, hturns, hlast, hrest⟩ := exists_rest State.rank hmoves s hs
    exact ⟨turns, hturns, hlast.drained hrest⟩
  · intro turns hfair
    obtain ⟨n, hrest⟩ := fair_rests State.rank (fun _ t hr ht => hr.keeps t ht) (fun _ hr => hr.moves) hfair hs
    refine ⟨n, fun m hm => ?_⟩
    have hlast (m : Nat) : Draining heap head s (along (step head) s turns m) := by
      induction m with
      | zero => exact hs
      | succ m ih => exact (ih.keeps _ (hfair.allowed m)).1
    have hstays : (along (step head) s turns m).atRest := by
      induction hm with
      | refl => exact hrest
      | @step m _ ih =>
        rw [along, ih.stays _ (hfair.allowed m)]
        exact ih
    exact (hlast m).drained hstays

/-- The two threads take turns. -/
def inTurn (n : Nat) : Turn := if n % 2 = 0 then .main true else .setter true

theorem inTurn_fair : Fair Turn.goesOn inTurn := by
  constructor
  · intro n
    unfold inTurn
    split
    · exact .inl rfl
    · exact .inr rfl
  · rintro t (rfl | rfl) n
    · exact ⟨2 * n, by omega, if_pos (by omega)⟩
    · exact ⟨2 * n + 1, by omega, if_neg (by omega)⟩

theorem bothWait_drains : bothWait.sent.length = 2 ∧ ∃ n, ∀ m, n ≤ m →
    bothWait.sent <+: (along (step 0x10) bothWait inTurn m).sent ∧
    (along (step 0x10) bothWait inTurn m).set.Perm (along (step 0x10) bothWait inTurn m).sent ∧
    (along (step 0x10) bothWait inTurn m).live = [] :=
  ⟨by decide, (queue_drains noLinks 0x10 bothWait bothWait_reached (by decide) (.inl (by decide))).2 inTurn inTurn_fair⟩

/-! ## The order -/

/-- The settings of one property. -/
def of (path : String) (l : List Setting) : List Setting := l.filter (·.path = path)

/-- A property is asked for only when what was posted for it before has been made. -/
def alone (s : State) : Turn → Prop
  | .request _ setting => (of setting.path s.sent).length = (of setting.path s.set).length
  | _ => True

instance (s : State) : (t : Turn) → Decidable (alone s t)
  | .request _ _ => inferInstanceAs (Decidable (_ = _))
  | .main _ => inferInstanceAs (Decidable True)
  | .setter _ => inferInstanceAs (Decidable True)

/-- What is on its way: made or linked in by the main thread, posted, or taken out. -/
def onTheWay (s : State) (posted : List Addr) : List Addr :=
  s.main.own ++ s.main.unposted ++ (s.setter.taken ++ posted)

/-- Of no property two settings are on their way, and of each the ones made are
the first ones posted. -/
structure InOrder (s : State) (posted : List Addr) : Prop where
  single : ∀ path, (of path ((onTheWay s posted).map s.fields)).length ≤ 1
  first : ∀ path, of path s.set <+: of path s.sent

theorem of_append (path : String) (l l' : List Setting) : of path (l ++ l') = of path l ++ of path l' :=
  List.filter_append l l'

theorem of_cons_own {path : String} {x : Setting} (h : x.path = path) (l : List Setting) :
    of path (x :: l) = x :: of path l :=
  List.filter_cons_of_pos (decide_eq_true h)

theorem of_cons_other {path : String} {x : Setting} (h : x.path ≠ path) (l : List Setting) :
    of path (x :: l) = of path l :=
  List.filter_cons_of_neg (by simpa using h)

/-- What was posted of a property and not made yet. -/
theorem rest_of_property (h : Inv head s base posted) (ho : InOrder s posted) (path : String) :
    ∃ rest, of path s.sent = of path s.set ++ rest ∧ rest.Perm (of path ((s.setter.taken ++ posted).map s.fields)) := by
  obtain ⟨rest, hrest⟩ := ho.first path
  refine ⟨rest, hrest.symm, ?_⟩
  have hperm : (of path s.sent).Perm (of path (s.set ++ (s.setter.taken ++ posted).map s.fields)) := h.sent.filter _
  rw [← hrest, of_append] at hperm
  exact (List.perm_append_left_iff _).mp hperm

/-- A turn that makes no setting and puts nothing new on its way. -/
theorem InOrder.of_subperm {s' : State} {posted' : List Addr} (ho : InOrder s posted) (hfields : s'.fields = s.fields)
    (hway : (onTheWay s' posted').Subperm (onTheWay s posted)) (hset : s'.set = s.set) (hsent : s.sent <+: s'.sent) :
    InOrder s' posted' := by
  refine ⟨?_, ?_⟩
  · intro path
    obtain ⟨l, hperm, hsub⟩ := hway
    have hlength : (of path ((onTheWay s' posted').map s.fields)).length = (of path (l.map s.fields)).length :=
      ((hperm.map s.fields).filter _).length_eq.symm
    rw [hfields, hlength]
    exact ((hsub.map s.fields).filter _).length_le.trans (ho.single path)
  · intro path
    rw [hset]
    exact (ho.first path).trans (hsent.filter _)

theorem inOrder_main (ho : InOrder s posted) (h : Inv head s base posted) {ok : Bool} (hok : allowed head s (.main ok)) :
    InOrder (stepMain head ok s) (nextPosted s posted (.main ok)) := by
  obtain ⟨heap, fields, live, locked, sem, main, setter, sent, set⟩ := s
  cases main with
  | idle => exact ho
  | made e =>
    cases ok with
    | false => exact ho.of_subperm rfl (List.Subperm.refl _) rfl List.prefix_rfl
    | true => cases locked <;> exact ho.of_subperm rfl (List.Subperm.refl _) rfl List.prefix_rfl
  | adding e todo => cases todo <;> exact ho.of_subperm rfl (List.Subperm.refl _) rfl List.prefix_rfl
  | added e =>
    have hstep : stepMain head ok ⟨heap, fields, live, locked, sem, .added e, setter, sent, set⟩ =
        ⟨heap, fields, live, locked, sem + 1, .posted, setter, sent ++ [fields e], set⟩ :=
      if_pos (hok (List.cons_ne_nil e []))
    rw [hstep]
    refine ho.of_subperm rfl ?_ rfl (List.prefix_append _ _)
    show (setter.taken ++ e :: posted).Subperm (e :: (setter.taken ++ posted))
    exact List.perm_middle.subperm
  | failed e => exact ho.of_subperm rfl (List.sublist_cons_self e _).subperm rfl List.prefix_rfl
  | locked e | posted => exact ho.of_subperm rfl (List.Subperm.refl _) rfl List.prefix_rfl
  | removing e todo | removed e => exact absurd h.posts (by simp [Sender.withdraws])

/-- The setting that is made is the only one of its property on its way, and so
the next one posted. -/
theorem inOrder_setting {e : Addr} (ho : InOrder s posted) (h : Inv head s base posted) (hs : s.setter = .setting e) :
    InOrder { s with set := s.set ++ [s.fields e], setter := .freeing e } posted := by
  have hway : onTheWay s posted = s.main.own ++ s.main.unposted ++ e :: posted := by
    rw [onTheWay, hs]
    rfl
  refine ⟨?_, ?_⟩
  · intro path
    refine Nat.le_trans (List.Sublist.length_le (List.Sublist.filter _ (List.Sublist.map s.fields ?_))) (ho.single path)
    rw [hway]
    exact (List.sublist_cons_self e posted).append_left _
  · intro path
    rw [of_append]
    by_cases hpath : (s.fields e).path = path
    · obtain ⟨rest, hrest, hperm⟩ := rest_of_property h ho path
      have hsingle := ho.single path
      rw [hway, List.map_append, of_append, List.length_append] at hsingle
      have hmade : of path ((e :: posted).map s.fields) = s.fields e :: of path (posted.map s.fields) :=
        of_cons_own hpath _
      rw [hmade, List.length_cons] at hsingle
      have hnone : of path (posted.map s.fields) = [] := List.eq_nil_of_length_eq_zero (by omega)
      rw [hs, Setter.taken, List.singleton_append, hmade, hnone] at hperm
      rw [hrest, List.perm_singleton.mp hperm, of_cons_own hpath]
      exact List.prefix_rfl
    · rw [of_cons_other hpath, show of path [] = [] from rfl, List.append_nil]
      exact ho.first path

theorem inOrder_setter (ho : InOrder s posted) (h : Inv head s base posted) (ok : Bool) :
    InOrder (stepSetter head ok s) (nextPosted s posted (.setter ok)) := by
  obtain ⟨heap, fields, live, locked, sem, main, setter, sent, set⟩ := s
  cases setter with
  | waiting =>
    simp only [stepSetter]
    split <;> exact ho.of_subperm rfl (List.Subperm.refl _) rfl List.prefix_rfl
  | woken =>
    simp only [stepSetter]
    split <;> exact ho.of_subperm rfl (List.Subperm.refl _) rfl List.prefix_rfl
  | got e =>
    cases ok with
    | false => exact ho.of_subperm rfl (List.Subperm.refl _) rfl List.prefix_rfl
    | true => cases locked <;> exact ho.of_subperm rfl (List.Subperm.refl _) rfl List.prefix_rfl
  | removing e todo =>
    cases todo with
    | cons c todo => exact ho.of_subperm rfl (List.Subperm.refl _) rfl List.prefix_rfl
    | nil =>
      have hunposted : main.unposted = [] := (Sender.outside (h.main_outside rfl)).2
      have he : e ∈ main.unposted ++ posted := h.setter
      rw [hunposted, List.nil_append] at he
      refine ho.of_subperm rfl ?_ rfl List.prefix_rfl
      exact ((List.perm_cons_erase he).symm.append_left _).subperm
  | setting e => exact inOrder_setting ho h rfl
  | locked e | removed e | freeing e => exact ho.of_subperm rfl (List.Subperm.refl _) rfl List.prefix_rfl
  | ended => exact ho

/-- The new setting is the only one of its property on its way. -/
theorem inOrder_request (ho : InOrder s posted) (h : Inv head s base posted) {e : Addr} {setting : Setting}
    (he : e ∉ head :: s.live) (halone : alone s (.request e setting)) :
    InOrder (step head s (.request e setting)) posted := by
  by_cases hidle : s.main = .idle
  swap
  · rw [show step head s (.request e setting) = s from if_neg hidle]
    exact ho
  have hstep : step head s (.request e setting) = { s with
      live := e :: s.live, fields := Function.update s.fields e setting,
      heap := initListHead s.heap e, main := .made e } := if_pos hidle
  rw [hstep]
  refine ⟨?_, ho.first⟩
  intro path
  have hway : onTheWay s posted = s.setter.taken ++ posted := by
    rw [onTheWay, hidle]
    rfl
  have hlive : e ∉ s.live := fun hmem => he (List.mem_cons_of_mem head hmem)
  show (of path ((e :: (s.setter.taken ++ posted)).map (Function.update s.fields e setting))).length ≤ 1
  rw [List.map_cons, h.fields_kept hlive, Function.update_self]
  by_cases hpath : setting.path = path
  · obtain ⟨rest, hrest, hperm⟩ := rest_of_property h ho path
    have halone : (of setting.path s.sent).length = (of setting.path s.set).length := halone
    rw [hpath, hrest, List.length_append] at halone
    have hnone : of path ((s.setter.taken ++ posted).map s.fields) = [] := by
      refine List.eq_nil_of_length_eq_zero ?_
      rw [← hperm.length_eq]
      omega
    rw [of_cons_own hpath, hnone]
    exact Nat.le_refl 1
  · rw [of_cons_other hpath, ← hway]
    exact ho.single path

/-- **A property gets its values in the order they were posted**, all but the last
at most, if none is asked for while another one of it waits. -/
theorem settings_in_order (heap : Heap) (head : Addr) (s : State)
    (h : Reach (step head) (fun s t => allowed head s t ∧ alone s t) (start heap head) s) (path : String) :
    of path s.set <+: of path s.sent ∧ (of path s.sent).length ≤ (of path s.set).length + 1 := by
  have hinv : ∃ base posted, Inv head s base posted ∧ InOrder s posted := by
    refine h.invariant (P := fun s => ∃ base posted, Inv head s base posted ∧ InOrder s posted) ?_ ?_
    · exact ⟨_, _, start_inv heap head, fun _ => Nat.zero_le 1, fun _ => List.prefix_rfl⟩
    · rintro s t ⟨base, posted, hinv, ho⟩ ⟨hok, halone⟩
      obtain ⟨base', hnext⟩ := step_inv hinv hok
      refine ⟨base', _, hnext, ?_⟩
      cases t with
      | request e setting => exact inOrder_request ho hinv hok.1 halone
      | main ok => exact inOrder_main ho hinv hok
      | setter ok => exact inOrder_setter ho hinv ok
  obtain ⟨base, posted, hinv, ho⟩ := hinv
  refine ⟨ho.first path, ?_⟩
  obtain ⟨rest, hrest, hperm⟩ := rest_of_property hinv ho path
  have hsingle := ho.single path
  rw [onTheWay, List.map_append, of_append, List.length_append] at hsingle
  rw [hrest, List.length_append, hperm.length_eq]
  omega

/-- The second value is asked for when the first one is made. -/
def oneByOne : State :=
  (sends 0x20 ⟨"mode", "1"⟩ ++ sets ++ sends 0x60 ⟨"mode", "2"⟩ ++ sets).foldl (step 0x10) (start noLinks 0x10)

theorem oneByOne_in_order : oneByOne.set.length = 2 ∧ of "mode" oneByOne.set <+: of "mode" oneByOne.sent ∧
    (of "mode" oneByOne.sent).length ≤ (of "mode" oneByOne.set).length + 1 :=
  ⟨by decide, settings_in_order noLinks 0x10 oneByOne (Reach.start.run (by decide)) "mode"⟩

/-- Both were asked for at once: the property is left with the first value. -/
example : ((sets ++ sets).foldl (step 0x10) bothWait).set = [⟨"mode", "2"⟩, ⟨"mode", "1"⟩] := by decide

end Daemon.Queue
