/-
Rings: circular lists that are linked both ways through a sentinel.

A ring is one list of nodes with the sentinel at both ends. Of this list every
node but the last points to the one after it and every node but the first to the
one before it; the sentinel does one at each end. An edit puts one node between
two neighbours or takes one out, and neighbours may be the same node, as they
are in a ring that has no member or one.
-/
import Mathlib.Data.List.Chain
import Mathlib.Data.List.Nodup

namespace Lib

/-- The links of a node. -/
structure Links (α : Type*) where
  next : α
  prev : α
deriving DecidableEq

variable {α : Type*} {heap heap' : α → Links α} {l pre post : List α} {x y z e : α}

/-- `y` comes after `x`, and both say so. -/
def Joined (heap : α → Links α) (x y : α) : Prop := (heap x).next = y ∧ (heap y).prev = x

/-- The nodes of `l` are linked both ways, no node twice to the next or to the
one before. -/
structure Linked (heap : α → Links α) (l : List α) : Prop where
  joined : l.IsChain (Joined heap)
  nexts : l.dropLast.Nodup
  prevs : l.tail.Nodup

/-- The ring through `head` with these members. -/
def Ring (heap : α → Links α) (head : α) (members : List α) : Prop := Linked heap (head :: (members ++ [head]))

/-! ## Chains -/

/-- A chain is known by what holds of a node that has a next one and a node that
has one before it. -/
theorem isChain_imp {R S : α → α → Prop} (h : ∀ a ∈ l.dropLast, ∀ b ∈ l.tail, R a b → S a b) (hl : l.IsChain R) :
    l.IsChain S := by
  induction hl with
  | nil => exact .nil
  | singleton a => exact .singleton a
  | @cons_cons a b l hab _ ih =>
    refine .cons_cons (h a (by simp) b (by simp) hab) (ih fun c hc d hd => h c ?_ d ?_)
    · simp only [List.dropLast_cons_cons, List.mem_cons]
      exact .inr hc
    · simp only [List.tail_cons, List.mem_cons] at hd ⊢
      exact .inr hd

theorem dropLast_split (pre post : List α) (x z : α) :
    (pre ++ x :: z :: post).dropLast = pre ++ x :: (z :: post).dropLast := by
  rw [List.dropLast_append_cons, List.dropLast_cons_cons]

theorem tail_split (pre post : List α) (x z : α) :
    (pre ++ x :: z :: post).tail = (pre ++ [x]).tail ++ z :: post := by
  cases pre <;> simp

/-- The ends that count of a chain with `e` in it are those without it, and `e`. -/
theorem nodup_between (pre post : List α) (x e z : α) :
    ((pre ++ x :: e :: z :: post).dropLast.Nodup ↔
      e ∉ (pre ++ x :: z :: post).dropLast ∧ (pre ++ x :: z :: post).dropLast.Nodup) ∧
    ((pre ++ x :: e :: z :: post).tail.Nodup ↔
      e ∉ (pre ++ x :: z :: post).tail ∧ (pre ++ x :: z :: post).tail.Nodup) := by
  have hnexts : (pre ++ x :: e :: z :: post).dropLast = (pre ++ [x]) ++ e :: (z :: post).dropLast := by
    rw [dropLast_split, List.dropLast_cons_cons, List.append_assoc]
    rfl
  have hnexts' : (pre ++ x :: z :: post).dropLast = (pre ++ [x]) ++ (z :: post).dropLast := by
    rw [dropLast_split, List.append_assoc]
    rfl
  refine ⟨?_, ?_⟩
  · rw [hnexts, hnexts', List.nodup_middle, List.nodup_cons]
  · rw [tail_split, tail_split, List.nodup_middle, List.nodup_cons]

/-! ## Edits -/

/-- Nodes keep their links, `x` and `z` perhaps not the ones to each other. -/
structure KeptAround (heap heap' : α → Links α) (x z : α) (l : List α) : Prop where
  next : ∀ a ∈ l, a ≠ x → (heap' a).next = (heap a).next
  prev : ∀ b ∈ l, b ≠ z → (heap' b).prev = (heap b).prev

theorem KeptAround.mono {l' : List α} (h : KeptAround heap heap' x z l) (hl : l' ⊆ l) : KeptAround heap heap' x z l' :=
  ⟨fun a ha => h.next a (hl ha), fun b hb => h.prev b (hl hb)⟩

section
variable (hkept : KeptAround heap heap' x z (pre ++ x :: z :: post))
include hkept

/-- What lies before `x` is not changed by an edit between `x` and `z`. -/
theorem KeptAround.before (hnexts : (pre ++ x :: z :: post).dropLast.Nodup) (hprevs : (pre ++ x :: z :: post).tail.Nodup)
    (h : (pre ++ [x]).IsChain (Joined heap)) : (pre ++ [x]).IsChain (Joined heap') := by
  rw [dropLast_split, List.nodup_append] at hnexts
  rw [tail_split, List.nodup_append] at hprevs
  refine isChain_imp ?_ h
  rintro a ha b hb ⟨hnext, hprev⟩
  rw [List.dropLast_concat] at ha
  have hax : a ≠ x := hnexts.2.2 a ha x List.mem_cons_self
  have hbz : b ≠ z := hprevs.2.2 b hb z List.mem_cons_self
  have hmem : b ∈ pre ++ x :: z :: post := by
    have hb' := List.mem_of_mem_tail hb
    simp only [List.mem_append, List.mem_cons, List.not_mem_nil, or_false] at hb' ⊢
    tauto
  exact ⟨(hkept.next a (List.mem_append_left _ ha) hax).trans hnext, (hkept.prev b hmem hbz).trans hprev⟩

/-- What lies behind `z` is not. -/
theorem KeptAround.behind (hnexts : (pre ++ x :: z :: post).dropLast.Nodup) (hprevs : (pre ++ x :: z :: post).tail.Nodup)
    (h : (z :: post).IsChain (Joined heap)) : (z :: post).IsChain (Joined heap') := by
  rw [dropLast_split, List.nodup_append, List.nodup_cons] at hnexts
  rw [tail_split, List.nodup_append, List.nodup_cons] at hprevs
  refine isChain_imp ?_ h
  rintro a ha b hb ⟨hnext, hprev⟩
  have hax : a ≠ x := by
    rintro rfl
    exact hnexts.2.1.1 ha
  have hbz : b ≠ z := by
    rintro rfl
    exact hprevs.2.1.1 hb
  have hmem (c : α) (hc : c ∈ z :: post) : c ∈ pre ++ x :: z :: post :=
    List.mem_append_right _ (List.mem_cons_of_mem x hc)
  exact ⟨(hkept.next a (hmem a (List.dropLast_subset _ ha)) hax).trans hnext,
    (hkept.prev b (hmem b (List.mem_cons_of_mem z hb)) hbz).trans hprev⟩

/-- A node is put between two neighbours. -/
theorem Linked.link (h : Linked heap (pre ++ x :: z :: post)) (he : e ∉ pre ++ x :: z :: post)
    (hbefore : Joined heap' x e) (hbehind : Joined heap' e z) : Linked heap' (pre ++ x :: e :: z :: post) := by
  obtain ⟨hnexts, hprevs⟩ := nodup_between pre post x e z
  obtain ⟨hleft, -, hright⟩ := List.isChain_append_cons_cons.mp h.joined
  refine ⟨?_, ?_, ?_⟩
  · exact List.isChain_append_cons_cons.mpr ⟨hkept.before h.nexts h.prevs hleft, hbefore,
      .cons_cons hbehind (hkept.behind h.nexts h.prevs hright)⟩
  · exact hnexts.mpr ⟨fun hmem => he (List.dropLast_subset _ hmem), h.nexts⟩
  · exact hprevs.mpr ⟨fun hmem => he (List.mem_of_mem_tail hmem), h.prevs⟩

/-- A node is taken out from between its neighbours. -/
theorem Linked.unlink (h : Linked heap (pre ++ x :: e :: z :: post)) (hjoined : Joined heap' x z) :
    Linked heap' (pre ++ x :: z :: post) := by
  obtain ⟨hnexts, hprevs⟩ := nodup_between pre post x e z
  obtain ⟨-, hnexts⟩ := hnexts.mp h.nexts
  obtain ⟨-, hprevs⟩ := hprevs.mp h.prevs
  obtain ⟨hleft, -, hright⟩ := List.isChain_append_cons_cons.mp h.joined
  refine ⟨?_, hnexts, hprevs⟩
  exact List.isChain_append_cons_cons.mpr ⟨hkept.before hnexts hprevs hleft, hjoined,
    hkept.behind hnexts hprevs (List.isChain_cons_cons.mp hright).2⟩

end

/-! ## Rings -/

variable {head : α} {members : List α}

theorem Ring.nodup (h : Ring heap head members) : (head :: members).Nodup := by
  have hnexts := h.nexts
  rwa [← List.cons_append, List.dropLast_concat] at hnexts

theorem ring_nil (h : heap head = ⟨head, head⟩) : Ring heap head [] := by
  refine ⟨.cons_cons ⟨by rw [h], by rw [h]⟩ (.singleton head), ?_, ?_⟩
  · exact List.nodup_singleton head
  · exact List.nodup_singleton head

/-- The neighbours between two parts of a ring, whatever is put between them. -/
theorem ring_split (head : α) (a b : List α) : ∃ pre x z post, head :: a = pre ++ [x] ∧ b ++ [head] = z :: post ∧
    (∀ m, head :: ((a ++ m ++ b) ++ [head]) = pre ++ x :: (m ++ z :: post)) ∧
    pre ++ x :: z :: post ⊆ head :: (a ++ b) := by
  obtain ⟨pre, x, hx⟩ : ∃ pre x, head :: a = pre ++ [x] :=
    ⟨_, _, (List.dropLast_concat_getLast (List.cons_ne_nil head a)).symm⟩
  obtain ⟨z, post, hz⟩ : ∃ z post, b ++ [head] = z :: post := List.exists_cons_of_ne_nil (by simp)
  have hlist (m : List α) : head :: ((a ++ m ++ b) ++ [head]) = pre ++ x :: (m ++ z :: post) := by
    calc head :: ((a ++ m ++ b) ++ [head])
        = (head :: a) ++ (m ++ (b ++ [head])) := by simp
      _ = pre ++ x :: (m ++ z :: post) := by rw [hx, hz, List.append_assoc]; rfl
  refine ⟨pre, x, z, post, hx, hz, hlist, ?_⟩
  rw [← List.nil_append (z :: post), ← hlist [], List.append_nil]
  simp

/-- A node may be put anywhere in a ring: there are two neighbours, and a heap
that links it to them and keeps the rest has it there. -/
theorem Ring.insert {a b : List α} (h : Ring heap head (a ++ b)) (he : e ∉ head :: (a ++ b)) :
    ∃ x z, (a = [] → x = head) ∧ (b = [] → z = head) ∧ x ∈ head :: (a ++ b) ∧ z ∈ head :: (a ++ b) ∧ Joined heap x z ∧
      ∀ heap', KeptAround heap heap' x z (head :: (a ++ b)) → Joined heap' x e → Joined heap' e z →
        Ring heap' head (a ++ e :: b) := by
  obtain ⟨pre, x, z, post, hx, hz, hlist, hmem⟩ := ring_split head a b
  have hbare : head :: ((a ++ b) ++ [head]) = pre ++ x :: z :: post := by simpa using hlist []
  have hwith : head :: ((a ++ e :: b) ++ [head]) = pre ++ x :: e :: z :: post := by simpa using hlist [e]
  refine ⟨x, z, ?_, ?_, ?_, ?_, ?_, ?_⟩
  · rintro rfl
    simpa using (congrArg List.getLast? hx).symm
  · rintro rfl
    simpa using (congrArg List.head? hz).symm
  · exact hmem (by simp)
  · exact hmem (by simp)
  · have hchain := h.joined
    rw [hbare] at hchain
    exact (List.isChain_append_cons_cons.mp hchain).2.1
  · intro heap' hkept hbefore hbehind
    unfold Ring at h ⊢
    rw [hbare] at h
    rw [hwith]
    exact Linked.link (hkept.mono hmem) h (fun hc => he (hmem hc)) hbefore hbehind

/-- A member may be taken out of a ring: a heap that joins its neighbours and
keeps the rest is the ring without it. -/
theorem Ring.remove {a b : List α} (h : Ring heap head (a ++ e :: b)) :
    ∃ x z, x ∈ head :: (a ++ b) ∧ z ∈ head :: (a ++ b) ∧ Joined heap x e ∧ Joined heap e z ∧
      ∀ heap', KeptAround heap heap' x z (head :: (a ++ b)) → Joined heap' x z → Ring heap' head (a ++ b) := by
  obtain ⟨pre, x, z, post, hx, hz, hlist, hmem⟩ := ring_split head a b
  have hbare : head :: ((a ++ b) ++ [head]) = pre ++ x :: z :: post := by simpa using hlist []
  have hwith : head :: ((a ++ e :: b) ++ [head]) = pre ++ x :: e :: z :: post := by simpa using hlist [e]
  have hchain := h.joined
  rw [hwith] at hchain
  obtain ⟨-, hbefore, hrest⟩ := List.isChain_append_cons_cons.mp hchain
  refine ⟨x, z, hmem (by simp), hmem (by simp), hbefore, (List.isChain_cons_cons.mp hrest).1, ?_⟩
  intro heap' hkept hjoined
  unfold Ring at h ⊢
  rw [hwith] at h
  rw [hbare]
  exact Linked.unlink (hkept.mono hmem) h hjoined

/-- Neighbours in a ring are joined. -/
theorem Ring.joined_of_split (h : Ring heap head members) (hl : head :: (members ++ [head]) = pre ++ x :: z :: post) :
    Joined heap x z := by
  have hchain := h.joined
  rw [hl] at hchain
  exact (List.isChain_append_cons_cons.mp hchain).2.1

theorem Ring.exists_next (h : Ring heap head members) (hx : x ∈ head :: members) : ∃ z, Joined heap x z := by
  obtain ⟨pre, rest, hsplit⟩ := List.append_of_mem hx
  obtain ⟨z, post, hz⟩ : ∃ z post, rest ++ [head] = z :: post := List.exists_cons_of_ne_nil (by simp)
  refine ⟨z, h.joined_of_split (show _ = pre ++ x :: z :: post from ?_)⟩
  rw [← List.cons_append, hsplit, List.append_assoc, List.cons_append, hz]

theorem Ring.exists_prev (h : Ring heap head members) (hx : x ∈ head :: members) : ∃ w, Joined heap w x := by
  have hx' : x ∈ members ++ [head] := by
    rw [List.mem_append, List.mem_singleton, or_comm]
    exact List.mem_cons.mp hx
  obtain ⟨rest, post, hsplit⟩ := List.append_of_mem hx'
  obtain ⟨pre, w, hw⟩ : ∃ pre w, head :: rest = pre ++ [w] :=
    ⟨_, _, (List.dropLast_concat_getLast (List.cons_ne_nil head rest)).symm⟩
  refine ⟨w, h.joined_of_split (show _ = pre ++ w :: x :: post from ?_)⟩
  rw [hsplit, ← List.cons_append, hw, List.append_assoc]
  rfl

theorem Ring.next_head (h : Ring heap head (x :: members)) : (heap head).next = x :=
  (List.isChain_cons_cons.mp h.joined).1.1

theorem Ring.prev_head (h : Ring heap head (members ++ [x])) : (heap head).prev = x := by
  have hsplit : head :: ((members ++ [x]) ++ [head]) = (head :: members) ++ x :: head :: [] := by simp
  exact (h.joined_of_split hsplit).2

/-- Going on and going back undo each other. -/
theorem Ring.inverse (h : Ring heap head members) (hx : x ∈ head :: members) :
    (heap (heap x).next).prev = x ∧ (heap (heap x).prev).next = x := by
  obtain ⟨z, hnext, hprev⟩ := h.exists_next hx
  obtain ⟨w, hnext', hprev'⟩ := h.exists_prev hx
  exact ⟨by rw [hnext, hprev], by rw [hprev', hnext']⟩

/-- The sentinel points to itself only if it is alone. -/
theorem Ring.next_eq_head_iff (h : Ring heap head members) : (heap head).next = head ↔ members = [] := by
  cases members with
  | nil => exact iff_of_true (List.isChain_cons_cons.mp h.joined).1.1 rfl
  | cons x members =>
    refine iff_of_false ?_ (List.cons_ne_nil x members)
    rw [h.next_head]
    rintro rfl
    exact (List.nodup_cons.mp h.nodup).1 List.mem_cons_self

/-- The walk along a ring: the nodes from `curr` on up to the sentinel. -/
def circuit [DecidableEq α] (heap : α → Links α) (head : α) : Nat → α → Option (List α)
  | 0, _ => none
  | n + 1, curr => if curr = head then some [] else (circuit heap head n (heap curr).next).map (curr :: ·)

/-- The walk from behind a node of a chain that ends in the sentinel. -/
theorem circuit_of_chain [DecidableEq α] {n : Nat} (hn : l.length < n) (hhead : head ∉ l)
    (h : (x :: (l ++ [head])).IsChain (Joined heap)) : circuit heap head n (heap x).next = some l := by
  induction l generalizing x n with
  | nil =>
    obtain ⟨n, rfl⟩ : ∃ m, n = m + 1 := ⟨n - 1, by simp at hn; omega⟩
    have hnext : (heap x).next = head := (List.isChain_cons_cons.mp h).1.1
    rw [circuit, if_pos hnext]
  | cons y l ih =>
    obtain ⟨n, rfl⟩ : ∃ m, n = m + 1 := ⟨n - 1, by simp at hn; omega⟩
    obtain ⟨⟨hnext, -⟩, hrest⟩ := List.isChain_cons_cons.mp h
    obtain ⟨hne, hl⟩ := not_or.mp (mt List.mem_cons.mpr hhead)
    rw [circuit, hnext, if_neg (Ne.symm hne), ih (by simp at hn; omega) hl hrest, Option.map_some]

/-- The walk from the sentinel on meets the members, each once, and ends. -/
theorem Ring.circuit [DecidableEq α] (h : Ring heap head members) {n : Nat} (hn : members.length < n) :
    Lib.circuit heap head n (heap head).next = some members :=
  circuit_of_chain hn (List.nodup_cons.mp h.nodup).1 h.joined

end Lib
