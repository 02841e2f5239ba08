/-
What the marks answer for.

The mark of a descriptor covers what was written through it; the directories'
mark covers what a sync of a root covers; the file systems' mark covers
everything on a root's file system. Every request keeps each pending change
covered by a mark that is set, except the changes made through a handle whose
close was answered with an error.
-/
import Microtrust.Lib.WriteBack
import Microtrust.Storage.Launch

namespace Storage

open Lib

/-- The marks, one for each slot of the table. -/
inductive Mark where
  | fd (n : Nat)
  | dir
  | fs

/-- The marks that are set. -/
def Marks.set (m : Marks) : Set Mark
  | .fd n => n < fdTblSize ∧ m.fdState n = .dirty
  | .dir => m.dirState = .dirty
  | .fs => m.fsState = .dirty

/-- What a sync for the sake of a mark would settle. A descriptor's mark
answers only for what was written through that descriptor. -/
def covers (R : List (Nat × Desc)) (k : Kernel) : Mark → Change → Prop
  | .fd n, c => ∃ d, k.fds n = some d ∧ d.syncs c = true ∧ c.oid = some d.oid
  | .dir, c => ∃ x ∈ R, x.2.syncs c = true
  | .fs, c => ∃ x ∈ R, c.target.fs = x.2.fs

/-- The change was made through a handle whose close was answered with an error. -/
def Lost (lost : List Nat) (c : Change) : Prop := ∃ o ∈ lost, c.oid = some o

theorem Lost.mono {lost lost' : List Nat} {c : Change} (h : Lost lost c) (hlost : ∀ o ∈ lost, o ∈ lost') :
    Lost lost' c := by
  obtain ⟨o, ho, he⟩ := h
  exact ⟨o, hlost o ho, he⟩

structure Safe (R : List (Nat × Desc)) (live lost : List Nat) (m : Marks) (k : Kernel) : Prop where
  onRoots : ∀ c ∈ k.pending, covers R k .fs c
  tracked : Tracked (covers R k) m.set {c | c ∈ k.pending ∧ ¬ Lost lost c}
  live : ∀ h ∈ live, ∀ d, k.fds h = some d → ∃ x ∈ R, d.fs = x.2.fs

section

variable {R : List (Nat × Desc)} {live live' lost lost' : List Nat} {m m' : Marks} {k k' : Kernel}

theorem covers_congr (h : k'.fds = k.fds) (x : Mark) (c : Change) : covers R k' x c ↔ covers R k x c := by
  cases x with
  | fd n => simp only [covers, h]
  | dir => exact Iff.rfl
  | fs => exact Iff.rfl

/-- Fewer handles, more losses, more marks, fewer pending changes. -/
theorem Safe.mono (h : Safe R live lost m k) (hl : ∀ x ∈ live', x ∈ live) (hlost : ∀ o ∈ lost, o ∈ lost')
    (hm : m.set ⊆ m'.set) (hfds : k'.fds = k.fds) (hp : ∀ c ∈ k'.pending, c ∈ k.pending) :
    Safe R live' lost' m' k' := by
  refine ⟨fun c hc => h.onRoots c (hp c hc), ?_, fun x hx => by rw [hfds]; exact h.live x (hl x hx)⟩
  refine h.tracked.mono ?_ hm fun x _ c _ hcov => (covers_congr hfds x c).mpr hcov
  intro c hmem
  obtain ⟨hc, hn⟩ := hmem
  exact ⟨hp c hc, fun hl => hn (hl.mono hlost)⟩

/-- A change is logged that a mark answers for. -/
theorem Safe.logged {t : Target} {oid : Option Nat} (h : Safe R live lost m k) (hfds : k'.fds = k.fds)
    (hlog : k.Logged k' t oid) (hroot : ∃ x ∈ R, t.fs = x.2.fs) {x : Mark} (hx : x ∈ m.set)
    (hcov : covers R k x ⟨k.made.length, t, oid⟩) : Safe R live lost m k' := by
  have hmem (c : Change) : c ∈ k'.pending → c = ⟨k.made.length, t, oid⟩ ∨ c ∈ k.pending := by
    rw [hlog.2, List.mem_append, List.mem_singleton]
    exact Or.symm
  refine ⟨fun c hc => ?_, ?_, by rw [hfds]; exact h.live⟩
  · rcases hmem c hc with rfl | hc
    · exact hroot
    · exact h.onRoots c hc
  · refine (h.tracked.insert hx hcov).mono ?_ subset_rfl fun y _ c _ hy => (covers_congr hfds y c).mpr hy
    intro c hpending
    obtain ⟨hc, hn⟩ := hpending
    rcases hmem c hc with rfl | hc
    · exact .inl rfl
    · exact .inr ⟨hc, hn⟩

/-! ## Marks -/

theorem set_lookupFd (m : Marks) (h : Nat) : m.set ⊆ (lookupFd m h true).2.set := by
  intro x hx
  simp only [lookupFd, ite_true]
  split
  · cases x with
    | fd n =>
      refine ⟨hx.1, ?_⟩
      by_cases he : n = h
      · subst he
        exact Function.update_self ..
      · exact (Function.update_of_ne he ..).trans hx.2
    | dir => exact hx
    | fs => exact hx
  · cases x with
    | fd n => exact hx
    | dir => exact hx
    | fs => exact rfl

/-- After a lookup for writing, a mark that is set answers for what is
written through the handle. -/
theorem lookupFd_covers {h : Nat} {d : Desc} {c : Change} (hd : k.fds h = some d) (hs : d.syncs c = true)
    (ho : c.oid = some d.oid) (hroot : covers R k .fs c) :
    ∃ x ∈ (lookupFd m h true).2.set, covers R k x c := by
  simp only [lookupFd, ite_true]
  split
  · next hlt => exact ⟨.fd h, ⟨hlt, Function.update_self ..⟩, d, hd, hs, ho⟩
  · exact ⟨.fs, rfl, hroot⟩

theorem set_removeFd (m : Marks) (h : Nat) : m.set \ {.fd h} ⊆ (removeFd m h).2.set := by
  intro x hmem
  obtain ⟨hx, hne⟩ := hmem
  simp only [removeFd]
  split
  · cases x with
    | fd n =>
      have he : n ≠ h := fun he => hne (by rw [he]; rfl)
      exact ⟨hx.1, (Function.update_of_ne he ..).trans hx.2⟩
    | dir => exact hx
    | fs => exact hx
  · exact hx

theorem set_insertFd (m : Marks) (fl : OpenFlags) (n : Nat) : m.set \ {.fd n} ⊆ (insertFd m fl n).2.set := by
  intro x hmem
  obtain ⟨hx, hne⟩ := hmem
  cases x with
  | fd n' =>
    have he : n' ≠ n := fun he => hne (by rw [he]; rfl)
    refine ⟨hx.1, ?_⟩
    have hold := hx.2
    simp only [insertFd]
    split <;> split <;> split <;> simpa [Function.update_of_ne he] using hold
  | dir =>
    change m.dirState = .dirty at hx
    change (insertFd m fl n).2.dirState = .dirty
    simp only [insertFd]
    split <;> split <;> split <;> simp_all
  | fs =>
    change m.fsState = .dirty at hx
    change (insertFd m fl n).2.fsState = .dirty
    simp only [insertFd]
    split <;> split <;> split <;> simp_all

theorem insertFd_dir {fl : OpenFlags} {n : Nat} (h : fl.creat = true) : .dir ∈ (insertFd m fl n).2.set := by
  change (insertFd m fl n).2.dirState = .dirty
  simp only [insertFd, h]
  split <;> split <;> simp

theorem insertFd_trunc {fl : OpenFlags} {n : Nat} (h : fl.trunc = true) :
    (n < fdTblSize ∧ .fd n ∈ (insertFd m fl n).2.set) ∨ .fs ∈ (insertFd m fl n).2.set := by
  by_cases hn : n < fdTblSize
  · refine .inl ⟨hn, hn, ?_⟩
    simp [insertFd, h, hn]
  · refine .inr ?_
    change (insertFd m fl n).2.fsState = .dirty
    simp [insertFd, h, hn]

/-! ## Requests -/

theorem Safe.writes {h : Nat} (hs : Safe R live lost m k) (hx : h ∈ live) (hw : Writes (h : Int) k k') :
    Safe R live lost (lookupFd m h true).2 k' := by
  induction hw with
  | refl => exact hs.mono (fun _ hx => hx) (fun _ ho => ho) (set_lookupFd m h) rfl fun _ hc => hc
  | tail _ hw ih =>
    obtain ⟨d, ino, data, hd, hobj, rfl⟩ := hw
    rw [Kernel.desc_natCast] at hd
    have hroot := ih.live h hx d hd
    obtain ⟨x, hset, hcov⟩ := lookupFd_covers (m := m) (R := R) hd
      (c := ⟨_, .data ino d.fs, some d.oid⟩) (by rcases hobj with he | he <;> simp [Desc.syncs, he]) rfl hroot
    exact ih.logged rfl ⟨rfl, rfl⟩ hroot hset hcov

/-- A close that got no further than the mark: what the mark answered for is lost. -/
theorem Safe.closeFailed {h : Nat} {d : Desc} (hs : Safe R live lost m k) (hd : k.fds h = some d)
    (hl : ∀ y ∈ live', y ∈ live) (hlost : ∀ o ∈ lost, o ∈ lost') (hmem : d.oid ∈ lost') :
    Safe R live' lost' (removeFd m h).2 k := by
  refine ⟨hs.onRoots, ?_, fun y hy => hs.live y (hl y hy)⟩
  have hclear : Tracked (covers R k) (m.set \ {.fd h}) {c | c ∈ k.pending ∧ ¬ Lost lost' c} := by
    refine hs.tracked.clear ?_ ?_
    · intro c hpending
      obtain ⟨hc, hn⟩ := hpending
      exact ⟨hc, fun hl => hn (hl.mono hlost)⟩
    · intro c hpending hcov
      obtain ⟨_, hn⟩ := hpending
      obtain ⟨d', hd', _, ho⟩ := hcov
      rw [hd, Option.some.injEq] at hd'
      exact absurd ⟨d.oid, hmem, hd' ▸ ho⟩ hn
  exact hclear.mono subset_rfl (set_removeFd m h) fun _ _ _ _ hc => hc

/-- A close that synced: what the mark answered for has been written. -/
theorem Safe.closed {h : Nat} {d : Desc} (hs : Safe R live lost m k) (hd : k.fds h = some d)
    (hl : ∀ y ∈ live', y ∈ live ∧ y ≠ h) (hlost : ∀ o ∈ lost, o ∈ lost') :
    Safe R live' lost' (removeFd m h).2 ((k.settle d.syncs).release h) := by
  have hfds {n : Nat} (hn : n ≠ h) : ((k.settle d.syncs).release h).fds n = k.fds n :=
    Function.update_of_ne hn ..
  have hpend : ∀ c ∈ ((k.settle d.syncs).release h).pending, c ∈ k.pending ∧ d.syncs c = false :=
    fun c hc => Kernel.mem_pending_settle.mp hc
  refine ⟨fun c hc => hs.onRoots c (hpend c hc).1, ?_, fun y hy => ?_⟩
  · have hclear : Tracked (covers R k) (m.set \ {.fd h})
        {c | c ∈ ((k.settle d.syncs).release h).pending ∧ ¬ Lost lost' c} := by
      refine hs.tracked.clear ?_ ?_
      · intro c hmem
        obtain ⟨hc, hn⟩ := hmem
        exact ⟨(hpend c hc).1, fun hl => hn (hl.mono hlost)⟩
      · intro c hmem hcov
        obtain ⟨hc, _⟩ := hmem
        obtain ⟨d', hd', hsync, _⟩ := hcov
        rw [hd, Option.some.injEq] at hd'
        rw [← hd', (hpend c hc).2] at hsync
        cases hsync
    refine hclear.mono subset_rfl (set_removeFd m h) fun x hx c _ hcov => ?_
    cases x with
    | fd n =>
      have hne : n ≠ h := fun he => hx.2 (by rw [he]; rfl)
      simp only [covers, hfds hne]
      exact hcov
    | dir => exact hcov
    | fs => exact hcov
  · rw [hfds (hl y hy).2]
    exact hs.live y (hl y hy).1

theorem Safe.opened {fl : OpenFlags} {p : Path} {n : Nat} {d : Desc} (hs : Safe R live lost m k)
    (ho : k.Opened fl p n d k') (hfs : ∃ x ∈ R, d.fs = x.2.fs)
    (hnew : k.node p = none → ∃ x ∈ R, x.2.obj = .dir p.dropLast) :
    Safe R (n :: live) lost (insertFd m fl n).2 k' := by
  -- the descriptor first, then what the open changed
  have hold {y : Nat} {d'} (hy : k.fds y = some d') : y ≠ n := by
    rintro rfl
    rw [ho.free] at hy
    cases hy
  have hself : k'.fds n = some d := by rw [ho.fds, Function.update_self]
  have hs₁ : Safe R (n :: live) lost (insertFd m fl n).2 { k with fds := k'.fds } := by
    refine ⟨hs.onRoots, ?_, fun y hy d' hd' => ?_⟩
    · have hclear : Tracked (covers R k) (m.set \ {.fd n}) {c | c ∈ k.pending ∧ ¬ Lost lost c} :=
        hs.tracked.clear subset_rfl fun c _ ⟨_, hd', _⟩ => absurd rfl (hold hd')
      refine hclear.mono subset_rfl (set_insertFd m fl n) fun x _ c _ hcov => ?_
      cases x with
      | fd y =>
        obtain ⟨d', hd', hrest⟩ := hcov
        refine ⟨d', ?_, hrest⟩
        change k'.fds y = some d'
        rw [ho.fds, Function.update_of_ne (hold hd')]
        exact hd'
      | dir => exact hcov
      | fs => exact hcov
    · change k'.fds y = some d' at hd'
      by_cases he : y = n
      · rw [he, hself, Option.some.injEq] at hd'
        exact hd' ▸ hfs
      · rw [ho.fds, Function.update_of_ne he] at hd'
        exact hs.live y ((List.mem_cons.mp hy).resolve_left he) d' hd'
  rcases ho.place with ⟨nd, _, _, hobj, _, _, hq | ⟨htr, ino, rfl, hlog⟩⟩ | ⟨hnone, hcr, _, _, _, hlog⟩
  · refine hs₁.mono (fun _ hx => hx) (fun _ ho => ho) subset_rfl rfl fun c hc => ?_
    rw [hq.2] at hc
    exact hc
  · have hsync : d.syncs ⟨k.made.length, .data ino d.fs, some d.oid⟩ = true := by
      simp [Desc.syncs, hobj, Node.obj]
    rcases insertFd_trunc (m := m) (n := n) htr with ⟨_, hset⟩ | hset
    · exact hs₁.logged rfl hlog hfs hset ⟨d, hself, hsync, rfl⟩
    · exact hs₁.logged rfl hlog hfs hset hfs
  · obtain ⟨x, hx, hdir⟩ := hnew hnone
    exact hs₁.logged rfl hlog hfs (insertFd_dir hcr) ⟨x, hx, by simp [Desc.syncs, hdir]⟩

end

end Storage
