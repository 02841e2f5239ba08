/-
A store of named files behind handles: what a file server is for.

A place names at most one file, a handle is on one file, and a file that was
made has a content. A request that fails changes nothing, with two exceptions:
a write may have stored a first part of its bytes, and a handle is gone after
its close however that ended.

Not every file is a regular one. `keeps` says of a file that what is written
to it can be read back, `sized` that it has a length that can be set.
-/
import Microtrust.Lib.Bytes
import Mathlib.Data.Set.Insert
import Mathlib.Logic.Function.Basic

namespace Lib

/-- How a file is opened. -/
structure OpenHow where
  creates : Bool
  exclusive : Bool
  truncates : Bool
deriving DecidableEq

inductive FileOp (Place Handle : Type*) where
  | open (p : Place) (how : OpenHow)
  | close (h : Handle)
  | read (h : Handle) (off size : Nat)
  | write (h : Handle) (off : Nat) (bs : Bytes)
  | getSize (h : Handle)
  | setSize (h : Handle) (n : Nat)
  | delete (p : Place)
  | other
deriving DecidableEq

inductive FileAnswer (Handle : Type*) where
  | failed
  | done
  | opened (h : Handle)
  | bytes (bs : Bytes)
  | size (n : Nat)
deriving DecidableEq

structure FileStore (Place Handle File : Type*) where
  named : Place → Option File
  holds : Handle → Option File
  made : Set File
  content : File → Bytes

namespace FileStore

variable {Place Handle File : Type*} [DecidableEq File]

def setContent (s : FileStore Place Handle File) (f : File) (c : Bytes) : FileStore Place Handle File :=
  { s with content := Function.update s.content f c }

/-- Bytes written to a file that keeps none are gone. -/
def put (keeps : File → Bool) (s : FileStore Place Handle File) (f : File) (off : Nat) (bs : Bytes) :
    FileStore Place Handle File :=
  if keeps f then s.setContent f (overlay (s.content f) off bs) else s

@[simp] theorem put_nil (keeps : File → Bool) (s : FileStore Place Handle File) (f : File) (off : Nat) :
    s.put keeps f off [] = s := by
  simp [put, setContent]

variable [DecidableEq Place] [DecidableEq Handle]

def hold (s : FileStore Place Handle File) (h : Handle) (f : Option File) : FileStore Place Handle File :=
  { s with holds := Function.update s.holds h f }

def name (s : FileStore Place Handle File) (p : Place) (f : Option File) : FileStore Place Handle File :=
  { s with named := Function.update s.named p f }

/-- A new file at `p`, with nothing in it. -/
def make (s : FileStore Place Handle File) (p : Place) (f : File) : FileStore Place Handle File :=
  { (s.setContent f []).name p (some f) with made := insert f s.made }

/-- What one request may do and how it may be answered. -/
inductive Step (keeps sized : File → Bool) (s : FileStore Place Handle File) :
    FileOp Place Handle → FileAnswer Handle → FileStore Place Handle File → Prop
  | idle {a} : Step keeps sized s .other a s
  | failed {op} : (∀ h, op ≠ .close h) → Step keeps sized s op .failed s
  | closed {h a} : a = .failed ∨ a = .done → Step keeps sized s (.close h) a (s.hold h none)
  | wrote {h f off bs c a} : s.holds h = some f → a = .failed ∨ a = .done ∧ (keeps f → c = bs.length) →
      Step keeps sized s (.write h off bs) a (s.put keeps f off (bs.take c))
  | read {h f off size out} : s.holds h = some f → (keeps f → out = ((s.content f).drop off).take size) →
      Step keeps sized s (.read h off size) (.bytes out) s
  | gotSize {h f n} : s.holds h = some f → (sized f → n = (s.content f).length) →
      Step keeps sized s (.getSize h) (.size n) s
  | cut {h f n} : s.holds h = some f → sized f →
      Step keeps sized s (.setSize h n) .done (s.setContent f (padTake (s.content f) n))
  | deleted {p f} : s.named p = some f → Step keeps sized s (.delete p) .done (s.name p none)
  | found {p how h f} : s.named p = some f → (how.creates && how.exclusive) = false → s.holds h = none →
      Step keeps sized s (.open p how) (.opened h)
        ((if how.truncates && sized f then s.setContent f [] else s).hold h (some f))
  | new {p how h f} : s.named p = none → how.creates → s.holds h = none → f ∉ s.made →
      Step keeps sized s (.open p how) (.opened h) ((s.make p f).hold h (some f))

/-- Requests and their answers, one after another. -/
inductive Run (keeps sized : File → Bool) :
    FileStore Place Handle File → List (FileOp Place Handle × FileAnswer Handle) → FileStore Place Handle File → Prop
  | nil {s} : Run keeps sized s [] s
  | cons {s s' s'' op a tr} : Step keeps sized s op a s' → Run keeps sized s' tr s'' →
      Run keeps sized s ((op, a) :: tr) s''

/-! ## Bytes that stay -/

/-- The request leaves byte `i` of `f` alone: no write goes over it, no cut
takes it, and the file is not opened to be emptied. -/
def spares (s : FileStore Place Handle File) (f : File) (i : Nat) : FileOp Place Handle → Prop
  | .write h off bs => s.holds h = some f → i < off ∨ off + bs.length ≤ i
  | .setSize h n => s.holds h = some f → i < n
  | .open p how => s.named p = some f → how.truncates = false
  | _ => True

end FileStore

/-- A byte outside the stored block is as before. -/
theorem getElem?_overlay_outside {old bs : Bytes} {off i : Nat} (hi : i < old.length)
    (hout : i < off ∨ off + bs.length ≤ i) : (overlay old off bs)[i]? = old[i]? := by
  by_cases hbs : bs = []
  · simp [hbs]
  rw [overlay_of_ne hbs, splice_eq]
  rcases hout with hlt | hge
  · rw [List.append_assoc, List.getElem?_append_left (by simpa using hlt), padTake,
      List.getElem?_append_left (by simp; omega), List.getElem?_take_of_lt hlt]
  · rw [List.getElem?_append_right (by simpa using hge), List.getElem?_drop]
    congr 1
    simp
    omega

/-- A byte inside the stored block is the block's. -/
theorem getElem?_overlay_inside {old bs : Bytes} {off i : Nat} (h₁ : off ≤ i) (h₂ : i < off + bs.length) :
    (overlay old off bs)[i]? = bs[i - off]? := by
  have hbs : bs ≠ [] := by
    rintro rfl
    simp at h₂
    omega
  rw [overlay_of_ne hbs, splice_eq, List.append_assoc, List.getElem?_append_right (by simpa using h₁),
    length_padTake, List.getElem?_append_left (by omega)]

namespace FileStore

variable {Place Handle File : Type*} {keeps sized : File → Bool} {s s' : FileStore Place Handle File}
  {op : FileOp Place Handle} {a : FileAnswer Handle} {f : File} {i : Nat} {b : UInt8}

/-- Byte `i` of `f` is `b`. -/
def Has (s : FileStore Place Handle File) (f : File) (i : Nat) (b : UInt8) : Prop :=
  f ∈ s.made ∧ (s.content f)[i]? = some b

theorem Has.lt (h : s.Has f i b) : i < (s.content f).length := (List.getElem?_eq_some_iff.mp h.2).1

variable [DecidableEq File]

theorem Has.setContent {g : File} {bs : Bytes} (h : s.Has f i b) (hc : g = f → bs[i]? = (s.content f)[i]?) :
    (s.setContent g bs).Has f i b := by
  refine ⟨h.1, ?_⟩
  by_cases hg : g = f
  · subst hg
    rw [← h.2, ← hc rfl]
    simp [FileStore.setContent]
  · rw [← h.2]
    simp [FileStore.setContent, Function.update_of_ne (Ne.symm hg)]

variable [DecidableEq Place] [DecidableEq Handle]

/-- A request that spares a byte keeps it. -/
theorem Step.kept (h : Step keeps sized s op a s') (hb : s.Has f i b) (hs : s.spares f i op) : s'.Has f i b := by
  cases h with
  | idle => exact hb
  | failed => exact hb
  | closed => exact hb
  | @wrote h g off bs c _ hg _ =>
    unfold put
    split
    · refine hb.setContent ?_
      rintro rfl
      refine getElem?_overlay_outside hb.lt ?_
      have := hs hg
      rw [List.length_take]
      omega
    · exact hb
  | read => exact hb
  | gotSize => exact hb
  | @cut h g n hg _ =>
    refine hb.setContent ?_
    rintro rfl
    have hi := hb.lt
    have hn : i < n := hs hg
    rw [padTake, List.getElem?_append_left (by simp; omega), List.getElem?_take_of_lt hn]
  | deleted => exact hb
  | @found p how h g hg _ _ =>
    have hkeep : (if how.truncates && sized g then s.setContent g [] else s).Has f i b := by
      split
      · next ht =>
        refine hb.setContent ?_
        rintro rfl
        rw [hs hg] at ht
        cases ht
      · exact hb
    exact hkeep
  | @new p how h g _ _ _ hg =>
    have hne : g ≠ f := by
      rintro rfl
      exact hg hb.1
    refine ⟨Set.mem_insert_of_mem g hb.1, ?_⟩
    have hset : (s.setContent g []).Has f i b := hb.setContent fun he => absurd he hne
    exact hset.2

/-- What a write that was answered well stored is there. -/
theorem Step.stored {h : Handle} {off : Nat} {bs : Bytes} (hstep : Step keeps sized s (.write h off bs) .done s')
    (hf : s.holds h = some f) (hk : keeps f) (hm : f ∈ s.made) (h₁ : off ≤ i) (h₂ : i < off + bs.length)
    (hb : bs[i - off]? = some b) : s'.Has f i b := by
  cases hstep with
  | @wrote _ g _ _ c _ hg hall =>
    obtain rfl : g = f := Option.some.inj (hg.symm.trans hf)
    rcases hall with hfail | ⟨_, hall⟩
    · cases hfail
    obtain rfl := hall hk
    rw [put, if_pos hk, List.take_length]
    exact ⟨hm, by simp [FileStore.setContent, getElem?_overlay_inside h₁ h₂, hb]⟩

/-- A read that was answered well returns the bytes that are there. -/
theorem Step.returned {h : Handle} {off size : Nat} {out : Bytes}
    (hstep : Step keeps sized s (.read h off size) (.bytes out) s') (hf : s.holds h = some f) (hk : keeps f)
    (hb : s.Has f i b) (h₁ : off ≤ i) (h₂ : i < off + size) : out[i - off]? = some b := by
  cases hstep with
  | @read _ g _ _ _ hg hout =>
    obtain rfl : g = f := Option.some.inj (hg.symm.trans hf)
    rw [hout hk, List.getElem?_take_of_lt (by omega), List.getElem?_drop, ← hb.2]
    congr 1
    omega

/-- A place keeps its file until it is deleted. -/
theorem Step.named {p : Place} (h : Step keeps sized s op a s') (hp : s.named p = some f) (hop : op ≠ .delete p) :
    s'.named p = some f := by
  cases h with
  | wrote =>
    unfold put
    split
    · exact hp
    · exact hp
  | @deleted r _ _ =>
    have hne : p ≠ r := by
      rintro rfl
      exact hop rfl
    rw [← hp]
    exact Function.update_of_ne hne ..
  | found =>
    split
    · exact hp
    · exact hp
  | @new r _ _ _ hr =>
    have hne : p ≠ r := by
      rintro rfl
      rw [hp] at hr
      cases hr
    rw [← hp]
    exact Function.update_of_ne hne ..
  | _ => exact hp

/-- An open of a place that has a file is on that file, and was not to make one. -/
theorem Step.opened {p : Place} {how : OpenHow} {h : Handle} (hstep : Step keeps sized s (.open p how) (.opened h) s')
    (hp : s.named p = some f) : s'.holds h = some f ∧ (how.creates && how.exclusive) = false := by
  cases hstep with
  | @found _ _ _ g hg hexcl _ =>
    obtain rfl : g = f := Option.some.inj (hg.symm.trans hp)
    exact ⟨by simp [FileStore.hold], hexcl⟩
  | new hnone =>
    rw [hp] at hnone
    cases hnone

end FileStore

/-! ## Files out of reach -/

namespace FileStore

variable {Place Handle File : Type*} {keeps sized : File → Bool} {inside : Place → Prop}
  {s s' s'' : FileStore Place Handle File} {op : FileOp Place Handle} {a : FileAnswer Handle} {f : File}

/-- The request names no place but those `inside`. -/
def within (inside : Place → Prop) : FileOp Place Handle → Prop
  | .open p _ | .delete p => inside p
  | _ => True

/-- A file that keeps its content has one name at most, and no handle is on a
file that has its name outside. -/
structure Guarded (keeps : File → Bool) (inside : Place → Prop) (s : FileStore Place Handle File) : Prop where
  made : ∀ p f, s.named p = some f → f ∈ s.made
  single : ∀ p r f, keeps f → s.named p = some f → s.named r = some f → p = r
  apart : ∀ h p f, keeps f → s.holds h = some f → s.named p = some f → inside p

/-- The names outside, and what is in the files they name, are as before. -/
def Spared (keeps : File → Bool) (inside : Place → Prop) (s s' : FileStore Place Handle File) : Prop :=
  ∀ p, ¬ inside p → s'.named p = s.named p ∧ ∀ f, keeps f → s.named p = some f → s'.content f = s.content f

theorem Spared.refl (keeps : File → Bool) (inside : Place → Prop) (s : FileStore Place Handle File) :
    Spared keeps inside s s := fun _ _ => ⟨rfl, fun _ _ _ => rfl⟩

theorem Spared.trans (h : Spared keeps inside s s')
    (h' : Spared keeps inside s' s'') : Spared keeps inside s s'' := by
  intro p hp
  obtain ⟨hn, hc⟩ := h p hp
  obtain ⟨hn', hc'⟩ := h' p hp
  refine ⟨hn'.trans hn, fun f hk hf => ?_⟩
  rw [hc' f hk (hn.trans hf), hc f hk hf]

section Content

variable [DecidableEq File] {c : Bytes}

theorem Guarded.setContent (h : Guarded keeps inside s) :
    Guarded keeps inside (s.setContent f c) := ⟨h.made, h.single, h.apart⟩

/-- A file without a name outside may get any content. -/
theorem Spared.setContent (hf : keeps f → ∀ p, s.named p = some f → inside p) : Spared keeps inside s (s.setContent f c) := by
  intro p hp
  refine ⟨rfl, fun g hk hg => ?_⟩
  have hne : g ≠ f := by
    intro he
    subst he
    exact hp (hf hk p hg)
  exact Function.update_of_ne hne ..

end Content

theorem Guarded.hold [DecidableEq Handle] {h : Handle} {o : Option File} (hg : Guarded keeps inside s)
    (ho : ∀ f p, o = some f → keeps f → s.named p = some f → inside p) : Guarded keeps inside (s.hold h o) := by
  refine ⟨hg.made, hg.single, fun h' p f hk hh hp => ?_⟩
  by_cases he : h' = h
  · subst he
    exact ho f p (by simpa [FileStore.hold] using hh) hk hp
  · exact hg.apart h' p f hk (by simpa [FileStore.hold, Function.update_of_ne he] using hh) hp

/-- A request for places inside touches nothing outside. -/
theorem Step.spared [DecidableEq Place] [DecidableEq Handle] [DecidableEq File] (h : Step keeps sized s op a s')
    (hg : Guarded keeps inside s) (hop : within inside op) : Guarded keeps inside s' ∧ Spared keeps inside s s' := by
  have hsame : Guarded keeps inside s ∧ Spared keeps inside s s := ⟨hg, Spared.refl keeps inside s⟩
  cases h with
  | idle => exact hsame
  | failed => exact hsame
  | closed => exact ⟨hg.hold (by simp), Spared.refl keeps inside s⟩
  | @wrote h g _ _ _ _ hh _ =>
    unfold put
    split
    · exact ⟨hg.setContent, .setContent fun hk p hp => hg.apart h p g hk hh hp⟩
    · exact hsame
  | read => exact hsame
  | gotSize => exact hsame
  | @cut h g _ hh _ => exact ⟨hg.setContent, .setContent fun hk p hp => hg.apart h p g hk hh hp⟩
  | @deleted r _ _ =>
    have hsub {p : Place} {f : File} (hp : (s.name r none).named p = some f) : s.named p = some f := by
      by_cases he : p = r
      · subst he
        simp [FileStore.name] at hp
      · simpa [FileStore.name, Function.update_of_ne he] using hp
    refine ⟨⟨fun p f hp => hg.made p f (hsub hp), fun p q f hk hp hq => hg.single p q f hk (hsub hp) (hsub hq),
      fun h p f hk hh hp => hg.apart h p f hk hh (hsub hp)⟩, fun p hp => ⟨?_, fun _ _ _ => rfl⟩⟩
    have hne : p ≠ r := by
      intro he
      subst he
      exact hp hop
    exact Function.update_of_ne hne ..
  | @found r how h g hr _ _ =>
    have hin (hk : keeps g) (p : Place) (hp : s.named p = some g) : inside p := by
      rw [hg.single p r g hk hp hr]
      exact hop
    have hkeep : Guarded keeps inside (if how.truncates && sized g then s.setContent g [] else s) ∧
        Spared keeps inside s (if how.truncates && sized g then s.setContent g [] else s) := by
      split
      · exact ⟨hg.setContent, .setContent hin⟩
      · exact hsame
    refine ⟨hkeep.1.hold ?_, hkeep.2⟩
    rintro f p ⟨⟩ hk hp
    refine hin hk p ?_
    split at hp
    · exact hp
    · exact hp
  | @new r how h g hr _ _ hnew =>
    -- the file is new, so nothing else has or had its name
    have hother {p : Place} {f : File} (hp : (s.make r g).named p = some f) (hpr : p ≠ r) : s.named p = some f := by
      rw [← hp]
      exact (Function.update_of_ne hpr ..).symm
    have hself {f : File} (hp : (s.make r g).named r = some f) : f = g := by
      simpa [FileStore.make, FileStore.name, eq_comm] using hp
    have hmake : Guarded keeps inside (s.make r g) := by
      refine ⟨fun p f hp => ?_, fun p q f hk hp hq => ?_, fun h p f hk hh hp => ?_⟩
      · by_cases he : p = r
        · subst he
          rw [hself hp]
          exact Set.mem_insert ..
        · exact Set.mem_insert_of_mem g (hg.made p f (hother hp he))
      · by_cases hpr : p = r <;> by_cases hqr : q = r
        · rw [hpr, hqr]
        · subst hpr
          rw [hself hp] at hq
          exact absurd (hg.made q g (hother hq hqr)) hnew
        · subst hqr
          rw [hself hq] at hp
          exact absurd (hg.made p g (hother hp hpr)) hnew
        · exact hg.single p q f hk (hother hp hpr) (hother hq hqr)
      · by_cases he : p = r
        · rw [he]
          exact hop
        · exact hg.apart h p f hk hh (hother hp he)
    refine ⟨hmake.hold ?_, fun p hp => ⟨?_, fun f _ hf => ?_⟩⟩
    · rintro f p ⟨⟩ hk hp
      by_cases he : p = r
      · rw [he]
        exact hop
      · exact absurd (hg.made p g (hother hp he)) hnew
    · have hne : p ≠ r := by
        intro he
        subst he
        exact hp hop
      exact Function.update_of_ne hne ..
    · have hne : f ≠ g := by
        intro he
        subst he
        exact hnew (hg.made p f hf)
      exact Function.update_of_ne hne ..

end FileStore

end Lib
