/-
Programs that make a fixed list of calls and stop at the first that fails.

`Follows` relates the list to the log such a program leaves: every call was
made in the state the calls before it led to, and only the last may have
failed.
-/
import Mathlib.Data.List.Infix

namespace Lib

variable {σ κ ρ : Type*}

/-- A call as it was made: the state of the other side before it, and its outcome. -/
structure Entry (σ κ ρ : Type*) where
  call : κ
  before : σ
  reply : ρ

section Follows

variable (step : σ → κ → σ) (ok : κ → ρ → Prop)

/-- The log of a program that is to make the calls `cs`, and whether it made
them all. A failure may leave an entry or none. -/
inductive Follows : σ → List κ → List (Entry σ κ ρ) → Bool → Prop where
  | done (s : σ) : Follows s [] [] true
  | stop (s : σ) (cs : List κ) : Follows s cs [] false
  | fail (s : σ) (c : κ) (cs : List κ) (r : ρ) : Follows s (c :: cs) [⟨c, s, r⟩] false
  | next {s : σ} {c : κ} {cs : List κ} {r : ρ} {es : List (Entry σ κ ρ)} {all : Bool}
      (hok : ok c r) (h : Follows (step s c) cs es all) : Follows s (c :: cs) (⟨c, s, r⟩ :: es) all

end Follows

namespace Follows

variable {step : σ → κ → σ} {ok : κ → ρ → Prop} {s : σ} {cs cs' : List κ} {es es' : List (Entry σ κ ρ)} {all : Bool}

/-- The calls that were made are the first of those to make. -/
theorem calls (h : Follows step ok s cs es all) : es.map Entry.call <+: cs := by
  induction h with
  | done s => exact List.prefix_rfl
  | stop s cs => exact List.nil_prefix
  | fail s c cs r => exact ⟨cs, rfl⟩
  | next hok h ih => exact List.cons_prefix_cons.mpr ⟨rfl, ih⟩

theorem complete (h : Follows step ok s cs es true) :
    es.map Entry.call = cs ∧ ∀ e ∈ es, ok e.call e.reply := by
  generalize hall : true = all at h
  induction h with
  | done s => exact ⟨rfl, fun e he => absurd he List.not_mem_nil⟩
  | stop s cs => cases hall
  | fail s c cs r => cases hall
  | next hok h ih =>
    obtain ⟨hcs, hes⟩ := ih hall
    exact ⟨by rw [List.map_cons, hcs], List.forall_mem_cons.mpr ⟨hok, hes⟩⟩

/-- What is known of a call that was made: those before it succeeded, and it
met the state they led to. -/
theorem entry {pre post : List (Entry σ κ ρ)} {e : Entry σ κ ρ}
    (h : Follows step ok s cs (pre ++ e :: post) all) :
    (∀ x ∈ pre, ok x.call x.reply) ∧ e.before = (pre.map Entry.call).foldl step s := by
  induction pre generalizing s cs with
  | nil =>
    refine ⟨fun x hx => absurd hx List.not_mem_nil, ?_⟩
    cases h with
    | fail => rfl
    | next => rfl
  | cons x pre ih =>
    generalize hes : x :: pre ++ e :: post = es at h
    cases h with
    | done => cases hes
    | stop => cases hes
    | fail c cs r =>
      rw [List.cons_append, List.cons.injEq] at hes
      exact absurd hes.2 (by simp)
    | next hok h =>
      rw [List.cons_append, List.cons.injEq] at hes
      obtain ⟨rfl, rfl⟩ := hes
      obtain ⟨hpre, hbefore⟩ := ih h
      exact ⟨List.forall_mem_cons.mpr ⟨hok, hpre⟩, hbefore⟩

theorem append (h : Follows step ok s cs es true) (h' : Follows step ok (cs.foldl step s) cs' es' all) :
    Follows step ok s (cs ++ cs') (es ++ es') all := by
  generalize hall : true = b at h
  induction h with
  | done s => exact h'
  | stop s cs => cases hall
  | fail s c cs r => cases hall
  | next hok h ih => exact .next hok (ih h' hall)

theorem cut (h : Follows step ok s cs es false) : Follows step ok s (cs ++ cs') es false := by
  generalize hall : false = b at h
  induction h with
  | done s => cases hall
  | stop s cs => exact .stop s _
  | fail s c cs r => exact .fail s c _ r
  | next hok h ih => exact .next hok (ih hall)

end Follows

end Lib
