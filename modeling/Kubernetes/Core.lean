import Mathlib.Data.Finset.Sort
import Mathlib.Data.List.DropRight
import Mathlib.Data.Nat.Digits.Defs
import Mathlib.Data.String.Basic
import Mathlib.Tactic.Positivity

/-! # Labelled machines and their runs

Every component is embedded as a *machine*: a state, and a partial step
function on labels. A label is one atomic call (what one goroutine does while
it holds the component's lock) together with everything the caller or the Go
runtime chooses: arguments, clock readings, map iteration orders. `none` means
that the call is not enabled in that state (it blocks, or it is not one that
the caller can make).

A run is a list of labels. `Reach` relates a run to the state it ends in; the
rules below are the only places where runs are inducted on.
-/

namespace Kubernetes

universe u v

/-- A string, where its characters matter. -/
abbrev Str := List Char

/-- A machine: an initial state and a partial, executable step function. -/
structure Machine (σ : Type u) (ε : Type v) where
  init : σ
  step : σ → ε → Option σ

namespace Machine

variable {σ : Type u} {ε : Type v} (M : Machine σ ε)

/-- Execute a list of labels from a given state. -/
def runFrom (s : σ) : List ε → Option σ
  | [] => some s
  | e :: es => (M.step s e).bind fun s' => runFrom s' es

/-- `M.Reach tr s`: the run `tr` leads from the initial state to `s`. -/
inductive Reach : List ε → σ → Prop where
  | init : Reach [] M.init
  | step {tr : List ε} {s s' : σ} (e : ε) :
      Reach tr s → M.step s e = some s' → Reach (tr ++ [e]) s'

/-- `M.ReachWhen ok tr s`: a run to `s` in which every step meets `ok` in the
state in which it is taken. -/
inductive ReachWhen (ok : σ → ε → Prop) : List ε → σ → Prop where
  | init : ReachWhen ok [] M.init
  | step {tr : List ε} {s s' : σ} (e : ε) :
      ReachWhen ok tr s → ok s e → M.step s e = some s' → ReachWhen ok (tr ++ [e]) s'

variable {ok : σ → ε → Prop} {tr : List ε} {s : σ}

lemma ReachWhen.reach {M : Machine σ ε} (h : M.ReachWhen ok tr s) : M.Reach tr s := by
  induction h with
  | init => exact .init
  | step e _ _ hstep ih => exact ih.step e hstep

lemma ReachWhen.mono {M : Machine σ ε} {ok' : σ → ε → Prop} (himp : ∀ s e, ok s e → ok' s e)
    (h : M.ReachWhen ok tr s) : M.ReachWhen ok' tr s := by
  induction h with
  | init => exact .init
  | step e _ hok hstep ih => exact ih.step e (himp _ _ hok) hstep

/-- Execute a list of labels as long as every step meets `ok`. -/
def runWhen (ok : σ → ε → Prop) [∀ s e, Decidable (ok s e)] (s : σ) : List ε → Option σ
  | [] => some s
  | e :: es => if ok s e then (M.step s e).bind fun s' => runWhen ok s' es else none

/-! ## Runs and execution -/

lemma runFrom_append (s : σ) (es fs : List ε) :
    M.runFrom s (es ++ fs) = (M.runFrom s es).bind fun s' => M.runFrom s' fs := by
  induction es generalizing s with
  | nil => rfl
  | cons e es ih =>
    simp only [List.cons_append, runFrom]
    cases M.step s e with
    | none => rfl
    | some s' => exact ih s'

lemma runFrom_snoc (s : σ) (es : List ε) (e : ε) :
    M.runFrom s (es ++ [e]) = (M.runFrom s es).bind fun s' => M.step s' e := by
  rw [runFrom_append]
  congr 1
  funext s'
  simp [runFrom]

/-- The relational and the executable view of a run agree. -/
lemma reach_iff_runFrom :
    M.Reach tr s ↔ M.runFrom M.init tr = some s := by
  constructor
  · intro h
    induction h with
    | init => rfl
    | step e _ hstep ih => rw [runFrom_snoc, ih]; exact hstep
  intro h
  induction tr using List.reverseRecOn generalizing s with
  | nil =>
    cases h
    exact Reach.init
  | append_singleton es e ih =>
    rw [runFrom_snoc, Option.bind_eq_some_iff] at h
    obtain ⟨s', hs', hstep⟩ := h
    exact Reach.step e (ih hs') hstep

/-- An execution whose steps all meet `ok` extends such a run. -/
lemma ReachWhen.append_runWhen {M : Machine σ ε} [∀ s e, Decidable (ok s e)] {pre : List ε}
    {s' : σ} (hpre : M.ReachWhen ok pre s) (h : M.runWhen ok s tr = some s') :
    M.ReachWhen ok (pre ++ tr) s' := by
  induction tr generalizing pre s with
  | nil =>
    cases h
    simpa using hpre
  | cons e es ih =>
    unfold runWhen at h
    split_ifs at h with hok
    obtain ⟨s1, hs1, hrest⟩ := Option.bind_eq_some_iff.1 h
    simpa using ih (hpre.step e hok hs1) hrest

lemma reachWhen_of_runWhen [∀ s e, Decidable (ok s e)] (h : M.runWhen ok M.init tr = some s) :
    M.ReachWhen ok tr s :=
  ReachWhen.append_runWhen .init h

variable {α : Type*}

/-- A run to a state that shows `a` under `f`, found by executing it. -/
lemma exists_reach (f : σ → α) (tr : List ε) (a : α) (h : (M.runFrom M.init tr).map f = some a) :
    ∃ s, M.Reach tr s ∧ f s = a := by
  obtain ⟨s, hs, ha⟩ := Option.map_eq_some_iff.1 h
  exact ⟨s, (M.reach_iff_runFrom).2 hs, ha⟩

lemma exists_reachWhen (ok : σ → ε → Prop) [∀ s e, Decidable (ok s e)] (f : σ → α) (tr : List ε)
    (a : α) (h : (M.runWhen ok M.init tr).map f = some a) :
    ∃ s, M.ReachWhen ok tr s ∧ f s = a := by
  obtain ⟨s, hs, ha⟩ := Option.map_eq_some_iff.1 h
  exact ⟨s, M.reachWhen_of_runWhen hs, ha⟩

/-! ## Invariant rules -/

variable (inv : σ → Prop)

/-- Inductive invariance: true initially and kept by every enabled step. -/
lemma Reach.invariant {M : Machine σ ε} (hinit : inv M.init)
    (hstep : ∀ s e s', inv s → M.step s e = some s' → inv s') (h : M.Reach tr s) : inv s := by
  induction h with
  | init => exact hinit
  | step e _ hs ih => exact hstep _ e _ ih hs

/-- Inductive invariance over the runs whose steps all meet `ok`. -/
lemma ReachWhen.invariant {M : Machine σ ε} (hinit : inv M.init)
    (hstep : ∀ s e s', inv s → ok s e → M.step s e = some s' → inv s') (h : M.ReachWhen ok tr s) :
    inv s := by
  induction h with
  | init => exact hinit
  | step e _ hok hs ih => exact hstep _ e _ ih hok hs

/-- An invariant of the runs whose steps meet `ok` can show that they meet `ok'` as well. -/
lemma ReachWhen.strengthen {M : Machine σ ε} {ok' : σ → ε → Prop}
    (hinit : inv M.init)
    (hstep : ∀ s e s', inv s → ok s e → M.step s e = some s' → ok' s e ∧ inv s')
    (h : M.ReachWhen ok tr s) : M.ReachWhen ok' tr s ∧ inv s := by
  induction h with
  | init => exact ⟨.init, hinit⟩
  | step e _ hok hs ih =>
    rcases hstep _ e _ ih.2 hok hs with ⟨hok', hinv⟩
    exact ⟨ih.1.step e hok' hs, hinv⟩

/-- Inductive invariance with the run so far in view: for properties that
relate a state to its history. -/
lemma Reach.history {M : Machine σ ε} (inv : List ε → σ → Prop) (hinit : inv [] M.init)
    (hstep : ∀ tr s e s', inv tr s → M.step s e = some s' → inv (tr ++ [e]) s') (h : M.Reach tr s) :
    inv tr s := by
  induction h with
  | init => exact hinit
  | step e _ hs ih => exact hstep _ _ e _ ih hs

/-! ## Behaviour -/

/-- States related by a symmetric simulation cannot be told apart: every list of labels
can be executed in both or in neither, and shows the same under `f`. -/
lemma runFrom_congr (M : Machine σ ε) (R : σ → σ → Prop) (f : σ → α)
    (hsymm : ∀ s t, R s t → R t s) (hf : ∀ s t, R s t → f s = f t)
    (hstep : ∀ s t e s', R s t → M.step s e = some s' → ∃ t', M.step t e = some t' ∧ R s' t')
    {t : σ} (h : R s t) (tr : List ε) : (M.runFrom s tr).map f = (M.runFrom t tr).map f := by
  induction tr generalizing s t with
  | nil => exact congrArg some (hf s t h)
  | cons e es ih =>
    simp only [runFrom]
    cases hs : M.step s e with
    | some s' =>
      obtain ⟨t', ht, h'⟩ := hstep s t e s' h hs
      rw [ht]
      exact ih h'
    | none =>
      cases ht : M.step t e with
      | none => rfl
      | some t' =>
        obtain ⟨s', hs', -⟩ := hstep t s e t' (hsymm s t h) ht
        rw [hs] at hs'
        cases hs'

end Machine

end Kubernetes
