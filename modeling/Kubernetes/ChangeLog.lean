import Kubernetes.Core

/-! # Following a filtered map by notices

A map changes by updates that put or remove one key. An observer that is interested in the
entries that pass a filter is told of an update by a notice: an entry appeared, changed or
disappeared; it is told nothing if the entry neither passed before nor passes now.

Replaying the notices on the filtered map gives the filtered map after the updates
(`replay_notices`), and each notice fits the map on which it is replayed (`legal_notices`):
only an absent entry is added, only a present one is modified or deleted.
-/

namespace Kubernetes.ChangeLog

open Function

variable {K V : Type} [DecidableEq K]

inductive Update (K V : Type) where
  | put (k : K) (v : V)
  | remove (k : K)

/-- What the observer is told. -/
inductive Notice (K V : Type) where
  | added (k : K) (v : V)
  | modified (k : K) (v : V)
  | deleted (k : K)
deriving DecidableEq

def Update.key : Update K V → K
  | .put k _ => k
  | .remove k => k

/-- The value after the update, if there is one. -/
def Update.value : Update K V → Option V
  | .put _ v => some v
  | .remove _ => none

def Update.apply (m : K → Option V) (u : Update K V) : K → Option V :=
  Function.update m u.key u.value

def Notice.apply (m : K → Option V) : Notice K V → K → Option V
  | .added k v => Function.update m k (some v)
  | .modified k v => Function.update m k (some v)
  | .deleted k => Function.update m k none

/-- The notice fits the map on which it is replayed. -/
def Notice.Legal (m : K → Option V) : Notice K V → Prop
  | .added k _ => m k = none
  | .modified k _ => m k ≠ none
  | .deleted k => m k ≠ none

variable (p : K → V → Bool)

def filtered (m : K → Option V) : K → Option V := fun k => (m k).filter (p k)

/-- The notice of a change of the filtered value under `k`. -/
def noticeOf (k : K) : Option V → Option V → Option (Notice K V)
  | none, none => none
  | none, some v => some (.added k v)
  | some _, some v => some (.modified k v)
  | some _, none => some (.deleted k)

def notice (m : K → Option V) (u : Update K V) : Option (Notice K V) :=
  noticeOf u.key ((m u.key).filter (p u.key)) (u.value.filter (p u.key))

/-- The map after a list of updates. -/
def content (m : K → Option V) (us : List (Update K V)) : K → Option V := us.foldl Update.apply m

def notices (p : K → V → Bool) (m : K → Option V) : List (Update K V) → List (Notice K V)
  | [] => []
  | u :: us => (notice p m u).toList ++ notices p (u.apply m) us

def replay (m : K → Option V) (ns : List (Notice K V)) : K → Option V := ns.foldl Notice.apply m

/-- Each notice fits the map on which it is replayed. -/
def Legal (m : K → Option V) : List (Notice K V) → Prop
  | [] => True
  | n :: ns => n.Legal m ∧ Legal (n.apply m) ns

/-! ## One update -/

lemma filtered_apply (m : K → Option V) (u : Update K V) :
    filtered p (u.apply m) = Function.update (filtered p m) u.key (u.value.filter (p u.key)) := by
  funext k
  unfold filtered Update.apply
  by_cases hk : k = u.key
  · subst hk
    rw [update_self, update_self]
  · rw [update_of_ne hk, update_of_ne hk]

/-- Replaying the notice of an update does to the filtered map what the update does. -/
lemma replay_notice (m : K → Option V) (u : Update K V) :
    replay (filtered p m) (notice p m u).toList = filtered p (u.apply m) := by
  rw [filtered_apply]
  unfold notice
  -- `filtered p m` has the value before the update under the key
  have hold : filtered p m u.key = (m u.key).filter (p u.key) := rfl
  cases hm : (m u.key).filter (p u.key) with
  | none =>
    cases hv : u.value.filter (p u.key) with
    | none =>
      show filtered p m = Function.update (filtered p m) u.key none
      rw [← hm, ← hold, update_eq_self]
    | some v => rfl
  | some v0 =>
    cases hv : u.value.filter (p u.key) with
    | none => rfl
    | some v => rfl

omit [DecidableEq K] in
lemma legal_notice {p : K → V → Bool} {m : K → Option V} {u : Update K V} {n : Notice K V}
    (h : notice p m u = some n) : n.Legal (filtered p m) := by
  unfold notice at h
  cases hm : (m u.key).filter (p u.key) with
  | none =>
    cases hv : u.value.filter (p u.key) with
    | none =>
      rw [hm, hv] at h
      cases h
    | some v =>
      rw [hm, hv] at h
      cases h
      exact hm
  | some v0 =>
    have hne : filtered p m u.key ≠ none := by
      intro hnone
      exact Option.some_ne_none v0 (hm.symm.trans hnone)
    cases hv : u.value.filter (p u.key) with
    | none =>
      rw [hm, hv] at h
      cases h
      exact hne
    | some v =>
      rw [hm, hv] at h
      cases h
      exact hne

/-! ## Lists of updates -/

lemma replay_append (m : K → Option V) (ns1 ns2 : List (Notice K V)) :
    replay m (ns1 ++ ns2) = replay (replay m ns1) ns2 := List.foldl_append

lemma legal_append {m : K → Option V} {ns1 ns2 : List (Notice K V)} :
    Legal m (ns1 ++ ns2) ↔ Legal m ns1 ∧ Legal (replay m ns1) ns2 := by
  induction ns1 generalizing m with
  | nil => simp [Legal, replay]
  | cons n ns ih =>
    rw [List.cons_append]
    show n.Legal m ∧ Legal (n.apply m) (ns ++ ns2) ↔
      (n.Legal m ∧ Legal (n.apply m) ns) ∧ Legal (replay (n.apply m) ns) ns2
    rw [ih, and_assoc]

theorem replay_notices (p : K → V → Bool) (m : K → Option V) (us : List (Update K V)) :
    replay (filtered p m) (notices p m us) = filtered p (content m us) := by
  induction us generalizing m with
  | nil => rfl
  | cons u us ih =>
    show replay (filtered p m) ((notice p m u).toList ++ notices p (u.apply m) us) = _
    rw [replay_append, replay_notice, ih]
    rfl

theorem legal_notices (p : K → V → Bool) (m : K → Option V) (us : List (Update K V)) :
    Legal (filtered p m) (notices p m us) := by
  induction us generalizing m with
  | nil => trivial
  | cons u us ih =>
    show Legal (filtered p m) ((notice p m u).toList ++ notices p (u.apply m) us)
    rw [legal_append, replay_notice]
    refine ⟨?_, ih (u.apply m)⟩
    cases hn : notice p m u with
    | none => trivial
    | some n => exact ⟨legal_notice hn, trivial⟩

end Kubernetes.ChangeLog
