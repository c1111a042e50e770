import Kubernetes.Core

/-! # Doubly linked lists

A doubly linked list over addresses `α`: a head pointer and, for every address,
its successor and predecessor. The operations are the pointer assignments that a
program makes; `Repr l xs` says that the structure holds the sequence `xs`.

Results: `moveToHead_repr` (a listed address goes to the front), `push_repr` (a
fresh one is put there), `remove_repr`, and `forEach_repr` (a loop along the
successors with an early exit is a fold over the sequence).
-/

namespace Kubernetes

open List Function

/-- The links of a doubly linked list; `none` is nil. -/
structure Links (α : Type) where
  head : Option α
  next : α → Option α
  prev : α → Option α

namespace Links

variable {α S : Type} [DecidableEq α]

def empty : Links α := ⟨none, fun _ => none, fun _ => none⟩

/-- A newly allocated item has no neighbours. -/
def alloc (l : Links α) (x : α) : Links α :=
  { l with next := Function.update l.next x none, prev := Function.update l.prev x none }

/-- `if x.prev != nil { x.prev.next = x.next }` -/
def bypassNext (l : Links α) (x : α) : Links α :=
  match l.prev x with
  | some p => { l with next := Function.update l.next p (l.next x) }
  | none => l

/-- `if x.next != nil { x.next.prev = x.prev }` -/
def bypassPrev (l : Links α) (x : α) : Links α :=
  match l.next x with
  | some n => { l with prev := Function.update l.prev n (l.prev x) }
  | none => l

def unlink (l : Links α) (x : α) : Links α := (l.bypassNext x).bypassPrev x

/-- `if head != nil { head.prev = x }; x.next = head; x.prev = nil; head = x` -/
def push (l : Links α) (x : α) : Links α :=
  let prev := match l.head with
    | some h => Function.update l.prev h (some x)
    | none => l.prev
  { head := some x
    next := Function.update l.next x l.head
    prev := Function.update prev x none }

def moveToHead (l : Links α) (x : α) : Links α :=
  if l.head = some x then l else (l.unlink x).push x

def remove (l : Links α) (x : α) : Links α :=
  let l := l.unlink x
  if l.head = some x then { l with head := l.next x } else l

/-- `for x := start; x != nil; x = x.next { if !cont(x) { break }; body }`, for a
body that does not change the links. -/
def forEach (l : Links α) (cont : α → Bool) (body : S → α → S) : Nat → Option α → S → S
  | 0, _, s => s
  | _ + 1, none, s => s
  | fuel + 1, some x, s =>
    if cont x then forEach l cont body fuel (l.next x) (body s x) else s

/-! ## Segments -/

/-- `l.Seg p xs n`: the addresses `xs` are linked in this order, `p` comes before
the first of them and `n` after the last. -/
def Seg (l : Links α) (p : Option α) : List α → Option α → Prop
  | [], _ => True
  | x :: xs, n => l.prev x = p ∧ l.next x = xs.head?.or n ∧ Seg l (some x) xs n

/-- The links hold exactly the sequence `xs`. -/
structure Repr (l : Links α) (xs : List α) : Prop where
  head : l.head = xs.head?
  seg : l.Seg none xs none
  nodup : xs.Nodup

omit [DecidableEq α] in
lemma seg_append (l : Links α) (p n : Option α) (xs ys : List α) :
    l.Seg p (xs ++ ys) n ↔ l.Seg p xs (ys.head?.or n) ∧ l.Seg (xs.getLast?.or p) ys n := by
  induction xs generalizing p with
  | nil => simp [Seg]
  | cons x xs ih =>
    have hlast : (x :: xs).getLast?.or p = xs.getLast?.or (some x) := by
      cases xs <;> simp [getLast?_cons]
    rw [cons_append, Seg, Seg, ih, hlast]
    have hhead : (xs ++ ys).head?.or n = xs.head?.or (ys.head?.or n) := by
      cases xs <;> simp
    rw [hhead]
    tauto

variable {l : Links α} {xs : List α}

omit [DecidableEq α] in
lemma seg_congr {m : Links α} {p n : Option α}
    (h : ∀ x ∈ xs, m.next x = l.next x ∧ m.prev x = l.prev x) (hl : l.Seg p xs n) :
    m.Seg p xs n := by
  induction xs generalizing p with
  | nil => trivial
  | cons x xs ih =>
    have hx := h x mem_cons_self
    refine ⟨hx.2.trans hl.1, hx.1.trans hl.2.1, ?_⟩
    exact ih (forall_mem_cons.1 h).2 hl.2.2

/-! ## Unlinking -/

lemma bypassNext_prev (l : Links α) (x : α) : (l.bypassNext x).prev = l.prev := by
  unfold bypassNext
  split <;> rfl

variable {x : α}

lemma bypassNext_next_self (hx : l.prev x ≠ some x) :
    (l.bypassNext x).next x = l.next x := by
  unfold bypassNext
  cases hp : l.prev x with
  | none => rfl
  | some p =>
    have hne : x ≠ p := fun h => hx (hp.trans (congrArg some h.symm))
    simp [update_of_ne hne]

lemma unlink_head (l : Links α) (x : α) : (l.unlink x).head = l.head := by
  unfold unlink bypassPrev bypassNext
  cases l.prev x <;> (dsimp only; split <;> rfl)

/-- The two segments around `x` are joined. -/
lemma unlink_seg {as bs : List α} (h : l.Seg none (as ++ x :: bs) none)
    (hnd : (as ++ x :: bs).Nodup) :
    (l.unlink x).Seg none (as ++ bs) none ∧ (l.unlink x).next x = bs.head? := by
  rw [seg_append] at h
  obtain ⟨has, hprev, hnext, hbs⟩ := h
  simp only [head?_cons, Option.or_none] at has hprev hnext
  rw [nodup_append] at hnd
  obtain ⟨hasnd, hbsnd, hdisj⟩ := hnd
  have hxas : x ∉ as := fun hx => hdisj x hx x mem_cons_self rfl
  have hxbs : x ∉ bs := (nodup_cons.1 hbsnd).1
  -- the first assignment redirects the last address before `x`
  have hself : (l.bypassNext x).next x = bs.head? := by
    rw [bypassNext_next_self, hnext]
    rw [hprev]
    exact fun hlast => hxas (mem_of_getLast? hlast)
  have hfirst : (l.bypassNext x).Seg none as bs.head? := by
    unfold bypassNext
    rw [hprev]
    rcases eq_nil_or_concat as with rfl | ⟨as', p, rfl⟩
    · trivial
    rw [concat_eq_append] at *
    rw [seg_append] at has ⊢
    have hp : p ∉ as' := fun hp => by
      rw [nodup_append] at hasnd
      exact hasnd.2.2 p hp p (by simp) rfl
    simp only [getLast?_append, getLast?_singleton, Option.some_or]
    refine ⟨seg_congr (fun y hy => ?_) has.1, has.2.1, ?_, trivial⟩
    · have hyp : y ≠ p := fun hyp => hp (hyp ▸ hy)
      simp [update_of_ne hyp]
    · simp [hnext]
  have hrest : (l.bypassNext x).Seg (some x) bs none := by
    refine seg_congr (fun y hy => ⟨?_, by rw [bypassNext_prev]⟩) hbs
    unfold bypassNext
    cases hl : l.prev x with
    | none => rfl
    | some p =>
      have hpas : p ∈ as := mem_of_getLast? (hprev.symm.trans hl)
      have hyp : y ≠ p := fun hyp => hdisj p hpas y (mem_cons_of_mem _ hy) hyp.symm
      simp [update_of_ne hyp]
  have hprev' : (l.bypassNext x).prev x = as.getLast? := by rw [bypassNext_prev, hprev]
  -- the second one redirects the first address after `x`
  unfold unlink bypassPrev
  rw [hself, hprev']
  cases bs with
  | nil =>
    refine ⟨?_, hself⟩
    simpa using hfirst
  | cons n bs =>
    refine ⟨?_, hself⟩
    rw [seg_append]
    have hn : n ∉ bs := (nodup_cons.1 (nodup_cons.1 hbsnd).2).1
    have hnas : n ∉ as := fun hn => hdisj n hn n (by simp) rfl
    refine ⟨seg_congr (fun y hy => ?_) (by simpa using hfirst), ?_, ?_, ?_⟩
    · have hyn : y ≠ n := fun hyn => hnas (hyn ▸ hy)
      simp [update_of_ne hyn]
    · simp
    · exact hrest.2.1
    · refine seg_congr (fun y hy => ?_) hrest.2.2
      have hyn : y ≠ n := fun hyn => hn (hyn ▸ hy)
      simp [update_of_ne hyn]

/-! ## The operations on the represented sequence -/

omit [DecidableEq α] in
lemma empty_repr : (empty : Links α).Repr [] := ⟨rfl, trivial, nodup_nil⟩

lemma alloc_repr (h : l.Repr xs) (hx : x ∉ xs) :
    (l.alloc x).Repr xs := by
  refine ⟨h.head, seg_congr (fun y hy => ?_) h.seg, h.nodup⟩
  have hyx : y ≠ x := fun hyx => hx (hyx ▸ hy)
  simp [alloc, update_of_ne hyx]

theorem push_repr (hhead : l.head = xs.head?) (hseg : l.Seg none xs none) (hnd : xs.Nodup)
    (hx : x ∉ xs) : (l.push x).Repr (x :: xs) := by
  refine ⟨rfl, ?_, nodup_cons.2 ⟨hx, hnd⟩⟩
  refine ⟨by simp [push], by simp [push, hhead], ?_⟩
  cases xs with
  | nil => trivial
  | cons h xs =>
    have hhead' : l.head = some h := hhead
    have hne : h ≠ x := fun hh => hx (hh ▸ mem_cons_self)
    refine ⟨?_, ?_, ?_⟩
    · simp [push, hhead', update_of_ne hne]
    · simpa [push, update_of_ne hne] using hseg.2.1
    refine seg_congr (fun y hy => ?_) hseg.2.2
    have hyx : y ≠ x := fun hyx => hx (hyx ▸ mem_cons_of_mem _ hy)
    have hyh : y ≠ h := fun hyh => (nodup_cons.1 hnd).1 (hyh ▸ hy)
    simp [push, hhead', update_of_ne hyx, update_of_ne hyh]

lemma Repr.split (h : l.Repr xs) (hx : x ∈ xs) :
    ∃ as bs, xs = as ++ x :: bs ∧ xs.erase x = as ++ bs ∧ (as = [] ↔ l.head = some x) := by
  obtain ⟨as, bs, hxas, rfl, herase⟩ := exists_erase_eq hx
  refine ⟨as, bs, rfl, herase, ?_⟩
  constructor
  · rintro rfl
    exact h.head
  intro hhead
  cases as with
  | nil => rfl
  | cons a as =>
    have ha : some a = some x := h.head.symm.trans hhead
    exact absurd (Option.some.inj ha ▸ mem_cons_self) hxas

theorem moveToHead_repr (h : l.Repr xs) (hx : x ∈ xs) :
    (l.moveToHead x).Repr (x :: xs.erase x) := by
  obtain ⟨as, bs, hxs, herase, hhead⟩ := h.split hx
  unfold moveToHead
  rw [herase]
  split_ifs with hh
  · -- already at the head
    obtain rfl := hhead.2 hh
    rw [hxs] at h
    exact h
  have hne : as ≠ [] := fun has => hh (hhead.1 has)
  have hseg := unlink_seg (hxs ▸ h.seg) (hxs ▸ h.nodup)
  have hnd : (as ++ x :: bs).Nodup := hxs ▸ h.nodup
  have hnd' : (x :: (as ++ bs)).Nodup := perm_middle.nodup_iff.1 hnd
  refine push_repr ?_ hseg.1 (nodup_cons.1 hnd').2 (nodup_cons.1 hnd').1
  rw [unlink_head, h.head, hxs]
  cases as with
  | nil => exact absurd rfl hne
  | cons a as => rfl

/-- An address without neighbours is put at the head. -/
lemma moveToHead_repr_of_not_mem (h : l.Repr xs) (hx : x ∉ xs) (hnext : l.next x = none)
    (hprev : l.prev x = none) :
    (l.moveToHead x).Repr (x :: xs) := by
  have hhead : l.head ≠ some x := by
    intro hh
    rw [h.head] at hh
    exact hx (mem_of_mem_head? hh)
  have hun : l.unlink x = l := by
    have hfirst : l.bypassNext x = l := by simp [bypassNext, hprev]
    simp [unlink, hfirst, bypassPrev, hnext]
  unfold moveToHead
  rw [if_neg hhead, hun]
  exact push_repr h.head h.seg h.nodup hx

theorem remove_repr (h : l.Repr xs) (hx : x ∈ xs) :
    (l.remove x).Repr (xs.erase x) := by
  obtain ⟨as, bs, hxs, herase, hhead⟩ := h.split hx
  have hseg := unlink_seg (hxs ▸ h.seg) (hxs ▸ h.nodup)
  have hnd : (as ++ bs).Nodup := herase ▸ h.nodup.erase x
  unfold remove
  simp only [unlink_head]
  rw [herase]
  split_ifs with hh
  · -- the removed address was the head
    obtain rfl := hhead.2 hh
    exact ⟨hseg.2, seg_congr (l := l.unlink x) (fun _ _ => ⟨rfl, rfl⟩) hseg.1, hnd⟩
  have hne : as ≠ [] := fun has => hh (hhead.1 has)
  refine ⟨?_, hseg.1, hnd⟩
  rw [unlink_head, h.head, hxs]
  cases as with
  | nil => exact absurd rfl hne
  | cons a as => rfl

/-! ## Loops along the list -/

omit [DecidableEq α] in
lemma forEach_seg (cont : α → Bool) (body : S → α → S) {p : Option α} (h : l.Seg p xs none)
    {fuel : Nat} (hfuel : xs.length ≤ fuel) (s : S) :
    l.forEach cont body fuel xs.head? s = (xs.takeWhile cont).foldl body s := by
  induction xs generalizing p fuel s with
  | nil => cases fuel <;> rfl
  | cons x xs ih =>
    cases fuel with
    | zero => simp at hfuel
    | succ fuel =>
      have hlen : xs.length ≤ fuel := by simpa using hfuel
      simp only [head?_cons, forEach]
      split_ifs with hc
      · rw [takeWhile_cons_of_pos hc, foldl_cons, h.2.1, Option.or_none]
        exact ih h.2.2 hlen (body s x)
      · rw [takeWhile_cons_of_neg hc]
        rfl

omit [DecidableEq α] in
/-- With enough fuel the loop visits the represented sequence up to its exit. -/
theorem forEach_repr (h : l.Repr xs) (cont : α → Bool) (body : S → α → S) {fuel : Nat}
    (hfuel : xs.length ≤ fuel) (s : S) :
    l.forEach cont body fuel l.head s = (xs.takeWhile cont).foldl body s := by
  rw [h.head]
  exact forEach_seg cont body h.seg hfuel s

end Links

end Kubernetes
