import Kubernetes.Core

/-! # The work queue of client-go

A model of `util/workqueue/queue.go`: the struct `Type` (here `WorkQueue`) with
its three containers, and around it the goroutines that use it:

* producers call `Add` at any time;
* a worker alternates `Get` and `Done` of the item it just got. `Get` blocks in
  `cond.Wait` while the queue is empty and not shutting down;
* `ShutDown` may come at any time.

Every call runs under the queue's mutex, so one call is one step; only `Get` is
cut at `cond.Wait`, which releases the mutex. A label carries what the Go
runtime chooses, namely the goroutine that a `Signal` wakes.

The results are `workqueue_safe`: exclusion, the relation between the three containers, and what
`dirty` means in terms of the calls made so far; and `no_lost_wakeup`.
-/

namespace Kubernetes.ClientGo

open List Finset Or Function

/-- `workqueue.Type`, without its metrics and its clock. -/
structure WorkQueue (α : Type) where
  queue : List α
  dirty : Finset α
  processing : Finset α
  shuttingDown : Bool
deriving DecidableEq

/-- What one pass through the loop of `Get` ends in: it waits, it reports the
shutdown, or it returns an item. -/
inductive GetResult (α : Type) where
  | block
  | shutdown
  | item (x : α)
deriving DecidableEq

namespace WorkQueue

variable {α : Type} [DecidableEq α]

/-- `newQueue`. -/
def new : WorkQueue α := ⟨[], ∅, ∅, false⟩

variable (q : WorkQueue α)

/-- `Add`. The Boolean says whether `cond.Signal` is called. -/
def add (item : α) : WorkQueue α × Bool :=
  if q.shuttingDown then (q, false)
  else if item ∈ q.dirty then (q, false)
  else
    let q := { q with dirty := insert item q.dirty }
    if item ∈ q.processing then (q, false)
    else ({ q with queue := q.queue ++ [item] }, true)

/-- `Get`, from the point where the goroutine holds the mutex. -/
def get : GetResult α × WorkQueue α :=
  match q.queue with
  | [] => if q.shuttingDown then (.shutdown, q) else (.block, q)
  | item :: rest =>
    (.item item,
      { q with
        queue := rest
        processing := insert item q.processing
        dirty := q.dirty.erase item })

/-- `Done`. The Boolean says whether `cond.Signal` is called. -/
def done (item : α) : WorkQueue α × Bool :=
  let q := { q with processing := q.processing.erase item }
  if item ∈ q.dirty then ({ q with queue := q.queue ++ [item] }, true) else (q, false)

def shutDown : WorkQueue α := { q with shuttingDown := true }

/-! ## What each call can do -/

variable (x : α)

lemma add_cases :
    ((q.shuttingDown = true ∨ x ∈ q.dirty) ∧ q.add x = (q, false)) ∨
    (q.shuttingDown = false ∧ x ∉ q.dirty ∧ x ∈ q.processing ∧
      q.add x = ({ q with dirty := insert x q.dirty }, false)) ∨
    (q.shuttingDown = false ∧ x ∉ q.dirty ∧ x ∉ q.processing ∧
      q.add x = ({ q with dirty := insert x q.dirty, queue := q.queue ++ [x] }, true)) := by
  unfold add
  by_cases hs : q.shuttingDown = true
  · exact inl ⟨inl hs, by simp [hs]⟩
  by_cases hd : x ∈ q.dirty
  · exact inl ⟨inr hd, by simp [hd]⟩
  have hs' : q.shuttingDown = false := by simpa using hs
  by_cases hp : x ∈ q.processing
  · exact inr (inl ⟨hs', hd, hp, by simp [hs', hd, hp]⟩)
  · exact inr (inr ⟨hs', hd, hp, by simp [hs', hd, hp]⟩)

lemma get_cases :
    (q.queue = [] ∧ q.shuttingDown = true ∧ q.get = (.shutdown, q)) ∨
    (q.queue = [] ∧ q.shuttingDown = false ∧ q.get = (.block, q)) ∨
    (∃ x rest, q.queue = x :: rest ∧ q.get = (.item x,
      { q with
        queue := rest, processing := insert x q.processing, dirty := q.dirty.erase x })) := by
  unfold get
  cases hq : q.queue with
  | nil =>
    cases hs : q.shuttingDown with
    | true => exact inl ⟨rfl, rfl, by simp⟩
    | false => exact inr (inl ⟨rfl, rfl, by simp⟩)
  | cons x rest => exact inr (inr ⟨x, rest, rfl, by simp⟩)

lemma done_cases :
    (x ∈ q.dirty ∧ q.done x =
      ({ q with processing := q.processing.erase x, queue := q.queue ++ [x] }, true)) ∨
    (x ∉ q.dirty ∧ q.done x = ({ q with processing := q.processing.erase x }, false)) := by
  unfold done
  by_cases hd : x ∈ q.dirty
  · exact inl ⟨hd, by simp [hd]⟩
  · exact inr ⟨hd, by simp [hd]⟩

@[simp] lemma add_processing : (q.add x).1.processing = q.processing := by
  rcases q.add_cases x with ⟨-, he⟩ | ⟨-, -, -, he⟩ | ⟨-, -, -, he⟩ <;> rw [he]

@[simp] lemma add_shuttingDown : (q.add x).1.shuttingDown = q.shuttingDown := by
  rcases q.add_cases x with ⟨-, he⟩ | ⟨-, -, -, he⟩ | ⟨-, -, -, he⟩ <;> rw [he]

@[simp] lemma done_processing : (q.done x).1.processing = q.processing.erase x := by
  rcases q.done_cases x with ⟨-, he⟩ | ⟨-, he⟩ <;> rw [he]

@[simp] lemma done_shuttingDown : (q.done x).1.shuttingDown = q.shuttingDown := by
  rcases q.done_cases x with ⟨-, he⟩ | ⟨-, he⟩ <;> rw [he]

@[simp] lemma done_dirty : (q.done x).1.dirty = q.dirty := by
  rcases q.done_cases x with ⟨-, he⟩ | ⟨-, he⟩ <;> rw [he]

@[simp] lemma get_shuttingDown : q.get.2.shuttingDown = q.shuttingDown := by
  rcases q.get_cases with ⟨-, -, he⟩ | ⟨-, -, he⟩ | ⟨x, rest, -, he⟩ <;> rw [he]

/-- `Add` makes exactly its item dirty, unless the queue is shutting down. -/
lemma mem_dirty_add (x y : α) :
    y ∈ (q.add x).1.dirty ↔ y ∈ q.dirty ∨ (y = x ∧ q.shuttingDown = false) := by
  rcases q.add_cases x with ⟨hsd | hd, he⟩ | ⟨hs, -, -, he⟩ | ⟨hs, -, -, he⟩
  · simp [he, hsd]
  · rw [he]
    constructor
    · exact inl
    · rintro (hy | ⟨rfl, -⟩)
      · exact hy
      · exact hd
  · simp [he, hs, or_comm]
  · simp [he, hs, or_comm]

/-- `Get` makes exactly the item it returns clean. -/
lemma mem_dirty_get (y : α) :
    y ∈ q.get.2.dirty ↔ y ∈ q.dirty ∧ q.get.1 ≠ .item y := by
  rcases q.get_cases with ⟨-, -, he⟩ | ⟨-, -, he⟩ | ⟨x, rest, -, he⟩
  · simp [he]
  · simp [he]
  · rw [he, mem_erase, and_comm]
    simp [eq_comm]

/-! ## The relation between the three containers -/

/-- What the comments on the fields of `Type` promise. -/
structure Ok (q : WorkQueue α) : Prop where
  nodup : q.queue.Nodup
  queued : ∀ x ∈ q.queue, x ∈ q.dirty ∧ x ∉ q.processing
  pending : ∀ x ∈ q.dirty, x ∈ q.queue ∨ x ∈ q.processing

omit [DecidableEq α] in
lemma ok_new : (new : WorkQueue α).Ok := by
  constructor <;> simp [new]

variable {q}

lemma ok_add (h : q.Ok) (x : α) : (q.add x).1.Ok := by
  rcases q.add_cases x with ⟨-, he⟩ | ⟨-, hd, hp, he⟩ | ⟨-, hd, hp, he⟩
  · rw [he]
    exact h
  · -- marked dirty while it is being processed: the queue does not change
    rw [he]
    refine ⟨h.nodup, ?_, ?_⟩
    · intro y hy
      exact ⟨Finset.mem_insert_of_mem (h.queued y hy).1, (h.queued y hy).2⟩
    intro y hy
    rcases mem_insert.1 hy with rfl | hy
    · exact inr hp
    · exact h.pending y hy
  · rw [he]
    refine ⟨?_, ?_, ?_⟩
    · have hxq : x ∉ q.queue := fun hx => hd (h.queued x hx).1
      simpa using h.nodup.concat hxq
    · intro y hy
      rcases mem_append.1 hy with hy | hy
      · exact ⟨Finset.mem_insert_of_mem (h.queued y hy).1, (h.queued y hy).2⟩
      · rw [List.mem_singleton] at hy
        subst hy
        exact ⟨Finset.mem_insert_self _ _, hp⟩
    · intro y hy
      rcases mem_insert.1 hy with rfl | hy
      · exact inl (by simp)
      · rcases h.pending y hy with hq | hpr
        · exact inl (mem_append_left _ hq)
        · exact inr hpr

lemma ok_get (h : q.Ok) : q.get.2.Ok := by
  rcases q.get_cases with ⟨-, -, he⟩ | ⟨-, -, he⟩ | ⟨x, rest, hq, he⟩
  · rw [he]
    exact h
  · rw [he]
    exact h
  rw [he]
  have hnd : (x :: rest).Nodup := hq ▸ h.nodup
  rw [nodup_cons] at hnd
  refine ⟨hnd.2, ?_, ?_⟩
  · intro y hy
    have hyx : y ≠ x := fun hyx => hnd.1 (hyx ▸ hy)
    have hyq := h.queued y (by rw [hq]; exact List.mem_cons_of_mem _ hy)
    refine ⟨mem_erase.2 ⟨hyx, hyq.1⟩, ?_⟩
    rw [mem_insert]
    rintro (hy' | hy')
    · exact hyx hy'
    · exact hyq.2 hy'
  · intro y hy
    rw [mem_erase] at hy
    rcases h.pending y hy.2 with hyq | hyp
    · rw [hq, List.mem_cons] at hyq
      exact inl (hyq.resolve_left hy.1)
    · exact inr (Finset.mem_insert_of_mem hyp)

/-- `Done` is only called on an item that is being processed. -/
lemma ok_done (h : q.Ok) {x : α} (hx : x ∈ q.processing) :
    (q.done x).1.Ok := by
  have hxq : x ∉ q.queue := fun hq => (h.queued x hq).2 hx
  rcases q.done_cases x with ⟨hd, he⟩ | ⟨hd, he⟩
  · -- dirty again: the item goes back to the queue
    rw [he]
    refine ⟨by simpa using h.nodup.concat hxq, ?_, ?_⟩
    · intro y hy
      rcases mem_append.1 hy with hy | hy
      · have hyq := h.queued y hy
        exact ⟨hyq.1, fun hye => hyq.2 (Finset.mem_of_mem_erase hye)⟩
      · rw [List.mem_singleton] at hy
        subst hy
        exact ⟨hd, notMem_erase _ _⟩
    · intro y hy
      by_cases hyx : y = x
      · subst hyx
        exact inl (by simp)
      · rcases h.pending y hy with hq | hp
        · exact inl (mem_append_left _ hq)
        · exact inr (mem_erase.2 ⟨hyx, hp⟩)
  · rw [he]
    refine ⟨h.nodup, ?_, ?_⟩
    · intro y hy
      have hyq := h.queued y hy
      exact ⟨hyq.1, fun hye => hyq.2 (Finset.mem_of_mem_erase hye)⟩
    · intro y hy
      have hyx : y ≠ x := fun hyx => hd (hyx ▸ hy)
      rcases h.pending y hy with hq | hp
      · exact inl hq
      · exact inr (mem_erase.2 ⟨hyx, hp⟩)

end WorkQueue

/-! ## The goroutines around the queue -/

/-- `sync.Cond` over the goroutines `ω`: those asleep in `Wait`, and those that
have been woken and not yet run again. -/
structure Cond (ω : Type) where
  waiting : List ω
  woken : List ω
deriving DecidableEq

namespace Cond

variable {ω : Type} [DecidableEq ω] (c : Cond ω)

/-- `Signal` wakes one goroutine waiting on the condition, if there is any. -/
def signal : Option ω → Option (Cond ω)
  | none => if c.waiting = [] then some c else none
  | some w => if w ∈ c.waiting then some ⟨c.waiting.erase w, w :: c.woken⟩ else none

/-- `Broadcast` wakes all goroutines waiting on the condition. -/
def broadcast : Cond ω := ⟨[], c.waiting ++ c.woken⟩

/-- `wake` is what a call of `Signal` did; without such a call it did nothing. -/
def notify (signalled : Bool) (wake : Option ω) : Option (Cond ω) :=
  if signalled then c.signal wake else if wake = none then some c else none

end Cond

/-- Where a worker goroutine is: between calls, inside `Get` (asleep or woken),
processing the item it got, or ended after `Get` reported the shutdown. -/
inductive Worker (α : Type) where
  | idle
  | inGet
  | holding (item : α)
  | exited
deriving DecidableEq

/-- The queue with the goroutines that use it. -/
structure Pool (α ω : Type) where
  q : WorkQueue α
  cond : Cond ω
  worker : ω → Worker α

/-- One atomic step: a call, with the goroutine that its `Signal` wakes. A pass
of worker `w` through the loop of `Get` is labelled with its result. -/
inductive Call (α ω : Type) where
  | add (item : α) (wake : Option ω)
  | get (w : ω) (r : GetResult α)
  | done (w : ω) (wake : Option ω)
  | shutDown
deriving DecidableEq

namespace Pool

variable {α ω : Type} [DecidableEq α] [DecidableEq ω]

/-- Where `w` is after a pass through the loop of `Get`. -/
def afterGet : GetResult α → Worker α
  | .block => .inGet
  | .shutdown => .exited
  | .item x => .holding x

/-- The condition variable after a pass of `w` through the loop of `Get`. -/
def condAfterGet (c : Cond ω) (w : ω) : GetResult α → Cond ω
  | .block => ⟨w :: c.waiting, c.woken.erase w⟩
  | _ => ⟨c.waiting, c.woken.erase w⟩

/-- Whether `w` can run the loop of `Get`: it calls `Get`, or it was woken. -/
def CanGet (s : Pool α ω) (w : ω) : Prop :=
  s.worker w = .idle ∨ (s.worker w = .inGet ∧ w ∈ s.cond.woken)

instance (s : Pool α ω) (w : ω) : Decidable (s.CanGet w) :=
  inferInstanceAs (Decidable (_ ∨ _))

def step (s : Pool α ω) : Call α ω → Option (Pool α ω)
  | .add item wake =>
    (s.cond.notify (s.q.add item).2 wake).map fun c =>
      { s with q := (s.q.add item).1, cond := c }
  | .get w r =>
    if s.CanGet w ∧ s.q.get.1 = r then
      some
        { q := s.q.get.2
          cond := condAfterGet s.cond w r
          worker := Function.update s.worker w (afterGet r) }
    else none
  | .done w wake =>
    match s.worker w with
    | .holding item =>
      (s.cond.notify (s.q.done item).2 wake).map fun c =>
        { q := (s.q.done item).1
          cond := c
          worker := Function.update s.worker w .idle }
    | _ => none
  | .shutDown => some { s with q := s.q.shutDown, cond := s.cond.broadcast }

/-- The machine: an empty queue, and any number of idle workers. -/
def machine (α ω : Type) [DecidableEq α] [DecidableEq ω] : Machine (Pool α ω) (Call α ω) where
  init := ⟨WorkQueue.new, ⟨[], []⟩, fun _ => .idle⟩
  step := step

/-! ## What each step can do -/

variable {s s' : Pool α ω} {wake : Option ω}

lemma step_add {x : α} (h : s.step (.add x wake) = some s') :
    s.cond.notify (s.q.add x).2 wake = some s'.cond ∧ s'.q = (s.q.add x).1 ∧
      s'.worker = s.worker := by
  simp only [step, Option.map_eq_some_iff] at h
  obtain ⟨c, hc, rfl⟩ := h
  exact ⟨hc, rfl, rfl⟩

variable {w : ω}

lemma step_get {r : GetResult α} (h : s.step (.get w r) = some s') :
    s.CanGet w ∧ s.q.get.1 = r ∧ s' = ⟨s.q.get.2, condAfterGet s.cond w r,
      update s.worker w (afterGet r)⟩ := by
  simp only [step] at h
  split_ifs at h with hg
  exact ⟨hg.1, hg.2, (Option.some.inj h).symm⟩

lemma step_done (h : s.step (.done w wake) = some s') :
    ∃ x, s.worker w = .holding x ∧ s.cond.notify (s.q.done x).2 wake = some s'.cond ∧
      s'.q = (s.q.done x).1 ∧ s'.worker = update s.worker w .idle := by
  simp only [step] at h
  split at h
  · rename_i x hx
    rw [Option.map_eq_some_iff] at h
    obtain ⟨c, hc, rfl⟩ := h
    exact ⟨x, hx, hc, rfl, rfl⟩
  · cases h

/-! ## Exclusion -/

/-- The containers are related as they should be, the processed items are the
ones that workers hold, and no item is held twice. -/
structure Inv (s : Pool α ω) : Prop where
  ok : s.q.Ok
  held : ∀ x, x ∈ s.q.processing ↔ ∃ w, s.worker w = .holding x
  unique : ∀ w w' x, s.worker w = .holding x → s.worker w' = .holding x → w = w'

open WorkQueue

lemma init_inv : (machine α ω).init.Inv := by
  refine ⟨ok_new, ?_, ?_⟩ <;> simp [machine, new]

omit [DecidableEq α] in
/-- A pass through `Get` that returns no item leaves every holder in place. -/
lemma inv_get_none (hs : s.Inv) (hw : s.CanGet w) {r : GetResult α} (hr : ∀ x, r ≠ .item x)
    (q : WorkQueue α) (hq : q.Ok) (hp : q.processing = s.q.processing) (c : Cond ω) :
    Inv ⟨q, c, update s.worker w (afterGet r)⟩ := by
  have hne : ∀ x, afterGet r ≠ .holding x := by
    intro x hx
    cases r with
    | block => cases hx
    | shutdown => cases hx
    | item y => exact hr y rfl
  have hold : ∀ x, s.worker w ≠ .holding x := by
    intro x hx
    rcases hw with hw | hw
    · rw [hw] at hx; cases hx
    · rw [hw.1] at hx; cases hx
  -- the set of pairs (worker, item held) does not change
  have hiff : ∀ v x, update s.worker w (afterGet r) v = .holding x ↔
      s.worker v = .holding x := by
    intro v x
    by_cases hv : v = w
    · subst hv
      simp [hne x, hold x]
    · simp [hv]
  refine ⟨hq, ?_, ?_⟩
  · intro x
    simp only [hp, hiff]
    exact hs.held x
  · intro v v' x hv hv'
    exact hs.unique v v' x ((hiff v x).1 hv) ((hiff v' x).1 hv')

lemma step_inv (s : Pool α ω) (e : Call α ω) (s' : Pool α ω) (hs : s.Inv)
    (hstep : s.step e = some s') : s'.Inv := by
  cases e with
  | add x wake =>
    obtain ⟨-, hq, hw⟩ := step_add hstep
    refine ⟨hq ▸ ok_add hs.ok x, ?_, ?_⟩
    · rw [hq, hw, add_processing]
      exact hs.held
    · rw [hw]
      exact hs.unique
  | get w r =>
    obtain ⟨hw, hr, rfl⟩ := step_get hstep
    have hok := ok_get hs.ok
    rcases s.q.get_cases with ⟨-, -, he⟩ | ⟨-, -, he⟩ | ⟨x, rest, hq, he⟩
    · rw [he] at hr hok ⊢
      subst hr
      exact inv_get_none hs hw (by simp) _ hok rfl _
    · rw [he] at hr hok ⊢
      subst hr
      exact inv_get_none hs hw (by simp) _ hok rfl _
    -- `w` takes the head of the queue, which nobody held
    rw [he] at hr hok ⊢
    subst hr
    have hxp : x ∉ s.q.processing := (hs.ok.queued x (by simp [hq])).2
    have hfree : ∀ v, s.worker v ≠ .holding x := by
      intro v hv
      exact hxp ((hs.held x).2 ⟨v, hv⟩)
    refine ⟨hok, ?_, ?_⟩
    · intro y
      simp only [mem_insert, hs.held y]
      constructor
      · rintro (rfl | ⟨v, hv⟩)
        · exact ⟨w, by simp [afterGet]⟩
        refine ⟨v, ?_⟩
        have hvw : v ≠ w := by
          rintro rfl
          rcases hw with hw | hw
          · rw [hw] at hv; cases hv
          · rw [hw.1] at hv; cases hv
        simpa [hvw] using hv
      · rintro ⟨v, hv⟩
        by_cases hvw : v = w
        · subst hvw
          simp only [afterGet, update_self, Worker.holding.injEq] at hv
          exact inl hv.symm
        · exact inr ⟨v, by simpa [hvw] using hv⟩
    · intro v v' y hv hv'
      by_cases hvw : v = w <;> by_cases hvw' : v' = w
      · rw [hvw, hvw']
      · subst hvw
        simp only [afterGet, update_self, Worker.holding.injEq] at hv
        subst hv
        exact absurd (by simpa [hvw'] using hv') (hfree v')
      · subst hvw'
        simp only [afterGet, update_self, Worker.holding.injEq] at hv'
        subst hv'
        exact absurd (by simpa [hvw] using hv) (hfree v)
      · exact hs.unique v v' y (by simpa [hvw] using hv) (by simpa [hvw'] using hv')
  | done w wake =>
    obtain ⟨x, hx, -, hq, hw⟩ := step_done hstep
    -- `w` was the only one that held `x`, so nobody does now
    refine ⟨hq ▸ ok_done hs.ok ((hs.held x).2 ⟨w, hx⟩), ?_, ?_⟩
    · intro y
      rw [hq, hw, done_processing, mem_erase, hs.held y]
      constructor
      · rintro ⟨hyx, v, hv⟩
        have hvw : v ≠ w := by
          rintro rfl
          rw [hx] at hv
          exact hyx (Worker.holding.inj hv).symm
        exact ⟨v, by simpa [hvw] using hv⟩
      · rintro ⟨v, hv⟩
        by_cases hvw : v = w
        · subst hvw
          simp at hv
        simp only [ne_eq, hvw, not_false_eq_true, update_of_ne] at hv
        refine ⟨?_, v, hv⟩
        rintro rfl
        exact hvw (hs.unique v w y hv hx)
    · intro v v' y hv hv'
      rw [hw] at hv hv'
      have hvw : v ≠ w := by rintro rfl; simp at hv
      have hvw' : v' ≠ w := by rintro rfl; simp at hv'
      exact hs.unique v v' y (by simpa [hvw] using hv) (by simpa [hvw'] using hv')
  | shutDown =>
    cases hstep
    exact ⟨⟨hs.ok.nodup, hs.ok.queued, hs.ok.pending⟩, hs.held, hs.unique⟩

variable {tr : List (Call α ω)}

lemma reach_inv (h : (machine α ω).Reach tr s) :
    s.Inv :=
  h.invariant Inv init_inv step_inv

/-! ## What `dirty` means -/

/-- Some `Add` of `x`, accepted before `ShutDown`, happened after the most
recent `Get` of `x`. -/
def PendingAdd (tr : List (Call α ω)) (x : α) : Prop :=
  ∃ pre wake post, tr = pre ++ .add x wake :: post ∧ .shutDown ∉ pre ∧
    ∀ w, .get w (.item x) ∉ post

omit [DecidableEq α] [DecidableEq ω] in
lemma pendingAdd_snoc (tr : List (Call α ω)) (e : Call α ω) (x : α) :
    PendingAdd (tr ++ [e]) x ↔
      (PendingAdd tr x ∧ ∀ w, e ≠ .get w (.item x)) ∨
      (∃ wake, e = .add x wake ∧ .shutDown ∉ tr) := by
  constructor
  · rintro ⟨pre, wake, post, htr, hsd, hget⟩
    -- the marked `Add` is either the last label or an earlier one
    cases post using reverseRecOn with
    | nil =>
      obtain ⟨rfl, he⟩ := append_inj' htr rfl
      exact inr ⟨wake, by simpa using he, hsd⟩
    | append_singleton post' f =>
      have htr' : tr ++ [e] = (pre ++ .add x wake :: post') ++ [f] := by simpa using htr
      obtain ⟨rfl, he⟩ := append_inj' htr' rfl
      have hef : e = f := by simpa using he
      subst hef
      refine inl ⟨⟨pre, wake, post', rfl, hsd, ?_⟩, ?_⟩
      · intro w hw
        exact hget w (mem_append_left _ hw)
      · intro w hw
        exact hget w (by simp [hw])
  · rintro (⟨⟨pre, wake, post, rfl, hsd, hget⟩, hne⟩ | ⟨wake, rfl, hsd⟩)
    · refine ⟨pre, wake, post ++ [e], by simp, hsd, ?_⟩
      intro w hw
      rcases mem_append.1 hw with hw | hw
      · exact hget w hw
      · exact hne w (List.mem_singleton.1 hw).symm
    · exact ⟨tr, wake, [], rfl, hsd, by simp⟩

lemma shuttingDown_iff (h : (machine α ω).Reach tr s) :
    s.q.shuttingDown = true ↔ .shutDown ∈ tr := by
  refine h.history (fun tr s => s.q.shuttingDown = true ↔ .shutDown ∈ tr) (by
    simp [machine, new]) ?_
  intro tr s e s' ih hstep
  cases e with
  | add x wake =>
    obtain ⟨-, hq, -⟩ := step_add hstep
    simp [hq, ih]
  | get w r =>
    obtain ⟨-, -, rfl⟩ := step_get hstep
    simp [ih]
  | done w wake =>
    obtain ⟨x, -, -, hq, -⟩ := step_done hstep
    simp [hq, ih]
  | shutDown =>
    cases hstep
    simp [shutDown]

lemma mem_dirty_iff (h : (machine α ω).Reach tr s) (x : α) : x ∈ s.q.dirty ↔ PendingAdd tr x := by
  induction h with
  | init => simp [machine, new, PendingAdd]
  | @step tr s s' e hr hstep ih =>
    have hsd := shuttingDown_iff hr
    rw [pendingAdd_snoc]
    cases e with
    | add y wake =>
      obtain ⟨-, hq, -⟩ := step_add hstep
      rw [hq, mem_dirty_add, ih, ← hsd]
      have hyx : (∃ wake', Call.add y wake = .add x wake' ∧ ¬ s.q.shuttingDown = true) ↔
          x = y ∧ s.q.shuttingDown = false := by
        simp [eq_comm (a := x)]
      rw [hyx]
      simp
    | get w r =>
      obtain ⟨-, hr', rfl⟩ := step_get hstep
      rw [mem_dirty_get, ih, hr']
      simp
    | done w wake =>
      obtain ⟨y, -, -, hq, -⟩ := step_done hstep
      simp [hq, ih]
    | shutDown =>
      cases hstep
      simpa [shutDown] using ih

/-! ## No lost item, no lost wake-up -/

/-- If the item that `w` holds is dirty, `Done` puts it back into the queue. -/
lemma done_requeues {x : α} (hx : s.worker w = .holding x) (hd : x ∈ s.q.dirty)
    (hstep : s.step (.done w wake) = some s') : x ∈ s'.q.queue := by
  obtain ⟨y, hy, -, hq, -⟩ := step_done hstep
  rw [hx] at hy
  cases hy
  rcases s.q.done_cases x with ⟨-, he⟩ | ⟨hnd, -⟩
  · rw [hq, he]
    simp
  · exact absurd hd hnd

/-- Safety of the work queue. In every state reached by any interleaving of
`Add`, `Get`, `Done` and `ShutDown`: no item is processed by two workers; the
queue has no duplicates, what it holds is dirty and not being processed, and
what is dirty is queued or being processed; an item is dirty exactly when an
accepted `Add` of it came after its last `Get`. So an accepted `Add` is never
lost: the item is in the queue, which `Get` serves even during the shutdown, or
a worker holds it and its `Done` will queue it. -/
theorem workqueue_safe {tr : List (Call α ω)} {s : Pool α ω} (h : (machine α ω).Reach tr s) :
    (∀ w w' x, s.worker w = .holding x → s.worker w' = .holding x → w = w') ∧
    s.q.queue.Nodup ∧
    (∀ x ∈ s.q.queue, x ∈ s.q.dirty ∧ x ∉ s.q.processing) ∧
    (∀ x ∈ s.q.dirty, x ∈ s.q.queue ∨ x ∈ s.q.processing) ∧
    (∀ x, x ∈ s.q.processing ↔ ∃ w, s.worker w = .holding x) ∧
    (∀ x, x ∈ s.q.dirty ↔ PendingAdd tr x) ∧
    (∀ x, PendingAdd tr x → x ∈ s.q.queue ∨
      ∃ w, s.worker w = .holding x ∧
        ∀ wake s', s.step (.done w wake) = some s' → x ∈ s'.q.queue) ∧
    (∀ w x rest, s.CanGet w → s.q.queue = x :: rest →
      (s.step (.get w (.item x))).isSome = true) := by
  have hinv := reach_inv h
  refine ⟨hinv.unique, hinv.ok.nodup, hinv.ok.queued, hinv.ok.pending, hinv.held,
    mem_dirty_iff h, ?_, ?_⟩
  · intro x hx
    have hd : x ∈ s.q.dirty := (mem_dirty_iff h x).2 hx
    rcases hinv.ok.pending x hd with hq | hp
    · exact Or.inl hq
    · obtain ⟨w, hw⟩ := (hinv.held x).1 hp
      exact Or.inr ⟨w, hw, fun wake s' hstep => done_requeues hw hd hstep⟩
  · intro w x rest hw hq
    simp [step, hw, WorkQueue.get, hq]

/-- Two workers: item 7 is added again while worker 0 processes it, then the
queue shuts down; the second `Add` is still pending after `Done`. -/
def demoTrace : List (Call ℕ ℕ) :=
  [.get 1 .block, .add 7 (some 1), .get 0 (.item 7), .get 1 .block, .add 7 none, .shutDown,
   .done 0 none]

theorem workqueue_safe_demo :
    ∃ s, (machine ℕ ℕ).Reach demoTrace s ∧ s.q.queue = [7] ∧ PendingAdd demoTrace 7 := by
  obtain ⟨s, hs, hq⟩ : ∃ s, (machine ℕ ℕ).Reach demoTrace s ∧ s.q.queue = [7] := by
    refine ⟨_, (Machine.reach_iff_runFrom _).2 rfl, ?_⟩
    decide
  obtain ⟨-, -, hqueued, -, -, hdirty, -⟩ := workqueue_safe hs
  exact ⟨s, hs, hq, (hdirty 7).1 (hqueued 7 (by simp [hq])).1⟩

/-! ## No worker sleeps through work -/

/-- While a worker sleeps, the queue is open and a woken worker is on its way to each item. The
condition variable holds each worker inside `Get` once. -/
structure Awake (s : Pool α ω) : Prop where
  enough : s.cond.waiting = [] ∨
    s.q.shuttingDown = false ∧ s.q.queue.length ≤ s.cond.woken.length
  inGet : ∀ w, (s.cond.waiting ++ s.cond.woken).count w = if s.worker w = .inGet then 1 else 0

lemma Awake.step {e : Call α ω} (h : s.Awake) (hstep : s.step e = some s') : s'.Awake := by
  rcases h with ⟨henough, hin⟩
  rcases s' with ⟨q, c, f⟩
  cases e with
  | add x wake =>
    -- the queue grows only with a `Signal`
    rcases step_add hstep with ⟨hc, rfl, rfl⟩
    unfold Cond.notify Cond.signal at hc
    rcases s.q.add_cases x with ⟨-, he⟩ | ⟨-, -, -, he⟩ | ⟨-, -, -, he⟩ <;>
      constructor <;> grind
  | get w r =>
    rcases step_get hstep with ⟨hw, rfl, ⟨⟩⟩
    rcases s.q.get_cases with ⟨hq, hs, he⟩ | ⟨hq, hs, he⟩ | ⟨x, rest, hq, he⟩ <;>
      constructor <;> grind [CanGet, condAfterGet, afterGet]
  | done w wake =>
    rcases step_done hstep with ⟨x, hx, hc, rfl, rfl⟩
    unfold Cond.notify Cond.signal at hc
    rcases s.q.done_cases x with ⟨-, he⟩ | ⟨-, he⟩ <;>
      constructor <;> grind [update_apply]
  | shutDown =>
    cases hstep
    exact ⟨inl rfl, hin⟩

/-- No wake-up is lost, whatever the order of the calls and whomever `Signal` wakes. -/
theorem no_lost_wakeup (h : (machine α ω).Reach tr s) : s.Awake :=
  h.invariant Awake (by constructor <;> simp [machine, WorkQueue.new]) fun _ _ _ => Awake.step

theorem no_lost_wakeup_demo : ∃ s : Pool ℕ ℕ, s.cond.waiting = [2] ∧ s.Awake := by
  obtain ⟨s, h, hw⟩ := (machine ℕ ℕ).exists_reach (·.cond.waiting)
    [.get 1 .block, .get 2 .block, .add 7 (some 1)] [2] rfl
  exact ⟨s, hw, no_lost_wakeup h⟩

end Pool

end Kubernetes.ClientGo
