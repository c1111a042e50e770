import Kubernetes.Scheduler.QueuePlacement

/-! # Failure reports and move requests

A popped pod that cannot be scheduled comes back by the error handler, from the scheduling
loop or from a binding goroutine. The handler reads the scheduling cycle and then adds the
pod: to the backoff queue if a move request was processed in that cycle or a later one,
to the unschedulable pods otherwise.

`Loop` is the queue with the attempts that are under way. The cycle and the call that takes
it are two steps, so anything may happen before, between and after them.

Results:

1. `cycles_exec`: only `Pop` starts a cycle and only a move request takes it over;
2. `Loop.Inv`: an attempt has read a cycle after the one of the last move exactly when a
   pod was popped in between;
3. `report_iff`: where an attempt that has seen a move request ends.
-/

namespace Kubernetes.Scheduler.SchedulingQueue

open Option Function PriorityQueue

variable {Spec Term : Type}

/-! ## Cycles -/

namespace PriorityQueue

/-- The scheduling cycle and that of the last move. -/
def cycles (q : PriorityQueue Spec Term) : Int × Int := (q.schedulingCycle, q.moveRequestCycle)

variable (cfg : Config Spec Term) (q : PriorityQueue Spec Term) (pInfo : QueuedPodInfo Spec Term)

@[simp]
lemma cycles_addActive :
    (q.addActive cfg pInfo).cycles = q.cycles := rfl

@[simp]
lemma cycles_addBackoff :
    (q.addBackoff cfg pInfo).cycles = q.cycles := rfl

@[simp]
lemma cycles_deleteUnschedulable (id : ObjectName) :
    (q.deleteUnschedulable id).cycles = q.cycles := rfl

@[simp]
lemma cycles_deleteBackoff (id : ObjectName) :
    (q.deleteBackoff cfg id).cycles = q.cycles := by
  unfold deleteBackoff
  split <;> rfl

lemma cycles_add (pod : Pod Spec) (now : Int) :
    (q.add cfg pod now).cycles = q.cycles := by
  unfold add
  dsimp only
  split <;> simp

lemma cycles_addUnschedulableIfNotPresent (podSchedulingCycle now : Int) :
    (q.addUnschedulableIfNotPresent cfg pInfo podSchedulingCycle now).1.cycles = q.cycles := by
  unfold addUnschedulableIfNotPresent
  split_ifs <;> rfl

lemma cycles_flushLoop (fuel : Nat) : ∀ (clock : Nat → Int) (q : PriorityQueue Spec Term),
    (flushLoop cfg fuel clock q).cycles = q.cycles := by
  induction fuel with
  | zero => exact fun _ _ => rfl
  | succ fuel ih =>
    intro clock q
    unfold flushLoop
    split
    · rfl
    split
    · rfl
    split
    · rfl
    · exact ih _ _

lemma cycles_movePod (event : Event) (q : PriorityQueue Spec Term)
    (pInfo : QueuedPodInfo Spec Term) (now : Int) :
    (q.movePod cfg event pInfo now).cycles = q.cycles := by
  unfold movePod
  split_ifs <;> simp

lemma cycles_moveLoop (event : Event) (pods : List (QueuedPodInfo Spec Term)) :
    ∀ (clock : Nat → Int) (q : PriorityQueue Spec Term),
      (moveLoop cfg event pods clock q).cycles = q.cycles := by
  induction pods with
  | nil => exact fun _ _ => rfl
  | cons pInfo rest ih =>
    intro clock q
    rw [moveLoop, ih, cycles_movePod]

/-- A move takes over the scheduling cycle, whatever it moves. -/
lemma cycles_movePodsToActiveOrBackoffQueue (pods : List (QueuedPodInfo Spec Term))
    (event : Event) (clock : Nat → Int) :
    (q.movePodsToActiveOrBackoffQueue cfg pods event clock).cycles =
      (q.schedulingCycle, q.schedulingCycle) := by
  have hcycle : (moveLoop cfg event pods clock q).schedulingCycle = q.schedulingCycle :=
    congrArg Prod.fst (cycles_moveLoop cfg event pods clock q)
  show (_, _) = _
  rw [← hcycle]
  rfl

lemma cycles_delete (pod : Pod Spec) :
    (q.delete cfg pod).cycles = q.cycles := by
  unfold delete
  split
  · rfl
  · simp

lemma cycles_pop {q q' : PriorityQueue Spec Term} {pInfo : QueuedPodInfo Spec Term}
    (h : q.pop cfg = some (pInfo, q')) :
    q'.cycles = (q.schedulingCycle + 1, q.moveRequestCycle) := by
  obtain ⟨res, -, heq⟩ := map_eq_some_iff.1 h
  cases heq
  rfl

variable [DecidableEq Spec]

lemma cycles_update (oldPod newPod : Pod Spec) (now : Int) :
    (q.update cfg oldPod newPod now).cycles = q.cycles := by
  unfold update
  split
  · rfl
  split
  · rfl
  split
  · dsimp only
    split_ifs <;> rfl
  · rfl

end PriorityQueue

/-! ## Calls and moves -/

variable {op : Op Spec Term}

namespace Op

def isMoveRequest : Op Spec Term → Bool
  | .moveAllToActiveOrBackoffQueue _ _ _ | .assignedPodAdded _ _ _ | .assignedPodUpdated _ _ _ =>
    true
  | _ => false

/-- The calls of the event handlers and of the timers. -/
def External : Op Spec Term → Prop
  | .pop | .addUnschedulableIfNotPresent _ _ _ => False
  | .update oldPod newPod _ => oldPod.id = newPod.id
  | _ => True

instance : ∀ op : Op Spec Term, Decidable op.External
  | .pop | .addUnschedulableIfNotPresent .. => isFalse id
  | .update .. => inferInstanceAs (Decidable (_ = _))
  | .add .. | .delete .. | .moveAllToActiveOrBackoffQueue .. | .assignedPodAdded ..
  | .assignedPodUpdated .. | .flushBackoffQCompleted .. | .flushUnschedulableQLeftover .. =>
    isTrue trivial

lemma External.allowed (h : op.External) : op.Allowed := by
  cases op <;> first | exact h | trivial

end Op

namespace PriorityQueue

/-- The call runs `movePodsToActiveOrBackoffQueue`: a move request, or a flush that finds a
pod that has waited too long. -/
def moves (q : PriorityQueue Spec Term) : Op Spec Term → Bool
  | .flushUnschedulableQLeftover iter clock =>
    ((q.unschedulableQ.inOrder iter).filter fun pInfo =>
      clock 0 - pInfo.timestamp > unschedulableQTimeInterval).length > 0
  | op => op.isMoveRequest

variable (cfg : Config Spec Term) [DecidableEq Spec]

theorem cycles_exec {q q' : PriorityQueue Spec Term} (hop : op.External)
    {res : Result Spec Term} (hexec : q.exec cfg op = some (q', res)) :
    q'.cycles = if q.moves op then (q.schedulingCycle, q.schedulingCycle) else q.cycles := by
  cases op with
  | add pod now =>
    cases hexec
    exact cycles_add cfg q pod now
  | addUnschedulableIfNotPresent pInfo cycle now => exact absurd hop id
  | pop => exact absurd hop id
  | update oldPod newPod now =>
    cases hexec
    exact cycles_update cfg q oldPod newPod now
  | delete pod =>
    cases hexec
    exact cycles_delete cfg q pod
  | moveAllToActiveOrBackoffQueue event iter clock =>
    cases hexec
    exact cycles_movePodsToActiveOrBackoffQueue cfg q _ event clock
  | assignedPodAdded matching iter clock =>
    cases hexec
    exact cycles_movePodsToActiveOrBackoffQueue cfg q _ _ clock
  | assignedPodUpdated matching iter clock =>
    cases hexec
    exact cycles_movePodsToActiveOrBackoffQueue cfg q _ _ clock
  | flushBackoffQCompleted clock =>
    cases hexec
    exact cycles_flushLoop cfg _ clock q
  | flushUnschedulableQLeftover iter clock =>
    cases hexec
    unfold flushUnschedulableQLeftover
    simp only [moves, decide_eq_true_eq]
    split_ifs
    · exact cycles_movePodsToActiveOrBackoffQueue cfg q _ _ _
    · rfl

end PriorityQueue

/-! ## The error handler -/

/-- What the error handler finds: the plugins of a `FitError`, and the pod of that name in
the informer cache. -/
structure Failure (Spec : Type) where
  unschedulablePlugins : Option (Finset String)
  cachedPod : Option (Pod Spec)

/-- `MakeDefaultErrorFunc`, up to its calls on the queue: what it reports, or `none` if it
returns before. -/
def defaultErrorFunc (cfg : Config Spec Term) (nodeName : Spec → String)
    (pInfo : QueuedPodInfo Spec Term) (failure : Failure Spec) : Option (QueuedPodInfo Spec Term) :=
  let pInfo := match failure.unschedulablePlugins with
    | some plugins => { pInfo with unschedulablePlugins := plugins }
    | none => pInfo
  match failure.cachedPod with
  | none => none
  | some cachedPod =>
    if nodeName cachedPod.spec ≠ "" then none
    else some { pInfo with podInfo := ⟨cachedPod, cfg.affinityTerms cachedPod⟩ }

/-! ## The scheduling loop -/

/-- An attempt to schedule a pod. The code has the first two fields, the others record what
has happened. -/
structure Attempt (Spec Term : Type) where
  pInfo : QueuedPodInfo Spec Term
  /-- what the error handler got from `SchedulingCycle()`, once it has called it -/
  cycle : Option Int
  /-- a move request was processed since the pod was popped -/
  moved : Bool
  /-- a pod was popped after the last move and before the error handler read the cycle -/
  late : Bool

structure Loop (Spec Term : Type) where
  queue : PriorityQueue Spec Term
  attempts : Nat → Option (Attempt Spec Term)
  /-- the number of calls of `Pop`; an attempt is known by the number of its own -/
  pops : Nat
  /-- no pod was popped since the last move -/
  current : Bool

namespace Loop

inductive Event (Spec Term : Type) where
  /-- a call of an event handler or a timer -/
  | call (op : Op Spec Term)
  | pop
  /-- the error handler runs up to `SchedulingCycle()` -/
  | fail (n : Nat) (failure : Failure Spec)
  /-- the error handler calls `AddUnschedulableIfNotPresent` -/
  | report (n : Nat) (now : Int)

def init : Loop Spec Term := ⟨.new, fun _ => none, 0, false⟩

variable (cfg : Config Spec Term) (nodeName : Spec → String)

/-- A move makes no earlier reading late. -/
def Attempt.see (request moves : Bool) (a : Attempt Spec Term) : Attempt Spec Term :=
  { a with moved := a.moved || request, late := a.late && !moves }

def call [DecidableEq Spec] (s : Loop Spec Term) (op : Op Spec Term) : Option (Loop Spec Term) :=
  if op.External then
    (s.queue.exec cfg op).map fun res =>
      { s with
        queue := res.1
        attempts := fun n => (s.attempts n).map (Attempt.see op.isMoveRequest (s.queue.moves op))
        current := s.current || s.queue.moves op }
  else none

variable (s : Loop Spec Term)

def pop : Option (Loop Spec Term) :=
  (s.queue.pop cfg).map fun res =>
    { queue := res.2
      attempts := Function.update s.attempts s.pops (some ⟨res.1, none, false, false⟩)
      pops := s.pops + 1
      current := false }

/-- The cached pod has the name that the error handler asks for. -/
def fail (n : Nat) (failure : Failure Spec) : Option (Loop Spec Term) :=
  (s.attempts n).bind fun a =>
    if a.cycle = none ∧ ∀ pod ∈ failure.cachedPod, pod.id = a.pInfo.id then
      some { s with
        attempts := Function.update s.attempts n
          ((defaultErrorFunc cfg nodeName a.pInfo failure).map fun pInfo =>
            { a with pInfo := pInfo, cycle := some s.queue.schedulingCycle, late := !s.current }) }
    else none

def report (n : Nat) (now : Int) : Option (Loop Spec Term) :=
  (s.attempts n).bind fun a => a.cycle.map fun cycle =>
    { s with
      queue := (s.queue.addUnschedulableIfNotPresent cfg a.pInfo cycle now).1
      attempts := Function.update s.attempts n none }

def machine [DecidableEq Spec] : Machine (Loop Spec Term) (Event Spec Term) where
  init := init
  step s
    | .call op => s.call cfg op
    | .pop => s.pop cfg
    | .fail n failure => s.fail cfg nodeName n failure
    | .report n now => s.report cfg n now

/-! ## Invariant -/

/-- The cycles tell what has happened: whether a pod was popped since the last move, and
since the last move before an attempt read its cycle. -/
structure Inv (s : Loop Spec Term) : Prop where
  places : ∃ w, s.queue.Places w
  cycle : if s.current then s.queue.moveRequestCycle = s.queue.schedulingCycle
    else s.queue.moveRequestCycle < s.queue.schedulingCycle
  read : ∀ n a r, s.attempts n = some a → a.cycle = some r →
    r ≤ s.queue.schedulingCycle ∧ (a.late = true ↔ s.queue.moveRequestCycle < r)

lemma inv_init : (init : Loop Spec Term).Inv where
  places := ⟨_, places_new⟩
  cycle := by simp [init, new]
  read n a r h := by cases h

variable {cfg nodeName} {s s' : Loop Spec Term}

lemma Inv.call [DecidableEq Spec] (h : s.Inv)
    (hstep : s.call cfg op = some s') : s'.Inv := by
  obtain ⟨hop, hsome⟩ := ite_none_right_eq_some.1 hstep
  obtain ⟨⟨q', res⟩, hexec, rfl⟩ := map_eq_some_iff.1 hsome
  obtain ⟨w, hw⟩ := h.places
  obtain ⟨w', hw', -⟩ := exec_places cfg hw hop.allowed hexec
  have hcycles := cycles_exec cfg hop hexec
  have hread := h.read
  have hcycle := h.cycle
  cases hm : s.queue.moves op with
  | true =>
    -- a move: its cycle is the present one, which no reading exceeds
    rw [hm, if_pos rfl, cycles, Prod.mk.injEq] at hcycles
    obtain ⟨hsc, hmrc⟩ := hcycles
    refine ⟨⟨w', hw'⟩, ?_, fun n a r ha hr => ?_⟩
    · simp [hsc, hmrc]
    obtain ⟨a0, ha0, rfl⟩ := map_eq_some_iff.1 ha
    have hle := (hread n a0 r ha0 hr).1
    show r ≤ q'.schedulingCycle ∧ ((a0.late && !true) = true ↔ q'.moveRequestCycle < r)
    rw [hsc, hmrc]
    refine ⟨hle, ?_⟩
    simpa using hle
  | false =>
    rw [hm, if_neg Bool.false_ne_true, cycles, cycles, Prod.mk.injEq] at hcycles
    obtain ⟨hsc, hmrc⟩ := hcycles
    refine ⟨⟨w', hw'⟩, ?_, fun n a r ha hr => ?_⟩
    · simpa [hsc, hmrc] using hcycle
    obtain ⟨a0, ha0, rfl⟩ := map_eq_some_iff.1 ha
    have hboth := hread n a0 r ha0 hr
    show r ≤ q'.schedulingCycle ∧ ((a0.late && !false) = true ↔ q'.moveRequestCycle < r)
    rw [hsc, hmrc]
    simpa using hboth

lemma Inv.pop (h : s.Inv) (hstep : s.pop cfg = some s') : s'.Inv := by
  obtain ⟨⟨pInfo, q'⟩, hpop, rfl⟩ := map_eq_some_iff.1 hstep
  obtain ⟨w, hw⟩ := h.places
  have hcycles := cycles_pop cfg hpop
  rw [cycles, Prod.mk.injEq] at hcycles
  obtain ⟨hsc, hmrc⟩ := hcycles
  have hbehind : s.queue.moveRequestCycle ≤ s.queue.schedulingCycle := by
    have hcycle := h.cycle
    split at hcycle
    · exact hcycle.le
    · exact hcycle.le
  refine ⟨⟨_, hw.pop cfg hpop⟩, ?_, fun n a r ha hr => ?_⟩
  · simp only [hsc, hmrc, Bool.false_eq_true, if_false]
    omega
  dsimp only at ha ⊢
  rw [hsc, hmrc]
  by_cases hn : n = s.pops
  · -- the new attempt has read nothing
    rw [hn, update_self] at ha
    cases ha
    cases hr
  · rw [update_of_ne hn] at ha
    obtain ⟨hle, hlate⟩ := h.read n a r ha hr
    exact ⟨by omega, hlate⟩

variable {n : Nat}

lemma Inv.fail (h : s.Inv) {failure : Failure Spec}
    (hstep : s.fail cfg nodeName n failure = some s') : s'.Inv := by
  obtain ⟨a, ha, hsome⟩ := bind_eq_some_iff.1 hstep
  obtain ⟨-, heq⟩ := ite_none_right_eq_some.1 hsome
  cases heq
  refine ⟨h.places, h.cycle, fun n' a' r ha' hr => ?_⟩
  dsimp only at ha' ⊢
  by_cases hn : n' = n
  · -- this attempt reads the present cycle, late unless that is the cycle of the last move
    rw [hn, update_self] at ha'
    obtain ⟨pInfo, -, rfl⟩ := map_eq_some_iff.1 ha'
    cases hr
    refine ⟨le_rfl, ?_⟩
    have hcycle := h.cycle
    cases hcur : s.current with
    | true =>
      rw [hcur, if_pos rfl] at hcycle
      simp [hcycle]
    | false =>
      rw [hcur, if_neg Bool.false_ne_true] at hcycle
      simp [hcycle]
  · rw [update_of_ne hn] at ha'
    exact h.read n' a' r ha' hr

variable {now : Int}

lemma report_cases {a : Attempt Spec Term} (ha : s.attempts n = some a)
    (hstep : s.report cfg n now = some s') :
    ∃ r, a.cycle = some r ∧ s' =
      { s with
        queue := (s.queue.addUnschedulableIfNotPresent cfg a.pInfo r now).1
        attempts := Function.update s.attempts n none } := by
  rw [report, ha, bind_some] at hstep
  obtain ⟨r, hr, heq⟩ := map_eq_some_iff.1 hstep
  exact ⟨r, hr, heq.symm⟩

lemma Inv.report (h : s.Inv) (hstep : s.report cfg n now = some s') : s'.Inv := by
  obtain ⟨a, ha, -⟩ := bind_eq_some_iff.1 hstep
  obtain ⟨r, -, rfl⟩ := report_cases ha hstep
  obtain ⟨w, hw⟩ := h.places
  have hcycles := cycles_addUnschedulableIfNotPresent cfg s.queue a.pInfo r now
  rw [cycles, cycles, Prod.mk.injEq] at hcycles
  obtain ⟨hsc, hmrc⟩ := hcycles
  constructor
  · rcases hw.addUnschedulableIfNotPresent cfg a.pInfo r now with
      ⟨-, err, heq⟩ | ⟨-, q', heq, hplaces⟩
    · exact ⟨w, by rw [heq]; exact hw⟩
    · exact ⟨_, by rw [heq]; exact hplaces⟩
  · rw [hsc, hmrc]
    exact h.cycle
  · intro n' a' r' ha' hr'
    dsimp only at ha' ⊢
    rw [hsc, hmrc]
    by_cases hn : n' = n
    · rw [hn, update_self] at ha'
      cases ha'
    · rw [update_of_ne hn] at ha'
      exact h.read n' a' r' ha' hr'

lemma Inv.step [DecidableEq Spec] (h : s.Inv) {e : Event Spec Term}
    (hstep : (machine cfg nodeName).step s e = some s') : s'.Inv := by
  cases e with
  | call op => exact h.call hstep
  | pop => exact h.pop hstep
  | fail n failure => exact h.fail hstep
  | report n now => exact h.report hstep

lemma reach_inv [DecidableEq Spec] {tr : List (Event Spec Term)}
    (h : (machine cfg nodeName).Reach tr s) : s.Inv :=
  h.invariant Inv inv_init fun _ _ _ hi hs => hi.step hs

/-! ## Reports -/

/-- A report puts a pod that is nowhere among the unschedulable ones if it has read its cycle
late, and changes nothing for a pod that is somewhere. -/
lemma Inv.report_places (h : s.Inv) {a : Attempt Spec Term} (ha : s.attempts n = some a)
    (hstep : s.report cfg n now = some s') :
    s'.queue.places a.pInfo.id =
      if s.queue.places a.pInfo.id = [] then
        [if a.late then .unschedulable else .backoff]
      else s.queue.places a.pInfo.id := by
  obtain ⟨r, hr, rfl⟩ := report_cases ha hstep
  obtain ⟨w, hw⟩ := h.places
  have hlate := (h.read n a r ha hr).2
  rcases hw.addUnschedulableIfNotPresent cfg a.pInfo r now with
    ⟨hsome, err, heq⟩ | ⟨hnone, q', heq, hplaces⟩
  · have hne : s.queue.places a.pInfo.id ≠ [] := by
      rw [hw.places_eq]
      simpa using hsome
    rw [heq, if_neg hne]
  have hnil : s.queue.places a.pInfo.id = [] := by
    rw [hw.places_eq, hnone]
    rfl
  rw [heq, if_pos hnil, hplaces.places_eq, update_self]
  cases hl : a.late with
  | true =>
    rw [if_neg (not_le.2 (hlate.1 hl))]
    rfl
  | false =>
    have hle : r ≤ s.queue.moveRequestCycle := by
      refine not_lt.1 fun hlt => ?_
      rw [hlate.2 hlt] at hl
      cases hl
    rw [if_pos hle]
    rfl

/-- An attempt with a move request since its `Pop` ends in the backoff queue, and not among
the unschedulable pods, exactly if its pod was there already, or was nowhere and no pod was
popped between the last move and the reading of the cycle. -/
theorem report_iff [DecidableEq Spec] {tr : List (Event Spec Term)} {s s' : Loop Spec Term}
    (h : (machine cfg nodeName).Reach tr s) {n : Nat} {a : Attempt Spec Term} {now : Int}
    (ha : s.attempts n = some a)
    (hstep : (machine cfg nodeName).step s (.report n now) = some s') :
    (a.moved = true →
        s'.queue.Holds .backoff a.pInfo.id ∧ ¬ s'.queue.Holds .unschedulable a.pInfo.id) ↔
      (a.moved = true →
        s.queue.Holds .backoff a.pInfo.id ∨
          (s.queue.places a.pInfo.id = [] ∧ a.late = false)) := by
  have hinv := reach_inv h
  obtain ⟨w, hw⟩ := hinv.places
  obtain ⟨w', hw'⟩ := (hinv.step hstep).places
  have hplaces := hinv.report_places ha hstep
  refine imp_congr_right fun _ => ?_
  rw [hw.holds_iff, hw'.holds_iff, hw'.holds_iff, hplaces]
  split
  · rename_i hnil
    cases a.late <;> simp [hnil]
  rename_i hne
  constructor
  · exact fun hback => .inl hback.1
  · rintro (hback | ⟨hnil, -⟩)
    · simp [hback]
    · exact absurd hnil hne

section

/-- A configuration without plugins that serves the pods in the order of their timestamps. -/
def fifo : Config Unit Unit := ⟨1, 10, fun x y => x.timestamp < y.timestamp, ∅, fun _ => []⟩

def podP : Pod Unit := ⟨⟨"ns", "p", by decide, by decide, by decide⟩, "1", "", 0, {}, ()⟩

def podQ : Pod Unit := ⟨⟨"ns", "q", by decide, by decide, by decide⟩, "2", "", 0, {}, ()⟩

def moveAll : Event Unit Unit :=
  .call (.moveAllToActiveOrBackoffQueue .nodeAdd ⟨id, .refl⟩ fun _ => 3)

/-- The attempt of the pod `p`, where it is, and where its report puts it. -/
def viewP (s : Loop Unit Unit) : Option (ObjectName × Bool × Bool) × List Place × Option (List Place) :=
  ((s.attempts 0).map fun a => (a.pInfo.id, a.moved, a.late), s.queue.places podP.id,
    ((machine fifo fun _ => "").step s (.report 0 5)).map fun s' => s'.queue.places podP.id)

/-- A move request while the only pod is being scheduled: its report puts it into the backoff
queue. -/
theorem report_backs_off :
    ∃ (s s' : Loop Unit Unit) (a : Attempt Unit Unit),
      s.attempts 0 = some a ∧ a.moved = true ∧
      (machine fifo fun _ => "").step s (.report 0 5) = some s' ∧
      s'.queue.Holds .backoff a.pInfo.id ∧ ¬ s'.queue.Holds .unschedulable a.pInfo.id := by
  obtain ⟨s, h, hview⟩ := (machine fifo fun _ => "").exists_reach viewP
    [.call (.add podP 1), .pop, moveAll, .fail 0 ⟨none, some podP⟩]
    (some (podP.id, true, false), [], some [.backoff]) (by decide +kernel)
  simp only [viewP, Prod.mk.injEq] at hview
  obtain ⟨hattempt, hnil, hstep⟩ := hview
  obtain ⟨a, ha, heq⟩ := map_eq_some_iff.1 hattempt
  obtain ⟨s', hs', -⟩ := map_eq_some_iff.1 hstep
  simp only [Prod.mk.injEq] at heq
  obtain ⟨hid, hmoved, hlate⟩ := heq
  have hput := (report_iff h ha hs').2 (fun _ => .inr ⟨hid ▸ hnil, hlate⟩) hmoved
  exact ⟨s, s', a, ha, hmoved, hs', hput⟩

/-- Another pod is popped between the move request and the failure of the first one, which
reads the cycle of the other: its report puts it among the unschedulable pods. -/
theorem report_misses_move :
    ∃ (tr : List (Event Unit Unit)) (s s' : Loop Unit Unit) (a : Attempt Unit Unit),
      (machine fifo fun _ => "").Reach tr s ∧ s.attempts 0 = some a ∧ a.moved = true ∧
      s.queue.places a.pInfo.id = [] ∧
      (machine fifo fun _ => "").step s (.report 0 5) = some s' ∧
      s'.queue.places a.pInfo.id = [.unschedulable] := by
  obtain ⟨s, h, hview⟩ := (machine fifo fun _ => "").exists_reach viewP
    [.call (.add podP 1), .call (.add podQ 2), .pop, moveAll, .pop, .fail 0 ⟨none, some podP⟩]
    (some (podP.id, true, true), [], some [.unschedulable]) (by decide +kernel)
  simp only [viewP, Prod.mk.injEq] at hview
  obtain ⟨hattempt, hnil, hstep⟩ := hview
  obtain ⟨a, ha, heq⟩ := map_eq_some_iff.1 hattempt
  obtain ⟨s', hs', hput⟩ := map_eq_some_iff.1 hstep
  simp only [Prod.mk.injEq] at heq
  obtain ⟨hid, hmoved, -⟩ := heq
  rw [← hid] at hnil hput
  exact ⟨_, s, s', a, h, ha, hmoved, hnil, hs', hput⟩

end

end Loop

end Kubernetes.Scheduler.SchedulingQueue
