import Kubernetes.Scheduler.SchedulingQueue

/-! # Every waiting pod is in exactly one sub-queue

Abstractly, the scheduling queue says for each pod in which of its three sub-queues it
waits, if at all: a function from names to `Option Place`. `Places q w` says that the
three sub-queues of `q` together are this function, so that no pod is in two of them.
Every call then is a change of the function: it puts pods somewhere, takes one out, or
does nothing.

Results:

1. `metaNamespaceKey_injective`, `getPodFullName_injective`: the keys of the heaps and of
   the map tell the same pods apart;
2. `exec_places`: every call refines a change of the function, and only `Pop` and
   `Delete` take a pod out;
3. `placement`: the consequences over every run.
-/

namespace Kubernetes.Scheduler.SchedulingQueue

open List Option Function

/-! ## Keys -/

/-- A list is split at the first delimiter in one way only. -/
lemma append_cons_inj {α : Type} {d : α} {a a' b b' : List α} (ha : d ∉ a) (ha' : d ∉ a')
    (h : a ++ d :: b = a' ++ d :: b') : a = a' ∧ b = b' := by
  -- the longer first part would have the delimiter
  rcases append_eq_append_iff.1 h with ⟨_ | ⟨x, c⟩, rfl, hb⟩ | ⟨_ | ⟨x, c⟩, rfl, hb⟩
  · exact ⟨(append_nil a).symm, (List.cons.inj hb).2⟩
  · exact absurd (by simp [(List.cons.inj hb).1]) ha'
  · exact ⟨append_nil a', (List.cons.inj hb).2.symm⟩
  · exact absurd (by simp [(List.cons.inj hb).1]) ha

lemma ObjectName.ext_of_toList {a b : ObjectName} (hns : a.ns.toList = b.ns.toList)
    (hname : a.name.toList = b.name.toList) : a = b := by
  cases a
  cases b
  have hns' := String.toList_inj.1 hns
  have hname' := String.toList_inj.1 hname
  subst hns' hname'
  rfl

theorem getPodFullName_injective : Function.Injective getPodFullName := by
  intro a b h
  have hlist : a.name.toList ++ '_' :: a.ns.toList = b.name.toList ++ '_' :: b.ns.toList := by
    have hl := congrArg String.toList h
    simpa [getPodFullName, String.toList_append] using hl
  obtain ⟨hname, hns⟩ := append_cons_inj a.name_underscore b.name_underscore hlist
  exact ObjectName.ext_of_toList hns hname

lemma toList_metaNamespaceKey (id : ObjectName) :
    (metaNamespaceKey id).toList =
      if id.ns ≠ "" then id.ns.toList ++ '/' :: id.name.toList else id.name.toList := by
  unfold metaNamespaceKey
  split
  · simp [String.toList_append]
  · rfl

theorem metaNamespaceKey_injective : Function.Injective metaNamespaceKey := by
  intro a b h
  have hlist := congrArg String.toList h
  rw [toList_metaNamespaceKey, toList_metaNamespaceKey] at hlist
  -- without a namespace the key is the name, which has no slash
  by_cases ha : a.ns = "" <;> by_cases hb : b.ns = ""
  · rw [if_neg (not_not.2 ha), if_neg (not_not.2 hb)] at hlist
    exact ObjectName.ext_of_toList (by rw [ha, hb]) hlist
  · rw [if_neg (not_not.2 ha), if_pos hb] at hlist
    exact absurd (hlist ▸ mem_append_right _ mem_cons_self) a.name_slash
  · rw [if_pos ha, if_neg (not_not.2 hb)] at hlist
    exact absurd (hlist ▸ mem_append_right _ mem_cons_self) b.name_slash
  · rw [if_pos ha, if_pos hb] at hlist
    obtain ⟨hns, hname⟩ := append_cons_inj a.ns_slash b.ns_slash hlist
    exact ObjectName.ext_of_toList hns hname

/-! ## Places -/

inductive Place where
  | active
  | backoff
  | unschedulable
deriving DecidableEq

variable {Spec Term : Type} {w : ObjectName → Option Place}

namespace PriorityQueue

variable (q : PriorityQueue Spec Term)

/-- The pod `id` is in the sub-queue `p`. -/
def Holds : Place → ObjectName → Prop
  | .active, id => (q.activeQ.get (metaNamespaceKey id)).isSome
  | .backoff, id => (q.podBackoffQ.get (metaNamespaceKey id)).isSome
  | .unschedulable, id => (q.unschedulableQ.get id).isSome

instance (q : PriorityQueue Spec Term) (p : Place) (id : ObjectName) : Decidable (q.Holds p id) := by
  cases p <;> unfold Holds <;> infer_instance

/-- The sub-queues that the pod `id` is in. -/
def places (id : ObjectName) : List Place :=
  [.active, .backoff, .unschedulable].filter fun p => q.Holds p id

/-- The sub-queues together are the function `w`. -/
def Places (w : ObjectName → Option Place) : Prop :=
  ∀ p id, q.Holds p id ↔ w id = some p

variable {q q' : PriorityQueue Spec Term}

lemma Places.places_eq (h : q.Places w) (id : ObjectName) : q.places id = (w id).toList := by
  unfold PriorityQueue.places
  simp only [h _ id]
  rcases w id with - | (_ | _ | _) <;> rfl

lemma Places.holds_iff (h : q.Places w) (p : Place) (id : ObjectName) :
    q.Holds p id ↔ q.places id = [p] := by
  rw [h, h.places_eq, toList_eq_singleton_iff]

lemma places_new : (new : PriorityQueue Spec Term).Places fun _ => none := by
  intro p id
  cases p <;> simp [Holds, new, UnschedulablePodsMap.get, UnschedulablePodsMap.empty]

variable (cfg : Config Spec Term)

/-- How adding an object to a heap changes whether a pod is in it. -/
lemma isSome_get_add {less : QueuedPodInfo Spec Term → QueuedPodInfo Spec Term → Bool}
    (h : KeyedHeap (@podInfoKeyFunc Spec Term)) (pInfo : QueuedPodInfo Spec Term) (id : ObjectName) :
    ((h.add less pInfo).get (metaNamespaceKey id)).isSome ↔
      (h.get (metaNamespaceKey id)).isSome ∨ id = pInfo.id := by
  rw [KeyedHeap.get_add]
  by_cases hid : id = pInfo.id
  · simp [hid, podInfoKeyFunc]
  · have hkey : metaNamespaceKey id ≠ podInfoKeyFunc pInfo :=
      fun hk => hid (metaNamespaceKey_injective hk)
    simp [hkey, hid]

lemma holds_addActive (q : PriorityQueue Spec Term) (pInfo : QueuedPodInfo Spec Term) (p : Place)
    (id : ObjectName) :
    (q.addActive cfg pInfo).Holds p id ↔ q.Holds p id ∨ (p = .active ∧ id = pInfo.id) := by
  cases p with
  | active =>
    refine (isSome_get_add q.activeQ pInfo id).trans ?_
    simp [Holds]
  | backoff => simp [Holds, addActive]
  | unschedulable => simp [Holds, addActive]

lemma holds_addBackoff (q : PriorityQueue Spec Term) (pInfo : QueuedPodInfo Spec Term) (p : Place)
    (id : ObjectName) :
    (q.addBackoff cfg pInfo).Holds p id ↔ q.Holds p id ∨ (p = .backoff ∧ id = pInfo.id) := by
  cases p with
  | active => simp [Holds, addBackoff]
  | backoff =>
    refine (isSome_get_add q.podBackoffQ pInfo id).trans ?_
    simp [Holds]
  | unschedulable => simp [Holds, addBackoff]

lemma holds_addOrUpdate (q : PriorityQueue Spec Term) (pInfo : QueuedPodInfo Spec Term)
    (p : Place) (id : ObjectName) :
    Holds { q with unschedulableQ := q.unschedulableQ.addOrUpdate pInfo } p id ↔
      q.Holds p id ∨ (p = .unschedulable ∧ id = pInfo.id) := by
  cases p with
  | active => simp [Holds]
  | backoff => simp [Holds]
  | unschedulable =>
    simp only [Holds, UnschedulablePodsMap.get, UnschedulablePodsMap.addOrUpdate,
      GoMap.lookup_insert_if, getPodFullName_injective.eq_iff]
    by_cases hid : id = pInfo.id
    · simp [hid]
    · simp [hid]

lemma holds_deleteUnschedulable (q : PriorityQueue Spec Term) (id' : ObjectName) (p : Place)
    (id : ObjectName) :
    (q.deleteUnschedulable id').Holds p id ↔ q.Holds p id ∧ ¬ (p = .unschedulable ∧ id = id') := by
  cases p with
  | active => simp [Holds, deleteUnschedulable]
  | backoff => simp [Holds, deleteUnschedulable]
  | unschedulable =>
    simp only [Holds, deleteUnschedulable, UnschedulablePodsMap.get, UnschedulablePodsMap.delete,
      GoMap.lookup_erase_if, getPodFullName_injective.eq_iff]
    by_cases hid : id = id'
    · simp [hid]
    · simp [hid]

variable {id : ObjectName}

/-- How taking an object out of a heap changes whether a pod is in it. -/
lemma isSome_get_removed {h h' : KeyedHeap (@podInfoKeyFunc Spec Term)}
    (hget : ∀ k, h'.get k = if k = metaNamespaceKey id then none else h.get k) (id' : ObjectName) :
    (h'.get (metaNamespaceKey id')).isSome ↔
      (h.get (metaNamespaceKey id')).isSome ∧ id' ≠ id := by
  rw [hget]
  by_cases hid : id' = id
  · simp [hid]
  · have hkey : metaNamespaceKey id' ≠ metaNamespaceKey id :=
      fun hk => hid (metaNamespaceKey_injective hk)
    simp [hkey, hid]

variable {heap : KeyedHeap (@podInfoKeyFunc Spec Term)}

lemma holds_active_removed (q : PriorityQueue Spec Term)
    (hget : ∀ k, heap.get k = if k = metaNamespaceKey id then none else q.activeQ.get k)
    (cycle : Int) (p : Place) (id' : ObjectName) :
    Holds { q with activeQ := heap, schedulingCycle := cycle } p id' ↔
      q.Holds p id' ∧ ¬ (p = .active ∧ id' = id) := by
  cases p with
  | active => simpa [Holds] using isSome_get_removed hget id'
  | backoff => simp [Holds]
  | unschedulable => simp [Holds]

lemma holds_backoff_removed (q : PriorityQueue Spec Term)
    (hget : ∀ k, heap.get k = if k = metaNamespaceKey id then none else q.podBackoffQ.get k)
    (p : Place) (id' : ObjectName) :
    Holds { q with podBackoffQ := heap } p id' ↔ q.Holds p id' ∧ ¬ (p = .backoff ∧ id' = id) := by
  cases p with
  | active => simp [Holds]
  | backoff => simpa [Holds] using isSome_get_removed hget id'
  | unschedulable => simp [Holds]

lemma holds_deleteBackoff (q : PriorityQueue Spec Term) (id' : ObjectName) (p : Place)
    (id : ObjectName) :
    (q.deleteBackoff cfg id').Holds p id ↔ q.Holds p id ∧ ¬ (p = .backoff ∧ id = id') := by
  unfold deleteBackoff
  rcases q.podBackoffQ.get_delete (podsCompareBackoffCompleted cfg) (metaNamespaceKey id') with
    ⟨hnone, hget⟩ | ⟨h', heq, -, hget⟩
  · -- not found, so it was not there
    rw [hnone]
    constructor
    · intro hq
      refine ⟨hq, ?_⟩
      rintro ⟨rfl, rfl⟩
      simp [Holds, hget] at hq
    · exact fun hq => hq.1
  · rw [heq]
    exact holds_backoff_removed q hget p id

/-! ## Changes of place -/

variable (h : q.Places w)

include h

/-- A queue whose pods are where those of `q` are, except for `id`, which is at `x`. -/
lemma Places.put {x : Option Place} (hself : ∀ p, q'.Holds p id ↔ x = some p)
    (hother : ∀ p id', id' ≠ id → (q'.Holds p id' ↔ q.Holds p id')) :
    q'.Places (Function.update w id x) := by
  intro p id'
  by_cases hid : id' = id
  · rw [hid, update_self]
    exact hself p
  · rw [update_of_ne hid, hother p id' hid]
    exact h p id'

lemma Places.insert {p : Place}
    (hholds : ∀ p' id', q'.Holds p' id' ↔ q.Holds p' id' ∨ (p' = p ∧ id' = id))
    (hw : w id = none ∨ w id = some p) : q'.Places (Function.update w id (some p)) := by
  refine h.put (fun p' => ?_) fun p' id' hid => ?_
  · rw [hholds, h]
    rcases hw with hw | hw <;> simp [hw, eq_comm]
  · rw [hholds]
    simp [hid]

lemma Places.remove {p : Place}
    (hholds : ∀ p' id', q'.Holds p' id' ↔ q.Holds p' id' ∧ ¬ (p' = p ∧ id' = id))
    (hw : w id = some p) : q'.Places (Function.update w id none) := by
  refine h.put (fun p' => ?_) fun p' id' hid => ?_
  · rw [hholds, h, hw]
    simp [eq_comm]
  · rw [hholds]
    simp [hid]

variable (pInfo : QueuedPodInfo Spec Term)

lemma Places.addActive (hw : w pInfo.id = none ∨ w pInfo.id = some .active) :
    (q.addActive cfg pInfo).Places (Function.update w pInfo.id (some .active)) :=
  h.insert (holds_addActive cfg q pInfo) hw

lemma Places.addBackoff (hw : w pInfo.id = none ∨ w pInfo.id = some .backoff) :
    (q.addBackoff cfg pInfo).Places (Function.update w pInfo.id (some .backoff)) :=
  h.insert (holds_addBackoff cfg q pInfo) hw

lemma Places.addOrUpdate (hw : w pInfo.id = none ∨ w pInfo.id = some .unschedulable) :
    Places { q with unschedulableQ := q.unschedulableQ.addOrUpdate pInfo }
      (Function.update w pInfo.id (some .unschedulable)) :=
  h.insert (holds_addOrUpdate q pInfo) hw

variable {pInfo : QueuedPodInfo Spec Term}

/-- From the unschedulable pods to the active ones; in between the pod is in both. -/
lemma Places.activate (hw : w pInfo.id = some .unschedulable) :
    ((q.addActive cfg pInfo).deleteUnschedulable pInfo.id).Places
      (Function.update w pInfo.id (some .active)) := by
  refine h.put (fun p => ?_) fun p id' hid => ?_
  · rw [holds_deleteUnschedulable, holds_addActive, h, hw]
    cases p <;> simp
  · rw [holds_deleteUnschedulable, holds_addActive]
    simp [hid]

lemma Places.backOff (hw : w pInfo.id = some .unschedulable) :
    ((q.addBackoff cfg pInfo).deleteUnschedulable pInfo.id).Places
      (Function.update w pInfo.id (some .backoff)) := by
  refine h.put (fun p => ?_) fun p id' hid => ?_
  · rw [holds_deleteUnschedulable, holds_addBackoff, h, hw]
    cases p <;> simp
  · rw [holds_deleteUnschedulable, holds_addBackoff]
    simp [hid]

/-! ## Calls -/

lemma Places.add (pod : Pod Spec) (now : Int) :
    (q.add cfg pod now).Places (Function.update w pod.id (some .active)) := by
  -- the pod may have been anywhere, and is deleted from everywhere else
  have hdelete : ∀ p id, (q.add cfg pod now).Holds p id ↔
      ((q.Holds p id ∨ (p = .active ∧ id = pod.id)) ∧ ¬ (p = .unschedulable ∧ id = pod.id)) ∧
        ¬ (p = .backoff ∧ id = pod.id) := by
    intro p id
    have hactive := holds_addActive cfg q (newQueuedPodInfo cfg pod now)
    unfold PriorityQueue.add
    rw [holds_deleteBackoff]
    split_ifs with hnot
    · rw [holds_deleteUnschedulable, hactive]
      rfl
    rw [hactive]
    refine and_congr_left fun _ => ⟨fun hq => ⟨hq, ?_⟩, fun hq => hq.1⟩
    rintro ⟨rfl, rfl⟩
    rcases hq with hq | ⟨hq, -⟩
    · exact hnot hq
    · cases hq
  refine h.put (fun p => ?_) fun p id' hid => ?_
  · rw [hdelete]
    cases p <;> simp
  · rw [hdelete]
    simp [hid]

/-- `AddUnschedulableIfNotPresent` adds a pod that was nowhere, and changes nothing if it was
somewhere. -/
lemma Places.addUnschedulableIfNotPresent (pInfo : QueuedPodInfo Spec Term)
    (podSchedulingCycle now : Int) :
    (w pInfo.id ≠ none ∧
        ∃ err, q.addUnschedulableIfNotPresent cfg pInfo podSchedulingCycle now = (q, some err)) ∨
      (w pInfo.id = none ∧
        ∃ q', q.addUnschedulableIfNotPresent cfg pInfo podSchedulingCycle now = (q', none) ∧
          q'.Places (Function.update w pInfo.id
            (some (if q.moveRequestCycle ≥ podSchedulingCycle then .backoff
              else .unschedulable)))) := by
  have hplaced : ∀ p, q.Holds p pInfo.id → w pInfo.id ≠ none := by
    intro p hp hnone
    rw [h, hnone] at hp
    cases hp
  unfold PriorityQueue.addUnschedulableIfNotPresent
  split
  · exact .inl ⟨hplaced .unschedulable ‹_›, _, rfl⟩
  rename_i hu
  split
  · exact .inl ⟨hplaced .active ‹_›, _, rfl⟩
  rename_i ha
  split
  · exact .inl ⟨hplaced .backoff ‹_›, _, rfl⟩
  rename_i hb
  have hnone : w pInfo.id = none := by
    cases hw : w pInfo.id with
    | none => rfl
    | some p =>
      have hp : q.Holds p pInfo.id := (h p pInfo.id).2 hw
      cases p with
      | active => exact absurd hp ha
      | backoff => exact absurd hp hb
      | unschedulable => exact absurd hp hu
  refine .inr ⟨hnone, ?_⟩
  split
  · exact ⟨_, rfl, h.addBackoff cfg { pInfo with timestamp := now } (.inl hnone)⟩
  · exact ⟨_, rfl, h.addOrUpdate { pInfo with timestamp := now } (.inl hnone)⟩

/-- The root of the backoff queue goes to the active one. -/
lemma Places.completeBackoff
    {podBackoffQ : KeyedHeap (@podInfoKeyFunc Spec Term)}
    (hin : q.podBackoffQ.get (podInfoKeyFunc pInfo) = some pInfo) (hget : ∀ k, podBackoffQ.get k =
      if k = podInfoKeyFunc pInfo then none else q.podBackoffQ.get k) :
    w pInfo.id = some .backoff ∧
      ({ q with podBackoffQ := podBackoffQ }.addActive cfg pInfo).Places
        (Function.update w pInfo.id (some .active)) := by
  have hback : q.Holds .backoff pInfo.id := by
    show (q.podBackoffQ.get (podInfoKeyFunc pInfo)).isSome
    rw [hin]
    rfl
  have hw : w pInfo.id = some .backoff := (h _ _).1 hback
  have hholds := holds_backoff_removed q hget
  refine ⟨hw, h.put (fun p => ?_) fun p id' hid => ?_⟩
  · rw [holds_addActive, hholds, h, hw]
    cases p <;> simp
  · rw [holds_addActive, hholds]
    simp [hid]

/-- No pod is lost from `w` to `w'`. -/
def Keeps (w w' : ObjectName → Option Place) : Prop := ∀ id, w id ≠ none → w' id ≠ none

omit h in
lemma keeps_update (w : ObjectName → Option Place) (id : ObjectName) (p : Place) :
    Keeps w (Function.update w id (some p)) := by
  intro id' hid'
  by_cases hid : id' = id
  · rw [hid, update_self]
    simp
  · rw [update_of_ne hid]
    exact hid'

omit h in
lemma Places.flushLoop (fuel : Nat) :
    ∀ (clock : Nat → Int) {q : PriorityQueue Spec Term} {w : ObjectName → Option Place},
      q.Places w → ∃ w', (flushLoop cfg fuel clock q).Places w' ∧ Keeps w w' := by
  induction fuel with
  | zero => exact fun clock q w h => ⟨w, h, fun _ hid => hid⟩
  | succ fuel ih =>
    intro clock q w h
    unfold PriorityQueue.flushLoop
    rcases q.podBackoffQ.get_pop (podsCompareBackoffCompleted cfg) with
      ⟨-, hpeek, -, -⟩ | ⟨obj, heap, hpop, hpeek, hin, -, hget⟩
    · rw [hpeek]
      exact ⟨w, h, fun _ hid => hid⟩
    rw [hpeek]
    dsimp only
    split
    · exact ⟨w, h, fun _ hid => hid⟩
    rw [hpop]
    obtain ⟨-, hplaces⟩ := h.completeBackoff cfg hin hget
    obtain ⟨w', hw', hkeep⟩ := ih (fun n => clock (n + 1)) hplaces
    exact ⟨w', hw', fun id hid => hkeep id (keeps_update w _ _ id hid)⟩

/-! ### Move requests -/

omit h in
/-- The pods that a range over the map yields are in it, each once. -/
lemma inOrder_spec (iter : IterOrder String) :
    ((q.unschedulableQ.inOrder iter).map QueuedPodInfo.id).Nodup ∧
      ∀ pInfo ∈ q.unschedulableQ.inOrder iter, q.Holds .unschedulable pInfo.id := by
  have hperm := iter.perm q.unschedulableQ.podInfoMap.keys
  have hkeys : (iter.order q.unschedulableQ.podInfoMap.keys).Nodup :=
    hperm.nodup_iff.2 q.unschedulableQ.podInfoMap.keys_nodup
  constructor
  · unfold UnschedulablePodsMap.inOrder
    rw [map_filterMap]
    refine hkeys.filterMap fun k k' id hk hk' => ?_
    -- the key of a pod is that of its name
    obtain ⟨pInfo, hl, rfl⟩ := map_eq_some_iff.1 hk
    obtain ⟨pInfo', hl', hid⟩ := map_eq_some_iff.1 hk'
    rw [← q.unschedulableQ.keyed k pInfo hl, ← q.unschedulableQ.keyed k' pInfo' hl', hid]
  · intro pInfo hmem
    obtain ⟨k, -, hl⟩ := mem_filterMap.1 hmem
    show (q.unschedulableQ.podInfoMap.lookup (getPodFullName pInfo.id)).isSome
    rw [q.unschedulableQ.keyed k pInfo hl, hl]
    rfl

lemma Places.movePod (hw : w pInfo.id = some .unschedulable) (event : Event) (now : Int) :
    ∃ p, (q.movePod cfg event pInfo now).Places (Function.update w pInfo.id (some p)) := by
  unfold PriorityQueue.movePod
  split
  · refine ⟨.unschedulable, ?_⟩
    rw [← hw, update_eq_self]
    exact h
  · split
    · exact ⟨.backoff, h.backOff cfg hw⟩
    · exact ⟨.active, h.activate cfg hw⟩

omit h in
lemma Places.moveLoop (event : Event) (pods : List (QueuedPodInfo Spec Term)) :
    ∀ (clock : Nat → Int) {q : PriorityQueue Spec Term} {w : ObjectName → Option Place},
      q.Places w → (pods.map QueuedPodInfo.id).Nodup →
      (∀ pInfo ∈ pods, w pInfo.id = some .unschedulable) →
      ∃ w', (moveLoop cfg event pods clock q).Places w' ∧ Keeps w w' := by
  induction pods with
  | nil => exact fun clock q w h _ _ => ⟨w, h, fun _ hid => hid⟩
  | cons pInfo rest ih =>
    intro clock q w h hnd hmem
    rw [map_cons, nodup_cons] at hnd
    obtain ⟨p, hp⟩ := h.movePod cfg (hmem pInfo mem_cons_self) event (clock 0)
    have hrest : ∀ pInfo' ∈ rest,
        Function.update w pInfo.id (some p) pInfo'.id = some .unschedulable := by
      intro pInfo' hin
      have hne : pInfo'.id ≠ pInfo.id :=
        fun hid => hnd.1 (hid ▸ List.mem_map_of_mem hin)
      rw [update_of_ne hne]
      exact hmem pInfo' (mem_cons_of_mem _ hin)
    obtain ⟨w', hw', hkeep⟩ := ih (fun n => clock (n + 1)) hp hnd.2 hrest
    exact ⟨w', hw', fun id hid => hkeep id (keeps_update w _ _ id hid)⟩

lemma Places.movePodsToActiveOrBackoffQueue (iter : IterOrder String)
    (sel : QueuedPodInfo Spec Term → Bool) (event : Event) (clock : Nat → Int) :
    ∃ w', (q.movePodsToActiveOrBackoffQueue cfg ((q.unschedulableQ.inOrder iter).filter sel)
      event clock).Places w' ∧ Keeps w w' := by
  obtain ⟨hnd, hmem⟩ := inOrder_spec (q := q) iter
  refine h.moveLoop cfg event _ clock ?_ fun pInfo hin => ?_
  · exact hnd.sublist (filter_sublist.map _)
  · exact (h _ _).1 (hmem pInfo (mem_of_mem_filter hin))

/-! ### Pop, update and delete -/

lemma Places.pop (hpop : q.pop cfg = some (pInfo, q')) :
    q'.Places (Function.update w pInfo.id none) := by
  unfold PriorityQueue.pop at hpop
  rcases q.activeQ.get_pop cfg.lessFn with ⟨hnone, -⟩ | ⟨obj, heap, heq, -, hin, -, hget⟩
  · rw [hnone] at hpop
    cases hpop
  rw [heq] at hpop
  cases hpop
  have hactive : w obj.id = some .active := by
    refine (h .active obj.id).1 ?_
    show (q.activeQ.get (podInfoKeyFunc obj)).isSome
    rw [hin]
    rfl
  exact h.remove (holds_active_removed q hget _) hactive

lemma Places.delete (pod : Pod Spec) :
    (q.delete cfg pod).Places (Function.update w pod.id none) := by
  unfold PriorityQueue.delete
  rcases q.activeQ.get_delete cfg.lessFn (metaNamespaceKey pod.id) with
    ⟨hnone, hget⟩ | ⟨heap, heq, hin, hget⟩
  · -- not active: deleted from the other two
    rw [hnone]
    refine h.put (fun p => ?_) fun p id' hid => ?_
    · rw [holds_deleteUnschedulable, holds_deleteBackoff]
      cases p with
      | active => simp [Holds, hget]
      | backoff => simp
      | unschedulable => simp
    · rw [holds_deleteUnschedulable, holds_deleteBackoff]
      simp [hid]
  · -- active, and hence nowhere else
    rw [heq]
    have hactive : w pod.id = some .active := by
      refine (h .active pod.id).1 ?_
      exact isSome_iff_ne_none.2 hin
    exact h.remove (holds_active_removed q hget q.schedulingCycle) hactive

omit h in
lemma updatePod_id (pInfo : QueuedPodInfo Spec Term) (newPod : Pod Spec) :
    (updatePod cfg pInfo newPod).id = newPod.id := by
  unfold updatePod QueuedPodInfo.id
  split <;> rfl

variable [DecidableEq Spec]

lemma Places.update {oldPod newPod : Pod Spec} (hid : oldPod.id = newPod.id) (now : Int) :
    ∃ p, (q.update cfg oldPod newPod now).Places (Function.update w newPod.id (some p)) := by
  have hplace : ∀ p, q.Holds p newPod.id → w newPod.id = some p := fun p => (h p newPod.id).1
  unfold PriorityQueue.update
  rw [hid]
  cases ha : q.activeQ.get (metaNamespaceKey newPod.id) with
  | some old =>
    have hw := hplace .active (by simp [Holds, ha])
    refine ⟨.active, ?_⟩
    have hput := h.addActive cfg (updatePod cfg old newPod)
      (.inr (by rw [updatePod_id]; exact hw))
    rw [updatePod_id] at hput
    exact hput
  | none =>
    cases hb : q.podBackoffQ.get (metaNamespaceKey newPod.id) with
    | some old =>
      have hw := hplace .backoff (by simp [Holds, hb])
      refine ⟨.backoff, ?_⟩
      have hput := h.addBackoff cfg (updatePod cfg old newPod)
        (.inr (by rw [updatePod_id]; exact hw))
      rw [updatePod_id] at hput
      exact hput
    | none =>
      cases hu : q.unschedulableQ.get newPod.id with
      | some old =>
        have hw : w (updatePod cfg old newPod).id = some .unschedulable := by
          rw [updatePod_id]
          exact hplace .unschedulable (by simp [Holds, hu])
        have hname := updatePod_id cfg old newPod
        dsimp only
        split
        · split
          · refine ⟨.backoff, ?_⟩
            rw [← hname]
            exact h.backOff cfg hw
          · refine ⟨.active, ?_⟩
            rw [← hname]
            exact h.activate cfg hw
        · refine ⟨.unschedulable, ?_⟩
          rw [← hname]
          exact h.addOrUpdate _ (.inr hw)
      | none =>
        -- nowhere: added as a new pod
        have hnone : w newPod.id = none := by
          cases hw : w newPod.id with
          | none => rfl
          | some p =>
            have hp : q.Holds p newPod.id := (h p newPod.id).2 hw
            cases p with
            | active => simp [Holds, ha] at hp
            | backoff => simp [Holds, hb] at hp
            | unschedulable => simp [Holds, hu] at hp
        exact ⟨.active, h.addActive cfg (newQueuedPodInfo cfg newPod now) (.inl hnone)⟩

end PriorityQueue

/-! ## Runs -/

namespace Op

/-- What the callers promise: the old and the new pod of an update have one name. -/
def Allowed : Op Spec Term → Prop
  | .update oldPod newPod _ => oldPod.id = newPod.id
  | _ => True

instance (op : Op Spec Term) : Decidable op.Allowed := by
  cases op <;> unfold Allowed <;> infer_instance

/-- The call is the `Pop` or the `Delete` of the pod `id`. -/
def TakesOut (id : ObjectName) : Op Spec Term → Result Spec Term → Prop
  | .pop, .popped pInfo => pInfo.id = id
  | .delete pod, _ => pod.id = id
  | _, _ => False

/-- The call is an `Add`, `AddUnschedulableIfNotPresent` or `Update` of the pod `id`. -/
def Puts (id : ObjectName) : Op Spec Term → Prop
  | .add pod _ => pod.id = id
  | .addUnschedulableIfNotPresent pInfo _ _ => pInfo.id = id
  | .update _ newPod _ => newPod.id = id
  | _ => False

end Op

namespace PriorityQueue

variable (cfg : Config Spec Term)

/-- How a call with a result may change the function: it loses a pod only by taking it out,
and has the pod that it puts in. -/
structure Changes (op : Op Spec Term) (res : Result Spec Term)
    (w w' : ObjectName → Option Place) : Prop where
  kept : ∀ id, w id ≠ none → ¬ op.TakesOut id res → w' id ≠ none
  put : ∀ id, op.Puts id → res = .done → w' id ≠ none

variable {op : Op Spec Term} {res : Result Spec Term}

lemma changes_update {id : ObjectName} (p : Place) (hputs : ∀ id', op.Puts id' → id' = id) :
    Changes op res w (Function.update w id (some p)) := by
  refine ⟨fun id' hid' _ => keeps_update w id p id' hid', fun id' hput _ => ?_⟩
  rw [hputs id' hput, update_self]
  simp

lemma changes_of_keeps {w' : ObjectName → Option Place} (h : Keeps w w')
    (hputs : ∀ id, ¬ op.Puts id) :
    Changes op res w w' :=
  ⟨fun id hid _ => h id hid, fun id hput => absurd hput (hputs id)⟩

lemma changes_remove {id : ObjectName} (hout : op.TakesOut id res) (hputs : ∀ id, ¬ op.Puts id) :
    Changes op res w (Function.update w id none) := by
  refine ⟨fun id' hid' hnot => ?_, fun id' hput => absurd hput (hputs id')⟩
  have hne : id' ≠ id := fun heq => hnot (heq ▸ hout)
  rw [update_of_ne hne]
  exact hid'

variable [DecidableEq Spec]

/-- Every call refines a change of the function. -/
theorem exec_places {q q' : PriorityQueue Spec Term} (h : q.Places w) (hop : op.Allowed)
    (hexec : q.exec cfg op = some (q', res)) : ∃ w', q'.Places w' ∧ Changes op res w w' := by
  have hrefl : Keeps w w := fun _ hid => hid
  cases op with
  | add pod now =>
    cases hexec
    exact ⟨_, h.add cfg pod now, changes_update .active fun _ hid => hid.symm⟩
  | addUnschedulableIfNotPresent pInfo cycle now =>
    simp only [exec] at hexec
    rcases h.addUnschedulableIfNotPresent cfg pInfo cycle now with
      ⟨-, err, heq⟩ | ⟨-, q1, heq, hplaces⟩
    · -- an error: nothing has changed
      rw [heq] at hexec
      cases hexec
      exact ⟨w, h, fun id hid _ => hid, fun id _ hdone => by cases hdone⟩
    · rw [heq] at hexec
      cases hexec
      exact ⟨_, hplaces, changes_update _ fun _ hid => hid.symm⟩
  | pop =>
    obtain ⟨⟨pInfo, q1⟩, hpop, heq⟩ := map_eq_some_iff.1 hexec
    cases heq
    exact ⟨_, h.pop cfg hpop, changes_remove rfl fun _ => id⟩
  | update oldPod newPod now =>
    cases hexec
    obtain ⟨p, hplaces⟩ := h.update cfg hop now
    exact ⟨_, hplaces, changes_update p fun _ hid => hid.symm⟩
  | delete pod =>
    cases hexec
    exact ⟨_, h.delete cfg pod, changes_remove rfl fun _ => id⟩
  | moveAllToActiveOrBackoffQueue event iter clock =>
    cases hexec
    obtain ⟨w', hplaces, hkeep⟩ :=
      h.movePodsToActiveOrBackoffQueue cfg iter (fun _ => true) event clock
    rw [filter_true] at hplaces
    exact ⟨w', hplaces, changes_of_keeps hkeep fun _ => id⟩
  | assignedPodAdded matching iter clock
  | assignedPodUpdated matching iter clock =>
    cases hexec
    obtain ⟨w', hplaces, hkeep⟩ := h.movePodsToActiveOrBackoffQueue cfg iter _ _ clock
    exact ⟨w', hplaces, changes_of_keeps hkeep fun _ => id⟩
  | flushBackoffQCompleted clock =>
    cases hexec
    obtain ⟨w', hplaces, hkeep⟩ := h.flushLoop cfg q.podBackoffQ.len clock
    exact ⟨w', hplaces, changes_of_keeps hkeep fun _ => id⟩
  | flushUnschedulableQLeftover iter clock =>
    cases hexec
    unfold flushUnschedulableQLeftover
    dsimp only
    split
    · obtain ⟨w', hplaces, hkeep⟩ :=
        h.movePodsToActiveOrBackoffQueue cfg iter _ _ fun n => clock (n + 1)
      exact ⟨w', hplaces, changes_of_keeps hkeep fun _ => id⟩
    · exact ⟨w, h, changes_of_keeps hrefl fun _ => id⟩

/-- The queue under calls from its callers. -/
def machine : Machine (PriorityQueue Spec Term) (Op Spec Term) where
  init := new
  step q op := if op.Allowed then (q.exec cfg op).map Prod.fst else none

lemma exists_places {tr : List (Op Spec Term)} {q : PriorityQueue Spec Term}
    (h : (machine cfg).Reach tr q) : ∃ w, q.Places w := by
  refine h.invariant (fun q => ∃ w, q.Places w) ⟨_, places_new⟩ fun q op q' ⟨w, hw⟩ hstep => ?_
  obtain ⟨hop, hsome⟩ := ite_none_right_eq_some.1 hstep
  obtain ⟨⟨q1, res⟩, hexec, rfl⟩ := map_eq_some_iff.1 hsome
  obtain ⟨w', hplaces, -⟩ := exec_places cfg hw hop hexec
  exact ⟨w', hplaces⟩

/-- In every reachable state a pod is in at most one sub-queue, and the next call loses no
pod but the one that it pops or deletes, and has the pod that it successfully puts in
exactly one. -/
theorem placement {tr : List (Op Spec Term)} {q : PriorityQueue Spec Term}
    (h : (machine cfg).Reach tr q) :
    (∀ id, (q.places id).length ≤ 1) ∧
      ∀ op q' res, op.Allowed → q.exec cfg op = some (q', res) →
        (∀ id, q.places id ≠ [] → ¬ op.TakesOut id res → q'.places id ≠ []) ∧
        (∀ id, op.Puts id → res = .done → (q'.places id).length = 1) := by
  obtain ⟨w, hw⟩ := exists_places cfg h
  constructor
  · intro id
    rw [hw.places_eq]
    exact length_toList_le
  intro op q' res hop hexec
  obtain ⟨w', hw', hchange⟩ := exec_places cfg hw hop hexec
  constructor
  · intro id hid hnot
    rw [hw.places_eq] at hid
    rw [hw'.places_eq]
    have hkept := hchange.kept id (by simpa using hid) hnot
    simpa using hkept
  · intro id hput hdone
    rw [hw'.places_eq]
    obtain ⟨p, hp⟩ := ne_none_iff_exists'.1 (hchange.put id hput hdone)
    rw [hp]
    rfl

/-- A pod that was popped and found unschedulable waits while another one is active; its
update then leaves it in one sub-queue and the other pod where it is. -/
theorem placement_unschedulable :
    ∃ (q q' : PriorityQueue Unit Unit) (a b : Pod Unit),
      (q.places a.id = [.unschedulable] ∧ q.places b.id = [.active]) ∧
      q.exec ⟨1, 10, fun x y => x.timestamp < y.timestamp, ∅, fun _ => []⟩ (.update a a 7) =
        some (q', .done) ∧
      (q'.places a.id).length = 1 ∧ q'.places b.id ≠ [] := by
  let cfg : Config Unit Unit := ⟨1, 10, fun x y => x.timestamp < y.timestamp, ∅, fun _ => []⟩
  let a : Pod Unit := ⟨⟨"ns", "a", by decide, by decide, by decide⟩, "1", "", 0, {}, ()⟩
  let b : Pod Unit := ⟨⟨"ns", "b", by decide, by decide, by decide⟩, "2", "", 0, {}, ()⟩
  obtain ⟨q, h, hview⟩ := (machine cfg).exists_reach (fun q => (q.places a.id, q.places b.id))
    [.add a 1, .add b 2, .pop,
      .addUnschedulableIfNotPresent { newQueuedPodInfo cfg a 1 with attempts := 1 } 1 3]
    ([.unschedulable], [.active]) (by decide +kernel)
  obtain ⟨ha, hb⟩ := Prod.mk.inj hview
  obtain ⟨hkept, hput⟩ := (placement cfg h).2 (.update a a 7) _ _ rfl rfl
  exact ⟨q, _, a, b, ⟨ha, hb⟩, rfl, hput a.id rfl rfl, hkept b.id (by simp [hb]) id⟩

end PriorityQueue

end Kubernetes.Scheduler.SchedulingQueue
