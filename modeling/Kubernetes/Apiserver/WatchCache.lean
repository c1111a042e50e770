import Kubernetes.Apiserver.SelectionPredicate
import Kubernetes.RingBuffer

/-! # The cached state and its recent history

A model of `storage/cacher/watch_cache.go`. The watch cache keeps the current objects and, in a
cyclic buffer whose capacity adapts to the rate of events, the most recent changes. A watch
that starts at a resource version gets the changes after it from the buffer, if they are all
still there; one that starts at version 0 gets the current objects as additions.

Events of the source have one of four types; here a `Change` is one of the types `Added`,
`Modified` and `Deleted`, and a `WatchCacheEvent` is a change or a bookmark. Objects are of an
arbitrary type `O` (`Config` has what the code asks of an object); that their keys and
attributes cannot be computed, or a version not parsed, is left out. Times are in nanoseconds.

`getAllEventsSince_spec`: what a watch from a positive version is given are all changes after it.
-/

namespace Kubernetes.Apiserver

open List Nat

/-- `indexedTriggerFunc`. -/
structure IndexedTrigger (O : Type) where
  indexName : String
  indexerFunc : O → String

/-- What the cacher is configured with, the functions of the versioner included. -/
structure Config (O : Type) where
  keyFunc : O → String
  getAttrs : O → Labels × Fields
  objectResourceVersion : O → ℕ
  updateObject : O → ℕ → O
  newFunc : O
  indexedTrigger : Option (IndexedTrigger O)
  /-- The index function computes the indexed field. -/
  indexer_eq : ∀ t, indexedTrigger = some t →
    ∀ o, t.indexerFunc o = Fields.get (getAttrs o).2 t.indexName
  /-- The resource version is not part of the key. -/
  keyFunc_updateObject : ∀ o rv, keyFunc (updateObject o rv) = keyFunc o

structure StoreElement (O : Type) where
  key : String
  object : O
  labels : Labels
  fields : Fields

/-- The element of an object, as `processEvent` and `Replace` make it. -/
def Config.element {O : Type} (cfg : Config O) (object : O) : StoreElement O where
  key := cfg.keyFunc object
  object := object
  labels := (cfg.getAttrs object).1
  fields := (cfg.getAttrs object).2

inductive ChangeType where
  | added
  | modified
  | deleted
deriving DecidableEq

/-- A `watchCacheEvent` that is not a bookmark. `previous` is the previous object with its
attributes, if there was one. -/
structure Change (O : Type) where
  type : ChangeType
  object : O
  objLabels : Labels
  objFields : Fields
  previous : Option (StoreElement O)
  key : String
  resourceVersion : ℕ
  recordTime : ℤ

inductive WatchCacheEvent (O : Type) where
  | change (c : Change O)
  | bookmark (resourceVersion : ℕ)

def WatchCacheEvent.resourceVersion {O : Type} : WatchCacheEvent O → ℕ
  | .change c => c.resourceVersion
  | .bookmark rv => rv

/-- The change of an event that is not a bookmark. -/
def WatchCacheEvent.change? {O : Type} : WatchCacheEvent O → Option (Change O)
  | .change c => some c
  | .bookmark _ => none

structure WatchCache (O : Type) where
  events : RingBuffer (Change O)
  upperBoundCapacity : ℕ
  lowerBoundCapacity : ℕ
  store : GoMap String (StoreElement O)
  resourceVersion : ℕ
  listResourceVersion : ℕ

def eventFreshDuration : ℤ := 75 * 1000000000
def defaultLowerBoundCapacity : ℕ := 100
def defaultUpperBoundCapacity : ℕ := 100 * 1024

def newWatchCache (O : Type) : WatchCache O where
  events := .empty defaultLowerBoundCapacity
  upperBoundCapacity := defaultUpperBoundCapacity
  lowerBoundCapacity := defaultLowerBoundCapacity
  store := ∅
  resourceVersion := 0
  listResourceVersion := 0

/-- The errors of `GetAllEventsSinceThreadUnsafe`. -/
inductive WatchError where
  /-- "watch cache isn't correctly initialized" -/
  | notInitialized
  /-- "too old resource version: rv (oldest)" -/
  | expired (resourceVersion oldest : ℕ)
deriving DecidableEq

/-- `sort.Search`: the smallest index below `n` at which `f` holds, or `n`. -/
def sortSearch (n : ℕ) (f : ℕ → Bool) : ℕ := (List.range n).findIdx f

namespace WatchCache

variable {O : Type} (cfg : Config O) (w : WatchCache O)

/-- The age of the event in a cell at a given time. -/
def age (eventTime : ℤ) (i : ℕ) : Option ℤ :=
  (w.events.cell i).map fun e => eventTime - e.recordTime

/-- `resizeCacheLocked`: double the capacity while all cached events are fresh, halve it when
the events of the most recent quarter are not. -/
def resizeCacheLocked (eventTime : ℤ) : WatchCache O :=
  if w.events.full && (w.age eventTime w.events.startIndex).any (· < eventFreshDuration) then
    let capacity := min (w.events.capacity * 2) w.upperBoundCapacity
    if capacity > w.events.capacity then { w with events := w.events.resize capacity } else w
  else if w.events.full &&
      (w.age eventTime (w.events.endIndex - w.events.capacity / 4)).any
        (· > eventFreshDuration) then
    let capacity := max (w.events.capacity / 2) w.lowerBoundCapacity
    if capacity < w.events.capacity then { w with events := w.events.resize capacity } else w
  else w

def updateCache (event : Change O) : WatchCache O :=
  let w := w.resizeCacheLocked event.recordTime
  { w with events := w.events.push event }

/-- The event that `processEvent` makes of an object from the storage. -/
def eventOf (type : ChangeType) (object : O) (now : ℤ) : Change O where
  type := type
  object := object
  objLabels := (cfg.getAttrs object).1
  objFields := (cfg.getAttrs object).2
  previous := w.store.lookup (cfg.keyFunc object)
  key := cfg.keyFunc object
  resourceVersion := cfg.objectResourceVersion object
  recordTime := now

/-- `updateFunc`: `Add` and `Update` set the element, `Delete` removes it. -/
def updateStore (store : GoMap String (StoreElement O)) (type : ChangeType)
    (elem : StoreElement O) : GoMap String (StoreElement O) :=
  match type with
  | .added => store.insert elem.key elem
  | .modified => store.insert elem.key elem
  | .deleted => store.erase elem.key

/-- `processEvent`, the part under the lock. -/
def processEvent (type : ChangeType) (object : O) (now : ℤ) : WatchCache O :=
  let event := w.eventOf cfg type object now
  { w.updateCache event with
    resourceVersion := event.resourceVersion
    store := updateStore w.store type (cfg.element object) }

def replace (objs : List O) (version : ℕ) : WatchCache O :=
  { w with
    events := w.events.clear
    store := objs.foldl (fun store o => store.insert (cfg.keyFunc o) (cfg.element o)) ∅
    listResourceVersion := version
    resourceVersion := version }

/-- The addition with which a watch from version 0 is told of an object. -/
def addition (elem : StoreElement O) : Change O where
  type := .added
  object := elem.object
  objLabels := (cfg.getAttrs elem.object).1
  objFields := (cfg.getAttrs elem.object).2
  previous := none
  key := elem.key
  resourceVersion := w.resourceVersion
  recordTime := 0

/-- The oldest version that a watch can still be given. -/
def oldest : Option ℕ :=
  if 0 < w.listResourceVersion ∧ w.events.startIndex = 0 then some (w.listResourceVersion + 1)
  else if 0 < w.events.endIndex - w.events.startIndex then
    (w.events.cell w.events.startIndex).map (·.resourceVersion)
  else none

/-- `GetAllEventsSinceThreadUnsafe`; `order` is that in which the store lists its elements. -/
def getAllEventsSince (resourceVersion : ℕ) (order : IterOrder String) :
    Except WatchError (List (Change O)) :=
  match w.oldest with
  | none => .error .notInitialized
  | some oldest =>
    if resourceVersion = 0 then
      .ok (((order.order w.store.keys).filterMap fun key => w.store.lookup key).map
        (w.addition cfg))
    else if resourceVersion < oldest - 1 then .error (.expired resourceVersion (oldest - 1))
    else
      let first := sortSearch (w.events.endIndex - w.events.startIndex) fun i =>
        (w.events.cell (w.events.startIndex + i)).any fun e => resourceVersion < e.resourceVersion
      .ok (w.events.since (w.events.startIndex + first))

/-! ## The history buffer -/

variable {w : WatchCache O} {log : List (Change O)}

lemma holds_resizeCacheLocked (h : w.events.Holds log) (eventTime : ℤ)
    (hlower : 0 < w.lowerBoundCapacity) : (w.resizeCacheLocked eventTime).events.Holds log := by
  unfold resizeCacheLocked
  split
  · rename_i hcond
    rw [Bool.and_eq_true] at hcond
    dsimp only
    split
    · exact h.resize hcond.1 (by omega)
    · exact h
  · split_ifs with hcond
    · rw [Bool.and_eq_true] at hcond
      dsimp only
      split
      · exact h.resize hcond.1 (by omega)
      · exact h
    · exact h

lemma holds_updateCache (h : w.events.Holds log) (event : Change O)
    (hlower : 0 < w.lowerBoundCapacity) :
    (w.updateCache event).events.Holds (log ++ [event]) :=
  (holds_resizeCacheLocked h event.recordTime hlower).push event

/-- Resizing touches the buffer only. -/
lemma resizeCacheLocked_lower (w : WatchCache O) (eventTime : ℤ) :
    (w.resizeCacheLocked eventTime).lowerBoundCapacity = w.lowerBoundCapacity ∧
      (w.resizeCacheLocked eventTime).listResourceVersion = w.listResourceVersion := by
  unfold resizeCacheLocked
  dsimp only
  split_ifs <;> exact ⟨rfl, rfl⟩

/-! ## What a watch is given -/

lemma sortSearch_getElem? {α : Type} (l : List α) (p : α → Bool) (f : ℕ → Bool)
    (hf : ∀ i, i < l.length → f i = (l[i]?).any p) :
    sortSearch l.length f = l.findIdx p := by
  unfold sortSearch
  induction l generalizing f with
  | nil => rfl
  | cons a l ih =>
    rw [length_cons, range_succ_eq_map, findIdx_cons, findIdx_cons, findIdx_map]
    have hzero : f 0 = p a := hf 0 (succ_pos _)
    have htail : (List.range l.length).findIdx (f ∘ succ) = l.findIdx p := by
      refine ih (f ∘ succ) ?_
      intro i hi
      exact hf (i + 1) (succ_lt_succ hi)
    rw [hzero, htail]

/-- In a list with increasing versions, what lies after a version is the end of the list. -/
lemma drop_findIdx_eq_filter {l : List (Change O)} {rv : ℕ}
    (h : l.Pairwise fun a b => a.resourceVersion < b.resourceVersion) :
    l.drop (l.findIdx fun e => decide (rv < e.resourceVersion)) =
      l.filter fun e => decide (rv < e.resourceVersion) := by
  induction l with
  | nil => rfl
  | cons a l ih =>
    rcases pairwise_cons.1 h with ⟨ha, hl⟩
    rw [findIdx_cons, filter_cons]
    by_cases hrv : rv < a.resourceVersion
    · rw [decide_eq_true hrv]
      symm
      -- the versions after `a` are greater still
      have hall : l.filter (fun e => decide (rv < e.resourceVersion)) = l := by
        refine filter_eq_self.2 ?_
        intro e he
        exact decide_eq_true (hrv.trans (ha e he))
      rw [if_pos rfl, hall]
      rfl
    · rw [decide_eq_false hrv]
      exact ih hl

/-- `cache[startIndex]` is the first entry that is still in the buffer. -/
lemma cell_startIndex (h : w.events.Holds log) (i : ℕ)
    (hi : i < w.events.endIndex - w.events.startIndex) :
    w.events.cell (w.events.startIndex + i) = (log.drop w.events.startIndex)[i]? := by
  rw [getElem?_drop]
  exact h.cell_eq _ (le_add_right _ _) (by omega)

/-- A watch from a positive version is given all changes after it, or an error. -/
theorem getAllEventsSince_spec (h : w.events.Holds log)
    (hsorted : log.Pairwise fun a b => a.resourceVersion < b.resourceVersion)
    (hlist : ∀ e ∈ log, w.listResourceVersion < e.resourceVersion) {rv : ℕ} (hrv : 0 < rv)
    {order : IterOrder String} {events : List (Change O)}
    (hok : w.getAllEventsSince cfg rv order = .ok events) :
    events = log.filter (fun e => decide (rv < e.resourceVersion)) ∧
      w.listResourceVersion ≤ rv ∧
      ∀ e ∈ log.take w.events.startIndex, e.resourceVersion ≤ rv := by
  have hend := h.end_eq
  set start := w.events.startIndex
  set newer := fun e : Change O => decide (rv < e.resourceVersion)
  have hlen : (log.drop start).length = w.events.endIndex - start := by
    rw [length_drop, hend]
  unfold getAllEventsSince at hok
  cases hold : w.oldest with
  | none =>
    rw [hold] at hok
    cases hok
  | some oldest =>
    rw [hold] at hok
    simp only [if_neg hrv.ne'] at hok
    split_ifs at hok with hge
    -- nothing after `rv` was dropped from the buffer
    have hdrop : w.listResourceVersion ≤ rv ∧ ∀ e ∈ log.take start, e.resourceVersion ≤ rv := by
      unfold WatchCache.oldest at hold
      split at hold
      · rename_i hfirst
        cases hold
        refine ⟨by omega, ?_⟩
        intro e he
        rw [show start = 0 from hfirst.2, take_zero] at he
        cases he
      split_ifs at hold with hsize
      have hlt : start < log.length := by omega
      have hcell : w.events.cell start = some log[start] := by
        rw [h.cell_eq _ le_rfl (by omega), getElem?_eq_getElem hlt]
      rw [hcell, Option.map_some, Option.some.injEq] at hold
      have hfirst := hlist _ (getElem_mem hlt)
      refine ⟨by omega, ?_⟩
      intro e he
      have hsplit : log = log.take start ++ log[start] :: log.drop (start + 1) := by
        rw [← drop_eq_getElem_cons hlt, take_append_drop]
      rw [hsplit] at hsorted
      have hbefore := (pairwise_append.1 hsorted).2.2 e he _ mem_cons_self
      omega
    refine ⟨?_, hdrop⟩
    have hfirst : sortSearch (w.events.endIndex - start)
        (fun i => (w.events.cell (start + i)).any newer) = (log.drop start).findIdx newer := by
      rw [← hlen]
      refine sortSearch_getElem? _ _ _ ?_
      intro i hi
      rw [cell_startIndex h i (by omega)]
    rw [hfirst] at hok
    have hevents := Except.ok.inj hok
    have htake : (log.take start).filter newer = [] := by
      refine filter_eq_nil_iff.2 ?_
      intro e he
      have hle := hdrop.2 e he
      simp only [newer, decide_eq_true_eq]
      omega
    calc events
        = log.drop (start + (log.drop start).findIdx newer) := by
          rw [← hevents, h.since_eq (le_add_right _ _)]
      _ = (log.drop start).filter newer := by
          rw [← drop_drop, drop_findIdx_eq_filter
            (List.Pairwise.sublist (drop_sublist _ _) hsorted)]
      _ = log.filter newer := by
          conv_rhs => rw [← take_append_drop start log]
          rw [filter_append, htake, nil_append]

/-- A watch from version 0 is given the elements of the store. -/
lemma getAllEventsSince_zero {order : IterOrder String} {events : List (Change O)}
    (hok : w.getAllEventsSince cfg 0 order = .ok events) :
    events = ((order.order w.store.keys).filterMap fun key => w.store.lookup key).map
      (w.addition cfg) := by
  unfold getAllEventsSince at hok
  cases hold : w.oldest with
  | none =>
    rw [hold] at hok
    cases hok
  | some oldest =>
    rw [hold] at hok
    exact (Except.ok.inj hok).symm

end WatchCache

end Kubernetes.Apiserver
