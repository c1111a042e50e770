import Kubernetes.Apiserver.CacherWatches

/-! # The watch cache over a whole run

Events and lists come one after the other, at any time and with any bounds of the capacity. The
buffer keeps the end of the history since the last list, a watch is given all of the history
that it needs or an error, and the store is what the history makes of the list
(`watch_history_exact`). As long as there is neither a list with a positive version nor an
event, the error is that the cache is not initialized.
-/

namespace Kubernetes.Apiserver

open List Cacher

variable {O : Type}

inductive CacheCall (O : Type) where
  | event (type : ChangeType) (object : O) (now : ℤ)
  | replace (objs : List O) (version : ℕ)

/-- A cache, with the last list and the events since then. -/
structure Recording (O : Type) where
  cache : WatchCache O
  list : List O
  log : List (Change O)

def cacheCalls (cfg : Config O) (lower upper : ℕ) : Machine (Recording O) (CacheCall O) where
  init :=
    { cache := { newWatchCache O with
        events := .empty lower, lowerBoundCapacity := lower, upperBoundCapacity := upper }
      list := []
      log := [] }
  step s
    | .event type object now => some
        { s with
          cache := s.cache.processEvent cfg type object now
          log := s.log ++ [s.cache.eventOf cfg type object now] }
    | .replace objs version => some ⟨s.cache.replace cfg objs version, objs, []⟩

/-- Versions increase from one event to the next, and from a list to the events after it. -/
def CacheCall.Newer (cfg : Config O) (s : Recording O) : CacheCall O → Prop
  | .event _ object _ => s.cache.resourceVersion < cfg.objectResourceVersion object
  | .replace _ _ => True

/-- What the events make of a list. -/
def storeAfter (cfg : Config O) (list : List O) (log : List (Change O)) :
    GoMap String (StoreElement O) :=
  log.foldl (fun store e => WatchCache.updateStore store e.type (cfg.element e.object))
    (list.foldl (fun store o => store.insert (cfg.keyFunc o) (cfg.element o)) ∅)

namespace Recording

variable {cfg : Config O} {s : Recording O}

/-- The window is the end of the log, and the store is the list after the log. -/
structure Inv (cfg : Config O) (s : Recording O) : Prop where
  lower : 0 < s.cache.lowerBoundCapacity
  holds : s.cache.events.Holds s.log
  /-- The last event is never dropped. -/
  window : s.log = [] ∨ s.cache.events.startIndex < s.cache.events.endIndex
  sorted : s.log.Pairwise fun a b => a.resourceVersion < b.resourceVersion
  current : ∀ e ∈ s.log, e.resourceVersion ≤ s.cache.resourceVersion
  listed : ∀ e ∈ s.log, s.cache.listResourceVersion < e.resourceVersion
  list_le : s.cache.listResourceVersion ≤ s.cache.resourceVersion
  store : s.cache.store = storeAfter cfg s.list s.log

lemma Inv.event (h : s.Inv cfg) (type : ChangeType) {object : O} (now : ℤ)
    (hnewer : s.cache.resourceVersion < cfg.objectResourceVersion object) :
    Inv cfg ⟨s.cache.processEvent cfg type object now, s.list,
      s.log ++ [s.cache.eventOf cfg type object now]⟩ := by
  rcases s.cache.resizeCacheLocked_lower now with ⟨hlower, hlist⟩
  have hlisted := h.list_le.trans_lt hnewer
  constructor
  case lower => exact hlower ▸ h.lower
  case holds => exact WatchCache.holds_updateCache h.holds _ h.lower
  case window =>
    have hresized := WatchCache.holds_resizeCacheLocked h.holds now h.lower
    exact .inr (Nat.lt_succ_of_le (hresized.startIndex_push _).1)
  case sorted =>
    refine pairwise_append.2 ⟨h.sorted, pairwise_singleton _ _, ?_⟩
    intro a ha
    exact forall_mem_singleton.2 ((h.current a ha).trans_lt hnewer)
  case current =>
    refine forall_mem_append.2 ⟨?_, forall_mem_singleton.2 le_rfl⟩
    intro e he
    exact (h.current e he).trans hnewer.le
  case listed =>
    intro e he
    refine hlist.trans_lt ?_
    exact forall_mem_append.2 ⟨h.listed, forall_mem_singleton.2 hlisted⟩ e he
  case list_le => exact hlist.trans_le hlisted.le
  case store =>
    unfold storeAfter
    rw [foldl_append]
    show WatchCache.updateStore s.cache.store type (cfg.element object) = _
    rw [h.store]
    rfl

lemma Inv.replace (h : s.Inv cfg) (objs : List O) (version : ℕ) :
    Inv cfg ⟨s.cache.replace cfg objs version, objs, []⟩ where
  lower := h.lower
  holds := h.holds.clear
  window := .inl rfl
  sorted := .nil
  current := nofun
  listed := nofun
  list_le := le_refl _
  store := rfl

lemma inv {lower upper : ℕ} (hlower : 0 < lower) {calls : List (CacheCall O)}
    (h : (cacheCalls cfg lower upper).ReachWhen (fun s call => call.Newer cfg s) calls s) :
    s.Inv cfg := by
  refine h.invariant (Inv cfg) ?_ ?_
  · exact ⟨hlower, RingBuffer.holds_empty hlower, .inl rfl, .nil, nofun, nofun, le_refl _, rfl⟩
  · intro s call s' hs hnewer hstep
    cases call with
    | event type object now =>
      cases hstep
      exact hs.event type now hnewer
    | replace objs version =>
      cases hstep
      exact hs.replace objs version

/-- When there is nothing that a watch could be given. -/
lemma Inv.oldest_eq_none (h : s.Inv cfg) :
    s.cache.oldest = none ↔ s.cache.listResourceVersion = 0 ∧ s.log = [] := by
  have hend := h.holds.end_eq
  have hle := h.holds.start_le
  unfold WatchCache.oldest
  split_ifs with hlist hsize
  · simp only [false_iff]
    omega
  · rw [h.holds.cell_eq _ le_rfl (by omega), getElem?_eq_getElem (by omega)]
    simp only [Option.map_some, reduceCtorEq, false_iff]
    rintro ⟨-, hlog⟩
    rw [hlog, length_nil] at hend
    omega
  · have hlog : s.log = [] := h.window.resolve_right (by omega)
    rw [hlog, length_nil] at hend
    simp only [hlog, and_true, true_iff]
    omega

end Recording

/-- Whatever was evicted or resized, the buffer holds the last events in their order, a watch from a
positive version gets all events after it or an error, and the store is what they make of the last
list. -/
theorem watch_history_exact (cfg : Config O) (lower upper : ℕ) (hlower : 0 < lower)
    {calls : List (CacheCall O)} {s : Recording O}
    (h : (cacheCalls cfg lower upper).ReachWhen (fun s call => call.Newer cfg s) calls s) :
    let buffer := s.cache.events
    (buffer.since buffer.startIndex = s.log.drop buffer.startIndex ∧
      (s.log.drop buffer.startIndex).length ≤ buffer.capacity) ∧
    (∀ rv > 0, ∀ order,
      match s.cache.getAllEventsSince cfg rv order with
      | .ok events => events = s.log.filter (rv < ·.resourceVersion) ∧
          s.cache.listResourceVersion ≤ rv ∧
          ∀ e ∈ s.log.take buffer.startIndex, e.resourceVersion ≤ rv
      | .error (.expired _ _) => True
      | .error .notInitialized => s.cache.listResourceVersion = 0 ∧ s.log = []) ∧
    s.cache.store = storeAfter cfg s.list s.log := by
  have hinv := Recording.inv hlower h
  have hend := hinv.holds.end_eq
  have hsize := hinv.holds.end_le
  refine ⟨⟨hinv.holds.since_eq le_rfl, by rw [length_drop]; omega⟩, ?_, hinv.store⟩
  intro rv hrv order
  split
  · rename_i events hok
    exact WatchCache.getAllEventsSince_spec cfg hinv.holds hinv.sorted hinv.listed hrv hok
  · trivial
  · rename_i herror
    refine hinv.oldest_eq_none.1 ?_
    unfold WatchCache.getAllEventsSince at herror
    cases hold : s.cache.oldest with
    | none => rfl
    | some oldest =>
      simp only [hold] at herror
      split_ifs at herror
      cases herror

/-- Three events come after a list. For the second one the buffer grows to two cells, and the third
one evicts the first. -/
theorem watch_history_evicted :
    ∃ s : Recording Item, s.log.length = 3 ∧ s.cache.events.capacity = 2 ∧
      s.cache.events.since 1 = s.log.drop 1 ∧
      s.cache.store = storeAfter itemConfig [⟨"a", 3⟩] s.log := by
  have h := watch_history_exact itemConfig 1 2 one_pos
    (.step (CacheCall.event .modified ⟨"b", 8⟩ 1)
      (.step (CacheCall.event .deleted ⟨"a", 7⟩ 1)
        (.step (CacheCall.event .added ⟨"b", 6⟩ 0)
          (.step (CacheCall.replace [⟨"a", 3⟩] 5) .init trivial rfl)
          (by exact Nat.lt_succ_self 5) rfl)
        (by exact Nat.lt_succ_self 6) rfl)
      (by exact Nat.lt_succ_self 7) rfl)
  exact ⟨_, rfl, rfl, h.1.1, h.2.2⟩

/-- A watch of a new cache is not told that its version is too old. -/
theorem watch_history_new :
    (cacheCalls itemConfig 100 102400).init.cache.getAllEventsSince itemConfig 5 asListed =
      .error .notInitialized :=
  rfl

end Kubernetes.Apiserver
