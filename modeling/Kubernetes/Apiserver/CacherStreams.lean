import Kubernetes.Apiserver.CacherPipeline
import Kubernetes.Watermark

/-! # What every watcher is owed

A watcher is owed the watch events of the changes after the version it started from, in the
order in which they were applied; one that started from version 0 is first owed additions for
the state it starts from, and whatever was still to be dispatched then and passes for new.

At every moment what a watcher has sent, what is on its way to it and what is still to be
dispatched make up what it is owed, and no bookmark is on its way before a change that is not
newer (`Stream`). A watcher that was closed keeps only a first part of this.

Watchers may not be registered while the cacher lists anew (`RegistersReady`): they would not be
terminated and miss what happened between the lists.
-/

namespace Kubernetes.Apiserver

open Watermark CacheWatcher Function Nat IndexedWatchers
open List hiding take

variable {O : Type} {cfg : Config O} (w : CacheWatcher O)

namespace CacheWatcher

/-- The watch events that come of events in the input channel. -/
def arriving (cfg : Config O) (w : CacheWatcher O) (events : List (WatchCacheEvent O)) :
    List (WatchEvent O) :=
  (events.filter fun e => decide (w.resourceVersion < e.resourceVersion)).filterMap
    (convertToWatchEvent cfg w.filter)

/-- What was sent and what will be, once the events `offers` are added to the channel. Nothing
more is sent by a stopped watcher. -/
def assured (cfg : Config O) (w : CacheWatcher O) (offers : List (WatchCacheEvent O)) :
    List (WatchEvent O) :=
  w.result ++ w.sending.toList ++
    if w.stopped then []
    else w.initEvents.filterMap (convertChange cfg w.filter) ++ w.arriving cfg (w.input ++ offers)

/-- What the watcher is owed if `log` are the changes of its list. -/
def owed (cfg : Config O) (w : CacheWatcher O) (log : List (Change O)) : List (WatchEvent O) :=
  (w.start.initial ++ w.start.stale ++
    log.filter fun c => decide (w.start.version < c.resourceVersion)).filterMap
      (convertChange cfg w.filter)

/-! ## One watcher -/

lemma arriving_append (es fs : List (WatchCacheEvent O)) :
    w.arriving cfg (es ++ fs) = w.arriving cfg es ++ w.arriving cfg fs := by
  unfold CacheWatcher.arriving
  rw [filter_append, filterMap_append]

lemma arriving_changes (cs : List (Change O)) :
    w.arriving cfg (cs.map .change) =
      (cs.filter fun c => decide (w.resourceVersion < c.resourceVersion)).filterMap
        (convertChange cfg w.filter) := by
  unfold CacheWatcher.arriving
  rw [filter_map, filterMap_map]
  rfl

variable {w : CacheWatcher O}

lemma mem_arriving {events : List (WatchCacheEvent O)} {x : WatchEvent O}
    (h : x ∈ w.arriving cfg events) :
    ∃ e ∈ events, w.resourceVersion < e.resourceVersion ∧
      convertToWatchEvent cfg w.filter e = some x := by
  rcases mem_filterMap.1 h with ⟨e, he, hx⟩
  rcases mem_filter.1 he with ⟨he, hrv⟩
  exact ⟨e, he, of_decide_eq_true hrv, hx⟩

lemma assured_take {w' : CacheWatcher O} (hsend : w.sending = none)
    (h : Cacher.take cfg w = some w') (offers : List (WatchCacheEvent O)) :
    w'.assured cfg offers = w.assured cfg offers := by
  unfold Cacher.take at h
  split at h
  · -- an initial event
    rename_i c initEvents hinit
    cases h
    unfold assured Cacher.toSend
    rw [hsend, hinit]
    cases w.stopped with
    | true => rfl
    | false =>
      simp only [Bool.false_eq_true, if_false, convertToWatchEvent, filterMap_cons]
      cases convertChange cfg w.filter c with
      | none => rfl
      | some e => simp [arriving]
  · split at h
    · -- an event from the channel
      rename_i hinit _ event input hinput
      cases h
      unfold assured Cacher.toSend arriving
      rw [hsend, hinit, hinput]
      cases w.stopped with
      | true => simp
      | false =>
        simp only [Bool.false_eq_true, if_false, cons_append, filter_cons, decide_eq_true_eq]
        split
        · rw [filterMap_cons]
          cases convertToWatchEvent cfg w.filter event with
          | none => rfl
          | some e => simp
        · rfl
    · split_ifs at h
      cases h
      rfl

lemma assured_send {event : WatchEvent O} (hsend : w.sending = some event)
    (offers : List (WatchCacheEvent O)) :
    assured cfg { w with result := w.result ++ [event], sending := none } offers =
      w.assured cfg offers := by
  unfold assured
  rw [hsend]
  simp [arriving]

lemma assured_drop {event : WatchEvent O} (hsend : w.sending = some event)
    (hstop : w.stopped = true) (offers : List (WatchCacheEvent O)) :
    w.assured cfg offers = assured cfg { w with sending := none } offers ++ [event] := by
  unfold assured
  rw [hsend, hstop]
  simp

/-- The channel takes an event that was offered. -/
lemma assured_input (w : CacheWatcher O) (event : WatchCacheEvent O)
    (offers : List (WatchCacheEvent O)) :
    assured cfg { w with input := w.input ++ [event] } offers = w.assured cfg (event :: offers) := by
  unfold assured arriving
  simp

lemma assured_append (offers more : List (WatchCacheEvent O)) :
    w.assured cfg (offers ++ more) =
      w.assured cfg offers ++ if w.stopped then [] else w.arriving cfg more := by
  unfold assured
  cases w.stopped with
  | true => simp
  | false =>
    simp only [Bool.false_eq_true, if_false]
    rw [← append_assoc w.input, arriving_append]
    simp only [append_assoc]

/-- A stopped watcher keeps a first part. -/
lemma assured_stop (cfg : Config O) (w : CacheWatcher O) (offers : List (WatchCacheEvent O)) :
    ∃ back, w.assured cfg offers = assured cfg { w with stopped := true } offers ++ back := by
  refine ⟨if w.stopped then [] else w.initEvents.filterMap (convertChange cfg w.filter) ++
    w.arriving cfg (w.input ++ offers), ?_⟩
  simp [assured]

lemma owed_append (w : CacheWatcher O) (log more : List (Change O)) :
    w.owed cfg (log ++ more) = w.owed cfg log ++
      (more.filter fun c => decide (w.start.version < c.resourceVersion)).filterMap
        (convertChange cfg w.filter) := by
  unfold CacheWatcher.owed
  rw [filter_append, ← append_assoc, filterMap_append]

end CacheWatcher

namespace Cacher

/-! ## All watchers -/

/-- The event of the current dispatch, as often as it is still to be offered to a watcher. -/
def offers (s : Cacher O) (i : ℕ) : List (WatchCacheEvent O) :=
  s.current.toList.flatMap (List.replicate ((s.watchersBuffer ++ s.blockedWatchers).count i))

/-- The changes whose dispatch has not started. -/
def coming (s : Cacher O) : List (Change O) := s.undispatched.filterMap WatchCacheEvent.change?

/-- What a watcher has sent, what is on its way to it and what is to be dispatched make up what it
is owed. No bookmark has a version below `floor`. -/
structure Stream (cfg : Config O) (floor : ℕ) (s : Cacher O) (i : ℕ) : Prop where
  served : ∃ rest, Serves WatchEvent.isBookmark WatchEvent.resourceVersion
      ((s.heap i).assured cfg (s.offers i)) rest
      ((s.heap i).owed cfg (s.epochs (s.heap i).start.epoch).log) ∧
    (s.registered i = true → rest = (s.heap i).arriving cfg (s.coming.map .change))
  marks : ∀ x ∈ (s.heap i).assured cfg (s.offers i), x.isBookmark = true →
    floor ≤ x.resourceVersion ∧ (s.heap i).resourceVersion < x.resourceVersion ∧
      x.resourceVersion ≤ s.watchCache.resourceVersion
  level : (s.heap i).resourceVersion = (s.heap i).start.version ∨
    (s.heap i).resourceVersion ≤ s.watchCache.resourceVersion ∧
      (s.heap i).start.version ≤ s.watchCache.resourceVersion
  epoch_le : (s.heap i).start.epoch ≤ s.epoch
  now : s.registered i = true → (s.heap i).start.epoch = s.epoch

/-- What a watcher is made with. -/
structure SameBegin (w w' : CacheWatcher O) : Prop where
  filter : w'.filter = w.filter
  resourceVersion : w'.resourceVersion = w.resourceVersion
  start : w'.start = w.start

lemma SameBegin.refl : SameBegin w w := ⟨rfl, rfl, rfl⟩

variable {w w' : CacheWatcher O}

lemma SameBegin.arriving (h : SameBegin w w') (events : List (WatchCacheEvent O)) :
    w'.arriving cfg events = w.arriving cfg events := by
  unfold CacheWatcher.arriving
  rw [h.filter, h.resourceVersion]

lemma SameBegin.owed (h : SameBegin w w') (log : List (Change O)) :
    w'.owed cfg log = w.owed cfg log := by
  unfold CacheWatcher.owed
  rw [h.filter, h.start]

lemma sameBegin_take : take cfg w = some w' → SameBegin w w' := by
  fun_cases take cfg w <;> intro h <;> cases h
  all_goals exact ⟨rfl, rfl, rfl⟩

/-! ### Offers and what is to come -/

variable {s s' : Cacher O} {i floor : ℕ} {event : WatchCacheEvent O}

lemma offers_of_current (h : s.current = some event) (i : ℕ) :
    s.offers i = List.replicate ((s.watchersBuffer ++ s.blockedWatchers).count i) event := by
  unfold offers
  rw [h, Option.toList_some, flatMap_cons, flatMap_nil, append_nil]

lemma count_cons_if (i j : ℕ) (l : List ℕ) :
    (j :: l).count i = l.count i + if i = j then 1 else 0 := by
  rw [count_cons]
  by_cases hij : i = j
  · rw [hij, beq_self_eq_true, if_pos rfl, if_pos rfl]
  · rw [if_neg hij, if_neg fun h => hij (beq_iff_eq.1 h).symm]

lemma offers_of_not_mem (h : i ∉ s.watchersBuffer ++ s.blockedWatchers) : s.offers i = [] := by
  unfold offers
  rw [count_eq_zero_of_not_mem h]
  cases s.current <;> rfl

lemma offers_of_quiet (h : Registry cfg s) (hd : s.dispatching = false) (i : ℕ) :
    s.offers i = [] := by
  refine offers_of_not_mem ?_
  rw [(h.quiet hd).2.1, (h.quiet hd).2.2]
  exact not_mem_nil

lemma mem_coming {c : Change O} (h : c ∈ s.coming) : .change c ∈ s.pipeline := by
  rcases mem_filterMap.1 h with ⟨e, he, hc⟩
  have hev : e = .change c := by
    cases e with
    | change c' =>
      cases hc
      rfl
    | bookmark rv => cases hc
  subst hev
  unfold undispatched at he
  unfold pipeline
  rcases mem_append.1 he with he | he
  · rcases mem_append.1 he with he | he
    · split at he
      · cases he
      · have hcur : s.current = some (.change c) := Option.mem_toList.1 he
        rw [hcur]
        exact mem_append_left _ (mem_append_left _ (mem_singleton_self _))
    · exact mem_append_left _ (mem_append_right _ he)
  · exact mem_append_right _ he

/-! ### Rules -/

namespace Stream

variable (h : Stream cfg floor s i)

include h

lemma congr (hbegin : SameBegin (s.heap i) (s'.heap i))
    (hassured : (s'.heap i).assured cfg (s'.offers i) = (s.heap i).assured cfg (s.offers i))
    (hlog : ∀ e ≤ s.epoch, s'.epochs e = s.epochs e)
    (hreg : s'.registered i = true → s.registered i = true ∧ s'.coming = s.coming ∧
      s'.epoch = s.epoch)
    (hrv : s.watchCache.resourceVersion ≤ s'.watchCache.resourceVersion)
    (hepoch : s.epoch ≤ s'.epoch) : Stream cfg floor s' i := by
  rcases h.served with ⟨rest, hserves, hrest⟩
  constructor
  · refine ⟨rest, ?_, ?_⟩
    · rw [hassured, hbegin.owed, hbegin.start, hlog _ h.epoch_le]
      exact hserves
    intro hreg'
    rcases hreg hreg' with ⟨hold, hcoming, -⟩
    rw [hcoming, hbegin.arriving]
    exact hrest hold
  · intro x hx hmark
    rw [hassured] at hx
    rw [hbegin.resourceVersion]
    rcases h.marks x hx hmark with ⟨hfloor, hnewer, hle⟩
    exact ⟨hfloor, hnewer, hle.trans hrv⟩
  · rw [hbegin.resourceVersion, hbegin.start]
    have hlevel := h.level
    omega
  · rw [hbegin.start]
    exact h.epoch_le.trans hepoch
  · intro hreg'
    rcases hreg hreg' with ⟨hold, -, heq⟩
    rw [hbegin.start, heq]
    exact h.now hold

lemma same (hheap : s'.heap i = s.heap i)
    (hws : ∀ t, s'.watchers.has i t = true → s.watchers.has i t = true)
    (hoffers : s'.offers i = s.offers i) (hepochs : s'.epochs = s.epochs)
    (hepoch : s'.epoch = s.epoch) (hcoming : s'.coming = s.coming)
    (hrv : s.watchCache.resourceVersion ≤ s'.watchCache.resourceVersion) :
    Stream cfg floor s' i := by
  refine h.congr ?_ ?_ (fun e _ => congrFun hepochs e) ?_ hrv (le_of_eq hepoch.symm)
  · rw [hheap]
    exact SameBegin.refl _
  · rw [hheap, hoffers]
  · intro hreg
    unfold registered at hreg
    rw [hheap] at hreg
    exact ⟨hws _ hreg, hcoming, hepoch⟩

/-- The watcher loses the last of what was on its way. -/
lemma lose (hbegin : SameBegin (s.heap i) (s'.heap i)) (back : List (WatchEvent O))
    (hassured : (s.heap i).assured cfg (s.offers i) =
      (s'.heap i).assured cfg (s'.offers i) ++ back)
    (hepochs : s'.epochs = s.epochs) (hepoch : s'.epoch = s.epoch)
    (hreg : s'.registered i = true → s.registered i = true ∧ s'.coming = s.coming ∧
      data WatchEvent.isBookmark back = [])
    (hrv : s'.watchCache = s.watchCache) : Stream cfg floor s' i := by
  rcases h.served with ⟨rest, hserves, hrest⟩
  rw [hassured] at hserves
  constructor
  · refine ⟨data WatchEvent.isBookmark back ++ rest, ?_, ?_⟩
    · rw [hbegin.owed, hbegin.start, hepochs]
      exact hserves.takeBack
    intro hreg'
    rcases hreg hreg' with ⟨hold, hcoming, hback⟩
    rw [hback, nil_append, hcoming, hbegin.arriving]
    exact hrest hold
  · intro x hx hmark
    rw [hrv, hbegin.resourceVersion]
    refine h.marks x ?_ hmark
    rw [hassured]
    exact mem_append_left _ hx
  · rw [hbegin.resourceVersion, hbegin.start, hrv]
    exact h.level
  · rw [hbegin.start, hepoch]
    exact h.epoch_le
  · intro hreg'
    rw [hbegin.start, hepoch]
    exact h.now (hreg hreg').1

/-- A change is applied: it is owed to the watcher, and still to come. -/
lemma process (hpend : s.pending = none) {type : ChangeType} {object : O}
    {now : ℤ} (hrv : s.watchCache.resourceVersion < cfg.objectResourceVersion object) :
    Stream cfg floor (s.process cfg type object now) i := by
  set s' := s.process cfg type object now with hs'
  set c := s.watchCache.eventOf cfg type object now with hc
  have hver : c.resourceVersion = cfg.objectResourceVersion object := rfl
  have hlevel := h.level
  rcases h.served with ⟨rest, hserves, hrest⟩
  set w := s.heap i
  have hcoming : s'.coming = s.coming ++ [c] := by
    simp [coming, undispatched, hs', Cacher.process, hpend, WatchCacheEvent.change?]
    rfl
  -- the threshold of the channel and the version of the start agree on the new change
  have hthreshold : decide (w.start.version < c.resourceVersion) =
      decide (w.resourceVersion < c.resourceVersion) := by
    rw [decide_eq_decide]
    omega
  have harriving : w.arriving cfg (s'.coming.map .change) =
      w.arriving cfg (s.coming.map .change) ++
        w.arriving cfg ([c].map .change) := by
    rw [hcoming, map_append, arriving_append]
  have hmore : ∀ x ∈ w.assured cfg (s.offers i), x.isBookmark = true →
      ∀ y ∈ w.arriving cfg ([c].map .change), x.resourceVersion < y.resourceVersion := by
    intro x hx hmark y hy
    rcases mem_arriving hy with ⟨e, he, -, hconv⟩
    have hev : e = .change c := mem_singleton.1 he
    have hy' : y.resourceVersion = c.resourceVersion := by
      rw [resourceVersion_convertToWatchEvent hconv, hev]
      rfl
    have hx' := (h.marks x hx hmark).2.2
    omega
  constructor
  · by_cases hepoch : w.start.epoch = s.epoch
    · -- the watcher started after the last list
      refine ⟨rest ++ w.arriving cfg ([c].map .change), ?_, ?_⟩
      · have howed : w.owed cfg (s'.epochs w.start.epoch).log =
            w.owed cfg (s.epochs w.start.epoch).log ++
              w.arriving cfg ([c].map .change) := by
          have hcur : s'.epochs s.epoch =
              { s.epochs s.epoch with log := (s.epochs s.epoch).log ++ [c] } :=
            update_self _ _ _
          rw [hepoch, hcur, owed_append, arriving_changes]
          simp only [filter_cons, filter_nil, hthreshold]
        show Serves _ _ (w.assured cfg (s.offers i)) _
          (w.owed cfg (s'.epochs w.start.epoch).log)
        rw [howed]
        exact hserves.owe hmore
      · intro hreg
        show _ = w.arriving cfg (s'.coming.map .change)
        rw [harriving, hrest hreg]
    · refine ⟨rest, ?_, ?_⟩
      · have hother : s'.epochs w.start.epoch = s.epochs w.start.epoch :=
          update_of_ne hepoch _ _
        show Serves _ _ (w.assured cfg (s.offers i)) _
          (w.owed cfg (s'.epochs w.start.epoch).log)
        rw [hother]
        exact hserves
      · intro hreg
        exact absurd (h.now hreg) hepoch
  · intro x hx hmark
    rcases h.marks x hx hmark with ⟨hfloor, hnewer, hle⟩
    exact ⟨hfloor, hnewer, hle.trans hrv.le⟩
  · show w.resourceVersion = w.start.version ∨
      w.resourceVersion ≤ c.resourceVersion ∧
        w.start.version ≤ c.resourceVersion
    omega
  · exact h.epoch_le
  · exact h.now

/-- The dispatch of a change starts: it is offered to the watcher, or does not concern it. -/
lemma startChange (hw : Wired cfg s) (hi : i < s.watcherIdx) {c : Change O}
    (hcur : s.current = some (.change c)) (hd : s.dispatching = false) (order : IterOrder ℕ)
    (values : IterOrder String) (now : ℤ) (requeued : ℕ → ℤ) :
    Stream cfg floor (s.startDispatching cfg (.change c) order values now requeued) i := by
  set s' := s.startDispatching cfg (.change c) order values now requeued with hs'
  set listed := s.watchers.interested order values (triggerValues cfg c)
  rcases h.served with ⟨rest, hserves, hrest⟩
  set w := s.heap i
  have hquiet : s.offers i = [] := offers_of_quiet hw.registry hd i
  have hblock : s.blockedWatchers = [] := (hw.registry.quiet hd).2.2
  have hcoming : s.coming = c :: s'.coming := by
    simp [coming, undispatched, hs', startDispatching, hd, hcur, WatchCacheEvent.change?]
  have hbuffer : s'.watchersBuffer ++ s'.blockedWatchers = listed := by
    show listed ++ s.blockedWatchers = _
    rw [hblock, append_nil]
  have hoffers : s'.offers i = List.replicate (listed.count i) (.change c) := by
    have hcur' : s'.current = some (.change c) := hcur
    rw [← hbuffer]
    exact offers_of_current hcur' i
  have hnodup : listed.Nodup :=
    nodup_interested hw.registry.under order values fun vs hvs => nodup_triggerValues hvs
  have harriving : w.arriving cfg (s.coming.map .change) =
      w.arriving cfg [.change c] ++ w.arriving cfg (s'.coming.map .change) := by
    rw [hcoming, map_cons, ← arriving_append]
    rfl
  by_cases hmem : i ∈ listed
  · -- the watcher is offered the change once
    have hone : s'.offers i = [.change c] := by
      rw [hoffers, count_eq_one_of_mem hnodup hmem]
      rfl
    have hregd : s.registered i = true := by
      rcases mem_interested.1 hmem with hhas | ⟨value, hhas, -⟩ <;>
        exact hw.registry.registered_of_has hhas
    have hassured : w.assured cfg (s'.offers i) =
        w.assured cfg (s.offers i) ++ w.arriving cfg [.change c] := by
      rw [hone, hquiet, ← nil_append [WatchCacheEvent.change c], assured_append,
        hw.registry.running i hregd]
      rfl
    have hnow : ∀ x ∈ w.arriving cfg [.change c], x.isBookmark = false := by
      intro x hx
      rcases mem_arriving hx with ⟨e, he, -, hconv⟩
      rw [mem_singleton.1 he] at hconv
      exact (resourceVersion_convertChange hconv).2
    constructor
    · refine ⟨w.arriving cfg (s'.coming.map .change), ?_, fun _ => rfl⟩
      show Serves _ _ (w.assured cfg (s'.offers i)) _ _
      rw [hassured]
      refine Serves.send ?_ hnow
      rw [← harriving, ← hrest hregd]
      exact hserves
    · intro x hx hmark
      have hx' : x ∈ w.assured cfg (s'.offers i) := hx
      rw [hassured] at hx'
      rcases mem_append.1 hx' with hx' | hx'
      · exact h.marks x hx' hmark
      · rw [hnow x hx'] at hmark
        cases hmark
    · exact h.level
    · exact h.epoch_le
    · exact h.now
  · -- the watcher is not registered, or not interested
    have hnone : s'.offers i = [] := by
      rw [hoffers, count_eq_zero_of_not_mem hmem]
      rfl
    have hskip : s.registered i = true → w.arriving cfg [.change c] = [] := by
      intro hregd
      refine eq_nil_iff_forall_not_mem.2 ?_
      intro x hx
      rcases mem_arriving hx with ⟨e, he, -, hconv⟩
      rw [mem_singleton.1 he] at hconv
      have hpipe : .change c ∈ s.pipeline := by
        refine mem_coming ?_
        rw [hcoming]
        exact mem_cons_self
      rcases hw.history.made c hpipe with ⟨m, hmade⟩
      refine hmem (mem_interested.2 ?_)
      unfold registered at hregd
      cases htrig : w.triggerValue with
      | none =>
        rw [htrig] at hregd
        exact Or.inl hregd
      | some value =>
        rw [htrig] at hregd
        refine Or.inr ⟨value, hregd, ?_⟩
        intro vs hvs
        exact mem_triggerValues (hw.registry.routed i hi) htrig hmade hconv hvs
    constructor
    · refine ⟨rest, ?_, ?_⟩
      · show Serves _ _ (w.assured cfg (s'.offers i)) _ _
        rw [hnone, ← hquiet]
        exact hserves
      · intro hreg
        have hreg' : s.registered i = true := hreg
        rw [hrest hreg', harriving, hskip hreg', nil_append]
        rfl
    · intro x hx
      have hx' : x ∈ w.assured cfg (s'.offers i) := hx
      rw [hnone, ← hquiet] at hx'
      exact h.marks x hx'
    · exact h.level
    · exact h.epoch_le
    · exact h.now

/-- The dispatch of a bookmark starts: everything that is still to come is newer. -/
lemma startBookmark (hw : Wired cfg s) (hi : i < s.watcherIdx) {rv : ℕ}
    (hcur : s.current = some (.bookmark rv)) (hd : s.dispatching = false)
    (hfloor : s.registered i = true → (s.heap i).resourceVersion < rv → floor ≤ rv)
    (order : IterOrder ℕ) (values : IterOrder String) (now : ℤ) (requeued : ℕ → ℤ) :
    Stream cfg floor (s.startDispatching cfg (.bookmark rv) order values now requeued) i := by
  set s' := s.startDispatching cfg (.bookmark rv) order values now requeued with hs'
  rcases h.served with ⟨rest, hserves, hrest⟩
  set w := s.heap i
  have hquiet : s.offers i = [] := offers_of_quiet hw.registry hd i
  have hcoming : s'.coming = s.coming := by
    simp [coming, undispatched, hs', startDispatching, hd, hcur, filterMap_cons,
      WatchCacheEvent.change?]
  have hcur' : s'.current = some (.bookmark rv) := hcur
  rcases (⟨_, offers_of_current hcur' i⟩ :
    ∃ n, s'.offers i = List.replicate n (.bookmark rv)) with ⟨n, hoffers⟩
  have hassured : w.assured cfg (s'.offers i) = w.assured cfg (s.offers i) ++
      if w.stopped then []
      else w.arriving cfg (List.replicate n (.bookmark rv)) := by
    rw [hoffers, hquiet, ← nil_append (List.replicate n _), assured_append]
    rfl
  have hmarks : ∀ x ∈ w.arriving cfg (List.replicate n (.bookmark rv)),
      x.isBookmark = true ∧ x.resourceVersion = rv ∧ w.resourceVersion < rv := by
    intro x hx
    rcases mem_arriving hx with ⟨e, he, hnewer, hconv⟩
    rw [eq_of_mem_replicate he] at hconv hnewer
    cases hconv
    exact ⟨rfl, rfl, hnewer⟩
  have hrv : rv = s.lastProcessedResourceVersion := hw.pipeline.bookmark rv hcur
  -- a watcher that is not stopped is registered, as nothing is being dispatched
  have hregd : ¬ w.stopped = true → s.registered i = true := by
    intro hstop
    rw [← Bool.not_eq_false]
    intro hnot
    rcases hw.registry.left i hi hnot with htrue | hmem
    · exact hstop htrue
    · rw [(hw.registry.quiet hd).1] at hmem
      cases hmem
  constructor
  · refine ⟨rest, ?_, ?_⟩
    · show Serves _ _ (w.assured cfg (s'.offers i)) _ _
      rw [hassured]
      split_ifs with hstop
      · rw [append_nil]
        exact hserves
      refine Serves.sendMarks hserves (fun x hx => (hmarks x hx).1) ?_
      intro x hx y hy
      rw [hrest (hregd hstop)] at hy
      rcases mem_arriving hy with ⟨e, he, -, hconv⟩
      rcases mem_map.1 he with ⟨c, hc, rfl⟩
      have habove : s.lastProcessedResourceVersion < c.resourceVersion :=
        hw.pipeline.above _ (mem_coming hc)
      rw [(hmarks x hx).2.1, hrv, (resourceVersion_convertChange hconv).1]
      exact habove
    · intro hreg
      show rest = w.arriving cfg (s'.coming.map .change)
      rw [hcoming]
      exact hrest hreg
  · intro x hx hmark
    have hx' : x ∈ w.assured cfg (s'.offers i) := hx
    rw [hassured] at hx'
    rcases mem_append.1 hx' with hx' | hx'
    · exact h.marks x hx' hmark
    split_ifs at hx' with hstop
    · cases hx'
    · rcases hmarks x hx' with ⟨-, hx, hnewer⟩
      rw [hx]
      exact ⟨hfloor (hregd hstop) hnewer, hnewer, hrv ▸ hw.pipeline.last_le⟩
  · exact h.level
  · exact h.epoch_le
  · exact h.now

/-- An event goes into the input channel of a watcher that it was offered to. -/
lemma sent (hcur : s.current = some event)
    (j : ℕ) {buffer blocked : List ℕ}
    (hcount : (s.watchersBuffer ++ s.blockedWatchers).count i =
      (buffer ++ blocked).count i + if i = j then 1 else 0) :
    Stream cfg floor { s.sendInput j event with watchersBuffer := buffer, blockedWatchers := blocked }
      i := by
  set s' : Cacher O :=
    { s.sendInput j event with watchersBuffer := buffer, blockedWatchers := blocked } with hs'
  have hcur' : s'.current = some event := hcur
  have hoffers : s'.offers i = List.replicate ((buffer ++ blocked).count i) event :=
    offers_of_current hcur' i
  have hold := offers_of_current hcur i
  rw [hcount] at hold
  by_cases hij : i = j
  · subst hij
    have hheap : s'.heap i = { s.heap i with input := (s.heap i).input ++ [event] } :=
      update_self _ _ _
    refine h.congr ?_ ?_ (fun _ _ => rfl) ?_ le_rfl le_rfl
    · rw [hheap]
      exact ⟨rfl, rfl, rfl⟩
    · rw [if_pos rfl, replicate_succ] at hold
      rw [hold, hoffers, hheap, assured_input]
    · intro hreg
      have hreg' : s.watchers.has i (s'.heap i).triggerValue = true := hreg
      rw [hheap] at hreg'
      exact ⟨hreg', rfl, rfl⟩
  · have hheap : s'.heap i = s.heap i := update_of_ne hij _ _
    rw [if_neg hij, add_zero] at hold
    exact h.same hheap (fun _ hhas => hhas) (hoffers.trans hold.symm) rfl rfl rfl le_rfl

/-- A watcher goes without an event that it was offered. -/
lemma skipped (hcur : s.current = some event)
    {buffer blocked : List ℕ} {timerFired : Bool} {n : ℕ}
    (hcount : (s.watchersBuffer ++ s.blockedWatchers).count i = (buffer ++ blocked).count i + n)
    (hreg : s.registered i = true → n = 0 ∨ event.change? = none) :
    Stream cfg floor { s with
      watchersBuffer := buffer, blockedWatchers := blocked, timerFired := timerFired } i := by
  set s' : Cacher O := { s with
    watchersBuffer := buffer, blockedWatchers := blocked, timerFired := timerFired } with hs'
  have hcur' : s'.current = some event := hcur
  have hold := offers_of_current hcur i
  rw [hcount, replicate_add] at hold
  have hoffers : s'.offers i = List.replicate ((buffer ++ blocked).count i) event :=
    offers_of_current hcur' i
  refine h.lose (SameBegin.refl _)
    (if (s.heap i).stopped then [] else (s.heap i).arriving cfg (List.replicate n event))
    ?_ rfl rfl ?_ rfl
  · rw [hold, assured_append, hoffers]
  intro hreg'
  refine ⟨hreg', rfl, ?_⟩
  refine eq_nil_iff_forall_not_mem.2 ?_
  intro x hx
  rcases mem_data.1 hx with ⟨hx, hdata⟩
  split at hx
  · cases hx
  rcases mem_arriving hx with ⟨e, he, -, hconv⟩
  rcases hreg hreg' with hzero | hbookmark
  · rw [hzero] at he
    cases he
  rw [eq_of_mem_replicate he] at hconv
  cases event with
  | change c => cases hbookmark
  | bookmark rv =>
    cases hconv
    cases hdata

omit h in
lemma assured_stopAll (cfg : Config O) (heap : ℕ → CacheWatcher O) (numbers : List ℕ) (i : ℕ)
    (offers : List (WatchCacheEvent O)) :
    SameBegin (heap i) (stopAll heap numbers i) ∧
      ∃ back, (heap i).assured cfg offers = (stopAll heap numbers i).assured cfg offers ++ back ∧
        (i ∉ numbers → back = []) := by
  unfold stopAll
  split_ifs with hmem
  · rcases assured_stop cfg (heap i) offers with ⟨back, hback⟩
    exact ⟨⟨rfl, rfl, rfl⟩, back, hback, fun hnot => absurd hmem hnot⟩
  · exact ⟨SameBegin.refl _, [], (append_nil _).symm, fun _ => rfl⟩

lemma remove {iw : IndexedWatchers} {numbers : List ℕ}
    (hiw : ∀ i t, iw.has i t = true ↔ s.watchers.has i t = true ∧ i ∉ numbers) :
    Stream cfg floor (stopWatchers { s with watchers := iw } numbers) i := by
  have hreg := Registry.registered_stopWatchers hiw i
  by_cases hd : s.dispatching = true
  · -- stopping is deferred
    have hheap : (stopWatchers { s with watchers := iw } numbers).heap = s.heap := by
      show (if s.dispatching then s.heap else _) = _
      rw [hd, if_pos rfl]
    exact h.same (congrFun hheap i) (fun t hhas => ((hiw i t).1 hhas).1) rfl rfl rfl rfl
      le_rfl
  have hheap : (stopWatchers { s with watchers := iw } numbers).heap =
      stopAll s.heap numbers := by
    show (if s.dispatching then s.heap else _) = _
    rw [if_neg hd]
  rcases assured_stopAll cfg s.heap numbers i (s.offers i) with ⟨hbegin, back, hback, hnil⟩
  refine h.lose ?_ back ?_ rfl rfl ?_ rfl
  · rw [hheap]
    exact hbegin
  · rw [hheap]
    exact hback
  · intro hreg'
    rcases hreg.1 hreg' with ⟨hold, hnot⟩
    rw [hnil hnot]
    exact ⟨hold, rfl, rfl⟩

lemma finishDispatching (hw : Registry cfg s) (hd : s.dispatching = true)
    (hbuffer : s.watchersBuffer = []) (hblock : s.blockedWatchers = [])
    (event : WatchCacheEvent O) : Stream cfg floor (s.finishDispatching event) i := by
  have hoffers : s.offers i = [] := by
    refine offers_of_not_mem ?_
    rw [hbuffer, hblock]
    exact not_mem_nil
  rcases assured_stopAll cfg s.heap s.watchersToStop i [] with ⟨hbegin, back, hback, hnil⟩
  have hcoming : (s.finishDispatching event).coming = s.coming := by
    simp [coming, undispatched, Cacher.finishDispatching, hd]
  refine h.lose hbegin back ?_ rfl rfl ?_ rfl
  · rw [hoffers]
    exact hback
  intro hreg
  have hreg' : s.watchers.has i (stopAll s.heap s.watchersToStop i).triggerValue = true := hreg
  have hold : s.registered i = true := by
    unfold stopAll at hreg'
    split at hreg' <;> exact hreg'
  refine ⟨hold, hcoming, ?_⟩
  rw [hnil]
  · rfl
  · intro hmem
    rw [(hw.leaving i hmem).1] at hold
    cases hold

lemma setWatcher (j : ℕ)
    (hbegin : SameBegin (s.heap j) w) (htrig : w.triggerValue = (s.heap j).triggerValue)
    (hassured : w.assured cfg (s.offers j) = (s.heap j).assured cfg (s.offers j)) :
    Stream cfg floor (s.setWatcher j w) i := by
  by_cases hij : i = j
  · subst hij
    have hheap : (s.setWatcher i w).heap i = w := update_self _ _ _
    refine h.congr ?_ ?_ (fun _ _ => rfl) ?_ le_rfl le_rfl
    · rw [hheap]
      exact hbegin
    · rw [hheap]
      exact hassured
    · intro hreg
      have hreg' : s.watchers.has i ((s.setWatcher i w).heap i).triggerValue = true := hreg
      rw [hheap, htrig] at hreg'
      exact ⟨hreg', rfl, rfl⟩
  · exact h.same (update_of_ne hij _ _) (fun _ hhas => hhas) rfl rfl rfl rfl le_rfl

/-! ### Registration -/

variable {initEvents : List (Change O)}

omit h in
/-- The initial events are not newer than the threshold of the channel. -/
lemma le_watchRV {rv : ℕ}
    (hsorted : initEvents.Pairwise fun a b => a.resourceVersion < b.resourceVersion)
    (hrv : ∀ c ∈ initEvents, rv < c.resourceVersion) :
    rv ≤ watchRV rv initEvents ∧ ∀ c ∈ initEvents, c.resourceVersion ≤ watchRV rv initEvents := by
  rcases eq_nil_or_concat initEvents with rfl | ⟨front, last, rfl⟩
  · refine ⟨le_rfl, ?_⟩
    intro c hc
    cases hc
  have hlast : watchRV rv (front ++ [last]) = last.resourceVersion := by
    unfold watchRV
    rw [getLast?_concat]
  rw [concat_eq_append] at *
  rw [hlast]
  refine ⟨(hrv last (mem_append_right _ (mem_singleton_self _))).le, ?_⟩
  intro c hc
  rcases mem_append.1 hc with hc | hc
  · exact ((pairwise_append.1 hsorted).2.2 c hc last (mem_singleton_self _)).le
  · rw [mem_singleton.1 hc]

omit h in
/-- What a new watcher is owed: its initial events, and what is still to come. -/
lemma owed_newWatcher (hw : Wired cfg s) {req : WatchRequest} {order : IterOrder String}
    (hevents : s.watchCache.getAllEventsSince cfg req.resourceVersion order = .ok initEvents) :
    (s.newWatcher cfg req initEvents).owed cfg (s.epochs s.epoch).log =
      initEvents.filterMap (convertChange cfg (s.newWatcher cfg req initEvents).filter) ++
        (s.newWatcher cfg req initEvents).arriving cfg (s.coming.map .change) := by
  rw [arriving_changes]
  unfold CacheWatcher.owed
  by_cases hzero : req.resourceVersion = 0
  · -- all changes so far are in the state that the watcher starts from
    have hlog : (s.epochs s.epoch).log.filter
        (fun c => decide (s.watchCache.resourceVersion < c.resourceVersion)) = [] := by
      refine filter_eq_nil_iff.2 ?_
      intro c hc hlt
      have hle := hw.history.latest c hc
      have hlt' := of_decide_eq_true hlt
      omega
    simp only [newWatcher, if_pos hzero, hlog, filterMap_append, filterMap_nil, append_nil]
    rfl
  have hpos : 0 < req.resourceVersion := pos_of_ne_zero hzero
  rcases WatchCache.getAllEventsSince_spec cfg hw.history.holds
    (hw.history.recorded s.epoch).ascending (by
      rw [hw.history.version]
      exact (hw.history.recorded s.epoch).later) hpos hevents with ⟨hinit, hlist, -⟩
  rw [hw.history.version] at hlist
  have hsorted : initEvents.Pairwise fun a b => a.resourceVersion < b.resourceVersion := by
    rw [hinit]
    exact List.Pairwise.filter _ (hw.history.recorded s.epoch).ascending
  have hnewer : ∀ c ∈ initEvents, req.resourceVersion < c.resourceVersion := by
    intro c hc
    rw [hinit] at hc
    exact of_decide_eq_true (mem_filter.1 hc).2
  rcases le_watchRV hsorted hnewer with ⟨hle, hall⟩
  -- what is still to come is in the initial events, or too old
  have hcoming : s.coming.filter (fun c =>
      decide (watchRV req.resourceVersion initEvents < c.resourceVersion)) = [] := by
    refine filter_eq_nil_iff.2 ?_
    intro c hc hlt
    have hlt' := of_decide_eq_true hlt
    rcases hw.history.recent c (mem_coming hc) with hold | hlog
    · omega
    have hmem : c ∈ initEvents := by
      rw [hinit]
      exact mem_filter.2 ⟨hlog, decide_eq_true (by omega)⟩
    have hbelow := hall c hmem
    omega
  simp only [newWatcher, if_neg hzero, hcoming, nil_append, filterMap_nil, append_nil]
  rw [hinit]

omit h in
lemma register (hw : Wired cfg s) (n : ℕ) {req : WatchRequest} {order : IterOrder String}
    (hevents : s.watchCache.getAllEventsSince cfg req.resourceVersion order = .ok initEvents)
    (allow : Bool) (now : ℤ) :
    Stream cfg floor ((s.leave n).addWatcher (s.newWatcher cfg req initEvents) allow now)
      s.watcherIdx := by
  set w := s.newWatcher cfg req initEvents with hwatcher
  set s' := (s.leave n).addWatcher w allow now with hs'
  have hheap : s'.heap s.watcherIdx = w := update_self _ _ _
  have hoffers : s'.offers s.watcherIdx = [] := by
    refine offers_of_not_mem ?_
    intro hmem
    exact absurd (hw.registry.offered _ hmem).1 (lt_irrefl _)
  have hassured : w.assured cfg [] = [] ++ initEvents.filterMap (convertChange cfg w.filter) := by
    simp [assured, arriving, hwatcher, newWatcher]
  have hchanges : ∀ x ∈ initEvents.filterMap (convertChange cfg w.filter),
      x.isBookmark = false := by
    intro x hx
    rcases mem_filterMap.1 hx with ⟨c, -, hconv⟩
    exact (resourceVersion_convertChange hconv).2
  constructor
  · refine ⟨w.arriving cfg (s.coming.map .change), ?_, ?_⟩
    · rw [hheap, hoffers, hassured]
      refine Serves.send ?_ hchanges
      rw [← owed_newWatcher hw hevents]
      exact Serves.start _
    · intro _
      rw [hheap]
      rfl
  · intro x hx hmark
    rw [hheap, hoffers, hassured] at hx
    rw [hchanges x hx] at hmark
    cases hmark
  · rw [hheap]
    show watchRV req.resourceVersion initEvents = (if _ then _ else _) ∨
      watchRV req.resourceVersion initEvents ≤ s.watchCache.resourceVersion ∧
        (if req.resourceVersion = 0 then s.watchCache.resourceVersion else _) ≤
          s.watchCache.resourceVersion
    by_cases hzero : req.resourceVersion = 0
    · right
      rw [if_pos hzero]
      refine ⟨?_, le_rfl⟩
      unfold watchRV
      split
      · rename_i c hlast
        rw [hzero] at hevents
        rw [WatchCache.getAllEventsSince_zero cfg hevents] at hlast
        exact le_of_eq (mem_additions (mem_of_getLast? hlast)).1
      · omega
    · rw [if_neg hzero]
      unfold watchRV
      split
      · -- the last initial event was applied after the version that was asked for
        rename_i c hlast
        have hmem := mem_of_getLast? hlast
        rcases WatchCache.getAllEventsSince_spec cfg hw.history.holds
          (hw.history.recorded s.epoch).ascending (by
            rw [hw.history.version]
            exact (hw.history.recorded s.epoch).later) (pos_of_ne_zero hzero) hevents with
          ⟨hinit, -⟩
        rw [hinit] at hmem
        rcases mem_filter.1 hmem with ⟨hlog, hlt⟩
        have hlt' := of_decide_eq_true hlt
        have hle := hw.history.latest c hlog
        right
        omega
      · exact Or.inl rfl
  · rw [hheap]
    exact le_rfl
  · intro _
    rw [hheap]
    rfl

lemma addWatcher (hi : i < s.watcherIdx) (n : ℕ) (w : CacheWatcher O)
    (allow : Bool) (now : ℤ) : Stream cfg floor ((s.leave n).addWatcher w allow now) i := by
  have hheap : ((s.leave n).addWatcher w allow now).heap i = s.heap i :=
    update_of_ne (Nat.ne_of_lt hi) _ _
  refine h.same hheap ?_ rfl rfl rfl rfl le_rfl
  intro t hhas
  have hhas' : (s.watchers.addWatcher s.watcherIdx w.triggerValue).has i t = true := hhas
  rw [(has_update _ _ _ _ _).1, if_neg fun hpair => Nat.ne_of_lt hi hpair.1] at hhas'
  exact hhas'

end Stream

/-! ## Runs -/

/-- `Watch` is past `ready.wait()` and the cache is still ready when the watcher is registered. -/
def RegistersReady (s : Cacher O) : Label O → Prop
  | .register _ _ _ => s.ready = true
  | _ => True

/-- While the cacher lists nobody is registered. -/
structure Gate (s : Cacher O) : Prop where
  connected : s.ready = true → s.connection = .connected
  listing : s.connection = .listing → ∀ i t, s.watchers.has i t = false

lemma Gate.remove (h : Gate s) {iw : IndexedWatchers} {numbers : List ℕ}
    (hiw : ∀ i t, iw.has i t = true ↔ s.watchers.has i t = true ∧ i ∉ numbers) :
    Gate (stopWatchers { s with watchers := iw } numbers) := by
  refine ⟨h.connected, ?_⟩
  intro hlisting i t
  rw [← Bool.not_eq_true]
  intro hhas
  have hold := ((hiw i t).1 hhas).1
  rw [h.listing hlisting i t] at hold
  cases hold

variable {l : Label O}

lemma Gate.step (h : Gate s) (hw : Registry cfg s) (hok : RegistersReady s l)
    (hstep : Step cfg s l s') : Gate s' := by
  cases hstep with
  | disconnect =>
    constructor
    · intro hready
      cases hready
    · intro hlisting
      cases hlisting
  | startCaching hconn =>
    constructor
    · intro hready
      have hconnected := h.connected hready
      rw [hconn] at hconnected
      cases hconnected
    · intro _ i t
      exact has_empty i t
  | listFailed hconn =>
    constructor
    · intro hready
      have hconnected := h.connected hready
      rw [hconn] at hconnected
      cases hconnected
    · intro hlisting
      cases hlisting
  | replace =>
    refine ⟨fun _ => rfl, ?_⟩
    intro hlisting
    cases hlisting
  | register =>
    refine ⟨h.connected, ?_⟩
    intro hlisting
    have hlisting' : s.connection = .listing := hlisting
    rw [h.connected hok] at hlisting'
    cases hlisting'
  | startDispatching event =>
    cases event with
    | change c => exact ⟨h.connected, h.listing⟩
    | bookmark rv => exact ⟨h.connected, h.listing⟩
  | retryClosed event i =>
    have hforget : Gate (s.forget i) := h.remove (hw.has_forget i)
    exact ⟨hforget.connected, hforget.listing⟩
  | stop i => exact h.remove (hw.has_forget i)
  | _ => exact ⟨h.connected, h.listing⟩

lemma Stream.step (h : Stream cfg floor s i) (hi : i < s.watcherIdx) (hw : Wired cfg s)
    (hg : Gate s) (hfloor : ∀ rv, s.current = some (.bookmark rv) → s.registered i = true →
      (s.heap i).resourceVersion < rv → floor ≤ rv) (hstep : Step cfg s l s') :
    Stream cfg floor s' i := by
  have hle : s.watchCache.resourceVersion ≤ s.watchCache.resourceVersion := le_rfl
  have hsame {s' : Cacher O} (hheap : s'.heap = s.heap) (hws : s'.watchers = s.watchers) :=
    h.same (congrFun hheap i) fun t hhas => hws ▸ hhas
  -- nothing is offered between two dispatches
  have hidle (hcur : s.current = none) (e : WatchCacheEvent O) :
      offers { s with current := some e } i = s.offers i := by
    have hd := hw.pipeline.idle hcur
    rw [offers_of_quiet hw.registry hd]
    refine offers_of_not_mem ?_
    rw [(hw.registry.quiet hd).2.1, (hw.registry.quiet hd).2.2]
    exact not_mem_nil
  cases hstep with
  | process type object now hconn hpend hrv => exact h.process hpend hrv
  | updateResourceVersion rv hconn hpend hrv =>
    refine hsame rfl rfl rfl rfl rfl ?_ hrv
    simp [coming, undispatched, Cacher.updateResourceVersion, hpend, filterMap_cons,
      WatchCacheEvent.change?]
    rfl
  | push event hpend =>
    refine hsame rfl rfl rfl rfl rfl ?_ hle
    simp [coming, undispatched, Cacher.push, hpend]
    rfl
  | startCaching =>
    have hgone : Stream cfg floor s.terminateAllWatchers i := h.remove (Registry.has_terminateAll s)
    refine hgone.congr (SameBegin.refl _) rfl (fun _ _ => rfl) ?_ hle le_rfl
    intro hreg
    exact ⟨hreg, rfl, rfl⟩
  | replace objs version hconn hpos hrv =>
    refine h.congr (SameBegin.refl _) rfl ?_ ?_ hrv (le_succ _)
    · intro e he
      exact update_of_ne (by omega) _ _
    -- nobody is registered
    intro hreg
    have hreg' : s.watchers.has i (s.heap i).triggerValue = true := hreg
    rw [hg.listing hconn] at hreg'
    cases hreg'
  | register n req order now initEvents => exact h.addWatcher hi n _ _ _
  | popBookmark rv rest hcur hinc =>
    refine hsame rfl rfl rfl rfl rfl ?_ hle
    simp [coming, undispatched, hinc, filterMap_cons, WatchCacheEvent.change?]
  | popChange c rest hcur hinc =>
    refine hsame rfl rfl (hidle hcur _) rfl rfl ?_ hle
    simp [coming, undispatched, hinc, hcur, hw.pipeline.idle hcur]
  | timerDue now hcur hlast =>
    refine hsame rfl rfl (hidle hcur _) rfl rfl ?_ hle
    simp [coming, undispatched, hcur, hw.pipeline.idle hcur, filterMap_cons,
      WatchCacheEvent.change?]
  | startDispatching event order values now requeued hcur hd =>
    cases event with
    | change c => exact h.startChange hw hi hcur hd order values now requeued
    | bookmark rv =>
      exact h.startBookmark hw hi hcur hd (hfloor rv hcur) order values now requeued
  | addSent event j rest hcur hd hbuffer =>
    refine h.sent hcur j ?_
    rw [hbuffer, cons_append, count_cons_if]
    rfl
  | addDropped rv j rest hcur hd hbuffer =>
    refine h.skipped (n := if i = j then 1 else 0) hcur ?_ fun _ => Or.inr rfl
    rw [hbuffer, cons_append, count_cons_if]
  | addBlocked c j rest hcur hd hbuffer =>
    refine h.skipped (n := 0) hcur ?_ fun _ => Or.inl rfl
    rw [hbuffer]
    simp only [count_append, count_cons, count_nil]
    omega
  | retrySent event j rest hcur hd hbuffer hblock =>
    refine h.sent hcur j ?_
    rw [hbuffer, hblock, nil_append, count_cons_if]
    show _ = (s.watchersBuffer ++ rest).count i + _
    rw [hbuffer, nil_append]
  | retryClosed event j rest hcur hd hbuffer hblock =>
    have hforget : Stream cfg floor (s.forget j) i := h.remove (hw.registry.has_forget j)
    have hcur' : (s.forget j).current = some event := hcur
    refine hforget.skipped (n := if i = j then 1 else 0) hcur' ?_ ?_
    · show (s.watchersBuffer ++ s.blockedWatchers).count i = _
      show _ = (s.watchersBuffer ++ rest).count i + _
      rw [hbuffer, hblock, nil_append, nil_append, count_cons_if]
    -- the watcher that is closed is not registered any more
    intro hreg
    left
    rw [if_neg]
    rintro rfl
    rcases (Registry.registered_stopWatchers (hw.registry.has_forget i) i).1 hreg with
      ⟨hold, hnot⟩
    rw [if_pos hold] at hnot
    exact hnot (mem_singleton_self i)
  | finishDispatching event hcur hd hbuffer hblock =>
    exact h.finishDispatching hw.registry hd hbuffer hblock event
  | take j w hj hsend htake =>
    exact h.setWatcher j (sameBegin_take htake) (sameRole_take htake).triggerValue
      (assured_take hsend htake _)
  | send j event hj hsend =>
    exact h.setWatcher j ⟨rfl, rfl, rfl⟩ rfl (assured_send hsend _)
  | drop j event hj hsend hstop =>
    by_cases hij : i = j
    · subst hij
      have hheap : (s.setWatcher i { s.heap i with sending := none }).heap i =
          { s.heap i with sending := none } := update_self _ _ _
      refine h.lose ?_ [event] ?_ rfl rfl ?_ rfl
      · rw [hheap]
        exact ⟨rfl, rfl, rfl⟩
      · rw [hheap]
        exact assured_drop hsend hstop _
      · -- a stopped watcher is not registered
        intro hreg
        have hreg' : s.watchers.has i ((s.setWatcher i _).heap i).triggerValue = true := hreg
        rw [hheap] at hreg'
        rw [hw.registry.running i hreg'] at hstop
        cases hstop
    · exact h.same (update_of_ne hij _ _) (fun _ hhas => hhas) rfl rfl rfl rfl hle
  | cancel j hj => exact h.setWatcher j ⟨rfl, rfl, rfl⟩ rfl rfl
  | stop j hj => exact h.remove (hw.registry.has_forget j)
  | _ => exact hsame rfl rfl rfl rfl rfl rfl hle

/-- The invariant of the runs in which watchers are registered while the cache is ready. -/
structure Streaming (cfg : Config O) (s : Cacher O) : Prop where
  wired : Wired cfg s
  gate : Gate s
  stream : ∀ i < s.watcherIdx, Stream cfg 0 s i

/-- A watcher is an earlier one, or it was registered in this step with the next number. -/
lemma watcher_step (hstep : Step cfg s l s') (hi : i < s'.watcherIdx) :
    i < s.watcherIdx ∨ i = s.watcherIdx ∧
      ∃ n req order now initEvents, s.waiting[n]? = some req ∧
        s.watchCache.getAllEventsSince cfg req.resourceVersion order = .ok initEvents ∧
        l = .register n order now ∧
        s' = (s.leave n).addWatcher (s.newWatcher cfg req initEvents)
          req.pred.allowWatchBookmarks now := by
  cases hstep with
  | register n req order now initEvents hreq hevents =>
    rcases Nat.lt_succ_iff_lt_or_eq.1 hi with hold | hnew
    · exact Or.inl hold
    · exact Or.inr ⟨hnew, n, req, order, now, initEvents, hreq, hevents, rfl, rfl⟩
  | startDispatching event => cases event <;> exact Or.inl hi
  | _ => exact Or.inl hi

lemma Streaming.init : Streaming cfg (newCacher O) where
  wired := Wired.init
  gate := by
    constructor
    · intro hready
      cases hready
    · intro hlisting
      cases hlisting
  stream := by
    intro i hi
    exact absurd hi (not_lt_zero i)

lemma Streaming.step (h : Streaming cfg s) (hok : RegistersReady s l) (hstep : Step cfg s l s') :
    Streaming cfg s' := by
  refine ⟨h.wired.step hstep, h.gate.step h.wired.registry hok hstep, ?_⟩
  intro i hi
  rcases watcher_step hstep hi with hold |
    ⟨rfl, n, req, order, now, initEvents, -, hevents, -, rfl⟩
  · exact (h.stream i hold).step hold h.wired h.gate (fun _ _ _ _ => zero_le _) hstep
  · exact Stream.register h.wired n hevents _ _

end Cacher

end Kubernetes.Apiserver
