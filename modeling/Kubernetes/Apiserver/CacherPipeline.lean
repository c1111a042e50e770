import Kubernetes.Apiserver.CacherSteps

/-! # The way of an event from the storage to the watchers

Three invariants of the cacher, kept by every step:

* `Registry`: a watcher that is no longer registered is stopped, or will be when the current
  dispatch ends; the dispatcher never offers an event to a stopped watcher, whose input channel
  is closed;
* `Pipeline`: the events between the watch cache and the dispatcher are in the order of their
  versions, above the last one that was processed;
* `History`: the watch cache has the state that its last list and the changes since lead to, and
  the end of those changes in its buffer.
-/

namespace Kubernetes.Apiserver

open List Function IndexedWatchers Nat

namespace Cacher

variable {O : Type} {cfg : Config O} {s s' : Cacher O}

/-! ## The registered watchers -/

/-- The watchers that are registered, that leave, and that an event is offered to. -/
structure Registry (cfg : Config O) (s : Cacher O) : Prop where
  under : s.watchers.Under fun i => (s.heap i).triggerValue
  lt : ∀ i, s.registered i = true → i < s.watcherIdx
  running : ∀ i, s.registered i = true → (s.heap i).stopped = false
  left : ∀ i < s.watcherIdx, s.registered i = false →
    (s.heap i).stopped = true ∨ i ∈ s.watchersToStop
  leaving : ∀ i ∈ s.watchersToStop, s.registered i = false ∧ i < s.watcherIdx
  quiet : s.dispatching = false →
    s.watchersToStop = [] ∧ s.watchersBuffer = [] ∧ s.blockedWatchers = []
  offered : ∀ i ∈ s.watchersBuffer ++ s.blockedWatchers,
    i < s.watcherIdx ∧ (s.heap i).stopped = false
  due : ∀ id numbers, s.bookmarkWatchers.watchersBuckets.lookup id = some numbers →
    ∀ i ∈ numbers, i < s.watcherIdx
  routed : ∀ i < s.watcherIdx, Routed cfg (s.heap i)

/-- What `Registry` says of a watcher. -/
structure SameRole (w w' : CacheWatcher O) : Prop where
  triggerValue : w'.triggerValue = w.triggerValue
  stopped : w'.stopped = w.stopped
  filter : w'.filter = w.filter

lemma SameRole.refl (w : CacheWatcher O) : SameRole w w := ⟨rfl, rfl, rfl⟩

lemma sameRole_setWatcher (s : Cacher O) (i : ℕ) {w : CacheWatcher O}
    (h : SameRole (s.heap i) w) (j : ℕ) : SameRole (s.heap j) ((s.setWatcher i w).heap j) := by
  show SameRole (s.heap j) (Function.update s.heap i w j)
  by_cases hj : j = i
  · subst hj
    rw [update_self]
    exact h
  · rw [update_of_ne hj]
    exact SameRole.refl _

lemma sameRole_take {w w' : CacheWatcher O} : take cfg w = some w' → SameRole w w' := by
  fun_cases take cfg w <;> intro h <;> cases h
  all_goals exact ⟨rfl, rfl, rfl⟩

lemma Routed.congr {w w' : CacheWatcher O} (h : Routed cfg w) (hsame : SameRole w w') :
    Routed cfg w' := by
  intro value hvalue
  rw [hsame.triggerValue] at hvalue
  rcases h value hvalue with ⟨t, ht, hfilter⟩
  refine ⟨t, ht, ?_⟩
  rw [hsame.filter]
  exact hfilter

variable {l : Label O}

namespace Registry

lemma registered_of_has (h : Registry cfg s) {i : ℕ} {t : Option String}
    (hhas : s.watchers.has i t = true) : s.registered i = true := by
  unfold registered
  have heq : (s.heap i).triggerValue = t := h.under i t hhas
  rw [heq]
  exact hhas

/-- A step that registers nobody and stops nobody. -/
lemma frame (h : Registry cfg s) (hws : s'.watchers = s.watchers)
    (hidx : s'.watcherIdx = s.watcherIdx) (hrole : ∀ i, SameRole (s.heap i) (s'.heap i))
    (hstop : s'.watchersToStop = s.watchersToStop) (hd : s'.dispatching = s.dispatching)
    (hoffered : ∀ i ∈ s'.watchersBuffer ++ s'.blockedWatchers,
      i ∈ s.watchersBuffer ++ s.blockedWatchers)
    (hdue : s'.bookmarkWatchers = s.bookmarkWatchers) : Registry cfg s' := by
  have hreg : ∀ i, s'.registered i = s.registered i := by
    intro i
    unfold registered
    rw [hws, (hrole i).triggerValue]
  constructor
  · intro i t hhas
    show (s'.heap i).triggerValue = t
    rw [(hrole i).triggerValue]
    exact h.under i t (hws ▸ hhas)
  · intro i hi
    rw [hidx]
    exact h.lt i (hreg i ▸ hi)
  · intro i hi
    rw [(hrole i).stopped]
    exact h.running i (hreg i ▸ hi)
  · intro i hi hnot
    rw [(hrole i).stopped, hstop]
    exact h.left i (hidx ▸ hi) (hreg i ▸ hnot)
  · intro i hi
    rw [hreg, hidx]
    exact h.leaving i (hstop ▸ hi)
  · intro hquiet
    rcases h.quiet (hd ▸ hquiet) with ⟨hto, hbuffer, hblock⟩
    have hnil : s'.watchersBuffer ++ s'.blockedWatchers = [] := by
      refine eq_nil_iff_forall_not_mem.2 ?_
      intro i hi
      have hmem := hoffered i hi
      rw [hbuffer, hblock] at hmem
      cases hmem
    rcases append_eq_nil_iff.1 hnil with ⟨hb, hbl⟩
    exact ⟨hstop.trans hto, hb, hbl⟩
  · intro i hi
    rw [hidx, (hrole i).stopped]
    exact h.offered i (hoffered i hi)
  · intro id numbers hl i hi
    rw [hdue] at hl
    rw [hidx]
    exact h.due id numbers hl i hi
  · intro i hi
    exact Routed.congr (h.routed i (hidx ▸ hi)) (hrole i)

lemma registered_stopWatchers {iw : IndexedWatchers} {numbers : List ℕ}
    (hiw : ∀ i t, iw.has i t = true ↔ s.watchers.has i t = true ∧ i ∉ numbers) (i : ℕ) :
    (stopWatchers { s with watchers := iw } numbers).registered i = true ↔
      s.registered i = true ∧ i ∉ numbers := by
  have htrig : ((stopWatchers { s with watchers := iw } numbers).heap i).triggerValue =
      (s.heap i).triggerValue := by
    show ((if s.dispatching then s.heap else stopAll s.heap numbers) i).triggerValue = _
    split
    · rfl
    · unfold stopAll
      split <;> rfl
  unfold registered
  rw [htrig]
  exact hiw i _

lemma remove (h : Registry cfg s) {iw : IndexedWatchers} {numbers : List ℕ}
    (hiw : ∀ i t, iw.has i t = true ↔ s.watchers.has i t = true ∧ i ∉ numbers)
    (hnumbers : ∀ i ∈ numbers, s.registered i = true) :
    Registry cfg (stopWatchers { s with watchers := iw } numbers) := by
  set s' := stopWatchers { s with watchers := iw } numbers with hs'
  have hheap : ∀ i, (s'.heap i).triggerValue = (s.heap i).triggerValue ∧
      (s'.heap i).filter = (s.heap i).filter ∧
      ((s'.heap i).stopped = true ↔
        (s.heap i).stopped = true ∨ s.dispatching = false ∧ i ∈ numbers) := by
    intro i
    have hs'' : s'.heap = if s.dispatching then s.heap else stopAll s.heap numbers := rfl
    rw [hs'']
    cases hd : s.dispatching with
    | true => simp
    | false =>
      simp only [Bool.false_eq_true, if_false, stopAll]
      split <;> simp_all
  have hreg : ∀ i, s'.registered i = true ↔ s.registered i = true ∧ i ∉ numbers :=
    registered_stopWatchers hiw
  have htostop : ∀ i, i ∈ s'.watchersToStop ↔
      i ∈ s.watchersToStop ∨ s.dispatching = true ∧ i ∈ numbers := by
    intro i
    show i ∈ (if s.dispatching then s.watchersToStop ++ numbers else s.watchersToStop) ↔ _
    cases hd : s.dispatching with
    | true => simp
    | false => simp
  constructor
  · intro i t hhas
    show (s'.heap i).triggerValue = t
    rw [(hheap i).1]
    exact h.under i t ((hiw i t).1 hhas).1
  · intro i hi
    exact h.lt i ((hreg i).1 hi).1
  · intro i hi
    rcases (hreg i).1 hi with ⟨hi, hnot⟩
    rw [← Bool.not_eq_true, (hheap i).2.2]
    rintro (hstopped | ⟨-, hmem⟩)
    · rw [h.running i hi] at hstopped
      cases hstopped
    · exact hnot hmem
  · intro i hi hnot
    rw [(hheap i).2.2, htostop]
    by_cases hmem : i ∈ numbers
    · cases hd : s.dispatching with
      | true => exact Or.inr (Or.inr ⟨rfl, hmem⟩)
      | false => exact Or.inl (Or.inr ⟨rfl, hmem⟩)
    have hwas : s.registered i = false := by
      rw [← Bool.not_eq_true]
      intro hwas
      rw [(hreg i).2 ⟨hwas, hmem⟩] at hnot
      cases hnot
    rcases h.left i hi hwas with hstopped | htostop'
    · exact Or.inl (Or.inl hstopped)
    · exact Or.inr (Or.inl htostop')
  · intro i hi
    rw [← Bool.not_eq_true, hreg]
    rcases (htostop i).1 hi with hi | ⟨-, hi⟩
    · rcases h.leaving i hi with ⟨hwas, hlt⟩
      refine ⟨?_, hlt⟩
      rintro ⟨htrue, -⟩
      rw [hwas] at htrue
      cases htrue
    · exact ⟨fun hpair => hpair.2 hi, h.lt i (hnumbers i hi)⟩
  · intro hquiet
    have hd : s.dispatching = false := hquiet
    rcases h.quiet hd with ⟨hto, hbuffer, hblock⟩
    refine ⟨eq_nil_iff_forall_not_mem.2 ?_, hbuffer, hblock⟩
    intro i hi
    rcases (htostop i).1 hi with hi | ⟨htrue, -⟩
    · rw [hto] at hi
      cases hi
    · rw [hd] at htrue
      cases htrue
  · intro i hi
    rcases h.offered i hi with ⟨hlt, hstopped⟩
    refine ⟨hlt, ?_⟩
    rw [← Bool.not_eq_true, (hheap i).2.2]
    rintro (htrue | ⟨hd, -⟩)
    · rw [hstopped] at htrue
      cases htrue
    -- nobody is offered anything unless an event is dispatched
    have hnil : i ∈ s.watchersBuffer ++ s.blockedWatchers := hi
    rw [(h.quiet hd).2.1, (h.quiet hd).2.2] at hnil
    cases hnil
  · exact h.due
  · intro i hi value hvalue
    rw [(hheap i).1] at hvalue
    rw [(hheap i).2.1]
    exact h.routed i hi value hvalue

lemma has_forget (h : Registry cfg s) (i : ℕ) : ∀ j t,
    (s.watchers.deleteWatcher i (s.heap i).triggerValue).has j t = true ↔
      s.watchers.has j t = true ∧ j ∉ (if s.registered i then [i] else []) := by
  intro j t
  rw [(has_update _ _ _ _ _).2]
  by_cases hj : j = i ∧ t = (s.heap i).triggerValue
  · rcases hj with ⟨rfl, rfl⟩
    rw [if_pos ⟨rfl, rfl⟩]
    constructor
    · intro hfalse
      cases hfalse
    rintro ⟨hhas, hnot⟩
    have hreg : s.registered j = true := hhas
    rw [if_pos hreg] at hnot
    exact absurd (mem_singleton_self j) hnot
  · rw [if_neg hj]
    refine ⟨fun hhas => ⟨hhas, ?_⟩, fun hhas => hhas.1⟩
    intro hmem
    split at hmem
    · have hji := mem_singleton.1 hmem
      subst hji
      exact hj ⟨rfl, (h.under j t hhas).symm⟩
    · cases hmem

lemma forget (h : Registry cfg s) (i : ℕ) : Registry cfg (s.forget i) := by
  refine h.remove (h.has_forget i) ?_
  intro j hj
  split_ifs at hj with hreg
  · rw [mem_singleton.1 hj]
    exact hreg
  · cases hj

lemma has_terminateAll (s : Cacher O) : ∀ i t, (⟨∅, ∅⟩ : IndexedWatchers).has i t = true ↔
    s.watchers.has i t = true ∧ i ∉ s.watchers.numbers := by
  intro i t
  rw [has_empty]
  constructor
  · intro hfalse
    cases hfalse
  · rintro ⟨hhas, hnot⟩
    exact absurd (mem_numbers.2 ⟨t, hhas⟩) hnot

lemma terminateAllWatchers (h : Registry cfg s) : Registry cfg s.terminateAllWatchers := by
  refine h.remove (has_terminateAll s) ?_
  intro i hi
  rcases mem_numbers.1 hi with ⟨t, hhas⟩
  exact h.registered_of_has hhas

/-- All numbers in the buckets are below `n`. -/
def Below (n : ℕ) (t : TimeBuckets) : Prop :=
  ∀ id numbers, t.watchersBuckets.lookup id = some numbers → ∀ j ∈ numbers, j < n

lemma due_addWatcher {t : TimeBuckets} {n i : ℕ} {deadline : Option ℤ} {now : ℤ} (hi : i < n)
    (h : Below n t) : Below n (t.addWatcher i deadline now) := by
  intro id numbers hl j hj
  unfold TimeBuckets.addWatcher at hl
  split at hl
  · exact h id numbers hl j hj
  rename_i nextTime _
  rw [GoMap.lookup_insert_if] at hl
  split at hl
  · rw [← Option.some.inj hl] at hj
    exact forall_mem_append.2 ⟨GoMap.forall_mem_getD (h _), forall_mem_singleton.2 hi⟩ j hj
  · exact h id numbers hl j hj

lemma due_popBuckets {n k : ℕ} {t : TimeBuckets} (h : Below n t) :
    (∀ j ∈ (t.popBuckets k).1, j < n) ∧ Below n (t.popBuckets k).2 := by
  induction k generalizing t with
  | zero =>
    refine ⟨?_, h⟩
    intro j hj
    cases hj
  | succ k ih =>
    have hrest := @ih ⟨t.watchersBuckets.erase t.startBucketID, t.startBucketID + 1⟩ (by
      intro id numbers hl j hj
      rw [GoMap.lookup_erase_if] at hl
      split at hl
      · cases hl
      · exact h id numbers hl j hj)
    exact ⟨forall_mem_append.2 ⟨GoMap.forall_mem_getD (h _), hrest.1⟩, hrest.2⟩

lemma startDispatching (h : Registry cfg s) (hd : s.dispatching = false)
    (event : WatchCacheEvent O) (order : IterOrder ℕ) (values : IterOrder String) (now : ℤ)
    (requeued : ℕ → ℤ) : Registry cfg (s.startDispatching cfg event order values now requeued) := by
  rcases h.quiet hd with ⟨-, -, hblock⟩
  cases event with
  | change c =>
    refine ⟨h.under, h.lt, h.running, h.left, h.leaving, ?_, ?_, h.due, h.routed⟩
    · intro hfalse
      cases hfalse
    intro i hi
    have hmem : i ∈ s.watchers.interested order values (triggerValues cfg c) ++
        s.blockedWatchers := hi
    rw [hblock, append_nil, mem_interested] at hmem
    have hreg : s.registered i = true := by
      rcases hmem with hhas | ⟨value, hhas, -⟩ <;> exact h.registered_of_has hhas
    exact ⟨h.lt i hreg, h.running i hreg⟩
  | bookmark rv =>
    have hpop : (∀ j ∈ (s.bookmarkWatchers.popExpiredWatchers now).1, j < s.watcherIdx) ∧ _ :=
      due_popBuckets h.due
    have hws : ∀ i ∈ (s.bookmarkWatchers.popExpiredWatchers now).1.filter
        (fun i => !(s.heap i).stopped), i < s.watcherIdx ∧ (s.heap i).stopped = false := by
      intro i hi
      rcases mem_filter.1 hi with ⟨hi, hstopped⟩
      exact ⟨hpop.1 i hi, Bool.not_eq_true' _ ▸ hstopped⟩
    refine ⟨h.under, h.lt, h.running, h.left, h.leaving, ?_, ?_, ?_, h.routed⟩
    · intro hfalse
      cases hfalse
    · intro i hi
      have hmem : i ∈ (s.bookmarkWatchers.popExpiredWatchers now).1.filter
        (fun i => !(s.heap i).stopped) ++ s.blockedWatchers := hi
      rw [hblock, append_nil] at hmem
      exact hws i hmem
    · -- the watchers are put back one by one
      refine List.foldlRecOn (motive := Below s.watcherIdx) _ _ hpop.2 ?_
      intro t ht i hi
      exact due_addWatcher (hws i hi).1 ht

lemma addWatcher (h : Registry cfg s) {w : CacheWatcher O} (hw : Routed cfg w)
    (hstopped : w.stopped = false) (allow : Bool) (now : ℤ) :
    Registry cfg (s.addWatcher w allow now) := by
  set s' := s.addWatcher w allow now with hs'
  have hself : s'.heap s.watcherIdx = w := update_self _ _ _
  have hother : ∀ i, i ≠ s.watcherIdx → s'.heap i = s.heap i := fun i hi =>
    update_of_ne hi _ _
  have hhas : ∀ i t, s'.watchers.has i t =
      if i = s.watcherIdx ∧ t = w.triggerValue then true else s.watchers.has i t :=
    fun i t => (has_update _ _ _ _ _).1
  -- the new number was not in use
  have hfresh : ∀ t, s.watchers.has s.watcherIdx t = false := by
    intro t
    rw [← Bool.not_eq_true]
    intro hold
    exact absurd (h.lt _ (h.registered_of_has hold)) (lt_irrefl _)
  have hreg : ∀ i, i ≠ s.watcherIdx → s'.registered i = s.registered i := by
    intro i hi
    unfold registered
    rw [hhas, if_neg fun hpair => hi hpair.1, hother i hi]
  have hregself : s'.registered s.watcherIdx = true := by
    unfold registered
    rw [hhas, hself, if_pos ⟨rfl, rfl⟩]
  have hidx : s'.watcherIdx = s.watcherIdx + 1 := rfl
  constructor
  · intro i t hit
    show (s'.heap i).triggerValue = t
    rw [hhas] at hit
    by_cases hi : i = s.watcherIdx
    · subst hi
      split at hit
      · rename_i hpair
        rw [hself, hpair.2]
      · rw [hfresh t] at hit
        cases hit
    · rw [if_neg fun hpair => hi hpair.1] at hit
      rw [hother i hi]
      exact h.under i t hit
  · intro i hi
    by_cases hnew : i = s.watcherIdx
    · omega
    · have hlt := h.lt i (hreg i hnew ▸ hi)
      omega
  · intro i hi
    by_cases hnew : i = s.watcherIdx
    · rw [hnew, hself]
      exact hstopped
    · rw [hother i hnew]
      exact h.running i (hreg i hnew ▸ hi)
  · intro i hi hnot
    by_cases hnew : i = s.watcherIdx
    · rw [hnew, hregself] at hnot
      cases hnot
    · rw [hother i hnew]
      exact h.left i (by omega) (hreg i hnew ▸ hnot)
  · intro i hi
    rcases h.leaving i hi with ⟨hnot, hlt⟩
    rw [hreg i (Nat.ne_of_lt hlt)]
    exact ⟨hnot, by omega⟩
  · exact h.quiet
  · intro i hi
    rcases h.offered i hi with ⟨hlt, hst⟩
    rw [hother i (Nat.ne_of_lt hlt)]
    exact ⟨by omega, hst⟩
  · have hdue : Below (s.watcherIdx + 1) s.bookmarkWatchers := by
      intro id numbers hl j hj
      have hlt := h.due id numbers hl j hj
      omega
    show Below (s.watcherIdx + 1) (if allow then _ else s.bookmarkWatchers)
    split
    · exact due_addWatcher (lt_succ_self _) hdue
    · exact hdue
  · intro i hi
    by_cases hnew : i = s.watcherIdx
    · rw [hnew, hself]
      exact hw
    · rw [hother i hnew]
      exact h.routed i (by omega)

lemma finishDispatching (h : Registry cfg s) (event : WatchCacheEvent O)
    (hbuffer : s.watchersBuffer = []) (hblock : s.blockedWatchers = []) :
    Registry cfg (s.finishDispatching event) := by
  let stopped := stopAll s.heap s.watchersToStop
  have hheap : ∀ i, (stopped i).triggerValue = (s.heap i).triggerValue ∧
      (stopped i).filter = (s.heap i).filter ∧
      ((stopped i).stopped = true ↔
        (s.heap i).stopped = true ∨ i ∈ s.watchersToStop) := by
    intro i
    unfold stopped stopAll
    split <;> simp_all
  have hreg : ∀ i, (s.finishDispatching event).registered i = s.registered i := by
    intro i
    show s.watchers.has i (stopped i).triggerValue = _
    rw [(hheap i).1]
    rfl
  have hnil : ∀ i, i ∉ s.watchersBuffer ++ s.blockedWatchers := by
    intro i hi
    rw [hbuffer, hblock] at hi
    cases hi
  constructor
  · intro i t hhas
    show (stopped i).triggerValue = t
    rw [(hheap i).1]
    exact h.under i t hhas
  · intro i hi
    exact h.lt i (hreg i ▸ hi)
  · intro i hi
    rw [hreg] at hi
    show (stopped i).stopped = false
    rw [← Bool.not_eq_true, (hheap i).2.2]
    rintro (hstopped | hmem)
    · rw [h.running i hi] at hstopped
      cases hstopped
    · rw [(h.leaving i hmem).1] at hi
      cases hi
  · intro i hi hnot
    rw [hreg] at hnot
    exact Or.inl ((hheap i).2.2.2 (h.left i hi hnot))
  · intro i hi
    cases hi
  · intro _
    exact ⟨rfl, hbuffer, hblock⟩
  · intro i hi
    exact absurd hi (hnil i)
  · exact h.due
  · intro i hi value hvalue
    have hvalue' : (stopped i).triggerValue = some value := hvalue
    rw [(hheap i).1] at hvalue'
    rcases h.routed i hi value hvalue' with ⟨t, ht, hfilter⟩
    refine ⟨t, ht, ?_⟩
    show ∀ key l f, (stopped i).filter key l f = true → _
    rw [(hheap i).2.1]
    exact hfilter

lemma init : Registry cfg (newCacher O) := by
  have hnone : ∀ i, (newCacher O).registered i = false := fun i => rfl
  constructor
  · intro i t hhas
    have hempty : (⟨∅, ∅⟩ : IndexedWatchers).has i t = true := hhas
    rw [has_empty] at hempty
    cases hempty
  · intro i hi
    rw [hnone] at hi
    cases hi
  · intro i hi
    rw [hnone] at hi
    cases hi
  · intro i hi
    exact absurd hi (not_lt_zero i)
  · intro i hi
    cases hi
  · intro _
    exact ⟨rfl, rfl, rfl⟩
  · intro i hi
    cases hi
  · intro id numbers hl
    cases hl
  · intro i hi
    exact absurd hi (not_lt_zero i)

lemma step (h : Registry cfg s) (hstep : Step cfg s l s') : Registry cfg s' := by
  have hsame : ∀ i, SameRole (s.heap i) (s.heap i) := fun i => SameRole.refl _
  cases hstep with
  | startCaching =>
    exact h.terminateAllWatchers.frame rfl rfl (fun i => SameRole.refl _) rfl rfl
      (fun _ hi => hi) rfl
  | register n req order now initEvents =>
    have hleave : Registry cfg (s.leave n) := h.frame rfl rfl hsame rfl rfl (fun _ hi => hi) rfl
    exact hleave.addWatcher (routed_newWatcher s req initEvents) rfl _ _
  | timerIdle now =>
    exact ⟨h.under, h.lt, h.running, h.left, h.leaving, h.quiet, h.offered,
      (due_popBuckets h.due).2, h.routed⟩
  | startDispatching event order values now requeued hcur hd =>
    exact h.startDispatching hd event order values now requeued
  | addSent event i rest hcur hd hbuffer =>
    refine h.frame rfl rfl (sameRole_setWatcher s i ⟨rfl, rfl, rfl⟩) rfl rfl ?_ rfl
    intro j hj
    rw [hbuffer]
    exact mem_cons_of_mem _ hj
  | addDropped rv i rest hcur hd hbuffer =>
    refine h.frame rfl rfl hsame rfl rfl ?_ rfl
    intro j hj
    rw [hbuffer]
    exact mem_cons_of_mem _ hj
  | addBlocked c i rest hcur hd hbuffer =>
    refine h.frame rfl rfl hsame rfl rfl ?_ rfl
    intro j hj
    have hmem : j ∈ rest ++ (s.blockedWatchers ++ [i]) := hj
    rw [hbuffer]
    simp only [mem_append, mem_cons, not_mem_nil, or_false] at hmem ⊢
    tauto
  | retrySent event i rest hcur hd hbuffer hblock =>
    refine h.frame rfl rfl (sameRole_setWatcher s i ⟨rfl, rfl, rfl⟩) rfl rfl ?_ rfl
    intro j hj
    rw [hblock]
    exact ((sublist_cons_self i rest).append_left _).subset hj
  | retryClosed event i rest hcur hd hbuffer hblock =>
    refine (h.forget i).frame rfl rfl (fun i => SameRole.refl _) rfl rfl ?_ rfl
    intro j hj
    show j ∈ s.watchersBuffer ++ s.blockedWatchers
    rw [hblock]
    exact ((sublist_cons_self i rest).append_left _).subset hj
  | finishDispatching event hcur hd hbuffer hblock =>
    exact h.finishDispatching event hbuffer hblock
  | take i w hi hsend htake =>
    exact h.frame rfl rfl (sameRole_setWatcher s i (sameRole_take htake)) rfl rfl
      (fun _ hi => hi) rfl
  | send i event hi hsend =>
    exact h.frame rfl rfl (sameRole_setWatcher s i ⟨rfl, rfl, rfl⟩) rfl rfl (fun _ hi => hi) rfl
  | drop i event hi hsend hstopped =>
    exact h.frame rfl rfl (sameRole_setWatcher s i ⟨rfl, rfl, rfl⟩) rfl rfl (fun _ hi => hi) rfl
  | cancel i hi =>
    exact h.frame rfl rfl (sameRole_setWatcher s i ⟨rfl, rfl, rfl⟩) rfl rfl (fun _ hi => hi) rfl
  | stop i hi => exact h.forget i
  | _ => exact h.frame rfl rfl hsame rfl rfl (fun _ hi => hi) rfl

end Registry

/-! ## The order of the events -/

/-- The events between the watch cache and the end of their dispatch. -/
def pipeline (s : Cacher O) : List (WatchCacheEvent O) :=
  (match s.current with
    | some (.change c) => [.change c]
    | _ => []) ++ s.incoming ++ s.pending.toList

/-- A change comes after all versions before it; a bookmark can repeat the last one. -/
def Above (rv : ℕ) : WatchCacheEvent O → Prop
  | .change c => rv < c.resourceVersion
  | .bookmark b => rv ≤ b

lemma Above.le {rv : ℕ} {e : WatchCacheEvent O} (h : Above rv e) : rv ≤ e.resourceVersion := by
  cases e with
  | change c => exact le_of_lt h
  | bookmark b => exact h

lemma Above.mono {rv rv' : ℕ} {e : WatchCacheEvent O} (h : Above rv e) (hle : rv' ≤ rv) :
    Above rv' e := by
  cases e with
  | change c => exact lt_of_le_of_lt hle h
  | bookmark b => exact le_trans hle h

/-- The events on their way are in the order of their versions. -/
structure Pipeline (s : Cacher O) : Prop where
  ordered : s.pipeline.Pairwise fun a b => Above a.resourceVersion b
  above : ∀ e ∈ s.pipeline, Above s.lastProcessedResourceVersion e
  below : ∀ e ∈ s.pipeline, e.resourceVersion ≤ s.watchCache.resourceVersion
  last_le : s.lastProcessedResourceVersion ≤ s.watchCache.resourceVersion
  bookmark : ∀ rv, s.current = some (.bookmark rv) → rv = s.lastProcessedResourceVersion
  idle : s.current = none → s.dispatching = false

namespace Pipeline

/-- What a step does to the events on their way: none moves, a new one enters at the end, or the
first one leaves and its version is noted. -/
inductive Moves (s s' : Cacher O) : Prop where
  | same (hpipe : s'.pipeline = s.pipeline)
      (hlast : s'.lastProcessedResourceVersion = s.lastProcessedResourceVersion)
      (hrv : s.watchCache.resourceVersion ≤ s'.watchCache.resourceVersion)
  | enter (event : WatchCacheEvent O) (hevent : Above s.watchCache.resourceVersion event)
      (hpipe : s'.pipeline = s.pipeline ++ [event])
      (hlast : s'.lastProcessedResourceVersion = s.lastProcessedResourceVersion)
      (hrv : s'.watchCache.resourceVersion = event.resourceVersion)
  | exit (event : WatchCacheEvent O) (hpipe : s.pipeline = event :: s'.pipeline)
      (hlast : s'.lastProcessedResourceVersion = event.resourceVersion)
      (hrv : s'.watchCache = s.watchCache)

lemma moves (hstep : Step cfg s l s') : Moves s s' := by
  have hle : s.watchCache.resourceVersion ≤ s.watchCache.resourceVersion := le_rfl
  cases hstep with
  | process type object now hconn hpend hrv =>
    refine .enter (.change (s.watchCache.eventOf cfg type object now)) hrv ?_ rfl rfl
    simp [pipeline, hpend, process]
  | updateResourceVersion rv hconn hpend hrv =>
    refine .enter (.bookmark rv) hrv ?_ rfl rfl
    simp [pipeline, hpend, updateResourceVersion]
  | push event hpend =>
    refine .same ?_ rfl hle
    simp [pipeline, hpend, push]
  | replace objs version hconn hpos hrv => exact .same rfl rfl hrv
  | popBookmark rv rest hcur hinc =>
    refine .exit (.bookmark rv) ?_ rfl rfl
    simp only [pipeline, hcur, hinc]
    rfl
  | popChange c rest hcur hinc =>
    refine .same ?_ rfl hle
    simp only [pipeline, hcur, hinc]
    rfl
  | timerDue now hcur hlast =>
    refine .same ?_ rfl hle
    simp only [pipeline, hcur]
  | startDispatching event => cases event <;> exact .same rfl rfl hle
  | finishDispatching event hcur hd hbuffer hblock =>
    cases event with
    | change c =>
      refine .exit (.change c) ?_ rfl rfl
      simp only [pipeline, hcur]
      rfl
    | bookmark rv =>
      refine .same ?_ rfl hle
      simp only [pipeline, hcur]
      rfl
  | _ => exact .same rfl rfl hle

/-- The dispatcher is only busy with the bookmark that it has made, and only dispatches what it
is busy with. -/
lemma current_step (h : Pipeline s) (hstep : Step cfg s l s') :
    (∀ rv, s'.current = some (.bookmark rv) → rv = s'.lastProcessedResourceVersion) ∧
      (s'.current = none → s'.dispatching = false) := by
  cases hstep with
  | popBookmark rv rest hcur hinc =>
    refine ⟨?_, h.idle⟩
    intro b hb
    have hb' : s.current = some (.bookmark b) := hb
    rw [hcur] at hb'
    cases hb'
  | popChange c rest hcur hinc =>
    constructor
    · intro b hb
      cases hb
    · intro hnone
      cases hnone
  | timerDue now hcur hlast =>
    constructor
    · intro b hb
      cases hb
      rfl
    · intro hnone
      cases hnone
  | startDispatching event order values now requeued hcur hd =>
    have hbusy : s.current ≠ none := by
      rw [hcur]
      exact Option.some_ne_none _
    cases event <;> exact ⟨h.bookmark, fun hnone => absurd hnone hbusy⟩
  | finishDispatching event hcur hd hbuffer hblock =>
    refine ⟨?_, fun _ => rfl⟩
    intro b hb
    cases hb
  | _ => exact ⟨h.bookmark, h.idle⟩

lemma step (h : Pipeline s) (hstep : Step cfg s l s') : Pipeline s' := by
  rcases h.current_step hstep with ⟨hbookmark, hidle⟩
  cases moves hstep with
  | same hpipe hlast hrv =>
    refine ⟨?_, ?_, ?_, ?_, hbookmark, hidle⟩
    · rw [hpipe]
      exact h.ordered
    · rw [hpipe, hlast]
      exact h.above
    · intro e he
      exact (h.below e (hpipe ▸ he)).trans hrv
    · rw [hlast]
      exact h.last_le.trans hrv
  | enter event hevent hpipe hlast hrv =>
    have hle : s.watchCache.resourceVersion ≤ s'.watchCache.resourceVersion := by
      rw [hrv]
      exact hevent.le
    refine ⟨?_, ?_, ?_, ?_, hbookmark, hidle⟩
    · rw [hpipe]
      refine pairwise_append.2 ⟨h.ordered, pairwise_singleton _ _, ?_⟩
      intro a ha b hb
      rw [mem_singleton.1 hb]
      exact hevent.mono (h.below a ha)
    · rw [hpipe, hlast]
      exact forall_mem_append.2 ⟨h.above, forall_mem_singleton.2 (hevent.mono h.last_le)⟩
    · rw [hpipe]
      exact forall_mem_append.2 ⟨fun e he => (h.below e he).trans hle,
        forall_mem_singleton.2 hrv.ge⟩
    · rw [hlast]
      exact h.last_le.trans hle
  | exit event hpipe hlast hrv =>
    have hordered := h.ordered
    have hbelow := h.below
    rw [hpipe] at hordered hbelow
    rcases pairwise_cons.1 hordered with ⟨hfirst, hrest⟩
    refine ⟨hrest, ?_, ?_, ?_, hbookmark, hidle⟩
    · rw [hlast]
      exact hfirst
    · intro e he
      rw [hrv]
      exact hbelow e (mem_cons_of_mem _ he)
    · rw [hlast, hrv]
      exact hbelow event mem_cons_self

lemma init : Pipeline (newCacher O) where
  ordered := List.Pairwise.nil
  above := by
    intro e he
    cases he
  below := by
    intro e he
    cases he
  last_le := le_rfl
  bookmark := by
    intro rv hb
    cases hb
  idle := fun _ => rfl

end Pipeline

/-! ## The history -/

/-- The changes were made one after the other, after the list. -/
structure Recorded (cfg : Config O) (e : Epoch O) : Prop where
  chain : Chain cfg e.objects e.log
  ascending : e.log.Pairwise fun a b => a.resourceVersion < b.resourceVersion
  later : ∀ c ∈ e.log, e.version < c.resourceVersion

/-- The window and the store are those of the log of the current epoch. -/
structure History (cfg : Config O) (s : Cacher O) : Prop where
  keyed : WellKeyed cfg s.watchCache.store
  lower : 0 < s.watchCache.lowerBoundCapacity
  holds : s.watchCache.events.Holds (s.epochs s.epoch).log
  version : s.watchCache.listResourceVersion = (s.epochs s.epoch).version
  store : objects s.watchCache.store = after (s.epochs s.epoch).objects (s.epochs s.epoch).log
  latest : ∀ c ∈ (s.epochs s.epoch).log, c.resourceVersion ≤ s.watchCache.resourceVersion
  version_le : (s.epochs s.epoch).version ≤ s.watchCache.resourceVersion
  recorded : ∀ e, Recorded cfg (s.epochs e)
  recent : ∀ c, .change c ∈ s.pipeline →
    c.resourceVersion ≤ (s.epochs s.epoch).version ∨ c ∈ (s.epochs s.epoch).log
  made : ∀ c, .change c ∈ s.pipeline → ∃ m, Made cfg m c

namespace History

/-- A step that applies nothing. -/
lemma frame (h : History cfg s) (hcache : s'.watchCache = s.watchCache)
    (hepoch : s'.epoch = s.epoch) (hepochs : s'.epochs = s.epochs)
    (hpipe : ∀ c, .change c ∈ s'.pipeline → .change c ∈ s.pipeline) : History cfg s' := by
  have hcur : s'.epochs s'.epoch = s.epochs s.epoch := by rw [hepoch, hepochs]
  constructor
  · rw [hcache]
    exact h.keyed
  · rw [hcache]
    exact h.lower
  · rw [hcache, hcur]
    exact h.holds
  · rw [hcache, hcur]
    exact h.version
  · rw [hcache, hcur]
    exact h.store
  · rw [hcache, hcur]
    exact h.latest
  · rw [hcache, hcur]
    exact h.version_le
  · rw [hepochs]
    exact h.recorded
  · intro c hc
    rw [hcur]
    exact h.recent c (hpipe c hc)
  · intro c hc
    exact h.made c (hpipe c hc)

lemma process (h : History cfg s) (hpend : s.pending = none) {type : ChangeType} {object : O}
    {now : ℤ} (hrv : s.watchCache.resourceVersion < cfg.objectResourceVersion object) :
    History cfg (s.process cfg type object now) := by
  set s' := s.process cfg type object now with hs'
  set event := s.watchCache.eventOf cfg type object now with hevent
  have hver : event.resourceVersion = cfg.objectResourceVersion object := rfl
  have hmade : Made cfg (objects s.watchCache.store) event := made_eventOf h.keyed _ _ _
  have hcur : s'.epochs s'.epoch = { s.epochs s.epoch with log := (s.epochs s.epoch).log ++ [event] } :=
    update_self _ _ _
  have hpipe : ∀ c, .change c ∈ s'.pipeline → .change c ∈ s.pipeline ∨ c = event := by
    intro c hc
    simp only [hs', pipeline, Cacher.process, hpend, Option.toList_some, Option.toList_none,
      append_nil, mem_append, mem_singleton, WatchCacheEvent.change.injEq] at hc ⊢
    exact hc
  constructor
  · exact wellKeyed_updateStore h.keyed _ _
  · exact (WatchCache.resizeCacheLocked_lower s.watchCache now).1 ▸ h.lower
  · rw [hcur]
    exact WatchCache.holds_updateCache h.holds event h.lower
  · rw [hcur]
    exact (WatchCache.resizeCacheLocked_lower s.watchCache now).2.trans h.version
  · rw [hcur, after_append, ← h.store]
    exact objects_processEvent s.watchCache type object now
  · rw [hcur]
    exact forall_mem_append.2 ⟨fun c hc => (h.latest c hc).trans hrv.le,
      forall_mem_singleton.2 le_rfl⟩
  · rw [hcur]
    exact h.version_le.trans hrv.le
  · intro e
    by_cases he : e = s.epoch
    · subst he
      rw [show s'.epochs s.epoch = _ from hcur]
      constructor
      · refine chain_append.2 ⟨(h.recorded _).chain, ?_, trivial⟩
        rw [← h.store]
        exact hmade
      · refine pairwise_append.2 ⟨(h.recorded _).ascending, pairwise_singleton _ _, ?_⟩
        intro a ha b hb
        rw [mem_singleton.1 hb]
        exact lt_of_le_of_lt (h.latest a ha) hrv
      · intro c hc
        rcases mem_append.1 hc with hc | hc
        · exact (h.recorded _).later c hc
        · rw [mem_singleton.1 hc]
          exact lt_of_le_of_lt h.version_le hrv
    · have hother : s'.epochs e = s.epochs e := update_of_ne he _ _
      rw [hother]
      exact h.recorded e
  · intro c hc
    rw [hcur]
    rcases hpipe c hc with hc | rfl
    · rcases h.recent c hc with hold | hlog
      · exact Or.inl hold
      · exact Or.inr (mem_append_left _ hlog)
    · exact Or.inr (mem_append_right _ (mem_singleton_self _))
  · intro c hc
    rcases hpipe c hc with hc | rfl
    · exact h.made c hc
    · exact ⟨_, hmade⟩

lemma updateResourceVersion (h : History cfg s) (hpend : s.pending = none) {rv : ℕ}
    (hrv : s.watchCache.resourceVersion ≤ rv) : History cfg (s.updateResourceVersion rv) := by
  have hpipe : ∀ c, .change c ∈ (s.updateResourceVersion rv).pipeline →
      .change c ∈ s.pipeline := by
    intro c hc
    simp only [pipeline, Cacher.updateResourceVersion, hpend, Option.toList_some,
      Option.toList_none, append_nil, mem_append, mem_singleton, reduceCtorEq,
      or_false] at hc ⊢
    exact hc
  refine ⟨h.keyed, h.lower, h.holds, h.version, h.store, ?_, h.version_le.trans hrv, h.recorded,
    fun c hc => h.recent c (hpipe c hc), fun c hc => h.made c (hpipe c hc)⟩
  intro c hc
  exact (h.latest c hc).trans hrv

lemma replace (h : History cfg s) (hbelow : ∀ e ∈ s.pipeline,
    e.resourceVersion ≤ s.watchCache.resourceVersion) (objs : List O) {version : ℕ}
    (hrv : s.watchCache.resourceVersion ≤ version) : History cfg (s.replace cfg objs version) := by
  have hcur : (s.replace cfg objs version).epochs (s.replace cfg objs version).epoch =
      ⟨version, objects (s.watchCache.replace cfg objs version).store, []⟩ :=
    update_self _ _ _
  constructor
  · exact wellKeyed_replace s.watchCache objs version
  · exact h.lower
  · rw [hcur]
    exact h.holds.clear
  · rw [hcur]
    rfl
  · rw [hcur]
    rfl
  · intro c hc
    rw [hcur] at hc
    cases hc
  · rw [hcur]
    exact le_rfl
  · intro e
    by_cases he : e = s.epoch + 1
    · subst he
      rw [show (s.replace cfg objs version).epochs (s.epoch + 1) = _ from hcur]
      refine ⟨trivial, List.Pairwise.nil, ?_⟩
      intro c hc
      cases hc
    · have hother : (s.replace cfg objs version).epochs e = s.epochs e :=
        update_of_ne he _ _
      rw [hother]
      exact h.recorded e
  · -- what is still on its way is older than the list
    intro c hc
    rw [hcur]
    exact Or.inl ((hbelow _ hc).trans hrv)
  · exact h.made

/-- Where nothing is applied, no change enters the pipeline. -/
lemma mem_pipeline_of_step (hstep : Step cfg s l s')
    (hcache : s'.watchCache.resourceVersion = s.watchCache.resourceVersion) {c : Change O}
    (hc : .change c ∈ s'.pipeline) : .change c ∈ s.pipeline := by
  cases Pipeline.moves hstep with
  | same hpipe => rwa [hpipe] at hc
  | enter event hevent hpipe hlast hrv =>
    rw [hpipe] at hc
    rcases mem_append.1 hc with hc | hc
    · exact hc
    rw [← mem_singleton.1 hc] at hevent hrv
    have hlt : s.watchCache.resourceVersion < c.resourceVersion := hevent
    have heq : s'.watchCache.resourceVersion = c.resourceVersion := hrv
    omega
  | exit event hpipe =>
    rw [hpipe]
    exact mem_cons_of_mem _ hc

lemma step (h : History cfg s) (hp : Pipeline s) (hstep : Step cfg s l s') :
    History cfg s' := by
  have hpipe : s'.watchCache.resourceVersion = s.watchCache.resourceVersion →
      ∀ c, .change c ∈ s'.pipeline → .change c ∈ s.pipeline :=
    fun hcache _ => mem_pipeline_of_step hstep hcache
  cases hstep with
  | process type object now hconn hpend hrv => exact h.process hpend hrv
  | updateResourceVersion rv hconn hpend hrv => exact h.updateResourceVersion hpend hrv
  | replace objs version hconn hpos hrv => exact h.replace hp.below objs hrv
  | startDispatching event =>
    cases event <;> exact h.frame rfl rfl rfl (fun _ hc => hc)
  | _ => exact h.frame rfl rfl rfl (hpipe rfl)

lemma init : History cfg (newCacher O) where
  keyed := by
    intro key elem hl
    cases hl
  lower := by
    show 0 < defaultLowerBoundCapacity
    decide
  holds := RingBuffer.holds_empty (by decide)
  version := rfl
  store := rfl
  latest := by
    intro c hc
    cases hc
  version_le := le_rfl
  recorded := by
    intro e
    refine ⟨trivial, List.Pairwise.nil, ?_⟩
    intro c hc
    cases hc
  recent := by
    intro c hc
    cases hc
  made := by
    intro c hc
    cases hc

end History

structure Wired (cfg : Config O) (s : Cacher O) : Prop where
  registry : Registry cfg s
  pipeline : Pipeline s
  history : History cfg s

lemma Wired.init : Wired cfg (newCacher O) := ⟨.init, .init, .init⟩

lemma Wired.step (h : Wired cfg s) (hstep : Step cfg s l s') :
    Wired cfg s' :=
  ⟨h.registry.step hstep, h.pipeline.step hstep, h.history.step h.pipeline hstep⟩

end Cacher

end Kubernetes.Apiserver
