import Kubernetes.ClientGo.DeltaFIFO

/-! # What a consumer of the queue gets to see

The abstract view of a `DeltaFIFO` is its history. For one key, the deltas
enqueued between two hand-outs form an *accumulation*; the consumer sees each
accumulation with its runs of adjacent deletions collapsed. A requeue puts the
accumulation back, so it goes on.

Results:

1. `collapse_concat`: the pairwise deduplication, applied at every append,
   computes `collapse`;
2. `history_law`: over every run, what was handed out and what is pending is the
   collapsed history, and the keys leave in the order in which they entered.
-/

namespace Kubernetes.ClientGo

open List

variable {O : Type}

/-! ## Collapsing runs of deletions -/

/-- Appending to the last group of `splitBy`. -/
lemma splitBy_concat {α : Type} {r : α → α → Bool} {l : List α} {gs : List (List α)}
    {g : List α} {d : α} (h : l.splitBy r = gs ++ [g]) (hg : ∀ b ∈ g.getLast?, r b d = true) :
    (l ++ [d]).splitBy r = gs ++ [g ++ [d]] := by
  rw [splitBy_eq_iff] at h ⊢
  obtain ⟨rfl, hnil, hchain, hadj⟩ := h
  simp only [mem_append, mem_singleton, not_or] at hnil
  refine ⟨by simp, by simp [hnil.1], ?_, ?_⟩
  · intro m hm
    rcases mem_append.1 hm with hm | hm
    · exact hchain m (mem_append_left _ hm)
    · obtain rfl := mem_singleton.1 hm
      rw [isChain_append]
      exact ⟨hchain g (by simp), isChain_singleton d, by simpa using hg⟩
  · rw [isChain_append] at hadj ⊢
    refine ⟨hadj.1, isChain_singleton _, fun a ha b hb => ?_⟩
    obtain ⟨hane, hgne, hrel⟩ := hadj.2.2 a ha g (by simp)
    obtain rfl : g ++ [d] = b := by simpa using hb
    exact ⟨hane, by simp, by rwa [head_append_of_ne_nil hgne]⟩

/-- Of a run of deletions: the first whose object is not a
`DeletedFinalStateUnknown`, else the last. -/
def keepOne (run : Deltas O) : Option (Delta O) :=
  (run.find? fun d => !d.object.isDeletedFinalStateUnknown).or run.getLast?

variable (l : Deltas O)

/-- Each run of adjacent deletions collapsed to a single one. -/
def collapse : Deltas O := (l.splitBy Delta.bothDeleted).filterMap keepOne

open Delta

variable (d : Delta O)

@[simp] lemma keepOne_singleton : keepOne [d] = some d := by
  unfold keepOne
  cases h : d.object.isDeletedFinalStateUnknown <;> simp [h]

@[simp] lemma collapse_nil : collapse ([] : Deltas O) = [] := rfl

@[simp] lemma collapse_singleton : collapse [d] = [d] := by
  simp [collapse, List.splitBy, List.splitBy.loop]

/-- In a run of two or more every delta is a deletion. -/
lemma deleted_of_isChain {x y : Delta O} {g : Deltas O}
    (h : (x :: y :: g).IsChain fun a b => bothDeleted a b = true) :
    ∀ z ∈ x :: y :: g, z.type = .deleted := by
  induction g generalizing x y with
  | nil =>
    simp only [bothDeleted] at h
    simpa using h
  | cons w g ih =>
    rw [isChain_cons_cons] at h
    have hx : x.type = .deleted ∧ y.type = .deleted := by simpa [bothDeleted] using h.1
    exact forall_mem_cons.2 ⟨hx.1, ih h.2⟩

/-- A run has one representative. It is a deletion exactly if the run's last
delta is one, and a `DeletedFinalStateUnknown` only if all deltas are. -/
lemma keepOne_spec {g : Deltas O} {b : Delta O} (hb : g.getLast? = some b)
    (hg : g.IsChain fun x y => bothDeleted x y = true) :
    ∃ c, keepOne g = some c ∧ (c.type = .deleted ↔ b.type = .deleted) ∧
      ∀ d : Delta O, keepOne (g ++ [d]) =
        some (if c.object.isDeletedFinalStateUnknown then d else c) := by
  have htype : ∀ c ∈ g, (c.type = .deleted ↔ b.type = .deleted) := by
    intro c hc
    match g, hb, hg, hc with
    | [x], hb, _, hc =>
      obtain rfl : x = b := by simpa using hb
      obtain rfl : c = x := by simpa using hc
      exact Iff.rfl
    | x :: y :: g, hb, hg, hc =>
      exact iff_of_true (deleted_of_isChain hg c hc)
        (deleted_of_isChain hg b (mem_of_getLast? hb))
  cases hf : g.find? fun d => !d.object.isDeletedFinalStateUnknown with
  | some c =>
    have hc : c.object.isDeletedFinalStateUnknown = false := by
      simpa using find?_some hf
    refine ⟨c, by simp [keepOne, hf], htype c (mem_of_find?_eq_some hf), fun d => ?_⟩
    simp [keepOne, find?_append, hf, hc]
  | none =>
    have hall : b.object.isDeletedFinalStateUnknown = true := by
      simpa using find?_eq_none.1 hf b (mem_of_getLast? hb)
    refine ⟨b, by simp [keepOne, hf, hb], Iff.rfl, fun d => ?_⟩
    cases hd : d.object.isDeletedFinalStateUnknown <;>
      simp [keepOne, find?_append, hf, hd, hall]

/-- The pairwise deduplication at each append computes `collapse`. -/
theorem collapse_concat : collapse (l ++ [d]) = dedupDeltas (collapse l ++ [d]) := by
  induction l using reverseRecOn with
  | nil => simp [dedupDeltas_singleton]
  | append_singleton l b _ =>
    -- the last group of `l ++ [b]` ends in `b`
    have hne : (l ++ [b]).splitBy bothDeleted ≠ [] := by simp
    obtain ⟨gs, g, hgs⟩ := (eq_nil_or_concat _).resolve_left hne
    rw [concat_eq_append] at hgs
    have hlast : g.getLast? = some b := by
      have hflat := congrArg List.getLast? (flatten_splitBy bothDeleted (l ++ [b]))
      have hgne : g ≠ [] := by
        rintro rfl
        exact nil_notMem_splitBy bothDeleted (l ++ [b]) (by simp [hgs])
      rw [hgs] at hflat
      simpa [getLast?_append, getLast?_eq_some_getLast hgne] using hflat
    have hchain : g.IsChain fun x y => bothDeleted x y = true :=
      isChain_of_mem_splitBy (by rw [hgs]; simp : g ∈ (l ++ [b]).splitBy bothDeleted)
    obtain ⟨c, hc, htype, happ⟩ := keepOne_spec hlast hchain
    have hcol : collapse (l ++ [b]) = gs.filterMap keepOne ++ [c] := by
      simp [collapse, hgs, hc]
    have hboth : bothDeleted b d = bothDeleted c d := by
      simp [bothDeleted, htype]
    rw [hcol, dedupDeltas_append]
    cases hbd : bothDeleted b d with
    | false =>
      rw [isDup_eq_none.2 (hboth.symm.trans hbd)]
      have hsplit : (l ++ [b] ++ [d]).splitBy bothDeleted =
          (l ++ [b]).splitBy bothDeleted ++ [[d]] :=
        splitBy_append_cons [] (by simpa using hbd)
      rw [collapse, hsplit, hgs]
      simp [hc]
    | true =>
      have hsplit := splitBy_concat hgs (d := d) (by simpa [hlast] using hbd)
      have hdel : c.type = .deleted ∧ d.type = .deleted := by
        simpa [bothDeleted] using hboth.symm.trans hbd
      simp only [collapse, hsplit, filterMap_append, filterMap_cons, happ,
        filterMap_nil, isDup, isDeletionDup, hdel, ne_eq, not_true, or_self,
        if_false]
      split_ifs <;> rfl

lemma collapse_of_deduped {l : Deltas O} (h : Deltas.Deduped l) : collapse l = l := by
  induction l using reverseRecOn with
  | nil => rfl
  | append_singleton l d ih =>
    rw [Deltas.Deduped, isChain_append] at h
    rw [collapse_concat, ih h.1]
    induction l using reverseRecOn with
    | nil => rfl
    | append_singleton l b _ =>
      have hdup : bothDeleted b d = false := h.2.2 b (by simp) d (by simp)
      rw [dedupDeltas_append, isDup_eq_none.2 hdup]

lemma deduped_collapse : Deltas.Deduped (collapse l) := by
  induction l using reverseRecOn with
  | nil => exact isChain_nil
  | append_singleton l d ih =>
    rw [collapse_concat]
    exact isChain_dedupDeltas ih d

lemma collapse_eq_nil {l : Deltas O} (h : collapse l = []) : l = [] := by
  induction l using reverseRecOn with
  | nil => rfl
  | append_singleton l d _ =>
    rw [collapse_concat] at h
    exact absurd h (dedupDeltas_ne_nil _ _)

/-! ## Histories -/

namespace DeltaFIFO

def pending (f : DeltaFIFO O) (k : String) : Deltas O := (f.items.lookup k).getD []

/-- The keys in the order in which they entered the queue. -/
def enteredKeys (log : List (LogEntry O)) : List String :=
  log.filterMap fun
    | .enter id => some id
    | _ => none

/-- The keys in the order in which they were popped. -/
def poppedKeys (log : List (LogEntry O)) : List String :=
  log.filterMap fun
    | .popped id _ _ => some id
    | _ => none

/-- The deltas of `k` that pops without requeue handed out. -/
def handedOut (k : String) (log : List (LogEntry O)) : Deltas O :=
  log.flatMap fun
    | .popped id deltas false => if id = k then deltas else []
    | _ => []

/-- The accumulations of a key: those that were handed out, and the current one. -/
structure Accumulations (O : Type) where
  closed : List (Deltas O)
  current : Deltas O

def Accumulations.all (a : Accumulations O) : List (Deltas O) := a.closed ++ [a.current]

/-- An enqueued delta extends the current accumulation; a pop without requeue closes it. -/
def Accumulations.next (k : String) (a : Accumulations O) : LogEntry O → Accumulations O
  | .enqueued id delta => if id = k then { a with current := a.current ++ [delta] } else a
  | .popped id _ false => if id = k then ⟨a.closed ++ [a.current], []⟩ else a
  | _ => a

def accumulations (k : String) (log : List (LogEntry O)) : Accumulations O :=
  log.foldl (Accumulations.next k) ⟨[], []⟩

section

variable (k : String) (log : List (LogEntry O)) (es : List (LogEntry O))

open Accumulations

lemma accumulations_append :
    accumulations k (log ++ es) = es.foldl (next k) (accumulations k log) := by
  simp [accumulations, foldl_append]

variable (id : String) (ds : Deltas O)

/-- Deltas enqueued in a row extend the current accumulation by all of them. -/
lemma foldl_next_enqueued (a : Accumulations O) :
    (ds.map (LogEntry.enqueued id)).foldl (next k) a =
      if id = k then { a with current := a.current ++ ds } else a := by
  induction ds generalizing a with
  | nil => simp
  | cons d ds ih =>
    rw [map_cons, foldl_cons, ih]
    by_cases hk : id = k <;> simp [Accumulations.next, hk]

lemma handedOut_append :
    handedOut k (log ++ es) = handedOut k log ++ handedOut k es := by
  simp [handedOut]

lemma handedOut_enqueued : handedOut k (ds.map (LogEntry.enqueued id)) = [] := by
  simp [handedOut, flatMap_map]

lemma poppedKeys_append :
    poppedKeys (log ++ es) = poppedKeys log ++ poppedKeys es := by
  simp [poppedKeys]

lemma poppedKeys_enqueued : poppedKeys (ds.map (LogEntry.enqueued id)) = [] := by
  simp [poppedKeys, filterMap_map]

lemma enteredKeys_append :
    enteredKeys (log ++ es) = enteredKeys log ++ enteredKeys es := by
  simp [enteredKeys]

lemma enteredKeys_enqueued : enteredKeys (ds.map (LogEntry.enqueued id)) = [] := by
  simp [enteredKeys, filterMap_map]

end

/-! ## The history invariant -/

/-- The fields of the queue are determined by its history. -/
structure History (f : DeltaFIFO O) : Prop where
  order : poppedKeys f.log ++ f.queue = enteredKeys f.log
  handed : ∀ k, handedOut k f.log = (accumulations k f.log).closed.flatMap collapse
  pending : ∀ k, f.pending k = collapse (accumulations k f.log).current
  /-- so that what comes back through `AddIfNotPresent` is deduplicated already -/
  deduped : ∀ id ds b, .popped id ds b ∈ f.log → Deltas.Deduped ds

lemma history_new (b : Bool) : (new b : DeltaFIFO O).History where
  order := rfl
  handed _ := rfl
  pending _ := rfl
  deduped _ _ _ h := by simp [new] at h

variable {f : DeltaFIFO O} {id : String} {ds : Deltas O}

open DeltaFIFO

lemma History.deduped_lookup (hf : f.History) (h : f.items.lookup id = some ds) :
    Deltas.Deduped ds := by
  have hpend : f.pending id = ds := by simp [DeltaFIFO.pending, h]
  rw [← hpend, hf.pending id]
  exact deduped_collapse _

lemma pending_insert {g : DeltaFIFO O} (h : g.items = f.items.insert id ds) (k : String) :
    g.pending k = if k = id then ds else f.pending k := by
  unfold pending
  rw [h, GoMap.lookup_insert_if]
  split <;> rfl

lemma pending_erase {g : DeltaFIFO O} (h : g.items = f.items.erase id) (k : String) :
    g.pending k = if k = id then [] else f.pending k := by
  unfold pending
  rw [h, GoMap.lookup_erase_if]
  split <;> rfl

lemma History.enqueue (hf : f.History) (id : String) (d : Delta O) :
    (f.enqueue id d).History where
  order := by
    rw [enqueue_log, enqueue_queue, poppedKeys_append, enteredKeys_append, ← hf.order]
    split <;> simp [poppedKeys, enteredKeys]
  handed k := by
    rw [enqueue_log, handedOut_append, accumulations_append, hf.handed k]
    split <;> by_cases hk : id = k <;> simp [handedOut, Accumulations.next, hk]
  pending k := by
    have hcur : (accumulations k (f.enqueue id d).log).current =
        if id = k then (accumulations k f.log).current ++ [d]
        else (accumulations k f.log).current := by
      rw [enqueue_log, accumulations_append]
      split <;> by_cases hk : id = k <;> simp [Accumulations.next, hk]
    rw [pending_insert (enqueue_items f id d), hcur]
    by_cases hk : k = id
    · subst hk
      rw [if_pos rfl, if_pos rfl, collapse_concat, ← hf.pending k]
      rfl
    · rw [if_neg hk, if_neg (Ne.symm hk), hf.pending k]
  deduped k ds b h := by
    rw [enqueue_log] at h
    split at h <;> exact hf.deduped k ds b (by simpa using h)

/-- A key without pending deltas starts a fresh accumulation. -/
lemma History.readd (hf : f.History) (hid : id ∉ f.items) (hds : Deltas.Deduped ds) :
    ((f.record (ds.map (.enqueued id))).put id ds).History where
  order := by
    simp only [put_log, record_log, put_queue, record_queue, poppedKeys_append,
      enteredKeys_append, poppedKeys_enqueued, enteredKeys_enqueued, ← hf.order]
    simp [poppedKeys, enteredKeys]
  handed k := by
    simp only [put_log, record_log, handedOut_append, accumulations_append, foldl_next_enqueued,
      handedOut_enqueued, hf.handed k]
    split <;> simp [handedOut, Accumulations.next]
  pending k := by
    have hcur : (accumulations k ((f.record (ds.map (.enqueued id))).put id ds).log).current =
        if id = k then (accumulations k f.log).current ++ ds
        else (accumulations k f.log).current := by
      simp only [put_log, record_log, accumulations_append, foldl_next_enqueued]
      split <;> simp [Accumulations.next]
    rw [hcur, pending_insert (put_items (f.record (ds.map (.enqueued id))) id ds)]
    by_cases hk : k = id
    · subst hk
      have hnone : f.pending k = [] := by simp [DeltaFIFO.pending, AList.lookup_eq_none.2 hid]
      have hempty := collapse_eq_nil ((hf.pending k).symm.trans hnone)
      rw [if_pos rfl, if_pos rfl, hempty, nil_append, collapse_of_deduped hds]
    · rw [if_neg hk, if_neg (Ne.symm hk), ← hf.pending k]
      rfl
  deduped k ds' b h := hf.deduped k ds' b (by simpa using h)

section

variable (hf : f.History) {item : Deltas O} {queue : List String} (hq : f.queue = id :: queue)
  (hl : f.items.lookup id = some item)

include hf hq hl

lemma History.pop : (f.take id item false).History where
  order := by
    rw [take_log, take_queue, poppedKeys_append, enteredKeys_append, ← hf.order, hq]
    simp [poppedKeys, enteredKeys]
  handed k := by
    rw [take_log, handedOut_append, accumulations_append, hf.handed k]
    by_cases hk : id = k
    · subst hk
      have hitem : f.pending id = item := by simp [DeltaFIFO.pending, hl]
      simp [handedOut, Accumulations.next, ← hf.pending id, hitem]
    · simp [handedOut, Accumulations.next, hk]
  pending k := by
    rw [pending_erase (take_items f id item false), take_log, accumulations_append]
    by_cases hk : k = id
    · subst hk
      simp [Accumulations.next]
    · simp [Accumulations.next, hk, Ne.symm hk, hf.pending k]
  deduped k ds b h := by
    rw [take_log, mem_append, mem_singleton] at h
    rcases h with h | h
    · exact hf.deduped k ds b h
    · cases h
      exact hf.deduped_lookup hl

/-- A requeue is not a hand-out: only the key's place in the queue changes. -/
lemma History.requeue : ((f.take id item true).put id item).History where
  order := by
    simp only [put_log, take_log, put_queue, take_queue, poppedKeys_append, enteredKeys_append,
      ← hf.order, hq]
    simp [poppedKeys, enteredKeys]
  handed k := by
    simp only [put_log, take_log, handedOut_append, accumulations_append, hf.handed k]
    simp [handedOut, Accumulations.next]
  pending k := by
    rw [pending_insert (put_items (f.take id item true) id item),
      pending_erase (take_items f id item true)]
    simp only [put_log, take_log, accumulations_append, foldl_cons, foldl_nil,
      Accumulations.next, ← hf.pending k]
    by_cases hk : k = id
    · subst hk
      simp [DeltaFIFO.pending, hl]
    · simp [hk]
  deduped k ds b h := by
    simp only [put_log, take_log, mem_append, mem_singleton, reduceCtorEq, or_false] at h
    rcases h with h | h
    · exact hf.deduped k ds b h
    · cases h
      exact hf.deduped_lookup hl

end

section

variable [DecidableEq O]

lemma exists_popped_of_wasPopped (h : f.wasPopped ds) :
    ∃ id b, .popped id ds b ∈ f.log := by
  unfold wasPopped at h
  obtain ⟨e, he, hm⟩ := any_eq_true.1 h
  cases e with
  | popped id item b =>
    obtain rfl : item = ds := by simpa using hm
    exact ⟨id, b, he⟩
  | enter id => cases hm
  | enqueued id d => cases hm

lemma History.update {f g : DeltaFIFO O} (hf : f.History) (h : Update f g) : g.History := by
  cases h with
  | counters b n => exact ⟨hf.order, hf.handed, hf.pending, hf.deduped⟩
  | enqueue id delta => exact hf.enqueue id delta
  | readd hid hp _ =>
    obtain ⟨_, _, hmem⟩ := exists_popped_of_wasPopped hp
    exact hf.readd hid (hf.deduped _ _ _ hmem)
  | pop hq hl => exact hf.pop hq hl
  | requeue hq hl => exact hf.requeue hq hl

/-- Over every run: the queue holds exactly the keys with stored deltas, without
duplicates; stored deltas are not empty; keys are popped in the order in which
they entered; and for each key, what was handed out followed by what is pending
is its history, accumulation by accumulation, with runs of deletions collapsed. -/
theorem history_law {keyFunc : Obj O → Except String String} {emit : Bool} {tr : List (Op O)}
    {f : DeltaFIFO O} (h : (machine keyFunc emit).Reach tr f) :
    f.queue.Nodup ∧ (∀ k, k ∈ f.queue ↔ k ∈ f.items) ∧
      (∀ k ds, f.items.lookup k = some ds → ds ≠ []) ∧
      poppedKeys f.log ++ f.queue = enteredKeys f.log ∧
      ∀ k, handedOut k f.log ++ f.pending k = (accumulations k f.log).all.flatMap collapse := by
  obtain ⟨hwf, hh⟩ := reach_updates History (history_new emit) (fun _ _ _ hf hu => hf.update hu) h
  refine ⟨hwf.nodup, hwf.mem_queue, hwf.nonempty, hh.order, fun k => ?_⟩
  rw [hh.handed k, hh.pending k, Accumulations.all]
  simp

end

/-- Keys of the demo objects: the object itself, nil has none. -/
def demoKey : Obj String → Except String String
  | .obj o => .ok o
  | _ => .error "object has no meta"

/-- Two deletions are collapsed across a requeue, and the popped deltas come back
through `AddIfNotPresent`. -/
def demoRun : List (Op String) :=
  [.add (.obj "a"), .delete none (.deletedFinalStateUnknown "a" .nil), .add (.obj "b"),
    .pop fun _ => true, .delete none (.obj "a"), .pop fun _ => false, .pop fun _ => false,
    .addIfNotPresent [⟨.added, .obj "a"⟩, ⟨.deleted, .obj "a"⟩]]

theorem history_law_demo :
    ∃ f, (machine demoKey true).Reach demoRun f ∧
      f.queue = ["a"] ∧ poppedKeys f.log ++ f.queue = ["a", "b", "a", "a"] ∧
      handedOut "a" f.log = [⟨.added, .obj "a"⟩, ⟨.deleted, .obj "a"⟩] ∧
      handedOut "a" f.log ++ f.pending "a" = (accumulations "a" f.log).all.flatMap collapse :=
  have h : (machine demoKey true).Reach demoRun _ := (Machine.reach_iff_runFrom _).2 rfl
  ⟨_, h, by decide, by decide, by decide, (history_law h).2.2.2.2 "a"⟩

end DeltaFIFO

end Kubernetes.ClientGo
