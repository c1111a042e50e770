import Kubernetes.GoMap
import Mathlib.Data.List.SplitBy

/-! # The queue between reflector and informer

A model of `tools/cache/delta_fifo.go`. The queue keeps, for every key that
waits to be processed, the `Deltas` accumulated for it, and the order in which
the keys entered.

`keyFunc` is a fallible parameter. `knownObjects` is a parameter of each call
that reads it, since its content changes between calls. A slice is a list: the
code never writes to a slice that it has handed out. The field `log` is
history, which no operation reads.

Results:

1. `isChain_dedupDeltas`, `dedupDeltas_ne_nil`: what deduplication keeps;
2. `updates_step`: every call is a sequence of primitive updates, so that an
   invariant is proved for those only (`reach_updates`);
3. `WellFormed`: queue and items agree, with no duplicates and no empty entry.
-/

namespace Kubernetes.ClientGo

open GoMap List Option

/-- The objects handled by the queue: nil, an API object, or the marker for an
object whose deletion was missed. -/
inductive Obj (O : Type) where
  | nil
  | obj (o : O)
  | deletedFinalStateUnknown (key : String) (obj : Obj O)
deriving DecidableEq

/-- The type assertion `obj.(DeletedFinalStateUnknown)`. -/
def Obj.isDeletedFinalStateUnknown {O : Type} : Obj O → Bool
  | .deletedFinalStateUnknown _ _ => true
  | _ => false

inductive DeltaType where
  | added
  | updated
  | deleted
  | replaced
  | sync
deriving DecidableEq

structure Delta (O : Type) where
  type : DeltaType
  object : Obj O
deriving DecidableEq

/-- `Deltas`: oldest first. -/
abbrev Deltas (O : Type) := List (Delta O)

/-- The errors of the operations, with the text's parameters. -/
inductive FIFOError (O : Type) where
  /-- `KeyError{obj, err}` -/
  | key (obj : Obj O) (err : String)
  /-- `KeyError{deltas, err}` -/
  | keyDeltas (deltas : Deltas O) (err : String)
  /-- "Impossible dedupDeltas for id; broke DeltaFIFO invariant by storing empty Deltas" -/
  | impossible (id : String)
  /-- "couldn't enqueue object: err" -/
  | enqueue (err : FIFOError O)
  /-- "couldn't queue object: err" -/
  | queue (err : FIFOError O)
deriving DecidableEq

/-- What happened to the queue. -/
inductive LogEntry (O : Type) where
  /-- `id` was appended to the queue. -/
  | enter (id : String)
  /-- `delta` was enqueued for `id`. -/
  | enqueued (id : String) (delta : Delta O)
  /-- `deltas` were handed to the process function, which asked for a requeue or not. -/
  | popped (id : String) (deltas : Deltas O) (requeued : Bool)
deriving DecidableEq

structure DeltaFIFO (O : Type) where
  items : GoMap String (Deltas O)
  queue : List String
  populated : Bool
  initialPopulationCount : Nat
  emitDeltaTypeReplaced : Bool
  /-- History, not part of the source. -/
  log : List (LogEntry O)

/-- `KeyListerGetter`: `GetByKey` gives an error, not found, or the object. -/
structure KeyListerGetter (O : Type) where
  listKeys : List String
  getByKey : String → Except String (Option (Obj O))

variable {O : Type}

/-! ## Deduplication -/

namespace Delta

variable (a b : Delta O)

/-- `isDeletionDup a b`: of two deletions keep the one with more information. -/
def isDeletionDup : Option (Delta O) :=
  if b.type ≠ .deleted ∨ a.type ≠ .deleted then none
  else if b.object.isDeletedFinalStateUnknown then some a
  else some b

def isDup : Option (Delta O) := isDeletionDup a b

def bothDeleted : Bool := a.type = .deleted && b.type = .deleted

lemma isDup_eq_none {a b : Delta O} : isDup a b = none ↔ bothDeleted b a = false := by
  unfold isDup isDeletionDup bothDeleted
  split_ifs with h hu <;> grind

lemma isDup_type {a b c : Delta O} (h : isDup a b = some c) : c.type = .deleted := by
  unfold isDup isDeletionDup at h
  split_ifs at h with hd hu <;> grind

end Delta

/-- `dedupDeltas` on a list in reverse order, newest first. -/
def dedupNewest : Deltas O → Deltas O
  | a :: b :: rest =>
    match Delta.isDup a b with
    | some out => out :: rest
    | none => a :: b :: rest
  | deltas => deltas

/-- `dedupDeltas`: combine the two most recent deltas if they are duplicates. -/
def dedupDeltas (deltas : Deltas O) : Deltas O := (dedupNewest deltas.reverse).reverse

lemma dedupDeltas_singleton (a : Delta O) : dedupDeltas [a] = [a] := rfl

lemma dedupDeltas_append (l : Deltas O) (b a : Delta O) :
    dedupDeltas (l ++ [b] ++ [a]) =
      match Delta.isDup a b with
      | some out => l ++ [out]
      | none => l ++ [b] ++ [a] := by
  simp only [dedupDeltas, reverse_append, reverse_singleton, singleton_append, dedupNewest]
  cases Delta.isDup a b <;> simp

theorem dedupDeltas_ne_nil (l : Deltas O) (a : Delta O) : dedupDeltas (l ++ [a]) ≠ [] := by
  induction l using reverseRecOn with
  | nil => simp [dedupDeltas_singleton]
  | append_singleton l b _ =>
    rw [dedupDeltas_append]
    cases Delta.isDup a b <;> simp

/-- No two adjacent deletions. -/
abbrev Deltas.Deduped (l : Deltas O) : Prop :=
  l.IsChain fun a b => Delta.bothDeleted a b = false

theorem isChain_dedupDeltas {l : Deltas O} (h : Deltas.Deduped l) (a : Delta O) :
    Deltas.Deduped (dedupDeltas (l ++ [a])) := by
  induction l using reverseRecOn with
  | nil => exact isChain_singleton a
  | append_singleton l b _ =>
    rw [dedupDeltas_append]
    cases hd : Delta.isDup a b with
    | none =>
      rw [Delta.isDup_eq_none] at hd
      rw [Deltas.Deduped, isChain_append]
      exact ⟨h, isChain_singleton a, by simpa using hd⟩
    | some out =>
      -- both are deletions, so nothing changes for the delta before them
      have hout := Delta.isDup_type hd
      have hb : b.type = .deleted := by
        unfold Delta.isDup Delta.isDeletionDup at hd
        grind
      rw [Deltas.Deduped, isChain_append] at h ⊢
      refine ⟨h.1, isChain_singleton out, fun x hx y hy => ?_⟩
      have hxb := h.2.2 x hx b (by simp)
      obtain rfl : out = y := by simpa using hy
      simpa [Delta.bothDeleted, hout, hb] using hxb

/-! ## The operations -/

namespace DeltaFIFO

def new (emitDeltaTypeReplaced : Bool) : DeltaFIFO O where
  items := ∅
  queue := []
  populated := false
  initialPopulationCount := 0
  emitDeltaTypeReplaced := emitDeltaTypeReplaced
  log := []

variable (f : DeltaFIFO O)

def record (es : List (LogEntry O)) : DeltaFIFO O :=
  { f with log := f.log ++ es }

variable (id : String)

/-- `f.queue = append(f.queue, id)` -/
def enter : DeltaFIFO O :=
  { f with queue := f.queue ++ [id] }.record [.enter id]

/-- `addIfNotPresent`: store `deltas` under `id` if nothing is stored there. -/
def addIfNotPresentLocked (deltas : Deltas O) : DeltaFIFO O :=
  let f := { f with populated := true }
  if id ∈ f.items then f
  else
    let f := f.enter id
    { f with items := f.items.insert id deltas }

section

variable (keyFunc : Obj O → Except String String)

/-- `KeyOf` on an object that is not a `Deltas`. -/
def keyOf : Obj O → Except String String
  | .deletedFinalStateUnknown key _ => .ok key
  | obj => keyFunc obj

variable (f : DeltaFIFO O)

/-- `queueActionLocked`: append to the deltas of the object. -/
def queueActionLocked (actionType : DeltaType) (obj : Obj O) : DeltaFIFO O × Option (FIFOError O) :=
  match keyOf keyFunc obj with
  | .error err => (f, some (.key obj err))
  | .ok id =>
    let oldDeltas := f.items.lookup id
    let newDeltas := dedupDeltas (oldDeltas.getD [] ++ [⟨actionType, obj⟩])
    if 0 < newDeltas.length then
      let f := if id ∈ f.items then f else f.enter id
      ({ f with items := f.items.insert id newDeltas }.record [.enqueued id ⟨actionType, obj⟩],
        none)
    else
      -- "Impossible dedupDeltas"
      match oldDeltas with
      | none => (f, none)
      | some _ => ({ f with items := f.items.insert id newDeltas }, some (.impossible id))

def add (obj : Obj O) : DeltaFIFO O × Option (FIFOError O) :=
  queueActionLocked keyFunc { f with populated := true } .added obj

def update (obj : Obj O) : DeltaFIFO O × Option (FIFOError O) :=
  queueActionLocked keyFunc { f with populated := true } .updated obj

variable (known : Option (KeyListerGetter O))

/-- Whether `Delete` ignores `id`, because it exists neither in the queue nor
among the known objects. -/
def deleteIgnored (f : DeltaFIFO O) (id : String) : Bool :=
  match known with
  | none => id ∉ f.items
  | some known =>
    match known.getByKey id with
    | .ok none => id ∉ f.items
    | _ => false

def delete (f : DeltaFIFO O) (obj : Obj O) : DeltaFIFO O × Option (FIFOError O) :=
  match keyOf keyFunc obj with
  | .error err => (f, some (.key obj err))
  | .ok id =>
    let f := { f with populated := true }
    if deleteIgnored known f id then (f, none)
    else queueActionLocked keyFunc f .deleted obj

/-- `AddIfNotPresent` on a `Deltas`; `none` is the nil dereference of
`deltas.Newest().Object` when there are no deltas. -/
def addIfNotPresent (deltas : Deltas O) : Option (DeltaFIFO O × Option (FIFOError O)) :=
  deltas.getLast?.map fun newest =>
    match keyOf keyFunc newest.object with
    | .error err => (f, some (.keyDeltas deltas err))
    | .ok id =>
      let f := if id ∈ f.items then f else f.record (deltas.map (.enqueued id))
      (f.addIfNotPresentLocked id deltas, none)

/-- The first loop of `Replace`: enqueue every listed object and collect the keys. -/
def replaceItems (action : DeltaType) :
    List (Obj O) → DeltaFIFO O → Finset String →
      DeltaFIFO O × Except (FIFOError O) (Finset String)
  | [], f, keys => (f, .ok keys)
  | item :: list, f, keys =>
    match keyOf keyFunc item with
    | .error err => (f, .error (.key item err))
    | .ok key =>
      match queueActionLocked keyFunc f action item with
      | (f, some err) => (f, .error (.enqueue err))
      | (f, none) => replaceItems action list f (insert key keys)

/-- The second loop of `Replace`: a deletion for every pre-existing key that is
not listed. `current` is the object that the key had. -/
def replaceDeletions (keys : Finset String) (current : DeltaFIFO O → String → Obj O) :
    List String → DeltaFIFO O → Nat → DeltaFIFO O × Except (FIFOError O) Nat
  | [], f, queuedDeletions => (f, .ok queuedDeletions)
  | k :: ks, f, queuedDeletions =>
    if k ∈ keys then replaceDeletions keys current ks f queuedDeletions
    else
      match queueActionLocked keyFunc f .deleted (.deletedFinalStateUnknown k (current f k)) with
      | (f, some err) => (f, .error err)
      | (f, none) => replaceDeletions keys current ks f (queuedDeletions + 1)

/-- The object of the newest delta queued for `k`. -/
def newestQueued (k : String) : Obj O :=
  (((f.items.lookup k).getD []).getLast?.map (·.object)).getD .nil

/-- The object that the known objects have for `k`. -/
def currentKnown (known : KeyListerGetter O) (k : String) : Obj O :=
  match known.getByKey k with
  | .ok (some obj) => obj
  | _ => .nil

/-- The deletions of `Replace`, against the known objects, or against the queue
in the given iteration order of `f.items`. -/
def detectDeletions (order : List String)
    (keys : Finset String) (f : DeltaFIFO O) : DeltaFIFO O × Except (FIFOError O) Nat :=
  match known with
  | none => replaceDeletions keyFunc keys newestQueued order f 0
  | some known => replaceDeletions keyFunc keys (fun _ => currentKnown known) known.listKeys f 0

/-- `Replace`. Its resource version is not used. -/
def replace (order : List String) (f : DeltaFIFO O)
    (list : List (Obj O)) : DeltaFIFO O × Option (FIFOError O) :=
  let action := if f.emitDeltaTypeReplaced then .replaced else .sync
  match replaceItems keyFunc action list f ∅ with
  | (f, .error err) => (f, some err)
  | (f, .ok keys) =>
    match detectDeletions keyFunc known order keys f with
    | (f, .error err) => (f, some err)
    | (f, .ok queuedDeletions) =>
      if f.populated then (f, none)
      else
        ({ f with
            populated := true
            initialPopulationCount := keys.card + queuedDeletions },
          none)

def syncKeyLocked (known : KeyListerGetter O) (f : DeltaFIFO O) (key : String) :
    DeltaFIFO O × Option (FIFOError O) :=
  match known.getByKey key with
  | .error _ => (f, none)
  | .ok none => (f, none)
  | .ok (some obj) =>
    match keyOf keyFunc obj with
    | .error err => (f, some (.key obj err))
    | .ok id =>
      if 0 < ((f.items.lookup id).getD []).length then (f, none)
      else
        match queueActionLocked keyFunc f .sync obj with
        | (f, some err) => (f, some (.queue err))
        | (f, none) => (f, none)

/-- The loop of `Resync`. -/
def syncKeys (known : KeyListerGetter O) :
    List String → DeltaFIFO O → DeltaFIFO O × Option (FIFOError O)
  | [], f => (f, none)
  | k :: ks, f =>
    match syncKeyLocked keyFunc known f k with
    | (f, some err) => (f, some err)
    | (f, none) => syncKeys known ks f

def resync (f : DeltaFIFO O) : DeltaFIFO O × Option (FIFOError O) :=
  match known with
  | none => (f, none)
  | some known => syncKeys keyFunc known known.listKeys f

end

/-- The loop of `Pop` up to the call of the process function: the queue without
its first key, and the deltas of that key. Keys that are queued without deltas
are skipped ("Inconceivable!"); `none` means that the call blocks. -/
def popHead (items : GoMap String (Deltas O)) :
    List String → Nat → Option (String × Deltas O × List String × Nat)
  | [], _ => none
  | id :: queue, count =>
    match items.lookup id with
    | none => popHead items queue (count - 1)
    | some item => some (id, item, queue, count - 1)

/-- `Pop`: `requeue` is whether the process function returns `ErrRequeue`. -/
def pop (requeue : Deltas O → Bool) : Option (Deltas O × DeltaFIFO O) :=
  (popHead f.items f.queue f.initialPopulationCount).map fun (id, item, queue, count) =>
    let f := { f with items := f.items.erase id, queue := queue, initialPopulationCount := count }
    let f := f.record [.popped id item (requeue item)]
    (item, if requeue item then f.addIfNotPresentLocked id item else f)

/-! ## Runs -/

/-- `deltas` is the output of an earlier `Pop`. -/
def wasPopped [DecidableEq O] (f : DeltaFIFO O) (deltas : Deltas O) : Bool :=
  f.log.any fun
    | .popped _ item _ => item = deltas
    | _ => false

/-- One call, with what the known objects answer during it, the iteration order
of `f.items`, and the verdict of the process function. -/
inductive Op (O : Type) where
  | add (obj : Obj O)
  | update (obj : Obj O)
  | delete (known : Option (KeyListerGetter O)) (obj : Obj O)
  | replace (known : Option (KeyListerGetter O)) (order : List String) (list : List (Obj O))
  | resync (known : Option (KeyListerGetter O))
  | addIfNotPresent (deltas : Deltas O)
  | pop (requeue : Deltas O → Bool)

/-- `AddIfNotPresent` requires "the output of the Pop() function". -/
def step [DecidableEq O] (keyFunc : Obj O → Except String String) (f : DeltaFIFO O) :
    Op O → Option (DeltaFIFO O)
  | .add obj => some (f.add keyFunc obj).1
  | .update obj => some (f.update keyFunc obj).1
  | .delete known obj => some (f.delete keyFunc known obj).1
  | .replace known order list => some (f.replace keyFunc known order list).1
  | .resync known => some (f.resync keyFunc known).1
  | .addIfNotPresent deltas =>
    if f.wasPopped deltas then (f.addIfNotPresent keyFunc deltas).map (·.1) else none
  | .pop requeue => (f.pop requeue).map (·.2)

def machine [DecidableEq O] (keyFunc : Obj O → Except String String)
    (emitDeltaTypeReplaced : Bool) : Machine (DeltaFIFO O) (Op O) where
  init := new emitDeltaTypeReplaced
  step := step keyFunc

/-! ## What one update can do -/

def enqueue (delta : Delta O) : DeltaFIFO O :=
  let g := if id ∈ f.items then f else f.enter id
  { g with items := f.items.insert id (dedupDeltas ((f.items.lookup id).getD [] ++ [delta])) }.record
    [.enqueued id delta]

/-- Put `deltas` under the free key `id`. -/
def put (deltas : Deltas O) : DeltaFIFO O :=
  { f.enter id with items := f.items.insert id deltas }

/-- Hand out the deltas `item` of the first key. -/
def take (item : Deltas O) (requeued : Bool) : DeltaFIFO O :=
  { f with items := f.items.erase id, queue := f.queue.tail }.record [.popped id item requeued]

/-- The updates that the operations are composed of. -/
inductive Update [DecidableEq O] : DeltaFIFO O → DeltaFIFO O → Prop where
  | counters (f : DeltaFIFO O) (b : Bool) (n : Nat) :
      Update f { f with populated := b, initialPopulationCount := n }
  | enqueue (f : DeltaFIFO O) (id : String) (delta : Delta O) : Update f (f.enqueue id delta)
  | readd {f : DeltaFIFO O} {id : String} {deltas : Deltas O} :
      id ∉ f.items → f.wasPopped deltas → deltas ≠ [] →
        Update f ((f.record (deltas.map (.enqueued id))).put id deltas)
  | pop {f : DeltaFIFO O} {id : String} {item : Deltas O} {queue : List String} :
      f.queue = id :: queue → f.items.lookup id = some item → Update f (f.take id item false)
  | requeue {f : DeltaFIFO O} {id : String} {item : Deltas O} {queue : List String} :
      f.queue = id :: queue → f.items.lookup id = some item →
        Update f ((f.take id item true).put id item)

/-- The representation invariant stated at the fields of `DeltaFIFO`. -/
structure WellFormed (f : DeltaFIFO O) : Prop where
  nodup : f.queue.Nodup
  mem_queue : ∀ id, id ∈ f.queue ↔ id ∈ f.items
  nonempty : ∀ id deltas, f.items.lookup id = some deltas → deltas ≠ []

variable {g : DeltaFIFO O}

section

variable (keyFunc : Obj O → Except String String)

lemma queueActionLocked_ok {obj : Obj O} {id : String} (h : keyOf keyFunc obj = .ok id)
    (f : DeltaFIFO O) (t : DeltaType) :
    queueActionLocked keyFunc f t obj = (f.enqueue id ⟨t, obj⟩, none) := by
  have hpos : 0 < (dedupDeltas ((f.items.lookup id).getD [] ++ [⟨t, obj⟩])).length :=
    length_pos_iff.2 (dedupDeltas_ne_nil _ _)
  simp only [queueActionLocked, h, if_pos hpos, enqueue]
  split <;> rfl

lemma queueActionLocked_error {obj : Obj O} {err : String} (h : keyOf keyFunc obj = .error err)
    (f : DeltaFIFO O) (t : DeltaType) :
    queueActionLocked keyFunc f t obj = (f, some (.key obj err)) := by
  simp [queueActionLocked, h]

variable [DecidableEq O]

abbrev Updates : DeltaFIFO O → DeltaFIFO O → Prop := Relation.ReflTransGen Update

lemma updates_queueActionLocked (f : DeltaFIFO O) (t : DeltaType) (obj : Obj O) :
    Updates f (queueActionLocked keyFunc f t obj).1 := by
  cases h : keyOf keyFunc obj with
  | error err => rw [queueActionLocked_error keyFunc h]
  | ok id =>
    rw [queueActionLocked_ok keyFunc h]
    exact .single (.enqueue f id _)

lemma updates_populated (f : DeltaFIFO O) : Updates f { f with populated := true } :=
  .single (.counters f true f.initialPopulationCount)

variable (known : Option (KeyListerGetter O))

lemma updates_delete (f : DeltaFIFO O) (obj : Obj O) :
    Updates f (f.delete keyFunc known obj).1 := by
  unfold delete
  cases keyOf keyFunc obj with
  | error err => exact .refl
  | ok id =>
    simp only []
    split
    · exact updates_populated f
    · exact (updates_populated f).trans (updates_queueActionLocked keyFunc _ _ _)

lemma updates_replaceItems (action : DeltaType) (list : List (Obj O)) (f : DeltaFIFO O)
    (keys : Finset String) : Updates f (replaceItems keyFunc action list f keys).1 := by
  induction list generalizing f keys with
  | nil => exact .refl
  | cons item list ih =>
    have hq := updates_queueActionLocked keyFunc f action item
    unfold replaceItems
    cases keyOf keyFunc item with
    | error err => exact .refl
    | ok key =>
      rcases hr : queueActionLocked keyFunc f action item with ⟨g, _ | err⟩
      · rw [hr] at hq
        exact hq.trans (ih g _)
      · simpa [hr] using hq

lemma updates_replaceDeletions (keys : Finset String) (current : DeltaFIFO O → String → Obj O)
    (ks : List String) (f : DeltaFIFO O) (n : Nat) :
    Updates f (replaceDeletions keyFunc keys current ks f n).1 := by
  induction ks generalizing f n with
  | nil => exact .refl
  | cons k ks ih =>
    unfold replaceDeletions
    split
    · exact ih f n
    have hq := updates_queueActionLocked keyFunc f .deleted
      (.deletedFinalStateUnknown k (current f k))
    rcases hr : queueActionLocked keyFunc f .deleted
      (.deletedFinalStateUnknown k (current f k)) with ⟨g, _ | err⟩
    · rw [hr] at hq
      exact hq.trans (ih g _)
    · simpa [hr] using hq

lemma updates_detectDeletions (order : List String) (keys : Finset String) (f : DeltaFIFO O) :
    Updates f (detectDeletions keyFunc known order keys f).1 := by
  cases known <;> exact updates_replaceDeletions keyFunc _ _ _ _ _

lemma updates_replace (order : List String) (f : DeltaFIFO O) (list : List (Obj O)) :
    Updates f (f.replace keyFunc known order list).1 := by
  unfold replace
  simp only []
  have hi := updates_replaceItems keyFunc
    (if f.emitDeltaTypeReplaced then .replaced else .sync) list f ∅
  rcases hri : replaceItems keyFunc (if f.emitDeltaTypeReplaced then .replaced else .sync)
    list f ∅ with ⟨g, err | keys⟩
  · simpa [hri] using hi
  rw [hri] at hi
  have hd := updates_detectDeletions keyFunc known order keys g
  dsimp only at hi ⊢
  rcases hrd : detectDeletions keyFunc known order keys g with ⟨g', err | n⟩
  · rw [hrd] at hd
    exact hi.trans hd
  rw [hrd] at hd
  dsimp only at hd ⊢
  split
  · exact hi.trans hd
  · exact (hi.trans hd).tail (.counters _ _ _)

lemma updates_syncKeyLocked (known : KeyListerGetter O) (f : DeltaFIFO O) (key : String) :
    Updates f (syncKeyLocked keyFunc known f key).1 := by
  unfold syncKeyLocked
  rcases known.getByKey key with err | _ | obj
  · exact .refl
  · exact .refl
  dsimp only
  cases keyOf keyFunc obj with
  | error err => exact .refl
  | ok id =>
    have hq := updates_queueActionLocked keyFunc f .sync obj
    dsimp only
    split
    · exact .refl
    · rcases hr : queueActionLocked keyFunc f .sync obj with ⟨g, _ | err⟩ <;>
        simpa [hr] using hq

lemma updates_syncKeys (known : KeyListerGetter O) (ks : List String) (f : DeltaFIFO O) :
    Updates f (syncKeys keyFunc known ks f).1 := by
  induction ks generalizing f with
  | nil => exact .refl
  | cons k ks ih =>
    have hk := updates_syncKeyLocked keyFunc known f k
    unfold syncKeys
    rcases hr : syncKeyLocked keyFunc known f k with ⟨g, _ | err⟩
    · rw [hr] at hk
      exact hk.trans (ih g)
    · simpa [hr] using hk

lemma updates_resync (f : DeltaFIFO O) :
    Updates f (f.resync keyFunc known).1 := by
  cases known with
  | none => exact .refl
  | some known => exact updates_syncKeys keyFunc known _ f

variable {f : DeltaFIFO O}

lemma updates_addIfNotPresent {deltas : Deltas O} {r : DeltaFIFO O × Option (FIFOError O)}
    (hp : f.wasPopped deltas) (h : f.addIfNotPresent keyFunc deltas = some r) : Updates f r.1 := by
  unfold addIfNotPresent at h
  rw [map_eq_some_iff] at h
  obtain ⟨newest, hlast, rfl⟩ := h
  have hne : deltas ≠ [] := by
    rintro rfl
    simp at hlast
  cases keyOf keyFunc newest.object with
  | error err => exact .refl
  | ok id =>
    by_cases hid : id ∈ f.items
    · simpa [addIfNotPresentLocked, hid] using updates_populated f
    · have hid' : id ∉ (f.record (deltas.map (.enqueued id))).items := hid
      simp only [if_neg hid, addIfNotPresentLocked, if_neg hid']
      exact (updates_populated f).tail (Update.readd (f := { f with populated := true }) hid hp hne)

omit [DecidableEq O] in
/-- `Pop` takes the first key, since every queued key has deltas. -/
lemma pop_spec (hf : f.WellFormed) {requeue : Deltas O → Bool} {item : Deltas O}
    (h : f.pop requeue = some (item, g)) :
    ∃ id queue, f.queue = id :: queue ∧ f.items.lookup id = some item ∧
      g = if requeue item then
          (take { f with
            populated := true
            initialPopulationCount := f.initialPopulationCount - 1 } id item true).put id item
        else
          take { f with initialPopulationCount := f.initialPopulationCount - 1 } id item false := by
  unfold pop at h
  obtain ⟨⟨id, ds, queue, count⟩, hpop, heq⟩ := map_eq_some_iff.1 h
  cases hq : f.queue with
  | nil => simp [hq, popHead] at hpop
  | cons k ks =>
    obtain ⟨ds', hds⟩ := mem_iff_lookup.1 ((hf.mem_queue k).1 (by simp [hq]))
    simp only [hq, popHead, hds, some.injEq, Prod.mk.injEq] at hpop
    obtain ⟨rfl, rfl, rfl, rfl⟩ := hpop
    obtain ⟨rfl, rfl⟩ := Prod.mk.inj heq
    refine ⟨k, ks, rfl, hds, ?_⟩
    split <;> rename_i hr <;> simp [addIfNotPresentLocked, record, take, put, enter, hr]

lemma updates_pop (hf : f.WellFormed) {requeue : Deltas O → Bool}
    {item : Deltas O} (h : f.pop requeue = some (item, g)) : Updates f g := by
  obtain ⟨id, queue, hq, hl, rfl⟩ := pop_spec hf h
  split
  · exact (Relation.ReflTransGen.single (.counters f _ _)).tail (.requeue hq hl)
  · exact (Relation.ReflTransGen.single (.counters f f.populated _)).tail (.pop hq hl)

/-- Every call is a sequence of primitive updates. -/
theorem updates_step {f' : DeltaFIFO O} (hf : f.WellFormed) {op : Op O}
    (h : step keyFunc f op = some f') : Updates f f' := by
  cases op with
  | add obj =>
    cases h
    exact (updates_populated f).trans (updates_queueActionLocked keyFunc _ _ _)
  | update obj =>
    cases h
    exact (updates_populated f).trans (updates_queueActionLocked keyFunc _ _ _)
  | delete known obj =>
    cases h
    exact updates_delete keyFunc known f obj
  | replace known order list =>
    cases h
    exact updates_replace keyFunc known order f list
  | resync known =>
    cases h
    exact updates_resync keyFunc known f
  | addIfNotPresent deltas =>
    simp only [step] at h
    split_ifs at h with hp
    obtain ⟨r, hr, rfl⟩ := map_eq_some_iff.1 h
    exact updates_addIfNotPresent keyFunc hp hr
  | pop requeue =>
    obtain ⟨⟨item, g⟩, hr, rfl⟩ := map_eq_some_iff.1 h
    exact updates_pop hf hr

end

/-! ## The representation invariant -/

section

variable (f : DeltaFIFO O) (id : String) (d : Delta O)

@[simp] lemma enqueue_items :
    (f.enqueue id d).items =
      f.items.insert id (dedupDeltas ((f.items.lookup id).getD [] ++ [d])) := rfl

@[simp] lemma enqueue_queue :
    (f.enqueue id d).queue = if id ∈ f.items then f.queue else f.queue ++ [id] := by
  simp only [enqueue, record]
  split <;> rfl

@[simp] lemma enqueue_log :
    (f.enqueue id d).log =
      f.log ++ ((if id ∈ f.items then [] else [.enter id]) ++ [.enqueued id d]) := by
  simp only [enqueue, record]
  split <;> simp [enter, record]

variable (ds : Deltas O)

@[simp] lemma put_items : (f.put id ds).items = f.items.insert id ds := rfl

@[simp] lemma put_queue : (f.put id ds).queue = f.queue ++ [id] := rfl

@[simp] lemma put_log : (f.put id ds).log = f.log ++ [.enter id] := rfl

@[simp] lemma take_items (b : Bool) :
    (f.take id ds b).items = f.items.erase id := rfl

@[simp] lemma take_queue (b : Bool) :
    (f.take id ds b).queue = f.queue.tail := rfl

@[simp] lemma take_log (b : Bool) :
    (f.take id ds b).log = f.log ++ [.popped id ds b] := rfl

variable (es : List (LogEntry O))

@[simp] lemma record_items : (f.record es).items = f.items := rfl

@[simp] lemma record_queue : (f.record es).queue = f.queue := rfl

@[simp] lemma record_log : (f.record es).log = f.log ++ es := rfl

end

lemma wellFormed_new (b : Bool) : (new b : DeltaFIFO O).WellFormed where
  nodup := nodup_nil
  mem_queue id := by simp [new]
  nonempty id ds h := by simp [new] at h

variable {f : DeltaFIFO O}

lemma WellFormed.enqueue (hf : f.WellFormed) (id : String) (d : Delta O) :
    (f.enqueue id d).WellFormed where
  nodup := by
    rw [enqueue_queue]
    split_ifs with hid
    · exact hf.nodup
    · simpa using hf.nodup.concat (fun h => hid ((hf.mem_queue id).1 h))
  mem_queue k := by
    rw [enqueue_queue, enqueue_items, AList.mem_insert]
    split_ifs with hid
    · rw [hf.mem_queue]
      exact ⟨.inr, fun h => h.elim (fun h => h ▸ hid) fun h => h⟩
    · rw [mem_append, mem_singleton, hf.mem_queue]
      exact or_comm
  nonempty k ds h := by
    rw [enqueue_items, lookup_insert_if] at h
    split at h
    · cases h
      exact dedupDeltas_ne_nil _ _
    · exact hf.nonempty k ds h

lemma WellFormed.record (hf : f.WellFormed) (es : List (LogEntry O)) :
    (f.record es).WellFormed :=
  ⟨hf.nodup, hf.mem_queue, hf.nonempty⟩

lemma WellFormed.put (hf : f.WellFormed) {id : String} {ds : Deltas O} (hid : id ∉ f.items)
    (hds : ds ≠ []) : (f.put id ds).WellFormed where
  nodup := by
    simpa using hf.nodup.concat (fun h => hid ((hf.mem_queue id).1 h))
  mem_queue k := by
    rw [put_queue, put_items, AList.mem_insert, mem_append, mem_singleton, hf.mem_queue]
    exact or_comm
  nonempty k ds' h := by
    rw [put_items, lookup_insert_if] at h
    split at h
    · cases h
      exact hds
    · exact hf.nonempty k ds' h

lemma WellFormed.take (hf : f.WellFormed) {id : String} {queue : List String}
    (hq : f.queue = id :: queue) (ds : Deltas O) (b : Bool) : (f.take id ds b).WellFormed where
  nodup := by simpa [hq] using (nodup_cons.1 (hq ▸ hf.nodup)).2
  mem_queue k := by
    have hid := (nodup_cons.1 (hq ▸ hf.nodup)).1
    have hk := hf.mem_queue k
    rw [hq, mem_cons] at hk
    rw [take_queue, take_items, AList.mem_erase, ← hk, hq, tail_cons]
    constructor
    · intro h
      exact ⟨fun hkid => hid (hkid ▸ h), .inr h⟩
    · rintro ⟨hne, heq | h⟩
      · exact absurd heq hne
      · exact h
  nonempty k ds' h := by
    rw [take_items, lookup_erase_if] at h
    split_ifs at h
    exact hf.nonempty k ds' h

lemma WellFormed.update [DecidableEq O] (hf : f.WellFormed) (h : Update f g) :
    g.WellFormed := by
  cases h with
  | counters b n => exact ⟨hf.nodup, hf.mem_queue, hf.nonempty⟩
  | enqueue id delta => exact hf.enqueue id delta
  | readd hid _ hne =>
    exact (hf.record _).put hid hne
  | pop hq _ => exact hf.take hq _ _
  | requeue hq hl =>
    exact (hf.take hq _ _).put (by simp) (hf.nonempty _ _ hl)

/-- What every update keeps holds in every reachable state. -/
theorem reach_updates [DecidableEq O] {keyFunc : Obj O → Except String String} {b : Bool}
    (inv : DeltaFIFO O → Prop) (hinit : inv (new b))
    (hupd : ∀ f g, f.WellFormed → inv f → Update f g → inv g) {tr : List (Op O)}
    (h : (machine keyFunc b).Reach tr f) :
    f.WellFormed ∧ inv f := by
  refine h.invariant (fun f => f.WellFormed ∧ inv f) ⟨wellFormed_new b, hinit⟩ ?_
  rintro f op f' hf hstep
  have hupds := updates_step keyFunc hf.1 hstep
  clear hstep
  induction hupds with
  | refl => exact hf
  | tail _ hu ih => exact ⟨ih.1.update hu, hupd _ _ ih.1 ih.2 hu⟩

end DeltaFIFO

end Kubernetes.ClientGo
