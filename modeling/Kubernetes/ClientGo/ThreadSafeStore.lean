import Kubernetes.GoMap

/-! # The indexed store behind every informer

A model of `tools/cache/thread_safe_store.go`: `threadSafeMap` keeps the objects
by key, and for each registered index function a map from index value to the
set of keys whose object has that value. The indices are maintained
incrementally: an update deletes the key from the sets of the old object's
values and inserts it into those of the new one, and a set that runs empty is
dropped.

Stored objects are values of a type `O`, none of them nil; `none` stands for the nil
interface that a lookup of a missing key gives. A Go map that is nil reads like an empty
one, so both are the empty `GoMap`. What ranges over a set is returned as a
multiset, since the order in which Go ranges over a map is arbitrary.

The invariant is `Consistent`; `index_exact` states it for every run, together
with what the queries return.
-/

namespace Kubernetes.ClientGo

open GoMap

/-- `IndexFunc`: the index values of an object, or an error. -/
abbrev IndexFunc (O : Type) := O → Except String (List String)

/-- `Indexers` maps a name to an `IndexFunc`. -/
abbrev Indexers (O : Type) := GoMap String (IndexFunc O)

/-- `Index` maps an index value to a set of keys. -/
abbrev Index := GoMap String (Finset String)

/-- `Indices` maps a name to an `Index`. -/
abbrev Indices := GoMap String Index

/-- `threadSafeMap`, without its lock. -/
structure ThreadSafeMap (O : Type) where
  items : GoMap String O
  indexers : Indexers O
  indices : Indices

/-- The panic "unable to calculate an index entry for key on index: err". -/
structure IndexPanic where
  key : String
  index : String
  err : String
deriving DecidableEq

/-- The errors of `AddIndexers`. -/
inductive AddIndexersError where
  /-- "cannot add indexers to running index" -/
  | running
  /-- "indexer conflict: names" -/
  | conflict (names : Finset String)
deriving DecidableEq

/-- The error "Index with name does not exist", or the error of the index function. -/
inductive IndexError where
  | unknown (name : String)
  | func (err : String)
deriving DecidableEq

/-! ## One index -/

variable (indices : Indices) (name : String)

namespace Index

variable (key : String) (index : Index) (value : String)

/-- The loop body of `updateIndices`: put `key` into the set of `value`. -/
def insertKey : Index :=
  index.insert value (insert key ((index.lookup value).getD ∅))

/-- The loop body of `deleteFromIndices`: take `key` out of the set of `value`,
and drop the set when it runs empty. -/
def deleteKey : Index :=
  match index.lookup value with
  | none => index
  | some set =>
    if set.erase key = ∅ then index.erase value else index.insert value (set.erase key)

/-- `index[value]`. -/
def keys : Finset String := (index.lookup value).getD ∅

/-- No empty key set is retained. -/
def NoEmpty : Prop := ∀ value set, index.lookup value = some set → set ≠ ∅

@[simp] lemma keys_empty : keys ∅ value = ∅ := rfl

lemma keys_insertKey (value v : String) :
    (index.insertKey key value).keys v =
      if v = value then insert key (index.keys v) else index.keys v := by
  unfold keys insertKey
  rw [lookup_insert_if]
  split_ifs with h
  · subst h
    rfl
  · rfl

lemma keys_deleteKey (value v : String) :
    (index.deleteKey key value).keys v =
      if v = value then (index.keys v).erase key else index.keys v := by
  unfold keys deleteKey
  cases hl : index.lookup value with
  | none =>
    simp only []
    split_ifs with hv
    · subst hv
      simp [hl]
    · rfl
  | some set =>
    simp only []
    split_ifs with hempty hv hv
    · subst hv
      simp [hl, hempty]
    · rw [lookup_erase_if, if_neg hv]
    · subst hv
      simp [hl]
    · rw [lookup_insert_if, if_neg hv]

lemma noEmpty_insertKey {index : Index} (h : index.NoEmpty) (key value : String) :
    (index.insertKey key value).NoEmpty := by
  intro v set hv
  unfold insertKey at hv
  rw [lookup_insert_if] at hv
  split at hv
  · cases hv
    exact Finset.insert_ne_empty _ _
  · exact h v set hv

lemma noEmpty_deleteKey {index : Index} (h : index.NoEmpty) (key value : String) :
    (index.deleteKey key value).NoEmpty := by
  intro v set hv
  unfold deleteKey at hv
  cases hl : index.lookup value with
  | none =>
    rw [hl] at hv
    exact h v set hv
  | some old =>
    simp only [hl] at hv
    split_ifs at hv with hempty
    · rw [lookup_erase_if] at hv
      split_ifs at hv
      exact h v set hv
    · rw [lookup_insert_if] at hv
      split at hv
      · cases hv
        exact hempty
      · exact h v set hv

/-- The loop over the index values of one object: each value in the list gets
its change `f` (inserting or erasing the key, both idempotent). -/
lemma keys_foldl (body : Index → String → Index) (f : Finset String → Finset String)
    (hbody : ∀ index value v,
      (body index value).keys v = if v = value then f (index.keys v) else index.keys v)
    (hidem : ∀ s, f (f s) = f s) (values : List String) (index : Index) (v : String) :
    (values.foldl body index).keys v = if v ∈ values then f (index.keys v) else index.keys v := by
  induction values generalizing index with
  | nil => simp
  | cons value values ih =>
    rw [List.foldl_cons, ih, hbody]
    by_cases hv : v = value <;> by_cases hvs : v ∈ values <;> simp [hv, hvs, hidem]

end Index

namespace ThreadSafeMap

variable {O : Type}

/-! ## The operations -/

/-- `updateIndices` for one index function whose values are already computed. -/
def insertInto (key : String) (indices : Indices) (name : String) (values : List String) :
    Indices :=
  indices.insert name (values.foldl (Index.insertKey key) ((indices.lookup name).getD ∅))

/-- `deleteFromIndices` for one index function whose values are already computed. -/
def deleteFrom (key : String) (indices : Indices) (name : String) (values : List String) :
    Indices :=
  match indices.lookup name with
  | none => indices
  | some index => indices.insert name (values.foldl (Index.deleteKey key) index)

/-- `indexFunc(obj)`, where an error is turned into the panic of the callers. -/
def indexValues (key name : String) (f : IndexFunc O) (obj : O) :
    Except IndexPanic (List String) :=
  (f obj).mapError fun err => ⟨key, name, err⟩

variable (c : ThreadSafeMap O)

/-- `deleteFromIndices`: remove the object from each of the managed indexes. -/
def deleteFromIndices (obj : O) (key : String) : Except IndexPanic (ThreadSafeMap O) := do
  let indices ← c.indexers.entries.foldlM (fun indices e => do
    let values ← indexValues key e.1 e.2 obj
    return deleteFrom key indices e.1 values) c.indices
  return { c with indices := indices }

/-- `updateIndices`: `oldObj` is `none` when there was no object before. -/
def updateIndices (oldObj : Option O) (newObj : O) (key : String) :
    Except IndexPanic (ThreadSafeMap O) := do
  let c ← match oldObj with
    | some old => c.deleteFromIndices old key
    | none => pure c
  let indices ← c.indexers.entries.foldlM (fun indices e => do
    let values ← indexValues key e.1 e.2 newObj
    return insertInto key indices e.1 values) c.indices
  return { c with indices := indices }

variable (key : String)

def add (obj : O) : Except IndexPanic (ThreadSafeMap O) :=
  { c with items := c.items.insert key obj }.updateIndices (c.items.lookup key) obj key

/-- `Update`, which has the same body as `Add`. -/
def update (obj : O) : Except IndexPanic (ThreadSafeMap O) :=
  { c with items := c.items.insert key obj }.updateIndices (c.items.lookup key) obj key

def delete : Except IndexPanic (ThreadSafeMap O) :=
  match c.items.lookup key with
  | some obj => do
    let c ← c.deleteFromIndices obj key
    return { c with items := c.items.erase key }
  | none => return c

/-- `Replace`: the items are exchanged and every index is rebuilt. -/
def replace (items : GoMap String O) : Except IndexPanic (ThreadSafeMap O) :=
  items.entries.foldlM (fun c e => c.updateIndices none e.2 e.1)
    { c with items := items, indices := ∅ }

/-- `AddIndexers`, with the error it returns. -/
def addIndexers (newIndexers : Indexers O) : ThreadSafeMap O × Option AddIndexersError :=
  if c.items.keys.length > 0 then (c, some .running)
  else
    let oldKeys := c.indexers.keys.toFinset
    let newKeys := newIndexers.keys.toFinset
    if (oldKeys ∩ newKeys).Nonempty then (c, some (.conflict (oldKeys ∩ newKeys)))
    else
      ({ c with
          indexers := newIndexers.entries.foldl (fun ixs e => ixs.insert e.1 e.2) c.indexers },
        none)

/-- `c.indices[name][value]`: a missing entry at either level gives the nil set. -/
def keysAt (name value : String) : Finset String :=
  ((indices.lookup name).getD ∅).keys value

/-- `ByIndex`: `c.items[key]` for each key of the set. -/
def byIndex (name value : String) : Except IndexError (Multiset (Option O)) :=
  match c.indexers.lookup name with
  | none => .error (.unknown name)
  | some _ => .ok ((keysAt c.indices name value).val.map fun key => c.items.lookup key)

/-- `IndexKeys`: the sorted keys of the set. -/
def indexKeys (name value : String) : Except IndexError (List String) :=
  match c.indexers.lookup name with
  | none => .error (.unknown name)
  | some _ => .ok ((keysAt c.indices name value).sort (· ≤ ·))

/-- The keys that `Index` collects. A single index value is looked up directly;
otherwise the sets of the values are united. -/
def storeKeySet : List String → Finset String
  | [value] => keysAt indices name value
  | values => values.foldl (fun set value => set ∪ keysAt indices name value) ∅

/-- `Index`: the items that match `obj` on the index function. -/
def index (name : String) (obj : O) : Except IndexError (Multiset (Option O)) :=
  match c.indexers.lookup name with
  | none => .error (.unknown name)
  | some f => do
    let indexedValues ← (f obj).mapError .func
    return (storeKeySet c.indices name indexedValues).val.map fun key => c.items.lookup key

/-! ## The items -/

variable {c c' : ThreadSafeMap O} {obj : O} {key : String}

lemma deleteFromIndices_items (h : c.deleteFromIndices obj key = .ok c') :
    c'.items = c.items := by
  unfold deleteFromIndices at h
  obtain ⟨indices, _, hc⟩ := bind_eq_ok.1 h
  cases hc
  rfl

lemma updateIndices_items {old : Option O} (h : c.updateIndices old obj key = .ok c') :
    c'.items = c.items := by
  unfold updateIndices at h
  cases old with
  | none =>
    simp only [pure_bind] at h
    obtain ⟨indices, _, hc⟩ := bind_eq_ok.1 h
    cases hc
    rfl
  | some old =>
    obtain ⟨c1, hd, hrest⟩ := bind_eq_ok.1 h
    have hitems := deleteFromIndices_items hd
    obtain ⟨indices, _, hc⟩ := bind_eq_ok.1 hrest
    cases hc
    exact hitems

lemma add_items (h : c.add key obj = .ok c') : c'.items = c.items.insert key obj :=
  updateIndices_items h

lemma delete_items (h : c.delete key = .ok c') (k : String) :
    c'.items.lookup k = if k = key then none else c.items.lookup k := by
  unfold delete at h
  cases hold : c.items.lookup key with
  | none =>
    rw [hold] at h
    cases h
    split_ifs with hk
    · rw [hk, hold]
    · rfl
  | some obj =>
    simp only [hold] at h
    obtain ⟨c1, hd, hc⟩ := bind_eq_ok.1 h
    cases hc
    rw [← deleteFromIndices_items hd]
    exact lookup_erase_if c1.items key k

/-! ## The loops over the indexers -/

/-- Every index function of the table is total. -/
def Total (ixs : Indexers O) : Prop :=
  ∀ name f, ixs.lookup name = some f → ∀ o, ∃ vs, f o = .ok vs

/-- The index values of an object under a total index function. -/
def values (f : IndexFunc O) (o : O) : List String := (f o).toOption.getD []

variable {f : IndexFunc O}

lemma values_of_ok {o : O} {vs : List String} (h : f o = .ok vs) :
    values f o = vs := by
  simp [values, h, Except.toOption]

lemma indexValues_eq {o : O} (h : ∃ vs, f o = .ok vs) (key name : String) :
    indexValues key name f o = .ok (values f o) := by
  obtain ⟨vs, hvs⟩ := h
  simp [indexValues, values, hvs, Except.mapError, Except.toOption]

lemma Total.entry {ixs : Indexers O} (ht : Total ixs)
    {e : Sigma fun _ : String => IndexFunc O} (he : e ∈ ixs.entries) (o : O) :
    ∃ vs, e.2 o = .ok vs :=
  ht e.1 e.2 (List.mem_dlookup ixs.nodupKeys he) o

/-- The loop of `deleteFromIndices`, when no index function fails. -/
def deleteLoop (c : ThreadSafeMap O) (obj : O) (key : String) : Indices :=
  c.indexers.entries.foldl (fun indices e => deleteFrom key indices e.1 (values e.2 obj)) c.indices

/-- The loop of `updateIndices`, when no index function fails. -/
def insertLoop (c : ThreadSafeMap O) (obj : O) (key : String) : Indices :=
  c.indexers.entries.foldl (fun indices e => insertInto key indices e.1 (values e.2 obj)) c.indices

lemma deleteFromIndices_eq (ht : Total c.indexers) (obj : O) (key : String) :
    c.deleteFromIndices obj key = .ok { c with indices := c.deleteLoop obj key } := by
  unfold deleteFromIndices deleteLoop
  rw [foldlM_eq_ok _ (fun indices e => deleteFrom key indices e.1 (values e.2 obj))]
  · rfl
  · intro indices e he
    rw [indexValues_eq (ht.entry he obj)]
    rfl

lemma insertLoop_eq (ht : Total c.indexers) (obj : O) (key : String) :
    c.updateIndices none obj key = .ok { c with indices := c.insertLoop obj key } := by
  unfold updateIndices insertLoop
  simp only [pure_bind]
  rw [foldlM_eq_ok _ (fun indices e => insertInto key indices e.1 (values e.2 obj))]
  · rfl
  · intro indices e he
    rw [indexValues_eq (ht.entry he obj)]
    rfl

/-- An update is the deletion of the old object followed by an insertion. -/
lemma updateIndices_some (ht : Total c.indexers) (old obj : O) (key : String) :
    c.updateIndices (some old) obj key =
      { c with indices := c.deleteLoop old key }.updateIndices none obj key := by
  conv_lhs => unfold updateIndices
  simp only [deleteFromIndices_eq ht]
  rfl

lemma keysAt_insertInto (key : String) (indices : Indices) (name : String)
    (vs : List String) (name' v : String) :
    keysAt (insertInto key indices name vs) name' v =
      if name' = name ∧ v ∈ vs then insert key (keysAt indices name' v)
      else keysAt indices name' v := by
  unfold keysAt insertInto
  rw [lookup_insert_if]
  by_cases hn : name' = name
  · subst hn
    simp only [if_pos, Option.getD_some, true_and]
    exact Index.keys_foldl _ (fun set => insert key set) (Index.keys_insertKey key)
      (Finset.insert_idem key) vs _ v
  · simp [hn]

lemma keysAt_deleteFrom (key : String) (indices : Indices) (name : String)
    (vs : List String) (name' v : String) :
    keysAt (deleteFrom key indices name vs) name' v =
      if name' = name ∧ v ∈ vs then (keysAt indices name' v).erase key
      else keysAt indices name' v := by
  unfold keysAt deleteFrom
  cases hl : indices.lookup name with
  | none =>
    by_cases hn : name' = name
    · subst hn
      simp [hl]
    · simp [hn]
  | some index =>
    simp only []
    rw [lookup_insert_if]
    by_cases hn : name' = name
    · subst hn
      simp only [if_pos, Option.getD_some, true_and, hl]
      exact Index.keys_foldl _ (fun set => set.erase key) (Index.keys_deleteKey key)
        (fun set => Finset.erase_idem) vs _ v
    · simp [hn]

/-- After the loop, `key` is gone from the sets of the values of `obj`. -/
lemma mem_keysAt_deleteLoop (c : ThreadSafeMap O) (obj : O) (key name v k : String) :
    k ∈ keysAt (c.deleteLoop obj key) name v ↔
      k ∈ keysAt c.indices name v ∧
        ¬ (k = key ∧ ∃ f, c.indexers.lookup name = some f ∧ v ∈ values f obj) := by
  have hview := foldl_view
    (fun indices name f => deleteFrom key indices name (values f obj)) keysAt
    (fun _ f r v => if v ∈ values f obj then (r v).erase key else r v)
    (fun s k v => by funext w; simp [keysAt_deleteFrom])
    (fun s k v k' hk => by funext w; simp [keysAt_deleteFrom, hk]) c.indexers c.indices name
  unfold deleteLoop
  rw [congrFun hview v]
  cases c.indexers.lookup name with
  | none => simp
  | some f => by_cases hv : v ∈ values f obj <;> simp [hv, and_comm]

/-- After the loop, `key` is in the sets of the values of `obj`. -/
lemma mem_keysAt_insertLoop (c : ThreadSafeMap O) (obj : O) (key name v k : String) :
    k ∈ keysAt (c.insertLoop obj key) name v ↔
      k ∈ keysAt c.indices name v ∨
        (k = key ∧ ∃ f, c.indexers.lookup name = some f ∧ v ∈ values f obj) := by
  have hview := foldl_view
    (fun indices name f => insertInto key indices name (values f obj)) keysAt
    (fun _ f r v => if v ∈ values f obj then insert key (r v) else r v)
    (fun s k v => by funext w; simp [keysAt_insertInto])
    (fun s k v k' hk => by funext w; simp [keysAt_insertInto, hk]) c.indexers c.indices name
  unfold insertLoop
  rw [congrFun hview v]
  cases c.indexers.lookup name with
  | none => simp
  | some f => by_cases hv : v ∈ values f obj <;> simp [hv, or_comm]

/-! ## The invariant -/

/-- No index retains an empty key set. -/
def NoEmpty : Prop :=
  ∀ name index, indices.lookup name = some index → index.NoEmpty

lemma NoEmpty.getD {indices : Indices} (h : NoEmpty indices) (name : String) :
    ((indices.lookup name).getD ∅).NoEmpty := by
  cases hl : indices.lookup name with
  | none =>
    intro v set hv
    simp at hv
  | some index => exact h name index hl

lemma noEmpty_insert {indices : Indices} (h : NoEmpty indices) (name : String)
    {index : Index} (hi : index.NoEmpty) : NoEmpty (indices.insert name index) := by
  intro name' index' hl
  rw [lookup_insert_if] at hl
  split at hl
  · cases hl
    exact hi
  · exact h name' index' hl

lemma noEmpty_insertLoop (h : NoEmpty c.indices) (obj : O) (key : String) :
    NoEmpty (c.insertLoop obj key) := by
  refine List.foldlRecOn _ _ h ?_
  intro indices hi e _
  refine noEmpty_insert hi _ ?_
  exact List.foldlRecOn _ _ (hi.getD e.1) fun index hx v _ => Index.noEmpty_insertKey hx key v

lemma noEmpty_deleteLoop (h : NoEmpty c.indices) (obj : O) (key : String) :
    NoEmpty (c.deleteLoop obj key) := by
  refine List.foldlRecOn _ _ h ?_
  intro indices hi e _
  unfold deleteFrom
  cases hl : indices.lookup e.1 with
  | none => exact hi
  | some index =>
    refine noEmpty_insert hi _ ?_
    exact List.foldlRecOn _ _ (hi e.1 index hl) fun index hx v _ => Index.noEmpty_deleteKey hx key v

/-- The indices say exactly which keys hold an object with a given value. -/
structure Consistent (c : ThreadSafeMap O) : Prop where
  total : Total c.indexers
  mem_keysAt : ∀ name v k, k ∈ keysAt c.indices name v ↔
    ∃ f o, c.indexers.lookup name = some f ∧ c.items.lookup k = some o ∧ v ∈ values f o
  noEmpty : NoEmpty c.indices

/-- Deleting with the stored object removes the key from every set. -/
lemma Consistent.mem_keysAt_deleteLoop (h : c.Consistent) (hobj : c.items.lookup key = some obj)
    (name v k : String) :
    k ∈ keysAt (c.deleteLoop obj key) name v ↔ k ≠ key ∧ k ∈ keysAt c.indices name v := by
  rw [ThreadSafeMap.mem_keysAt_deleteLoop]
  constructor
  · rintro ⟨hk, hno⟩
    refine ⟨?_, hk⟩
    rintro rfl
    obtain ⟨f, o, hf, ho, hv⟩ := (h.mem_keysAt name v k).1 hk
    rw [hobj] at ho
    cases ho
    exact hno ⟨rfl, f, hf, hv⟩
  · rintro ⟨hne, hk⟩
    exact ⟨hk, fun hex => hne hex.1⟩

/-- Inserting a key that no set contains, with the new object under that key. -/
lemma consistent_insertLoop {items : GoMap String O} (ht : Total c.indexers)
    (hn : NoEmpty c.indices) (key : String) (obj : O)
    (hmem : ∀ name v k, k ∈ keysAt c.indices name v ↔ k ≠ key ∧
      ∃ f o, c.indexers.lookup name = some f ∧ items.lookup k = some o ∧ v ∈ values f o) :
    Consistent { c with items := items.insert key obj, indices := c.insertLoop obj key } := by
  refine ⟨ht, ?_, noEmpty_insertLoop hn obj key⟩
  intro name v k
  simp only [mem_keysAt_insertLoop, hmem, lookup_insert_if]
  by_cases hk : k = key
  · subst hk
    simp
  · simp [hk]

lemma add_ok (h : c.Consistent) (key : String) (obj : O) :
    ∃ c', c.add key obj = .ok c' ∧ c'.Consistent ∧ c'.items = c.items.insert key obj ∧
      c'.indexers = c.indexers := by
  unfold add
  cases hold : c.items.lookup key with
  | none =>
    refine ⟨_, insertLoop_eq (c := { c with items := c.items.insert key obj }) h.total obj key,
      ?_, rfl, rfl⟩
    refine consistent_insertLoop (c := { c with items := c.items.insert key obj })
      h.total h.noEmpty key obj ?_
    intro name v k
    rw [h.mem_keysAt]
    constructor
    · rintro ⟨f, o, hf, ho, hv⟩
      refine ⟨?_, f, o, hf, ho, hv⟩
      rintro rfl
      rw [hold] at ho
      cases ho
    · exact fun hx => hx.2
  | some old =>
    rw [updateIndices_some (c := { c with items := c.items.insert key obj }) h.total]
    refine ⟨_, insertLoop_eq (c := { c with
      items := c.items.insert key obj, indices := c.deleteLoop old key }) h.total obj key,
      ?_, rfl, rfl⟩
    refine consistent_insertLoop
      (c := { c with items := c.items.insert key obj, indices := c.deleteLoop old key })
      h.total (noEmpty_deleteLoop h.noEmpty old key) key obj ?_
    intro name v k
    rw [← h.mem_keysAt, ← h.mem_keysAt_deleteLoop hold]

lemma delete_ok (h : c.Consistent) (key : String) :
    ∃ c', c.delete key = .ok c' ∧ c'.Consistent ∧
      (∀ k, c'.items.lookup k = if k = key then none else c.items.lookup k) ∧
      c'.indexers = c.indexers := by
  unfold delete
  cases hold : c.items.lookup key with
  | none =>
    refine ⟨c, rfl, h, ?_, rfl⟩
    intro k
    split_ifs with hk
    · rw [hk, hold]
    · rfl
  | some old =>
    simp only [deleteFromIndices_eq h.total]
    refine ⟨_, rfl, ⟨h.total, ?_, noEmpty_deleteLoop h.noEmpty old key⟩,
      lookup_erase_if c.items key, rfl⟩
    intro name v k
    simp only [h.mem_keysAt_deleteLoop hold, h.mem_keysAt, lookup_erase_if]
    by_cases hk : k = key
    · subst hk
      simp
    · simp [hk]

/-- The loop of `Replace`, by induction on the entries still to come. -/
lemma replaceLoop_ok (l : List (Sigma fun _ : String => O)) (c : ThreadSafeMap O)
    (ht : Total c.indexers) (hn : NoEmpty c.indices) :
    ∃ c', l.foldlM (fun c e => c.updateIndices none e.2 e.1) c = .ok c' ∧ c'.items = c.items ∧
      c'.indexers = c.indexers ∧ NoEmpty c'.indices ∧
      ∀ name v k, k ∈ keysAt c'.indices name v ↔ k ∈ keysAt c.indices name v ∨
        ∃ f o, c.indexers.lookup name = some f ∧ ⟨k, o⟩ ∈ l ∧ v ∈ values f o := by
  induction l generalizing c with
  | nil => exact ⟨c, rfl, rfl, rfl, hn, by simp⟩
  | cons e l ih =>
    rw [List.foldlM_cons, insertLoop_eq ht]
    obtain ⟨c', hc', hitems, hindexers, hn', hmem⟩ :=
      ih { c with indices := c.insertLoop e.2 e.1 } ht (noEmpty_insertLoop hn e.2 e.1)
    refine ⟨c', hc', hitems, hindexers, hn', ?_⟩
    intro name v k
    rw [hmem, mem_keysAt_insertLoop, or_assoc]
    refine or_congr_right ?_
    constructor
    · rintro (⟨rfl, f, hf, hv⟩ | ⟨f, o, hf, ho, hv⟩)
      · exact ⟨f, e.2, hf, List.mem_cons_self, hv⟩
      · exact ⟨f, o, hf, List.mem_cons_of_mem _ ho, hv⟩
    · rintro ⟨f, o, hf, ho, hv⟩
      rcases List.mem_cons.1 ho with rfl | ho
      · exact Or.inl ⟨rfl, f, hf, hv⟩
      · exact Or.inr ⟨f, o, hf, ho, hv⟩

lemma replace_ok (h : c.Consistent) (items : GoMap String O) :
    ∃ c', c.replace items = .ok c' ∧ c'.Consistent ∧ c'.items = items ∧
      c'.indexers = c.indexers := by
  obtain ⟨c', hc', hitems, hindexers, hn, hmem⟩ :=
    replaceLoop_ok items.entries { c with items := items, indices := ∅ } h.total
      (fun name index hl => by simp at hl)
  refine ⟨c', hc', ⟨hindexers ▸ h.total, ?_, hn⟩, hitems, hindexers⟩
  intro name v k
  have hentry : ∀ o, ⟨k, o⟩ ∈ items.entries ↔ items.lookup k = some o := by
    intro o
    exact (List.mem_dlookup_iff items.nodupKeys).symm
  simp only [hmem, hindexers, hitems, hentry]
  simp [keysAt]

lemma addIndexers_ok (h : c.Consistent) {newIndexers : Indexers O} (ht : Total newIndexers) :
    (c.addIndexers newIndexers).1.Consistent ∧ (c.addIndexers newIndexers).1.items = c.items := by
  unfold addIndexers
  split
  · exact ⟨h, rfl⟩
  rename_i hitems
  simp only []
  split
  · exact ⟨h, rfl⟩
  -- nothing is stored, so no set may contain a key
  have hnone : ∀ k, c.items.lookup k = none := by
    intro k
    have hnil : c.items.keys = [] := List.eq_nil_of_length_eq_zero (by omega)
    rw [AList.lookup_eq_none, AList.mem_keys, hnil]
    exact List.not_mem_nil
  have hlook : ∀ name, (newIndexers.entries.foldl (fun ixs e => ixs.insert e.1 e.2)
      c.indexers).lookup name = (newIndexers.lookup name).or (c.indexers.lookup name) := by
    intro name
    have hview := foldl_view (fun (ixs : Indexers O) k v => ixs.insert k v)
      (fun ixs k => ixs.lookup k) (fun _ v _ => some v) (fun s k v => by simp)
      (fun s k v k' hk => by simp [hk]) newIndexers c.indexers name
    rw [hview]
    cases newIndexers.lookup name <;> rfl
  refine ⟨⟨?_, ?_, h.noEmpty⟩, rfl⟩
  · intro name f hf
    simp only [hlook, Option.or_eq_some_iff] at hf
    rcases hf with hf | ⟨-, hf⟩
    · exact ht name f hf
    · exact h.total name f hf
  · intro name v k
    simp only [h.mem_keysAt, hnone, reduceCtorEq, false_and, and_false, exists_const]

/-! ## Queries -/

lemma byIndex_eq (h : c.Consistent) {name : String} (hf : c.indexers.lookup name = some f)
    (v : String) :
    ∃ S : Finset String, (∀ k, k ∈ S ↔ ∃ o, c.items.lookup k = some o ∧ v ∈ values f o) ∧
      c.byIndex name v = .ok (S.val.map fun k => c.items.lookup k) ∧
      c.indexKeys name v = .ok (S.sort (· ≤ ·)) := by
  refine ⟨keysAt c.indices name v, ?_, ?_, ?_⟩
  · intro k
    simp [h.mem_keysAt, hf]
  · simp [byIndex, hf]
  · simp [indexKeys, hf]

lemma mem_foldl_union (sets : String → Finset String) (vs : List String) (S : Finset String)
    (k : String) : k ∈ vs.foldl (fun S v => S ∪ sets v) S ↔ k ∈ S ∨ ∃ v ∈ vs, k ∈ sets v := by
  induction vs generalizing S with
  | nil => simp
  | cons v vs ih => simp [ih, or_assoc]

/-- The fast path for a single value and the general path agree. -/
lemma mem_storeKeySet (vs : List String) (k : String) :
    k ∈ storeKeySet indices name vs ↔ ∃ v ∈ vs, k ∈ keysAt indices name v := by
  unfold storeKeySet
  split
  · simp
  · rw [mem_foldl_union]
    simp

lemma index_eq (h : c.Consistent) {name : String} (hf : c.indexers.lookup name = some f)
    (obj : O) :
    ∃ S : Finset String,
      (∀ k, k ∈ S ↔ ∃ o, c.items.lookup k = some o ∧ ∃ v ∈ values f obj, v ∈ values f o) ∧
      c.index name obj = .ok (S.val.map fun k => c.items.lookup k) := by
  obtain ⟨vs, hvs⟩ := h.total name f hf obj
  refine ⟨storeKeySet c.indices name vs, ?_, ?_⟩
  · intro k
    simp only [mem_storeKeySet, h.mem_keysAt, hf, values_of_ok hvs, Option.some.injEq,
      exists_and_left, exists_eq_left']
    constructor
    · rintro ⟨v, hv, o, ho, hvo⟩
      exact ⟨o, ho, v, hv, hvo⟩
    · rintro ⟨o, ho, v, hv, hvo⟩
      exact ⟨v, hv, o, ho, hvo⟩
  · simp only [index, hf, hvs]
    rfl

/-! ## Runs -/

end ThreadSafeMap

/-- A call of one of the store's writing methods. -/
inductive StoreOp (O : Type) where
  | add (key : String) (obj : O)
  | update (key : String) (obj : O)
  | delete (key : String)
  | replace (items : GoMap String O)
  | addIndexers (newIndexers : Indexers O)

namespace ThreadSafeMap

variable {O : Type}

/-- One call; `none` is a panic of an index function. -/
def step (c : ThreadSafeMap O) : StoreOp O → Option (ThreadSafeMap O)
  | .add key obj => (c.add key obj).toOption
  | .update key obj => (c.update key obj).toOption
  | .delete key => (c.delete key).toOption
  | .replace items => (c.replace items).toOption
  | .addIndexers newIndexers => some (c.addIndexers newIndexers).1

/-- `NewThreadSafeStore(indexers, Indices{})` and the calls made on it. -/
def machine (ixs : Indexers O) : Machine (ThreadSafeMap O) (StoreOp O) where
  init := ⟨∅, ixs, ∅⟩
  step := step

/-- The indexers that an operation registers are total. -/
def StoreOp.Total : StoreOp O → Prop
  | .addIndexers newIndexers => ThreadSafeMap.Total newIndexers
  | _ => True

lemma init_consistent {ixs : Indexers O} (ht : Total ixs) : (machine ixs).init.Consistent := by
  refine ⟨ht, ?_, ?_⟩
  · intro name v k
    simp [machine, keysAt]
  · intro name index hl
    simp [machine] at hl

/-- With total index functions no call panics, and every call keeps the store
consistent. -/
lemma step_consistent {c : ThreadSafeMap O} (h : c.Consistent) {op : StoreOp O}
    (hop : StoreOp.Total op) : ∃ c', c.step op = some c' ∧ c'.Consistent := by
  cases op with
  | add key obj =>
    obtain ⟨c', hc', hcons, -⟩ := add_ok h key obj
    exact ⟨c', by simp [step, hc', Except.toOption], hcons⟩
  | update key obj =>
    obtain ⟨c', hc', hcons, -⟩ := add_ok h key obj
    have hupd : c.update key obj = .ok c' := hc'
    exact ⟨c', by simp [step, hupd, Except.toOption], hcons⟩
  | delete key =>
    obtain ⟨c', hc', hcons, -⟩ := delete_ok h key
    exact ⟨c', by simp [step, hc', Except.toOption], hcons⟩
  | replace items =>
    obtain ⟨c', hc', hcons, -⟩ := replace_ok h items
    exact ⟨c', by simp [step, hc', Except.toOption], hcons⟩
  | addIndexers newIndexers => exact ⟨_, rfl, (addIndexers_ok h hop).1⟩

lemma reach_consistent {ixs : Indexers O} (hixs : Total ixs) {tr : List (StoreOp O)}
    {c : ThreadSafeMap O} (htr : ∀ op ∈ tr, StoreOp.Total op) (h : (machine ixs).Reach tr c) :
    c.Consistent := by
  refine h.history (fun tr c => (∀ op ∈ tr, StoreOp.Total op) → c.Consistent)
    (fun _ => init_consistent hixs) ?_ htr
  intro tr c op c' ih hstep hall
  have hc := ih fun op hop => hall op (List.mem_append_left _ hop)
  obtain ⟨c'', hc'', hcons⟩ := step_consistent hc (hall op (by simp))
  have heq : c.step op = some c' := hstep
  rw [hc''] at heq
  cases heq
  exact hcons

/-- Index consistency, for every table of total index functions and every run of
`Add`, `Update`, `Delete`, `Replace` and `AddIndexers`: under each registered
name the set of a value holds exactly the keys whose object has that value, no
empty set is retained, and `ByIndex`, `IndexKeys` and `Index` return exactly the
matching items, each key once. No further call can panic. -/
theorem index_exact {ixs : Indexers O} (hixs : Total ixs) {tr : List (StoreOp O)}
    {c : ThreadSafeMap O} (htr : ∀ op ∈ tr, StoreOp.Total op) (h : (machine ixs).Reach tr c) :
    (∀ name f, c.indexers.lookup name = some f →
      (∀ v k, k ∈ keysAt c.indices name v ↔ ∃ o, c.items.lookup k = some o ∧ v ∈ values f o) ∧
      (∀ v, ∃ S : Finset String,
        (∀ k, k ∈ S ↔ ∃ o, c.items.lookup k = some o ∧ v ∈ values f o) ∧
        c.byIndex name v = .ok (S.val.map fun k => c.items.lookup k) ∧
        c.indexKeys name v = .ok (S.sort (· ≤ ·))) ∧
      (∀ obj, ∃ S : Finset String,
        (∀ k, k ∈ S ↔ ∃ o, c.items.lookup k = some o ∧ ∃ v ∈ values f obj, v ∈ values f o) ∧
        c.index name obj = .ok (S.val.map fun k => c.items.lookup k))) ∧
    (∀ name index v set, c.indices.lookup name = some index → index.lookup v = some set →
      set ≠ ∅) ∧
    (∀ op, StoreOp.Total op → (c.step op).isSome = true) := by
  have hc := reach_consistent hixs htr h
  refine ⟨?_, ?_, ?_⟩
  · intro name f hf
    refine ⟨?_, byIndex_eq hc hf, index_eq hc hf⟩
    intro v k
    simp [hc.mem_keysAt, hf]
  · intro name index v set hl hv
    exact hc.noEmpty name index hl v set hv
  · intro op hop
    obtain ⟨c', hc', -⟩ := step_consistent hc hop
    simp [hc']

/-- Objects that are lists of tags, indexed by their tags. -/
def tagIndexers : Indexers (List String) := AList.singleton "tag" fun o => .ok o

/-- "a" loses the tag "x" (which it carried twice) and gains "y". -/
def tagTrace : List (StoreOp (List String)) :=
  [.add "a" ["x", "x"], .add "b" [], .update "a" ["y"], .delete "b"]

theorem index_exact_tags :
    ∃ c, (machine tagIndexers).Reach tagTrace c ∧
      "a" ∈ keysAt c.indices "tag" "y" ∧ "a" ∉ keysAt c.indices "tag" "x" := by
  have htotal : Total tagIndexers := by
    intro name f hf o
    have hmem := AList.mem_lookup_iff.1 hf
    simp only [tagIndexers, AList.singleton_entries, List.mem_singleton, Sigma.mk.injEq] at hmem
    obtain ⟨rfl, hfun⟩ := hmem
    cases hfun
    exact ⟨o, rfl⟩
  obtain ⟨c, hc, hitem, hixs⟩ : ∃ c, (machine tagIndexers).Reach tagTrace c ∧
      c.items.lookup "a" = some ["y"] ∧ c.indexers = tagIndexers := by
    refine ⟨_, (Machine.reach_iff_runFrom _).2 rfl, ?_, ?_⟩
    · decide
    · rfl
  have hf : c.indexers.lookup "tag" = some fun o => .ok o := by rw [hixs]; rfl
  obtain ⟨hmem, -⟩ := (index_exact htotal (by
    intro op hop
    simp only [tagTrace, List.mem_cons, List.not_mem_nil, or_false] at hop
    rcases hop with rfl | rfl | rfl | rfl <;> trivial) hc).1 "tag" _ hf
  refine ⟨c, hc, (hmem "y" "a").2 ⟨["y"], hitem, by decide⟩, ?_⟩
  intro hx
  obtain ⟨o, ho, hv⟩ := (hmem "x" "a").1 hx
  rw [hitem] at ho
  cases ho
  revert hv
  decide

end ThreadSafeMap

end Kubernetes.ClientGo
