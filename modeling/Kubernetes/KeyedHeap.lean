import Kubernetes.GoMap

/-! # A binary heap whose objects are found by key

The queue of a `HeapData` holds keys in heap order, and the map holds for each key its
object and its position in the queue. `up`, `down`, `fix`, `push`, `pop` and `remove`
are those of Go's `container/heap`; all they do to the data are swaps, and a swap
exchanges two keys of the queue and rewrites the positions of both.

`Shuffles n` is what a number of swaps below position `n` can do: the objects stay, and
so does the queue from `n` on. This is all that the operations on the contents need.

A `KeyedHeap` is a `HeapData` whose queue and map agree. On it, the heap is a map from
keys to objects: `get_add`, `get_delete`, `get_pop`.
-/

namespace Kubernetes

open GoMap List Option

structure HeapItem (α : Type) where
  obj : α
  /-- the position of the object's key in the queue -/
  index : Nat

structure HeapData (K α : Type) where
  items : GoMap K (HeapItem α)
  queue : List K

variable {K α : Type} [DecidableEq K] (less : α → α → Bool)

namespace HeapData

/-! ## Operations -/

variable (h : HeapData K α)

/-- Whether the object at position `i` goes before the one at `j`. -/
def lessAt (i j : Nat) : Bool :=
  match h.queue[i]?.bind h.items.lookup, h.queue[j]?.bind h.items.lookup with
  | some a, some b => less a.obj b.obj
  | _, _ => false

/-- `items[k].index = i` -/
def setIndex (items : GoMap K (HeapItem α)) (k : K) (i : Nat) : GoMap K (HeapItem α) :=
  match items.lookup k with
  | some item => items.insert k { item with index := i }
  | none => items

def swap (i j : Nat) : HeapData K α :=
  match h.queue[i]?, h.queue[j]? with
  | some a, some b =>
    { items := setIndex (setIndex h.items b i) a j
      queue := (h.queue.set i b).set j a }
  | _, _ => h

/-- Move the object at `j` towards the root. Every round halves `j`, so `j` rounds are
enough. -/
def up : Nat → HeapData K α → Nat → HeapData K α
  | 0, h, _ => h
  | fuel + 1, h, j =>
    let i := (j - 1) / 2
    if i = j ∨ h.lessAt less j i = false then h else up fuel (h.swap i j) i

/-- The child of `i` to compare with, among the first `n` positions. -/
def lesserChild (n i : Nat) : Nat :=
  if 2 * i + 2 < n ∧ h.lessAt less (2 * i + 2) (2 * i + 1) = true then 2 * i + 2 else 2 * i + 1

/-- Move the object at `i` away from the root within the first `n` positions, and say
where it ends. Every round doubles `i`, so `n` rounds are enough. -/
def down (n : Nat) : Nat → HeapData K α → Nat → HeapData K α × Nat
  | 0, h, i => (h, i)
  | fuel + 1, h, i =>
    let j := h.lesserChild less n i
    if n ≤ 2 * i + 1 ∨ h.lessAt less j i = false then (h, i)
    else down n fuel (h.swap i j) j

/-- `down`, and `up` if the object did not move. -/
def fixWithin (i n : Nat) : HeapData K α :=
  let res := down less n n h i
  if i < res.2 then res.1 else up less i res.1 i

/-- `heap.Fix` -/
def fix (i : Nat) : HeapData K α := h.fixWithin less i h.queue.length

/-- `heap.Push` of an object under a new key. -/
def push (k : K) (obj : α) : HeapData K α :=
  up less h.queue.length
    { items := h.items.insert k ⟨obj, h.queue.length⟩, queue := h.queue ++ [k] } h.queue.length

/-- The `Pop` of `heap.Interface`: take the last key with its object. -/
def popLast : Option (α × HeapData K α) :=
  match h.queue.getLast? with
  | none => none
  | some k =>
    (h.items.lookup k).map fun item =>
      (item.obj, { items := h.items.erase k, queue := h.queue.dropLast })

/-- `heap.Pop` -/
def pop : Option (α × HeapData K α) :=
  let n := h.queue.length - 1
  popLast (down less n n (h.swap 0 n) 0).1

/-- `heap.Remove` -/
def remove (i : Nat) : Option (α × HeapData K α) :=
  let n := h.queue.length - 1
  if n = i then h.popLast else ((h.swap i n).fixWithin less i n).popLast

/-! ## Contents -/

def get (k : K) : Option α := (h.items.lookup k).map HeapItem.obj

/-- The queue and the map hold the same keys, each object under its own key and with its
own position. -/
structure WellFormed (key : α → K) (h : HeapData K α) : Prop where
  nodup : h.queue.Nodup
  mem : ∀ k, k ∈ h.queue ↔ k ∈ h.items
  index : ∀ i k, h.queue[i]? = some k → ∀ item, h.items.lookup k = some item → item.index = i
  key : ∀ k obj, h.get k = some obj → key obj = k

variable {key : α → K} (items : GoMap K (HeapItem α))

lemma lookup_setIndex (k : K) (i : Nat) (k' : K) :
    (setIndex items k i).lookup k' =
      if k' = k then (items.lookup k).map fun item => { item with index := i }
      else items.lookup k' := by
  unfold setIndex
  cases hl : items.lookup k with
  | none =>
    by_cases hk : k' = k
    · subst hk
      rw [if_pos rfl, hl]
      rfl
    · rw [if_neg hk]
  | some item =>
    rw [lookup_insert_if]
    rfl

lemma mem_setIndex (k : K) (i : Nat) (k' : K) : k' ∈ setIndex items k i ↔ k' ∈ items := by
  rw [mem_iff_lookup, mem_iff_lookup, lookup_setIndex]
  split_ifs with hk
  · subst hk
    cases items.lookup k' <;> simp
  · exact Iff.rfl

lemma map_obj_setIndex (k : K) (i : Nat) (k' : K) :
    ((setIndex items k i).lookup k').map HeapItem.obj = (items.lookup k').map HeapItem.obj := by
  rw [lookup_setIndex]
  split_ifs with hk
  · subst hk
    cases items.lookup k' <;> rfl
  · rfl

/-! ## Swaps -/

/-- `h'` comes from `h` by swaps below position `n`. -/
structure Shuffles (key : α → K) (n : Nat) (h h' : HeapData K α) : Prop where
  wellFormed : h.WellFormed key → h'.WellFormed key
  length : h'.queue.length = h.queue.length
  get : ∀ k, h'.get k = h.get k
  above : ∀ m, n ≤ m → h'.queue[m]? = h.queue[m]?

lemma Shuffles.refl (n : Nat) (h : HeapData K α) : Shuffles key n h h :=
  ⟨id, rfl, fun _ => rfl, fun _ _ => rfl⟩

variable {n i j : Nat} {h : HeapData K α}

lemma Shuffles.trans {h' h'' : HeapData K α} (a : Shuffles key n h h')
    (b : Shuffles key n h' h'') : Shuffles key n h h'' :=
  ⟨b.wellFormed ∘ a.wellFormed, b.length.trans a.length, fun k => (b.get k).trans (a.get k),
    fun m hm => (b.above m hm).trans (a.above m hm)⟩

lemma swap_queue {a b : K} (ha : h.queue[i]? = some a) (hb : h.queue[j]? = some b) (m : Nat) :
    (h.swap i j).queue[m]? =
      if m = j then some a else if m = i then some b else h.queue[m]? := by
  have hi : i < h.queue.length := (List.getElem?_eq_some_iff.1 ha).1
  have hj : j < h.queue.length := (List.getElem?_eq_some_iff.1 hb).1
  simp only [swap, ha, hb, getElem?_set, length_set]
  by_cases hmj : m = j
  · subst hmj
    simp [hj]
  by_cases hmi : m = i
  · subst hmi
    simp [hmj, hi, Ne.symm hmj]
  · simp [hmj, hmi, Ne.symm hmj, Ne.symm hmi]

open HeapData

lemma WellFormed.swap (w : h.WellFormed key) {a b : K} (ha : h.queue[i]? = some a)
    (hb : h.queue[j]? = some b) : (h.swap i j).WellFormed key := by
  have hqueue := swap_queue ha hb
  have hitems : (h.swap i j).items = setIndex (setIndex h.items b i) a j := by
    simp only [HeapData.swap, ha, hb]
  have hperm : (h.swap i j).queue.Perm h.queue := by
    obtain ⟨hi, ha'⟩ := List.getElem?_eq_some_iff.1 ha
    obtain ⟨hj, hb'⟩ := List.getElem?_eq_some_iff.1 hb
    simp only [HeapData.swap, ha, hb, ← ha', ← hb']
    exact set_set_perm hi hj
  -- a key determines its position
  have hpos : ∀ (m m' : Nat) (k : K), h.queue[m]? = some k → h.queue[m']? = some k → m = m' := by
    intro m m' k hm hm'
    have hlt := (List.getElem?_eq_some_iff.1 hm).1
    exact (getElem?_inj hlt w.nodup).1 (hm.trans hm'.symm)
  refine ⟨hperm.nodup_iff.2 w.nodup, fun k => ?_, fun m k hm item hl => ?_, fun k obj hobj => ?_⟩
  · rw [hperm.mem_iff, hitems, mem_setIndex, mem_setIndex]
    exact w.mem k
  · rw [hqueue] at hm
    rw [hitems, lookup_setIndex] at hl
    split at hm
    · -- the key that went to `j`
      rename_i hmj
      cases hm
      rw [if_pos rfl] at hl
      obtain ⟨item', -, rfl⟩ := map_eq_some_iff.1 hl
      exact hmj.symm
    rename_i hmj
    split_ifs at hm with hmi
    · -- the key that went to `i`
      cases hm
      have hne : b ≠ a := fun hab => hmj (hmi.trans (hpos i j a ha (hab ▸ hb)))
      rw [if_neg hne, lookup_setIndex, if_pos rfl] at hl
      obtain ⟨item', -, rfl⟩ := map_eq_some_iff.1 hl
      exact hmi.symm
    · have hka : k ≠ a := fun hk => hmi (hpos m i k hm (hk ▸ ha))
      have hkb : k ≠ b := fun hk => hmj (hpos m j k hm (hk ▸ hb))
      rw [if_neg hka, lookup_setIndex, if_neg hkb] at hl
      exact w.index m k hm item hl
  · refine w.key k obj ?_
    unfold get at hobj ⊢
    rw [hitems, map_obj_setIndex, map_obj_setIndex] at hobj
    exact hobj

lemma shuffles_swap (hi : i < n) (hj : j < n) (h : HeapData K α) :
    Shuffles key n h (h.swap i j) := by
  cases ha : h.queue[i]? with
  | none =>
    have heq : h.swap i j = h := by simp [swap, ha]
    rw [heq]
    exact .refl n h
  | some a =>
    cases hb : h.queue[j]? with
    | none =>
      have heq : h.swap i j = h := by simp [swap, hb]
      rw [heq]
      exact .refl n h
    | some b =>
      refine ⟨fun w => w.swap ha hb, ?_, fun k => ?_, fun m hm => ?_⟩
      · simp [swap, ha, hb]
      · simp only [get, swap, ha, hb]
        rw [map_obj_setIndex, map_obj_setIndex]
      · rw [swap_queue ha hb, if_neg (by omega), if_neg (by omega)]

lemma shuffles_up (fuel : Nat) :
    ∀ (h : HeapData K α) (j : Nat), j < n → Shuffles key n h (up less fuel h j) := by
  induction fuel with
  | zero => exact fun h j _ => .refl n h
  | succ fuel ih =>
    intro h j hj
    unfold up
    dsimp only
    split
    · exact .refl n h
    · have hi : (j - 1) / 2 < n := by omega
      exact (shuffles_swap hi hj h).trans (ih _ _ hi)

lemma shuffles_down (fuel : Nat) :
    ∀ (h : HeapData K α) (i : Nat), Shuffles key n h (down less n fuel h i).1 := by
  induction fuel with
  | zero => exact fun h i => .refl n h
  | succ fuel ih =>
    intro h i
    unfold down
    dsimp only
    split_ifs with hstop
    · exact .refl n h
    -- the child is within the first `n` positions, and so is its parent
    have hchild : h.lesserChild less n i < n := by
      unfold lesserChild
      split <;> omega
    exact (shuffles_swap (by omega) hchild h).trans (ih _ _)

lemma shuffles_fixWithin (hi : i < n) (h : HeapData K α) :
    Shuffles key n h (h.fixWithin less i n) := by
  have hdown : Shuffles key n h (down less n n h i).1 := shuffles_down less n h i
  unfold fixWithin
  dsimp only
  split
  · exact hdown
  · exact hdown.trans (shuffles_up less i _ i hi)

/-! ## Adding and removing -/

lemma WellFormed.append (w : h.WellFormed key) {obj : α} (hnew : key obj ∉ h.items) :
    WellFormed key ⟨h.items.insert (key obj) ⟨obj, h.queue.length⟩, h.queue ++ [key obj]⟩ := by
  have hnot : key obj ∉ h.queue := fun hmem => hnew ((w.mem _).1 hmem)
  refine ⟨?_, fun k => ?_, fun i k hi item hl => ?_, fun k o ho => ?_⟩
  · exact nodup_append.2 ⟨w.nodup, nodup_singleton _, fun a ha b hb => by
      rw [mem_singleton.1 hb]
      exact fun hab => hnot (hab ▸ ha)⟩
  · rw [mem_append, mem_singleton, w.mem, AList.mem_insert]
    exact or_comm
  · rw [lookup_insert_if] at hl
    rw [getElem?_append] at hi
    split_ifs at hi with hlen
    · -- an old position, so an old key
      have hmem : k ∈ h.queue := mem_of_getElem? hi
      have hold : k ≠ key obj := fun hk => hnot (hk ▸ hmem)
      rw [if_neg hold] at hl
      exact w.index i k hi item hl
    · have hlast : i = h.queue.length := by
        have hlt := (List.getElem?_eq_some_iff.1 hi).1
        simp only [length_singleton] at hlt
        omega
      subst hlast
      simp only [Nat.sub_self, getElem?_cons_zero, some.injEq] at hi
      rw [if_pos hi.symm] at hl
      cases hl
      rfl
  · unfold get at ho
    rw [lookup_insert_if] at ho
    split_ifs at ho with hk
    · cases ho
      exact hk.symm
    · exact w.key k o ho

lemma WellFormed.replace (w : h.WellFormed key) {obj : α} {item : HeapItem α}
    (hl : h.items.lookup (key obj) = some item) :
    WellFormed key { h with items := h.items.insert (key obj) { item with obj := obj } } := by
  refine ⟨w.nodup, fun k => ?_, fun i k hi item' hl' => ?_, fun k o ho => ?_⟩
  · rw [AList.mem_insert, w.mem]
    constructor
    · exact .inr
    · rintro (hk | hk)
      · exact mem_iff_lookup.2 ⟨item, hk ▸ hl⟩
      · exact hk
  · rw [lookup_insert_if] at hl'
    split_ifs at hl' with hk
    · cases hl'
      exact w.index i k hi item (hk ▸ hl)
    · exact w.index i k hi item' hl'
  · unfold get at ho
    rw [lookup_insert_if] at ho
    split_ifs at ho with hk
    · cases ho
      exact hk.symm
    · exact w.key k o ho

variable {k : K}

lemma WellFormed.index_lt (w : h.WellFormed key) {item : HeapItem α}
    (hl : h.items.lookup k = some item) : h.queue[item.index]? = some k := by
  have hmem : k ∈ h.queue := (w.mem k).2 (mem_iff_lookup.2 ⟨item, hl⟩)
  obtain ⟨i, hi⟩ := mem_iff_getElem?.1 hmem
  rw [w.index i k hi item hl]
  exact hi

/-- The object of `k` was taken from `h`. -/
abbrev Takes (key : α → K) (h : HeapData K α) (k : K) (res : Option (α × HeapData K α)) : Prop :=
  ∃ obj h', res = some (obj, h') ∧ h.get k = some obj ∧ h'.WellFormed key ∧
    h'.queue.length = h.queue.length - 1 ∧
    ∀ k', h'.get k' = if k' = k then none else h.get k'

lemma WellFormed.popLast (w : h.WellFormed key) (hlast : h.queue[h.queue.length - 1]? = some k) :
    Takes key h k h.popLast := by
  have hget : h.queue.getLast? = some k := by
    rw [getLast?_eq_getElem?]
    exact hlast
  have hmem : k ∈ h.items := (w.mem k).1 (mem_of_getElem? hlast)
  obtain ⟨item, hitem⟩ := mem_iff_lookup.1 hmem
  have hsplit : h.queue = h.queue.dropLast ++ [k] := by
    have hne : h.queue ≠ [] := by
      intro hnil
      rw [hnil] at hlast
      cases hlast
    rw [getLast?_eq_some_getLast hne] at hget
    rw [← some.inj hget, dropLast_append_getLast hne]
  have hnd := w.nodup
  rw [hsplit, nodup_append] at hnd
  have hgone : k ∉ h.queue.dropLast := fun hk => hnd.2.2 k hk k (mem_singleton_self k) rfl
  refine ⟨item.obj, ⟨h.items.erase k, h.queue.dropLast⟩, ?_, ?_, ⟨hnd.1, fun k' => ?_,
    fun i k' hi item' hl => ?_, fun k' o ho => ?_⟩, length_dropLast, fun k' => ?_⟩
  · simp only [HeapData.popLast, hget, hitem, Option.map_some]
  · simp only [HeapData.get, hitem, Option.map_some]
  · rw [AList.mem_erase, ← w.mem]
    constructor
    · intro hk'
      exact ⟨fun hk => hgone (hk ▸ hk'), dropLast_subset _ hk'⟩
    · rintro ⟨hne, hk'⟩
      rw [hsplit, mem_append, mem_singleton] at hk'
      exact hk'.resolve_right hne
  · rw [lookup_erase_if] at hl
    split at hl
    · cases hl
    · refine w.index i k' ?_ item' hl
      rw [hsplit, getElem?_append_left (List.getElem?_eq_some_iff.1 hi).1]
      exact hi
  · unfold HeapData.get at ho
    rw [lookup_erase_if] at ho
    split at ho
    · cases ho
    · exact w.key k' o ho
  · unfold get
    rw [lookup_erase_if]
    split <;> rfl

/-- A key that was swapped to the end stays there while the rest is shuffled. -/
lemma WellFormed.popLast_swapped {h2 : HeapData K α} (w : h.WellFormed key)
    (hi : h.queue[i]? = some k)
    (hs : Shuffles key (h.queue.length - 1) (h.swap i (h.queue.length - 1)) h2) :
    Takes key h k h2.popLast := by
  have hlen : i < h.queue.length := (List.getElem?_eq_some_iff.1 hi).1
  obtain ⟨l, hl⟩ : ∃ l, h.queue[h.queue.length - 1]? = some l :=
    ⟨_, getElem?_eq_getElem (by omega)⟩
  have hswap : Shuffles key h.queue.length h (h.swap i (h.queue.length - 1)) :=
    shuffles_swap hlen (by omega) h
  have hlength : h2.queue.length = h.queue.length := hs.length.trans hswap.length
  have hlast : h2.queue[h2.queue.length - 1]? = some k := by
    rw [hlength, hs.above _ le_rfl, swap_queue hi hl, if_pos rfl]
  obtain ⟨obj, h', heq, hobj, hw, hlen', hget⟩ :=
    (hs.wellFormed (hswap.wellFormed w)).popLast hlast
  refine ⟨obj, h', heq, ?_, hw, hlen'.trans (by rw [hlength]), fun k' => ?_⟩
  · rw [← hobj, hs.get, hswap.get]
  · rw [hget, hs.get, hswap.get]

theorem WellFormed.pop (w : h.WellFormed key) (hroot : h.queue[0]? = some k) :
    Takes key h k (h.pop less) :=
  w.popLast_swapped hroot (shuffles_down less _ _ 0)

theorem WellFormed.remove (w : h.WellFormed key) (hi : h.queue[i]? = some k) :
    Takes key h k (h.remove less i) := by
  have hlen : i < h.queue.length := (List.getElem?_eq_some_iff.1 hi).1
  unfold HeapData.remove
  dsimp only
  split_ifs with hn
  · subst hn
    exact w.popLast hi
  · exact w.popLast_swapped hi (shuffles_fixWithin less (by omega) _)

/-! ## By key -/

/-- Insert an object, or replace the one with its key. -/
def add (key : α → K) (h : HeapData K α) (obj : α) : HeapData K α :=
  match h.items.lookup (key obj) with
  | some item =>
    fix less { h with items := h.items.insert (key obj) { item with obj := obj } } item.index
  | none => h.push less (key obj) obj

/-- Delete the object with a key; `none` if there is none. -/
def delete (h : HeapData K α) (k : K) : Option (HeapData K α) :=
  match h.items.lookup k with
  | some item => (h.remove less item.index).map Prod.snd
  | none => none

lemma WellFormed.add (w : h.WellFormed key) (obj : α) :
    (add less key h obj).WellFormed key ∧
      ∀ k, (add less key h obj).get k = if k = key obj then some obj else h.get k := by
  -- either way the queue is shuffled after the object has been stored
  have hstored : ∀ (index : Nat) (queue : List K) (k : K),
      (HeapData.mk (h.items.insert (key obj) ⟨obj, index⟩) queue).get k =
        if k = key obj then some obj else h.get k := by
    intro index queue k
    unfold HeapData.get
    rw [lookup_insert_if]
    split <;> rfl
  unfold HeapData.add
  cases hl : h.items.lookup (key obj) with
  | some item =>
    have hlen := (List.getElem?_eq_some_iff.1 (w.index_lt hl)).1
    have hfix : Shuffles key h.queue.length ⟨h.items.insert (key obj) ⟨obj, item.index⟩, h.queue⟩
        (fix less ⟨h.items.insert (key obj) ⟨obj, item.index⟩, h.queue⟩ item.index) :=
      shuffles_fixWithin less hlen _
    exact ⟨hfix.wellFormed (w.replace hl), fun k => (hfix.get k).trans (hstored _ _ k)⟩
  | none =>
    have hnew : key obj ∉ h.items := AList.lookup_eq_none.1 hl
    have hup : Shuffles key (h.queue.length + 1)
        ⟨h.items.insert (key obj) ⟨obj, h.queue.length⟩, h.queue ++ [key obj]⟩
        (h.push less (key obj) obj) :=
      shuffles_up less _ _ _ (Nat.lt_succ_self _)
    exact ⟨hup.wellFormed (w.append hnew), fun k => (hup.get k).trans (hstored _ _ k)⟩

lemma WellFormed.delete (w : h.WellFormed key) (k : K) :
    (delete less h k = none ∧ h.get k = none) ∨
      ∃ h', delete less h k = some h' ∧ h.get k ≠ none ∧ h'.WellFormed key ∧
        ∀ k', h'.get k' = if k' = k then none else h.get k' := by
  unfold HeapData.delete
  cases hl : h.items.lookup k with
  | none =>
    refine .inl ⟨rfl, ?_⟩
    simp [get, hl]
  | some item =>
    obtain ⟨obj, h', heq, hobj, hw, -, hget⟩ := w.remove less (w.index_lt hl)
    refine .inr ⟨h', ?_, ?_, hw, hget⟩
    · dsimp only
      rw [heq]
      rfl
    · rw [hobj]
      simp

end HeapData

/-! ## Heaps -/

/-- A heap whose map and queue agree. -/
structure KeyedHeap {K α : Type} [DecidableEq K] (key : α → K) where
  data : HeapData K α
  wellFormed : data.WellFormed key

namespace KeyedHeap

variable {key : α → K}

def empty : KeyedHeap key where
  data := ⟨∅, []⟩
  wellFormed := by
    refine ⟨nodup_nil, fun k => ?_, fun i k hi => ?_, fun k obj hobj => ?_⟩
    · simp
    · simp at hi
    · simp [HeapData.get] at hobj

variable (h : KeyedHeap key)

def get (k : K) : Option α := h.data.get k

def len : Nat := h.data.queue.length

def peek : Option α := h.data.queue[0]?.bind h.data.get

def add (obj : α) : KeyedHeap key :=
  ⟨h.data.add less key obj, (h.wellFormed.add less obj).1⟩

/-- Delete the object with a key; `none` is "object not found". -/
def delete (h : KeyedHeap key) (k : K) : Option (KeyedHeap key) :=
  match hd : h.data.delete less k with
  | none => none
  | some data => some ⟨data, by
      rcases h.wellFormed.delete less k with ⟨hnone, -⟩ | ⟨h', heq, -, hw, -⟩
      · rw [hnone] at hd
        cases hd
      · rw [heq] at hd
        cases hd
        exact hw⟩

/-- Take the object at the root. -/
def pop (h : KeyedHeap key) : Option (α × KeyedHeap key) :=
  match hroot : h.data.queue[0]?, hp : h.data.pop less with
  | some k, some (obj, data) => some (obj, ⟨data, by
      obtain ⟨obj', h', heq, -, hw, -⟩ := h.wellFormed.pop less hroot
      rw [heq] at hp
      cases hp
      exact hw⟩)
  | _, _ => none

@[simp] lemma get_empty (k : K) : (empty : KeyedHeap key).get k = none := by
  simp [empty, get, HeapData.get]

theorem get_add (obj : α) (k : K) :
    (h.add less obj).get k = if k = key obj then some obj else h.get k :=
  (h.wellFormed.add less obj).2 k

theorem get_delete (h : KeyedHeap key) (k : K) :
    (h.delete less k = none ∧ h.get k = none) ∨
      ∃ h', h.delete less k = some h' ∧ h.get k ≠ none ∧
        ∀ k', h'.get k' = if k' = k then none else h.get k' := by
  rcases h.wellFormed.delete less k with ⟨hnone, hget⟩ | ⟨data, heq, hne, hw, hget⟩
  · refine .inl ⟨?_, hget⟩
    unfold delete
    split
    · rfl
    · rename_i hd
      rw [hnone] at hd
      cases hd
  · refine .inr ⟨⟨data, hw⟩, ?_, hne, hget⟩
    unfold delete
    split
    · rename_i hd
      rw [heq] at hd
      cases hd
    · rename_i hd
      rw [heq] at hd
      cases hd
      rfl

/-- `pop` fails on an empty heap only, and takes the object that `peek` shows. -/
theorem get_pop (h : KeyedHeap key) :
    (h.pop less = none ∧ h.peek = none ∧ h.len = 0 ∧ ∀ k, h.get k = none) ∨
      ∃ obj h', h.pop less = some (obj, h') ∧ h.peek = some obj ∧
        h.get (key obj) = some obj ∧ h'.len + 1 = h.len ∧
        ∀ k, h'.get k = if k = key obj then none else h.get k := by
  cases hroot : h.data.queue[0]? with
  | none =>
    have hnil : h.data.queue = [] := by
      rw [getElem?_eq_none_iff] at hroot
      exact length_eq_zero_iff.1 (by omega)
    refine .inl ⟨?_, ?_, ?_, fun k => ?_⟩
    · unfold pop
      split
      · rename_i hsome _
        rw [hroot] at hsome
        cases hsome
      · rfl
    · simp [peek, hroot]
    · simp [len, hnil]
    · have hmem : k ∉ h.data.items := by
        rw [← h.wellFormed.mem, hnil]
        exact not_mem_nil
      simp [get, HeapData.get, AList.lookup_eq_none.2 hmem]
  | some k =>
    obtain ⟨obj, data, heq, hobj, hw, hlen, hget⟩ := h.wellFormed.pop less hroot
    have hpos : 0 < h.data.queue.length := (List.getElem?_eq_some_iff.1 hroot).1
    have hkey : key obj = k := h.wellFormed.key k obj hobj
    refine .inr ⟨obj, ⟨data, hw⟩, ?_, ?_, ?_, ?_, fun k' => ?_⟩
    · unfold pop
      split
      · rename_i hp
        rw [heq] at hp
        cases hp
        rfl
      · rename_i hno
        exact absurd heq (hno k obj data hroot)
    · simp only [peek, hroot, bind_some, hobj]
    · rw [hkey]
      exact hobj
    · show data.queue.length + 1 = h.data.queue.length
      omega
    · rw [hkey]
      exact hget k'

end KeyedHeap

end Kubernetes
