import Kubernetes.Apiserver.EtcdList

/-! # All pages of a list

A client that follows the tokens of a list gets it in pages. If keys are UTF-8 texts, the pages are
those of the objects there were at the revision of the first page (`paginated_list_exact`); whatever
the token, no object is returned that is not stored below the path (`list_confined`).

Tokens are JSON, which holds no other texts: after a key that is not UTF-8, the next page starts
elsewhere, and objects are lost (`page_lost_after_invalid_utf8`).
-/

namespace Kubernetes.Apiserver.EtcdList

open ByteString Decimal Nat
open List hiding cons_le_cons_iff nil_le

variable {V Obj T : Type} {c : Config V Obj T} {hist : History V} {opts : ListOptions Obj T}

/-! ## Where a list starts -/

/-- The path of a list starts and ends with a slash. -/
structure IsDirectory (path : Bytes) : Prop where
  head : path.head? = some slash
  last : path.getLast? = some slash

lemma isDirectory_keyPrefix (key : Bytes) : IsDirectory (c.keyPrefix key) := by
  unfold Config.keyPrefix
  dsimp only
  split
  · rename_i hlast
    exact ⟨rfl, hlast⟩
  · exact ⟨rfl, getLast?_concat⟩

variable {path key rangeEnd fromKey : Bytes}

lemma IsDirectory.eq_snoc (h : IsDirectory path) :
    ∃ front, path = front ++ [slash] :=
  getLast?_eq_some_iff.1 h.last

lemma slash_ne_last : slash ≠ 255 := by decide

/-- A range that starts below a path stays there. -/
lemma IsDirectory.isPrefix_of_inRange {k : Bytes} (h : IsDirectory path) (hle : path ≤ key)
    (hk : InRange key (prefixEnd path) k) : path <+: k := by
  rcases h.eq_snoc with ⟨front, rfl⟩
  apply (isPrefix_iff_range slash_ne_last).2
  refine ⟨hle.trans hk.1, ?_⟩
  rcases hk.2 with hend | hlt
  · -- the end of the path is not the end of all keys
    rw [prefixEnd_snoc slash_ne_last] at hend
    have hlast := congrArg List.getLast? hend
    rw [getLast?_concat] at hlast
    exact absurd hlast (by decide)
  · exact hlt

lemma IsDirectory.inRange_iff {k : Bytes} (h : IsDirectory path) :
    InRange path (prefixEnd path) k ↔ path <+: k := by
  constructor
  · exact h.isPrefix_of_inRange le_rfl
  intro hpre
  rcases h.eq_snoc with ⟨front, rfl⟩
  rcases (isPrefix_iff_range slash_ne_last).1 hpre with ⟨hle, hlt⟩
  exact ⟨hle, Or.inr hlt⟩

lemma le_append (k rest : Bytes) : k ≤ k ++ rest := by
  induction k with
  | nil => exact nil_le _
  | cons b k ih => exact cons_le_cons_iff.2 (Or.inr ⟨rfl, ih⟩)

/-- A token starts a list below its path. -/
lemma le_of_decodeContinue {codec : TokenCodec T} {token : T} {rv : ℤ}
    (h : decodeContinue codec token path = .ok (key, rv)) : path ≤ key := by
  unfold decodeContinue at h
  split at h
  · cases h
  · dsimp only at h
    split_ifs at h <;> cases h <;> exact le_append _ _

variable {rev : ℤ}

/-- The revision is the resource version of the call. -/
def ListOptions.Asks (opts : ListOptions Obj T) (rev : ℤ) : Prop :=
  opts.resourceVersion ≠ [] ∧
    ∃ m, parseResourceVersion opts.resourceVersion = some m ∧ rev = int64 m

lemma requestedRevision_ok {paged : Bool} {fromRV : Option ℕ}
    (h : requestedRevision opts paged fromRV = .ok rev) :
    rev = 0 ∨ ∃ m ∈ fromRV, rev = int64 m := by
  cases fromRV with
  | none =>
    cases h
    exact Or.inl rfl
  | some m =>
    unfold requestedRevision at h
    dsimp only at h
    split at h
    · exact Or.inl (Except.ok.inj h).symm
    · exact Or.inr ⟨m, rfl, (Except.ok.inj h).symm⟩
    · split at h
      · exact Or.inr ⟨m, rfl, (Except.ok.inj h).symm⟩
      · exact Or.inl (Except.ok.inj h).symm
    · cases h

/-- A list starts at its path or, with a token, below it. -/
lemma start_spec (h : start c opts path = .ok (key, rev)) :
    path ≤ key ∧ (0 ≤ rev ∨ opts.Asks rev) ∧
      (opts.predicate.continueToken = none → key = path ∧ (rev = 0 ∨ opts.Asks rev)) := by
  unfold start at h
  dsimp only at h
  split at h
  · cases h
  rename_i fromRV hfrom
  split at h
  · rename_i token _ htoken
    split at h
    · cases h
    rename_i hdecode
    split at h
    · cases h
    · cases h
      refine ⟨le_of_decodeContinue hdecode, Or.inl ?_, fun hnone => ?_⟩
      · split <;> omega
      · rw [htoken] at hnone
        cases hnone
  generalize hreq : requestedRevision opts (paging c opts) fromRV = req at h
  cases req <;> cases h
  have hrev : rev = 0 ∨ opts.Asks rev := by
    rcases requestedRevision_ok hreq with hzero | ⟨m, rfl, hm⟩
    · exact Or.inl hzero
    right
    split_ifs at hfrom with hne
    · cases hfrom
    split at hfrom <;> cases hfrom
    exact ⟨hne, m, ‹_›, hm⟩
  exact ⟨le_rfl, hrev.imp_left Eq.ge, fun _ => ⟨rfl, hrev⟩⟩

/-- Why the resource version of a call may be refused: it is no number, is to be matched in an
unknown way, or has not been reached. -/
def ListError.Refuses (opts : ListOptions Obj T) (revision : ℕ) : ListError → Prop
  | .invalidResourceVersion => parseResourceVersion opts.resourceVersion = none
  | .unknownResourceVersionMatch => opts.resourceVersionMatch = .unknown
  | .tooLargeResourceVersion | .request =>
    ∃ m, parseResourceVersion opts.resourceVersion = some m ∧ revision < m
  | _ => False

lemma refuses_of_start {err : ListError} (hfirst : opts.predicate.continueToken = none)
    (h : start c opts path = .error err) (revision : ℕ) : err.Refuses opts revision := by
  unfold start at h
  dsimp only at h
  split at h
  · rename_i hfrom
    cases h
    split_ifs at hfrom
    split at hfrom <;> cases hfrom
    assumption
  split at h
  · rename_i htoken
    rw [hfirst] at htoken
    cases htoken
  rename_i fromRV _ _ _ _
  generalize hreq : requestedRevision opts (paging c opts) fromRV = req at h
  cases req <;> cases h
  unfold requestedRevision at hreq
  split at hreq
  · cases hreq
  split at hreq
  case h_3 => split at hreq <;> cases hreq
  all_goals cases hreq
  assumption

lemma refuses_of_validate {err : ListError} {revision : ℕ}
    (h : validateMinimumResourceVersion opts revision = .error err) : err.Refuses opts revision := by
  unfold validateMinimumResourceVersion at h
  split at h
  · cases h
  split at h
  · cases h
    assumption
  · split at h <;> cases h
    exact ⟨_, ‹_›, ‹_›⟩

lemma etcdGet_some {store : Mvcc.Store Bytes V} {limit : ℕ} {getResp : GetResponse V}
    (h : etcdGet store key rangeEnd limit rev = some getResp) :
    getResp.revision = store.rev ∧ (0 < rev → rev ≤ store.rev) := by
  unfold etcdGet at h
  dsimp only at h
  generalize hat : (if rev ≤ 0 then store.rev else rev.toNat) = atRev at h
  split at h
  · cases h
  rename_i hfuture
  constructor
  · split at h
    · cases h
      rfl
    · cases h
      rfl
  · intro hpos
    rw [if_neg (by omega)] at hat
    omega

lemma etcdGet_none {store : Mvcc.Store Bytes V} {limit : ℕ}
    (h : etcdGet store key rangeEnd limit rev = none) : store.rev < rev := by
  unfold etcdGet at h
  dsimp only at h
  generalize hat : (if rev ≤ 0 then store.rev else rev.toNat) = atRev at h
  split at h
  · split at hat <;> omega
  · split at h <;> cases h

/-- The first request of a call fails, or it says which revision is read. -/
lemma chunks_start {lastKey : Bytes} {items : List (Item Obj)} (n : ℕ)
    (hrev : 0 ≤ rev ∨ opts.Asks rev) :
    (∃ err, (rev = 0 ∨ opts.Asks rev → err.Refuses opts (hist.store n).rev) ∧
      ∀ fuel, chunks c hist opts rangeEnd (fuel + 1) n key rev rev items lastKey =
        some (.error err)) ∨
    (∃ rv, ReadsAt hist n rev rv) ∧
      validateMinimumResourceVersion opts (hist.store n).rev = .ok () := by
  cases hget : etcdGet (hist.store n) key rangeEnd
      (if paging c opts then opts.predicate.limit.toNat else 0) rev with
  | none =>
    left
    refine ⟨.request, ?_, fun fuel => ?_⟩
    · have hfuture := etcdGet_none hget
      rintro (rfl | ⟨-, m, hparse, hrev⟩)
      · omega
      · refine ⟨m, hparse, ?_⟩
        by_contra hle
        have hbound := (hist.bounded n).2
        rw [hrev, int64_of_bounds (by omega) (by omega)] at hfuture
        omega
    · rw [chunks, hget]
  | some getResp =>
    rcases etcdGet_some hget with ⟨hrevision, hle⟩
    cases hmin : validateMinimumResourceVersion opts (hist.store n).rev with
    | error err =>
      left
      refine ⟨err, fun _ => refuses_of_validate hmin, fun fuel => ?_⟩
      rw [chunks, hget]
      dsimp only
      rw [hrevision, hmin]
    | ok _ =>
      right
      refine ⟨?_, rfl⟩
      have hnonneg : 0 ≤ rev := by
        rcases hrev with hrev | ⟨hne, m, hparse, hrev⟩
        · exact hrev
        -- a resource version of which `int64` is negative has not been reached
        have hbound := (hist.bounded n).2
        unfold validateMinimumResourceVersion at hmin
        rw [if_neg hne, hparse] at hmin
        dsimp only at hmin
        split at hmin
        · cases hmin
        rw [hrev, int64_of_bounds (by omega) (by omega)]
        omega
      rcases hnonneg.lt_or_eq with hpos | hzero
      · exact ⟨rev.toNat, Or.inr ⟨by omega, by omega, by omega⟩⟩
      · exact ⟨_, Or.inl ⟨hzero.symm, rfl⟩⟩

/-! ## Tokens that come back -/

/-- The options with which the list is continued. -/
def ListOptions.resume (opts : ListOptions Obj T) (token : T) : ListOptions Obj T :=
  { opts with
    resourceVersion := []
    predicate := { opts.predicate with continueToken := some token } }

/-- The key after which a page starts, as a token. -/
def tokenAfter (c : Config V Obj T) (path key : Bytes) (rv : ℤ) : T :=
  c.codec.encode ⟨"meta.k8s.io/v1", rv, (key ++ [0]).drop path.length⟩

lemma encodeContinue_eq (hpath : IsDirectory path) (hpre : path <+: key) (rv : ℤ) :
    encodeContinue c.codec (key ++ [0]) path rv = .ok (tokenAfter c path key rv) := by
  have hpre' : path.isPrefixOf (key ++ [0]) = true :=
    isPrefixOf_iff_prefix.2 (hpre.trans (prefix_append _ _))
  have hpos : 0 < path.length := by
    rcases hpath.eq_snoc with ⟨front, rfl⟩
    rw [length_append]
    exact succ_pos _
  unfold encodeContinue
  rw [if_pos hpre', if_neg]
  · rfl
  intro heq
  have hlen := congrArg List.length heq
  rw [length_drop, length_append, length_singleton] at hlen
  omega

/-- The rest of a clean path after a directory is clean, or empty below the root. -/
lemma proper_of_cleanPath {rest : Bytes} (hpath : IsDirectory path)
    (hclean : CleanPath (path ++ rest)) : rest = [] ∨ ∀ c ∈ components rest, Proper c := by
  rcases hclean with ⟨p, hp, hclean⟩
  rcases hpath.eq_snoc with ⟨front, rfl⟩
  rw [append_assoc, singleton_append] at hp
  cases front with
  | nil =>
    -- below the root
    rw [nil_append] at hp
    cases hp
    exact clean_eq_iff.1 hclean
  | cons b front =>
    rw [cons_append] at hp
    cases hp
    rcases clean_eq_iff.1 hclean with hnil | hproper
    · exact absurd hnil (by simp)
    right
    intro d hd
    apply hproper d
    rw [components_append]
    exact mem_append_right _ hd

lemma proper_snoc (d : Bytes) : Proper (d ++ [0]) := by
  refine ⟨by simp, ?_, ?_⟩
  · intro h
    have hlast := congrArg List.getLast? h
    rw [getLast?_concat] at hlast
    exact absurd hlast (by decide)
  · intro h
    have hlast := congrArg List.getLast? h
    rw [getLast?_concat] at hlast
    exact absurd hlast (by decide)

/-- What is left of the key in a token is a clean path, which does not start with a slash. -/
lemma clean_snoc {rest : Bytes} (h : rest = [] ∨ ∀ c ∈ components rest, Proper c) :
    clean (rest ++ [0]) = rest ++ [0] ∧ (rest ++ [0]).head? ≠ some slash := by
  constructor
  · apply clean_eq_iff.2
    right
    intro d hd
    rcases h with rfl | h
    · rw [nil_append, components_of_not_mem (by decide), mem_singleton] at hd
      rw [hd]
      exact proper_snoc []
    · rcases mem_components_snoc (by decide) hd with hd | ⟨d, rfl⟩
      · exact h d hd
      · exact proper_snoc d
  · intro hhead
    cases rest with
    | nil => exact absurd hhead (by decide)
    | cons b rest =>
      rw [cons_append, head?_cons] at hhead
      cases hhead
      rcases h with h | h
      · cases h
      have hnil : [] ∈ components (slash :: rest) := by
        have happ := components_append [] rest
        rw [nil_append] at happ
        rw [happ]
        exact mem_append_left _ (by decide)
      exact absurd rfl (h [] hnil).1

/-- A token leads back to where the page has ended. -/
lemma decodeContinue_tokenAfter (hpath : IsDirectory path) (hpre : path <+: key)
    (hclean : CleanPath key) (hvalid : validUtf8 key = true) {rv : ℤ} (hrv : rv ≠ 0) :
    decodeContinue c.codec (tokenAfter c path key rv) path = .ok (key ++ [0], rv) := by
  rcases hpre with ⟨rest, rfl⟩
  have hproper := proper_of_cleanPath hpath hclean
  rcases clean_snoc hproper with ⟨hclean', hhead⟩
  have hdrop : (path ++ rest ++ [0]).drop path.length = rest ++ [0] := by
    rw [append_assoc, drop_left]
  have hrest : validUtf8 rest = true := by
    rcases hpath.eq_snoc with ⟨front, rfl⟩
    rw [append_assoc, singleton_append] at hvalid
    exact validUtf8_of_append (by decide) hvalid
  have hvalid' : toValidUtf8 (rest ++ [0]) = rest ++ [0] :=
    toValidUtf8_of_valid (validUtf8_append hrest (by decide))
  unfold decodeContinue tokenAfter
  rw [c.codec.decode_encode, hdrop]
  dsimp only
  rw [hvalid', if_neg (by simp), if_neg hrv, if_neg (by simp), if_neg hhead,
    if_neg (by simp [hclean']), hclean', append_assoc]

variable {rv n fuel m : ℕ}

lemma start_resume (hpaging : paging c opts = true) (hpath : IsDirectory path)
    (hpre : path <+: key) (hclean : CleanPath key) (hvalid : validUtf8 key = true) (hrv : 0 < rv) :
    start c (opts.resume (tokenAfter c path key rv)) path = .ok (key ++ [0], (rv : ℤ)) := by
  unfold paging at hpaging
  rw [Bool.and_eq_true] at hpaging
  unfold start ListOptions.resume
  rw [if_pos rfl]
  rw [hpaging.1]
  dsimp only
  rw [decodeContinue_tokenAfter hpath hpre hclean hvalid (by omega)]
  dsimp only
  rw [if_neg (by simp), if_pos (by omega)]

/-! ## A page -/

/-- The page that is made of what was read, with a token if keys are left. -/
structure PageOf (c : Config V Obj T) (opts : ListOptions Obj T) (path : Bytes) (rv : ℕ)
    (read left : List (KeyValue V)) (page : Page Obj T) : Prop where
  decodes : ∀ kv ∈ read, c.decode kv.2.1 ≠ none
  items : page.items = read.filterMap (itemOf c opts)
  resourceVersion : page.resourceVersion = rv
  last : left = [] → page.next = none ∧ page.remainingItemCount = none
  next : left ≠ [] → paging c opts = true ∧ (page.items.length : ℤ) = opts.predicate.limit ∧
    ∃ last, read.getLast? = some last ∧ page.next = some (tokenAfter c path last.1 rv)
  remaining : left ≠ [] → ∀ r ∈ page.remainingItemCount,
    opts.predicate.empty = true ∧ r = (left.length : ℤ)

lemma updateList_spec {read left : List (KeyValue V)} {filled : Filled Obj}
    (hpath : IsDirectory path) (hrv : 0 < rv) (hpre : ∀ kv ∈ read, path <+: kv.1)
    (h : Read c opts n rv [] read left filled) :
    ∃ page, updateList c opts path filled = .ok page ∧ PageOf c opts path rv read left page := by
  have hitems := h.items
  rw [nil_append] at hitems
  have hne : (rv : ℤ) ≠ 0 := by omega
  unfold updateList
  rw [h.returnedRV]
  by_cases hleft : left = []
  · have hmore : ¬ filled.hasMore = true := by
      rw [h.hasMore, not_not]
      exact hleft
    rw [if_neg hmore, if_neg hne]
    exact ⟨_, rfl, h.decodes, hitems, rfl, fun _ => ⟨rfl, rfl⟩, fun hne => absurd hleft hne,
      fun hne => absurd hleft hne⟩
  rcases h.full hleft with ⟨hlen, last, hlast, hkey⟩
  rw [if_pos (h.hasMore.2 hleft), hkey,
    encodeContinue_eq hpath (hpre last (mem_of_getLast? hlast))]
  dsimp only
  rw [if_neg hne]
  refine ⟨_, rfl, h.decodes, hitems, rfl, fun hnil => absurd hnil hleft,
    fun _ => ⟨h.paged hleft, hlen, last, hlast, rfl⟩, ?_⟩
  intro _ r hr
  split at hr
  · rename_i hempty
    rw [Bool.and_eq_true] at hempty
    refine ⟨hempty.2, ?_⟩
    have hcount := h.count hempty.2 rfl hleft
    rw [hitems, length_filterMap_itemOf hempty.2 h.decodes] at hlen
    rw [← Option.some.inj hr, hcount]
    omega
  · cases hr

/-- A call that reads a revision, with more fuel than there are keys to read. -/
lemma list_spec (hstart : start c opts (c.keyPrefix key) = .ok (fromKey, rev))
    (hreads : ReadsAt hist n rev rv)
    (hmin : validateMinimumResourceVersion opts (hist.store n).rev = .ok ())
    (hfuel : (hist.range n rv fromKey (c.rangeEnd key)).length < fuel) :
    (∃ kv ∈ hist.range n rv fromKey (c.rangeEnd key), c.decode kv.2.1 = none ∧
      list c hist opts fuel n key = some (.error (.undecodable kv.1))) ∨
    ∃ read left page m, hist.range n rv fromKey (c.rangeEnd key) = read ++ left ∧
      list c hist opts fuel n key = some (.ok (page, m)) ∧ n < m ∧
      PageOf c opts (c.keyPrefix key) rv read left page := by
  have hpath : IsDirectory (c.keyPrefix key) := isDirectory_keyPrefix key
  unfold list
  rw [hstart]
  dsimp only
  have hnil : paging c opts = true → (([] : List (Item Obj)).length : ℤ) < opts.predicate.limit :=
    fun hpaging => limit_pos hpaging
  rcases @chunks_spec V Obj T c hist opts [] [] n rv rev _ fuel fromKey hreads hmin hnil hfuel with
    ⟨kv, hkv, hdecode, herr⟩ | ⟨read, left, filled, hrange, hok, hread⟩
  · left
    refine ⟨kv, hkv, hdecode, ?_⟩
    rw [herr]
  right
  have hpre : ∀ kv ∈ read, c.keyPrefix key <+: kv.1 := by
    intro kv hkv
    have hmem : kv ∈ hist.range n rv fromKey (c.rangeEnd key) := by
      rw [hrange]
      exact mem_append_left _ hkv
    exact hpath.isPrefix_of_inRange (start_spec hstart).1 (Mvcc.mem_rangeAt.1 hmem).1
  rcases updateList_spec hpath hreads.pos hpre hread with ⟨page, hpage, hpageOf⟩
  refine ⟨read, left, page, filled.requests, hrange, ?_, hread.requests, hpageOf⟩
  rw [hok]
  dsimp only
  rw [hpage]
  rfl

/-! ## All pages -/

/-- The client: it follows the tokens, for a number of pages. -/
def follow (c : Config V Obj T) (hist : History V) (key : Bytes) (fuel : ℕ) :
    ℕ → ℕ → ListOptions Obj T → Option (Except ListError (List (Page Obj T)))
  | 0, _, _ => none
  | pages + 1, n, opts =>
    match list c hist opts fuel n key with
    | none => none
    | some (.error err) => some (.error err)
    | some (.ok (page, m)) =>
      match page.next with
      | none => some (.ok [page])
      | some token =>
        (follow c hist key fuel pages m (opts.resume token)).map fun rest => rest.map (page :: ·)

/-- Pages of a list of items at a resource version: every page but the last has a token and as many
items as the limit, the last has no token, and a page that says how many items are to come says
so rightly. -/
inductive Pages (limit : ℤ) (rv : ℤ) : List (Item Obj) → List (Page Obj T) → Prop
  | last {page : Page Obj T} : page.resourceVersion = rv → page.next = none →
      page.remainingItemCount = none → Pages limit rv page.items [page]
  | more {page : Page Obj T} {items : List (Item Obj)} {pages : List (Page Obj T)} :
      page.resourceVersion = rv → page.next ≠ none → (page.items.length : ℤ) = limit →
      (∀ r ∈ page.remainingItemCount, r = (items.length : ℤ)) →
      Pages limit rv items pages → Pages limit rv (page.items ++ items) (page :: pages)

lemma History.rev_mono (hist : History V) (h : n ≤ m) :
    (hist.store n).rev ≤ (hist.store m).rev :=
  monotone_nat_of_le_succ hist.rev_le h

lemma History.range_later (h : rv ≤ (hist.store n).rev) (hnm : n ≤ m) (key rangeEnd : Bytes) :
    hist.range m rv key rangeEnd = hist.range n rv key rangeEnd := by
  induction hnm with
  | refl => rfl
  | step hnm ih => rw [History.range_succ (h.trans (hist.rev_mono hnm)), ih]

/-- Stored keys are UTF-8 texts. -/
def History.Utf8 (hist : History V) : Prop :=
  ∀ n, ∀ w ∈ (hist.store n).log, validUtf8 w.key = true

/-- A client that starts at a key gets the items of all keys from there on. -/
lemma follow_spec (hutf8 : hist.Utf8) {pages : ℕ}
    (hstart : start c opts (c.keyPrefix key) = .ok (fromKey, rev)) (hreads : ReadsAt hist n rev rv)
    (hmin : validateMinimumResourceVersion opts (hist.store n).rev = .ok ())
    (hfuel : (hist.range n rv fromKey (c.rangeEnd key)).length < fuel)
    (hpages : (hist.range n rv fromKey (c.rangeEnd key)).length < pages) :
    (∃ kv ∈ hist.range n rv fromKey (c.rangeEnd key), c.decode kv.2.1 = none ∧
      follow c hist key fuel pages n opts = some (.error (.undecodable kv.1))) ∨
    ∃ ps, follow c hist key fuel pages n opts = some (.ok ps) ∧
      (∀ kv ∈ hist.range n rv fromKey (c.rangeEnd key), c.decode kv.2.1 ≠ none) ∧
      Pages opts.predicate.limit rv
        ((hist.range n rv fromKey (c.rangeEnd key)).filterMap (itemOf c opts)) ps := by
  induction pages generalizing n fromKey rev opts with
  | zero => exact absurd hpages (not_lt_zero _)
  | succ pages ih =>
    have hpath : IsDirectory (c.keyPrefix key) := isDirectory_keyPrefix key
    rw [follow]
    rcases list_spec hstart hreads hmin hfuel with
      ⟨kv, hkv, hdecode, herr⟩ | ⟨read, left, page, m, hrange, hok, hnm, hpage⟩
    · left
      refine ⟨kv, hkv, hdecode, ?_⟩
      rw [herr]
    rw [hok]
    dsimp only
    by_cases hleft : left = []
    · -- the last page
      right
      rcases hpage.last hleft with ⟨hnext, hremaining⟩
      rw [hnext]
      refine ⟨[page], rfl, ?_, ?_⟩
      · rw [hrange, hleft, append_nil]
        exact hpage.decodes
      · rw [hrange, hleft, append_nil, ← hpage.items]
        exact Pages.last hpage.resourceVersion hnext hremaining
    rcases hpage.next hleft with ⟨hpaging, hlen, last, hlast, hnext⟩
    have hmemRead : last ∈ read := mem_of_getLast? hlast
    have hmem : last ∈ hist.range n rv fromKey (c.rangeEnd key) := by
      rw [hrange]
      exact mem_append_left _ hmemRead
    rcases Mvcc.mem_rangeAt.1 hmem with ⟨hin, hget⟩
    have hlog := (Mvcc.mem_of_getAt hget).1
    have hpre := hpath.isPrefix_of_inRange (start_spec hstart).1 hin
    have hstart' := start_resume hpaging hpath hpre (hist.clean n _ hlog) (hutf8 n _ hlog)
      hreads.pos
    have hreads' : ReadsAt hist m rv rv :=
      Or.inr ⟨rfl, hreads.pos, hreads.le.trans (hist.rev_mono hnm.le)⟩
    have hresume : hist.range m rv (last.1 ++ [0]) (c.rangeEnd key) = left := by
      rw [History.range_later (hreads.le.trans (hist.rev_le n)) hnm]
      exact History.range_resume hreads.le hrange hlast
    have hshorter : left.length + 1 ≤
        (hist.range n rv fromKey (c.rangeEnd key)).length := by
      have hpos := length_pos_of_mem hmemRead
      rw [hrange, length_append]
      omega
    rw [hnext]
    dsimp only
    rcases ih hstart' hreads' rfl (by rw [hresume]; omega) (by rw [hresume]; omega) with
      ⟨kv, hkv, hdecode, herr⟩ | ⟨ps, hps, hdecodes, hpages'⟩
    · left
      rw [hresume] at hkv
      refine ⟨kv, by rw [hrange]; exact mem_append_right _ hkv, hdecode, ?_⟩
      rw [herr]
      rfl
    right
    rw [hresume] at hdecodes hpages'
    refine ⟨page :: ps, by rw [hps]; rfl, ?_, ?_⟩
    · rw [hrange]
      exact forall_mem_append.2 ⟨hpage.decodes, hdecodes⟩
    · rw [hrange, filterMap_append, ← hpage.items]
      refine Pages.more hpage.resourceVersion (by rw [hnext]; exact nofun) hlen ?_ hpages'
      intro r hr
      rcases hpage.remaining hleft r hr with ⟨hempty, hr'⟩
      rw [hr', ← length_filterMap_itemOf hempty hdecodes]

lemma itemOf_eq_some {kv : KeyValue V} {item : Item Obj} :
    itemOf c opts kv = some item ↔ kv.1 = item.key ∧ kv.2.2 = item.rev ∧
      c.decode kv.2.1 = some item.obj ∧ opts.predicate.matchesObj item.obj item.rev = true := by
  rcases kv with ⟨key, v, rev⟩
  rcases item with ⟨key', obj', rev'⟩
  unfold itemOf
  cases hdecode : c.decode v with
  | none => simp
  | some obj =>
    dsimp only
    split
    · rename_i hmatch
      rw [Option.some.injEq, Item.mk.injEq, Option.some.injEq]
      constructor
      · rintro ⟨rfl, rfl, rfl⟩
        exact ⟨rfl, rfl, rfl, hmatch⟩
      · rintro ⟨rfl, rfl, rfl, -⟩
        exact ⟨rfl, rfl, rfl⟩
    · rename_i hmatch
      constructor
      · intro h
        cases h
      · rintro ⟨rfl, rfl, heq, htrue⟩
        cases heq
        exact absurd htrue hmatch

/-- More fuel does not change what a call returns. -/
lemma chunks_mono {lastKey : Bytes} {withRev returnedRV : ℤ} {items : List (Item Obj)} {fuel' : ℕ}
    (hle : fuel ≤ fuel') {result : Except ListError (Filled Obj)}
    (h : chunks c hist opts rangeEnd fuel n key withRev returnedRV items lastKey = some result) :
    chunks c hist opts rangeEnd fuel' n key withRev returnedRV items lastKey = some result := by
  induction fuel generalizing fuel' n key lastKey withRev returnedRV items with
  | zero => cases h
  | succ fuel ih =>
    cases fuel' with
    | zero => exact absurd hle (not_succ_le_zero _)
    | succ fuel' =>
      rw [chunks] at h ⊢
      split
      · rename_i hget
        rw [hget] at h
        exact h
      rename_i getResp hget
      rw [hget] at h
      dsimp only at h
      split
      · rename_i hmin
        rw [hmin] at h
        exact h
      rename_i hmin
      rw [hmin] at h
      split
      · rename_i hresults
        rw [if_pos hresults] at h
        exact h
      rename_i hresults
      rw [if_neg hresults] at h
      split
      · rename_i hscan
        rw [hscan] at h
        exact h
      rename_i hscan
      rw [hscan] at h
      dsimp only at h ⊢
      split
      · rename_i hdone
        rw [if_pos hdone] at h
        exact h
      · rename_i hdone
        rw [if_neg hdone] at h
        exact ih (le_of_succ_le_succ hle) h

/-- Whatever the options, only objects below the path are returned. -/
theorem list_confined {page : Page Obj T} (h : list c hist opts fuel n key = some (.ok (page, m)))
    {item : Item Obj} (hitem : item ∈ page.items) : c.keyPrefix key <+: item.key := by
  have hpath : IsDirectory (c.keyPrefix key) := isDirectory_keyPrefix key
  cases hstart : start c opts (c.keyPrefix key) with
  | error err =>
    unfold list at h
    rw [hstart] at h
    cases h
  | ok p =>
    rcases p with ⟨fromKey, rev⟩
    rcases start_spec hstart with ⟨hle, hrev, -⟩
    -- the result with enough fuel is the result
    have hmono : ∀ fuel', fuel ≤ fuel' → list c hist opts fuel' n key = some (.ok (page, m)) := by
      intro fuel' hfuel
      unfold list at h ⊢
      rw [hstart] at h ⊢
      dsimp only at h ⊢
      split at h
      · cases h
      · cases h
      · rename_i filled hfilled
        rw [chunks_mono hfuel hfilled]
        exact h
    rcases @chunks_start V Obj T c hist opts fromKey (c.rangeEnd key) rev [] [] n hrev
      with ⟨err, -, herr⟩ | ⟨⟨rv, hreads⟩, hmin⟩
    · have hlist := hmono (fuel + 1) (le_succ fuel)
      unfold list at hlist
      rw [hstart] at hlist
      dsimp only at hlist
      rw [herr fuel] at hlist
      cases hlist
    set keys := hist.range n rv fromKey (c.rangeEnd key) with hkeys
    have hlist := hmono (fuel + keys.length + 1) (by omega)
    have hfuel : keys.length < fuel + keys.length + 1 := by omega
    rcases list_spec hstart hreads hmin hfuel with
      ⟨kv, -, -, herr⟩ | ⟨read, left, page', m', hrange, hok, -, hpage⟩
    · rw [hlist] at herr
      cases herr
    rw [hlist] at hok
    cases hok
    rw [hpage.items] at hitem
    rcases mem_filterMap.1 hitem with ⟨kv, hkv, hitemOf⟩
    have hmem : kv ∈ keys := by
      rw [hkeys, hrange]
      exact mem_append_left _ hkv
    rw [← (itemOf_eq_some.1 hitemOf).1]
    exact hpath.isPrefix_of_inRange hle (Mvcc.mem_rangeAt.1 hmem).1

variable (c hist opts) in
lemma items_of_range (key : Bytes) (n rv : ℕ) :
    (((hist.range n rv (c.keyPrefix key) (c.rangeEnd key)).filterMap
      (itemOf c opts)).Pairwise fun a b => a.key < b.key) ∧
    ∀ item, item ∈ (hist.range n rv (c.keyPrefix key) (c.rangeEnd key)).filterMap
        (itemOf c opts) ↔
      c.keyPrefix key <+: item.key ∧ ∃ v, (hist.store n).getAt rv item.key = some (v, item.rev) ∧
        c.decode v = some item.obj ∧ opts.predicate.matchesObj item.obj item.rev = true := by
  have hpath : IsDirectory (c.keyPrefix key) := isDirectory_keyPrefix key
  constructor
  · rw [pairwise_filterMap]
    refine (Mvcc.rangeAt_sorted _ _).imp fun hlt a ha b hb => ?_
    rw [← (itemOf_eq_some.1 ha).1, ← (itemOf_eq_some.1 hb).1]
    exact hlt
  intro item
  rw [mem_filterMap]
  constructor
  · rintro ⟨⟨k, v, rev⟩, hkv, hitem⟩
    rcases itemOf_eq_some.1 hitem with ⟨rfl, rfl, hdecode, hmatch⟩
    rcases Mvcc.mem_rangeAt.1 hkv with ⟨hin, hget⟩
    exact ⟨hpath.inRange_iff.1 hin, v, hget, hdecode, hmatch⟩
  · rintro ⟨hpre, v, hget, hdecode, hmatch⟩
    refine ⟨(item.key, v, item.rev), ?_, itemOf_eq_some.2 ⟨rfl, rfl, hdecode, hmatch⟩⟩
    exact Mvcc.mem_rangeAt.2 ⟨hpath.inRange_iff.2 hpre, hget⟩

lemma start_first (hfirst : opts.predicate.continueToken = none)
    (hnil : opts.resourceVersion = []) (path : Bytes) : start c opts path = .ok (path, 0) := by
  unfold start
  rw [if_pos hnil, hfirst]
  cases c.pagingEnabled <;> rfl

/-- The client is told that a value below the path is no object, or it gets the pages of the objects
that match and are stored below the path at a revision, in the order of their keys. -/
def Delivers (c : Config V Obj T) (hist : History V) (key : Bytes) (opts : ListOptions Obj T)
    (n rv fuel : ℕ) : Prop :=
  (∃ k v r, c.keyPrefix key <+: k ∧ (hist.store n).getAt rv k = some (v, r) ∧ c.decode v = none ∧
    follow c hist key fuel fuel n opts = some (.error (.undecodable k))) ∨
  ∃ pages items, follow c hist key fuel fuel n opts = some (.ok pages) ∧
    Pages opts.predicate.limit rv items pages ∧ (items.Pairwise fun a b => a.key < b.key) ∧
    ∀ item, item ∈ items ↔ c.keyPrefix key <+: item.key ∧
      ∃ v, (hist.store n).getAt rv item.key = some (v, item.rev) ∧ c.decode v = some item.obj ∧
        opts.predicate.matchesObj item.obj item.rev = true

lemma delivers (hutf8 : hist.Utf8)
    (hstart : start c opts (c.keyPrefix key) = .ok (c.keyPrefix key, rev))
    (hreads : ReadsAt hist n rev rv)
    (hmin : validateMinimumResourceVersion opts (hist.store n).rev = .ok ())
    (hfuel : (hist.range n rv (c.keyPrefix key) (c.rangeEnd key)).length < fuel) :
    Delivers c hist key opts n rv fuel := by
  rcases follow_spec hutf8 hstart hreads hmin hfuel hfuel with
    ⟨⟨k, v, r⟩, hkv, hdecode, herr⟩ | ⟨pages, hok, -, hpages⟩
  · rcases Mvcc.mem_rangeAt.1 hkv with ⟨hin, hget⟩
    exact Or.inl ⟨k, v, r, (isDirectory_keyPrefix key).inRange_iff.1 hin, hget, hdecode, herr⟩
  · rcases items_of_range c hist opts key n rv with ⟨hsorted, hmem⟩
    exact Or.inr ⟨pages, _, hok, hpages, hsorted, hmem⟩

/-- If all keys are UTF-8, a list from its first page is refused for its resource version, or the
client gets all pages at the revision of the first one, whatever others write. And no list, whatever
the keys and its token, returns an object that is not below the path. -/
theorem paginated_list_exact (c : Config V Obj T) (hist : History V) (key : Bytes)
    (opts : ListOptions Obj T) (hfirst : opts.predicate.continueToken = none) (n : ℕ) :
    (hist.Utf8 → ∃ enough, ∀ fuel, enough ≤ fuel →
      (opts.resourceVersion ≠ [] ∧ ∃ err : ListError, err.Refuses opts (hist.store n).rev ∧
        list c hist opts fuel n key = some (.error err)) ∨
      ∃ rv ≤ (hist.store n).rev, Delivers c hist key opts n rv fuel) ∧
    ∀ (opts' : ListOptions Obj T) (fuel m m' : ℕ) (page : Page Obj T),
      list c hist opts' fuel m key = some (.ok (page, m')) →
      ∀ item ∈ page.items, c.keyPrefix key <+: item.key := by
  refine ⟨fun hutf8 => ?_, fun opts' fuel m m' page h item hitem => list_confined h hitem⟩
  by_cases hnil : opts.resourceVersion = []
  · have hreads : ReadsAt hist n 0 (hist.store n).rev := Or.inl ⟨rfl, rfl⟩
    have hmin : validateMinimumResourceVersion opts (hist.store n).rev = .ok () := if_pos hnil
    refine ⟨(hist.range n (hist.store n).rev (c.keyPrefix key) (c.rangeEnd key)).length + 1,
      fun fuel hfuel => ?_⟩
    right
    refine ⟨_, le_rfl, ?_⟩
    exact delivers hutf8 (start_first hfirst hnil _) hreads hmin (lt_of_succ_le hfuel)
  cases hstart : start c opts (c.keyPrefix key) with
  | error err =>
    refine ⟨0, fun fuel _ => Or.inl ⟨hnil, err, refuses_of_start hfirst hstart _, ?_⟩⟩
    unfold list
    rw [hstart]
  | ok p =>
    rcases p with ⟨fromKey, rev⟩
    rcases start_spec hstart with ⟨-, hrev, hspec⟩
    rcases hspec hfirst with ⟨rfl, hasks⟩
    rcases @chunks_start V Obj T c hist opts (c.keyPrefix key) (c.rangeEnd key) rev []
      [] n hrev with ⟨err, hrefuses, herr⟩ | ⟨⟨rv, hreads⟩, hmin⟩
    · refine ⟨1, fun fuel hfuel => Or.inl ⟨hnil, err, hrefuses hasks, ?_⟩⟩
      rcases exists_eq_succ_of_ne_zero (ne_of_gt hfuel) with ⟨fuel', rfl⟩
      unfold list
      rw [hstart]
      dsimp only
      rw [herr fuel']
    · refine ⟨(hist.range n rv (c.keyPrefix key) (c.rangeEnd key)).length + 1,
        fun fuel hfuel => ?_⟩
      right
      refine ⟨rv, hreads.le, ?_⟩
      exact delivers hutf8 hstart hreads hmin (lt_of_succ_le hfuel)

/-! ## A key that is not UTF-8 -/

/-- A predicate that selects everything, one object a page. -/
def onePerPage : ListOptions ℕ ContinueToken where
  resourceVersion := []
  resourceVersionMatch := .unset
  predicate := {
    label := ⟨fun _ => true, true⟩
    field := .andTerm []
    getAttrs := fun _ _ => none
    limit := 1
    continueToken := none }

/-- Numbers, stored as they are. -/
def plainConfig : Config ℕ ℕ ContinueToken where
  pathPrefix := []
  pagingEnabled := true
  remainingItemCount := true
  decode := some
  codec := {
    encode := fun t => { t with startKey := toValidUtf8 t.startKey }
    decode := some
    decode_encode := fun _ => rfl }

/-- The key of the path `/r` with a name of one byte. -/
def named (b : Byte) : Bytes := [slash, 0x72, slash, b]

lemma cleanPath_named {b : Byte} (h : clean [0x72, slash, b] = [0x72, slash, b]) :
    CleanPath (named b) := ⟨_, rfl, h⟩

/-- Two objects below `/r`, and no writes after that. -/
def twoNamed (a b : Byte) (ha : CleanPath (named a)) (hb : CleanPath (named b)) : History ℕ where
  store _ := Mvcc.Store.empty.writes [(named a, some 1), (named b, some 2)]
  step _ := ⟨[], rfl⟩
  clean _ w hw := by
    rcases mem_cons.1 hw with rfl | hw
    · exact hb
    · rw [mem_singleton.1 hw]
      exact ha
  bounded _ := ⟨show 0 < 3 by decide, show 3 < 2 ^ 63 by decide⟩

lemma clean_invalid : CleanPath (named 0x80) ∧ CleanPath (named 0x81) :=
  ⟨cleanPath_named (by decide), cleanPath_named (by decide)⟩

/-- Keys with bytes that belong to no rune. -/
def invalidUtf8 : History ℕ := twoNamed 0x80 0x81 clean_invalid.1 clean_invalid.2

/-- What the client gets: the resource version and the keys of each page. -/
def pageKeys (result : Option (Except ListError (List (Page ℕ ContinueToken)))) :
    Option (List (ℤ × List Bytes)) :=
  match result with
  | some (.ok pages) => some (pages.map fun page => (page.resourceVersion, page.items.map Item.key))
  | _ => none

/-- The second object is lost: the token of the first page starts at U+FFFD. -/
theorem page_lost_after_invalid_utf8 :
    pageKeys (follow plainConfig invalidUtf8 [0x72] 5 5 0 onePerPage) =
        some [(3, [named 0x80]), (3, [])] ∧
      plainConfig.keyPrefix [0x72] <+: named 0x81 ∧
      (invalidUtf8.store 0).getAt 3 (named 0x81) = some (2, 3) := by
  refine ⟨by decide +kernel, ⟨[0x81], by decide⟩, by decide⟩

lemma clean_ascii : CleanPath (named 0x61) ∧ CleanPath (named 0x62) :=
  ⟨cleanPath_named (by decide), cleanPath_named (by decide)⟩

def ascii : History ℕ := twoNamed 0x61 0x62 clean_ascii.1 clean_ascii.2

lemma utf8_ascii : ascii.Utf8 := by
  intro n w hw
  rcases mem_cons.1 hw with rfl | hw
  · decide
  · rw [mem_singleton.1 hw]
    decide

theorem paginated_list_exact_ascii : ∃ enough, ∀ fuel, enough ≤ fuel →
    ∃ rv ≤ 3, Delivers plainConfig ascii [0x72] onePerPage 0 rv fuel := by
  rcases (paginated_list_exact plainConfig ascii [0x72] onePerPage rfl 0).1 utf8_ascii with
    ⟨enough, h⟩
  refine ⟨enough, fun fuel hfuel => ?_⟩
  rcases h fuel hfuel with ⟨hne, -⟩ | hdelivers
  · exact absurd rfl hne
  · exact hdelivers

end Kubernetes.Apiserver.EtcdList
