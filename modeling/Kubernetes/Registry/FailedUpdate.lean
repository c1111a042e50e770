import Kubernetes.Registry.EtcdAllocator

/-! # A write that fails

A write can fail for another reason than a conflict: etcd is not there, or the request
times out. The stored object is then as it was, and so is its version. The callback has
changed the local bitmap by then and has remembered that version, so the next call finds
nothing to reload.

Results:

1. `Server.Alike`: servers that load the same bitmap behave alike, whatever comes next;
2. `During`: what a call that is about to write has done to its allocator, over any number
   of conflicts;
3. `failed_update_iff`: a failed call has no effect exactly when there was nothing to write.
-/

namespace Kubernetes.Registry

open Option Server

/-! ## Servers that behave alike -/

variable {r : AllocationBitmap String} {c : Call} {store store' : RangeAllocation}
  {server server' : Server} {out : Outcome} {ι : Type} [DecidableEq ι] {w w' : World ι} {s : ι}

namespace Etcd

variable {e e' : Etcd}

/-- The allocators load the same bitmap, now and when there is something new to load. -/
structure Alike (store : RangeAllocation) (e e' : Etcd) : Prop where
  config : e.alloc.config = e'.alloc.config
  load : e.load store = e'.load store

lemma Alike.refl (e : Etcd) : e.Alike store e := ⟨rfl, rfl⟩

lemma Alike.symm (h : e.Alike store e') : e'.Alike store e := ⟨h.config.symm, h.load.symm⟩

/-- A version that neither remembers makes both reload. -/
lemma Alike.of_newer (hconfig : e.alloc.config = e'.alloc.config)
    (he : store.resourceVersion ≠ e.last) (he' : store.resourceVersion ≠ e'.last) :
    e.Alike store e' := by
  refine ⟨hconfig, ?_⟩
  unfold Etcd.load
  rw [if_pos he, if_pos he', AllocationBitmap.restore_congr hconfig]

/-- A call whose function fails leaves the bitmap that it loaded. -/
lemma load_loaded (h : e.load store = .ok r) :
    (⟨r, e.last⟩ : Etcd).load store = .ok r := by
  obtain ⟨hsome, hconfig, hsame, -⟩ := load_spec h
  by_cases hlast : store.resourceVersion = e.last
  · rw [hsame hlast]
    rw [hsame hlast] at h
    exact h
  · have halike : (⟨r, e.last⟩ : Etcd).Alike store e := .of_newer hconfig hlast hlast
    exact halike.load.trans h

/-- The callback cannot tell the allocators apart. -/
lemma Alike.update (h : e.Alike store e') {draw offset offset' : Nat} {f : Etcd}
    {res : Except Error RangeAllocation}
    (hupdate : e.update c draw offset store = (f, offset', res)) :
    ∃ f', e'.update c draw offset store = (f', offset', res) ∧ f.Alike store f' ∧
      ∀ new, res = .ok new → f = f' := by
  rcases update_cases hupdate with
    ⟨err, hr, rfl, rfl, rfl⟩ | ⟨r, hr, ⟨hfn, rfl, rfl⟩ | ⟨r', hfn, rfl, rfl⟩⟩
  · refine ⟨e', ?_, h, fun new hnew => by cases hnew⟩
    rw [Etcd.update, ← h.load, hr]
  · refine ⟨⟨r, e'.last⟩, ?_, ⟨rfl, ?_⟩, fun new hnew => by cases hnew⟩
    · rw [Etcd.update, ← h.load, hr]
      simp only [hfn]
    · rw [load_loaded hr, load_loaded (h.load.symm.trans hr)]
  · refine ⟨_, ?_, .refl _, fun _ _ => rfl⟩
    rw [Etcd.update, ← h.load, hr]
    simp only [hfn]
    rfl

end Etcd

namespace Server

/-- The servers are at the same point of the same call, with allocators that are alike. -/
structure Alike (store : RangeAllocation) (server server' : Server) : Prop where
  phase : server.phase = server'.phase
  etcd : server.etcd.Alike store server'.etcd
  writing : ∀ c offset new, server.phase = .writing c offset new → server.etcd = server'.etcd
  recent : server.Recent store
  recent' : server'.Recent store

lemma Alike.symm (h : Alike store server server') : Alike store server' server where
  phase := h.phase.symm
  etcd := h.etcd.symm
  writing c offset new hphase := (h.writing c offset new (h.phase.trans hphase)).symm
  recent := h.recent'
  recent' := h.recent

lemma Recent.ne {revision : Nat} (h : server.Recent store)
    (hold : store.resourceVersion.all (· < revision) = true) :
    some revision ≠ server.etcd.last := by
  intro heq
  exact absurd (h.lt hold revision heq.symm) (lt_irrefl _)

lemma Alike.later (h : Alike store server server') (hlater : Later store store') :
    Alike store' server server' := by
  cases hlater with
  | same => exact h
  | written hold hnew =>
    refine ⟨h.phase, .of_newer h.etcd.config ?_ ?_, h.writing,
      h.recent.later (.written hold hnew), h.recent'.later (.written hold hnew)⟩
    · rw [hnew]
      exact h.recent.ne hold
    · rw [hnew]
      exact h.recent'.ne hold

/-- Whatever one of them does, the other can do, with the same consequences. -/
lemma Alike.step (h : Alike store server server') {a : Action} (hstep : Step store server a out) :
    ∃ out', Step store server' a out' ∧ out'.store = out.store ∧
      out'.returned = out.returned ∧ Alike out.store out.server out'.server := by
  have hrecent := h.recent.step hstep
  -- the other server's outcome is recent too, once there is one
  have hmatch : ∀ {out' : Outcome}, Step store server' a out' →
      out'.store = out.store → out'.returned = out.returned →
      out.server.phase = out'.server.phase →
      out.server.etcd.Alike out.store out'.server.etcd →
      (∀ c offset new, out.server.phase = .writing c offset new →
        out.server.etcd = out'.server.etcd) →
      ∃ out', Step store server' a out' ∧ out'.store = out.store ∧
        out'.returned = out.returned ∧ Alike out.store out.server out'.server := by
    intro out' hstep' hstore hret hphase hetcd hwrite
    have hrecent' := h.recent'.step hstep'
    rw [hstore] at hrecent'
    exact ⟨out', hstep', hstore, hret, hphase, hetcd, hwrite, hrecent, hrecent'⟩
  have hphase' := h.phase.symm
  cases hstep with
  | call hphase => exact hmatch (.call (hphase'.trans hphase)) rfl rfl rfl h.etcd nofun
  | fail hphase hupdate =>
    obtain ⟨f', hupdate', halike, -⟩ := h.etcd.update hupdate
    exact hmatch (.fail (hphase'.trans hphase) hupdate') rfl rfl rfl halike nofun
  | unchanged hphase hupdate =>
    obtain ⟨f', hupdate', halike, -⟩ := h.etcd.update hupdate
    exact hmatch (.unchanged (hphase'.trans hphase) hupdate') rfl rfl rfl halike nofun
  | attempt hphase hupdate =>
    obtain ⟨f', hupdate', halike, hsame⟩ := h.etcd.update hupdate
    exact hmatch (.attempt (hphase'.trans hphase) hupdate') rfl rfl rfl halike
      fun _ _ _ _ => hsame _ rfl
  | write hphase hver hrev =>
    refine hmatch (.write (hphase'.trans hphase) hver hrev) rfl rfl rfl ?_ nofun
    show server.etcd.Alike _ server'.etcd
    rw [h.writing _ _ _ hphase]
    exact .refl _
  | conflict hphase hver =>
    exact hmatch (.conflict (hphase'.trans hphase) hver) rfl rfl rfl h.etcd nofun
  | readError hphase => exact hmatch (.readError (hphase'.trans hphase)) rfl rfl rfl h.etcd nofun
  | writeError hphase => exact hmatch (.writeError (hphase'.trans hphase)) rfl rfl rfl h.etcd nofun

end Server

namespace World

/-- The worlds differ in the allocator of one server only, and that is alike. -/
structure Alike (s : ι) (w w' : World ι) : Prop where
  store : w.store = w'.store
  returned : w.returned = w'.returned
  server : Server.Alike w.store (w.servers s) (w'.servers s)
  others : ∀ i, i ≠ s → w.servers i = w'.servers i

omit [DecidableEq ι] in
lemma Alike.symm (h : Alike s w w') : Alike s w' w := by
  refine ⟨h.store.symm, h.returned.symm, ?_, fun i hi => (h.others i hi).symm⟩
  rw [← h.store]
  exact h.server.symm

lemma Alike.step (h : Alike s w w') {e : ι × Action} {v : World ι}
    (hstep : w.step e = some v) : ∃ v', w'.step e = some v' ∧ Alike s v v' := by
  obtain ⟨out, hout, rfl⟩ := step_cases hstep
  by_cases hs : e.1 = s
  · subst hs
    obtain ⟨out', hout', hstore, hret, halike⟩ := h.server.step hout
    rw [h.store] at hout'
    refine ⟨w'.apply e.1 out', step_of_step hout', hstore.symm, ?_, ?_, ?_⟩
    · simp only [apply, h.returned, hret]
    · simpa only [apply, if_true] using halike
    · intro i hi
      simp only [apply, if_neg hi, h.others i hi]
  · have hout' := hout
    rw [h.others e.1 hs, h.store] at hout'
    refine ⟨w'.apply e.1 out, step_of_step hout', rfl, ?_, ?_, ?_⟩
    · simp only [apply, h.returned]
    · simp only [apply, if_neg (Ne.symm hs)]
      exact h.server.later hout.later
    · intro i hi
      simp only [apply, h.others i hi]

/-- What can be observed: the stored object and the replies. -/
def observe (w : World ι) : RangeAllocation × List (ι × Call × Reply) := (w.store, w.returned)

/-- Worlds that are alike show the same in every continuation. -/
lemma Alike.observe_eq (d : Deployment ι) (h : Alike s w w') (tr : List (ι × Action)) :
    ((machine d).runFrom w tr).map observe = ((machine d).runFrom w' tr).map observe := by
  refine (machine d).runFrom_congr (Alike s) observe (fun _ _ h => h.symm) ?_ ?_ h tr
  · intro w w' h
    exact Prod.ext h.store h.returned
  · intro w w' e v h hstep
    exact h.step hstep

end World

/-! ## A call and its conflicts -/

/-- A call that began with the allocator `e₀`, while no write of it has taken place:
`e` is what the last run of the callback made of `e₀`, if the object has not been written
since. -/
def Etcd.Ran (e₀ : Etcd) (c : Call) (store : RangeAllocation) (offset : Nat) (e : Etcd) : Prop :=
  ∃ draw off r r', e₀.load store = .ok r ∧ c.fn draw off r = (r', offset, none) ∧
    e = ⟨r', store.resourceVersion⟩

namespace Server

variable {e₀ : Etcd}

/-- Where a call is that began with the allocator `e₀`. -/
inductive During (e₀ : Etcd) (c : Call) (store : RangeAllocation) (server : Server) : Prop where
  | ended : server.phase = .idle → During e₀ c store server
  | reading (offset : Nat) : server.phase = .reading c offset →
      Alike store ⟨server.etcd, .idle⟩ ⟨e₀, .idle⟩ → During e₀ c store server
  | writing (offset : Nat) (new : RangeAllocation) : server.phase = .writing c offset new →
      server.etcd.alloc.config = e₀.alloc.config →
      (∃ read, new.resourceVersion = some read ∧ ∀ v, e₀.last = some v → v ≤ read) →
      (new.resourceVersion = store.resourceVersion → e₀.Ran c store offset server.etcd) →
      During e₀ c store server

variable (h : During e₀ c store server)

include h

lemma During.later (hrecent : server.Recent store)
    (hlater : Later store store') : During e₀ c store' server := by
  cases h with
  | ended hphase => exact .ended hphase
  | reading offset hphase halike => exact .reading offset hphase (halike.later hlater)
  | writing offset new hphase hconfig hlast hran =>
    refine .writing offset new hphase hconfig hlast fun hver => ?_
    cases hlater with
    | same => exact hran hver
    | written hold hnew =>
      -- the write will be a conflict
      rw [hrecent.read c offset new hphase, hnew] at hver
      exact absurd hver.symm (hrecent.ne hold)

lemma During.attempt {c' : Call} {draw offset offset' : Nat} {f : Etcd} {new : RangeAllocation}
    (hphase : server.phase = .reading c' offset)
    (hupdate : server.etcd.update c' draw offset store = (f, offset', .ok new)) :
    During e₀ c store ⟨f, .writing c' offset' new⟩ := by
  cases h with
  | ended hidle =>
    rw [hphase] at hidle
    cases hidle
  | writing offset'' new hwrite =>
    rw [hphase] at hwrite
    cases hwrite
  | reading offset'' hreading halike =>
    rw [hphase] at hreading
    cases hreading
    rcases Etcd.update_cases hupdate with
      ⟨_, -, -, -, hres⟩ | ⟨r, hload, ⟨-, -, hres⟩ | ⟨r', hfn, rfl, hres⟩⟩
    · cases hres
    · cases hres
    cases hres
    have hload0 : e₀.load store = .ok r := halike.etcd.load.symm.trans hload
    obtain ⟨hsome, hconfig0, -⟩ := Etcd.load_spec hload0
    obtain ⟨read, hread⟩ := ne_none_iff_exists'.1 hsome
    refine .writing offset' _ rfl ?_ ⟨read, hread, fun v hv => ?_⟩
      fun _ => ⟨draw, offset, r, r', hload0, hfn, rfl⟩
    · rcases Call.fn_spec hfn with ⟨hnone, -⟩ | ⟨-, hconfig, -⟩
      · cases hnone
      · exact hconfig.trans hconfig0
    · obtain ⟨v', hv', hle⟩ := halike.recent'.last_le v hv
      rw [hread] at hv'
      cases hv'
      exact hle

section

variable (hrecent : server.Recent store) (he₀ : (⟨e₀, .idle⟩ : Server).Recent store)

include hrecent he₀

lemma During.conflict {c' : Call} {offset : Nat} {new : RangeAllocation}
    (hphase : server.phase = .writing c' offset new)
    (hver : new.resourceVersion ≠ store.resourceVersion) :
    During e₀ c store ⟨server.etcd, .reading c' offset⟩ := by
  cases h with
  | ended hidle =>
    rw [hphase] at hidle
    cases hidle
  | reading offset' hreading =>
    rw [hphase] at hreading
    cases hreading
  | writing offset' new' hwrite hconfig hlast =>
    rw [hphase] at hwrite
    cases hwrite
    obtain ⟨read, hread, hle⟩ := hlast
    have hlast := (hrecent.read c offset new hphase).symm.trans hread
    -- what is stored is newer than what was read, and so than what `e₀` remembers
    have hne : store.resourceVersion ≠ e₀.last := by
      intro hcur
      obtain ⟨v, hv, hread_le⟩ := hrecent.last_le read hlast
      have hv_le := hle v (hcur.symm.trans hv)
      obtain rfl : v = read := by omega
      exact hver (hread.trans hv.symm)
    refine .reading offset rfl ⟨rfl, .of_newer hconfig ?_ hne, ?_, ?_, he₀⟩
    · intro hcur
      exact hver (hread.trans (hlast.symm.trans hcur.symm))
    · intro _ _ _ heq
      cases heq
    · exact hrecent.quiet nofun

lemma During.step {a : Action} (ha : ∀ c', a ≠ .call c') (hstep : Step store server a out) :
    During e₀ c out.store out.server := by
  cases hstep with
  | call => exact absurd rfl (ha _)
  | attempt hphase hupdate => exact h.attempt hphase hupdate
  | conflict hphase hver => exact h.conflict hrecent he₀ hphase hver
  | _ => exact .ended rfl

end

end Server

namespace World

/-- A world in which `s` is within its call on `e₀`. -/
structure During (s : ι) (e₀ : Etcd) (c : Call) (w : World ι) : Prop where
  recent : ∀ i, (w.servers i).Recent w.store
  recent₀ : (⟨e₀, .idle⟩ : Server).Recent w.store
  server : (w.servers s).During e₀ c w.store

lemma During.step {e₀ : Etcd} (h : During s e₀ c w) {e : ι × Action}
    (he : ∀ c', e ≠ (s, .call c')) (hstep : w.step e = some w') : During s e₀ c w' := by
  have hrecent := recent_step h.recent hstep
  obtain ⟨out, hout, rfl⟩ := step_cases hstep
  have hlater := hout.later
  refine ⟨hrecent, h.recent₀.later hlater, ?_⟩
  by_cases hs : e.1 = s
  · subst hs
    show (if e.1 = e.1 then out.server else w.servers e.1).During e₀ c out.store
    rw [if_pos rfl]
    exact h.server.step (h.recent e.1) h.recent₀ (fun c' hc' => he c' (Prod.ext rfl hc')) hout
  · show (if s = e.1 then out.server else w.servers s).During e₀ c out.store
    rw [if_neg (Ne.symm hs)]
    exact h.server.later (h.recent s) hlater

lemma During.run {d : Deployment ι} {e₀ : Etcd} {tr : List (ι × Action)}
    (h : During s e₀ c w) (htr : ∀ c', (s, Action.call c') ∉ tr)
    (hrun : (machine d).runFrom w tr = some w') : During s e₀ c w' := by
  induction tr generalizing w with
  | nil =>
    cases hrun
    exact h
  | cons e es ih =>
    obtain ⟨v, hv, hrest⟩ := bind_eq_some_iff.1 hrun
    refine ih (h.step (fun c' hc' => ?_) hv) (fun c' hc' => ?_) hrest
    · exact htr c' (hc' ▸ List.mem_cons_self)
    · exact htr c' (List.mem_cons_of_mem _ hc')

end World

/-! ## A failed call -/

def Reply.err : Reply → Option Error
  | .allocate _ err => err
  | .allocateNext _ _ err => err
  | .release err => err

/-- The call `c` of `s`, made in `w₀`, comes to its write in `w₁`, after any number of
conflicts and any steps of other servers. The object is still the one that was read. The
write fails. -/
structure FailedCall (d : Deployment ι) (s : ι) (c : Call) (w₀ w₁ w₂ : World ι) : Prop where
  reach : ∃ tr, (machine d).Reach tr w₀
  called : ∃ tr, (∀ c', (s, Action.call c') ∉ tr) ∧
    (machine d).runFrom w₀ ((s, .call c) :: tr) = some w₁
  current : ∃ offset new, (w₁.servers s).phase = .writing c offset new ∧
    new.resourceVersion = w₁.store.resourceVersion
  fails : (machine d).step w₁ (s, .writeError) = some w₂

/-- The world with the allocator of `s` as it was before. -/
def World.withAllocator (w : World ι) (s : ι) (e : Etcd) : World ι :=
  { w with servers := fun i => if i = s then ⟨e, .idle⟩ else w.servers i }

/-- The call has returned an error, and whatever happens next is what would happen if the
allocator were still the one from before the call. -/
def NoEffect (d : Deployment ι) (s : ι) (w₀ w₂ : World ι) : Prop :=
  (∃ c reply, w₂.returned.getLast? = some (s, c, reply) ∧ reply.err ≠ none) ∧
    ∀ tr, ((machine d).runFrom (w₂.withAllocator s (w₀.servers s).etcd) tr).map World.observe =
      ((machine d).runFrom w₂ tr).map World.observe

/-- The offsets of the bitmap that a call works on. -/
def Etcd.workedOn (e : Etcd) (store : RangeAllocation) : Finset Nat :=
  if store.resourceVersion = e.last then e.alloc.offsets else store.offsets

lemma Etcd.offsets_load {e : Etcd}
    (h : e.load store = .ok r) : r.offsets = e.workedOn store := by
  obtain ⟨-, -, hsame, hnew⟩ := load_spec h
  unfold workedOn
  split_ifs with hlast
  · rw [hsame hlast]
  · exact hnew hlast

namespace FailedCall

variable {d : Deployment ι} {w₀ w₁ w₂ : World ι}

lemma during (h : FailedCall d s c w₀ w₁ w₂) : World.During s (w₀.servers s).etcd c w₁ := by
  obtain ⟨tr0, hreach⟩ := h.reach
  have hrecent : ∀ i, (w₀.servers i).Recent w₀.store :=
    hreach.invariant (fun w => ∀ i, (w.servers i).Recent w.store) (recent_init d)
      fun _ _ _ hw hstep => World.recent_step hw hstep
  obtain ⟨tr, htr, hrun⟩ := h.called
  obtain ⟨v, hv, hrest⟩ := bind_eq_some_iff.1 hrun
  have hrecent' := World.recent_step hrecent hv
  obtain ⟨out, hout, rfl⟩ := World.step_cases hv
  cases hout
  have he₀ : (⟨(w₀.servers s).etcd, .idle⟩ : Server).Recent w₀.store :=
    (hrecent s).quiet nofun
  refine World.During.run ⟨hrecent', he₀, ?_⟩ htr hrest
  show (if s = s then _ else w₀.servers s).During (w₀.servers s).etcd c w₀.store
  rw [if_pos rfl]
  exact .reading 0 rfl ⟨rfl, .refl _, (nofun), he₀, he₀⟩

lemma ran (h : FailedCall d s c w₀ w₁ w₂) :
    ∃ offset, (w₀.servers s).etcd.Ran c w₁.store offset (w₁.servers s).etcd ∧
      w₂ = w₁.apply s (finish w₁.store (w₁.servers s).etcd c offset (some .storage)) := by
  obtain ⟨offset, new, hphase, hver⟩ := h.current
  obtain ⟨out, hout, rfl⟩ := World.step_cases h.fails
  cases hout
  rename_i hphase'
  rw [hphase] at hphase'
  cases hphase'
  refine ⟨offset, ?_, rfl⟩
  cases h.during.server with
  | ended hidle =>
    rw [hphase] at hidle
    cases hidle
  | reading offset' hreading =>
    rw [hphase] at hreading
    cases hreading
  | writing offset' new' hwrite _ _ hran =>
    rw [hphase] at hwrite
    cases hwrite
    exact hran hver

end FailedCall

/-- `Allocate` tells whether an offset is in the bitmap that a server loads. -/
lemma returned_probe (d : Deployment ι)
    (hidle : (w.servers s).phase = .idle) (hload : (w.servers s).etcd.load w.store = .ok r)
    (o : Nat) :
    ((machine d).runFrom w [(s, .call (.allocate o)), (s, .attempt 0 false)]).map
        World.returned =
      some (if o ∈ r.offsets then w.returned ++ [(s, .allocate o, .allocate false none)]
        else w.returned) := by
  by_cases ho : o ∈ r.offsets
  · have hfn : (Call.allocate o).fn 0 0 r = (r, 0, some .unableToAllocate) := by
      simp only [Call.fn, AllocationBitmap.allocate_of_mem ho]
    rw [if_pos ho]
    simp [Machine.runFrom, machine, World.step, World.apply, step, next,
      finish, hidle, Etcd.update, hload, hfn, Call.reply]
  · have hfn : (Call.allocate o).fn 0 0 r =
        (r.mark o (AllocationBitmap.testBit_eq_false ho), 0, none) := by
      simp only [Call.fn, AllocationBitmap.allocate_of_notMem ho]
    rw [if_neg ho]
    simp [Machine.runFrom, machine, World.step, World.apply, step, next,
      hidle, Etcd.update, hload, hfn]

/-- The one function that can succeed and change nothing. -/
lemma same_offsets_iff {draw off offset : Nat} {r r' : AllocationBitmap String}
    (h : c.fn draw off r = (r', offset, none)) :
    r'.offsets = r.offsets ↔ ∃ i, c = .release i ∧ i ∉ r.offsets := by
  rcases Call.fn_spec h with ⟨hnone, -⟩ | ⟨-, -, heffect, hfree⟩
  · cases hnone
  rw [heffect]
  cases c with
  | allocate o =>
    refine iff_of_false (Finset.insert_ne_self.2 (hfree o rfl)) ?_
    exact fun ⟨i, hi, _⟩ => by cases hi
  | allocateNext =>
    refine iff_of_false (Finset.insert_ne_self.2 (hfree offset rfl)) ?_
    exact fun ⟨i, hi, _⟩ => by cases hi
  | release i =>
    show r.offsets.erase i = r.offsets ↔ _
    rw [Finset.erase_eq_self]
    constructor
    · intro hi
      exact ⟨i, rfl, hi⟩
    · rintro ⟨j, hj, hi⟩
      cases hj
      exact hi

/-- A failed write goes unnoticed if and only if the bitmap is what it was before. -/
lemma FailedCall.noEffect_iff {d : Deployment ι} {w₀ w₁ w₂ : World ι}
    (h : FailedCall d s c w₀ w₁ w₂) :
    NoEffect d s w₀ w₂ ↔
      (w₁.servers s).etcd.alloc.offsets = (w₀.servers s).etcd.workedOn w₁.store := by
  obtain ⟨offset, ⟨draw, off, r, r', hload, hfn, hetcd⟩, rfl⟩ := h.ran
  have hreload : (w₁.servers s).etcd.load w₁.store = .ok r' := by
    obtain ⟨hsome, -⟩ := Etcd.load_spec hload
    rw [hetcd, Etcd.load, if_neg hsome, if_neg (not_not.2 rfl)]
  have hoffs' : (w₁.servers s).etcd.alloc.offsets = r'.offsets := by rw [hetcd]
  rw [← Etcd.offsets_load hload, hoffs']
  obtain ⟨w₂, hw2⟩ : ∃ w, w = w₁.apply s
    (finish w₁.store (w₁.servers s).etcd c offset (some .storage)) := ⟨_, rfl⟩
  have hstore : w₂.store = w₁.store := by rw [hw2]; rfl
  have hs : w₂.servers s = ⟨(w₁.servers s).etcd, .idle⟩ := by rw [hw2]; exact if_pos rfl
  have hbase : (w₂.withAllocator s (w₀.servers s).etcd).servers s =
      ⟨(w₀.servers s).etcd, .idle⟩ := if_pos rfl
  rw [← hw2]
  constructor
  · rintro ⟨-, hsame⟩
    -- ask for an offset in both worlds
    ext o
    have hprobe : ((machine d).runFrom (w₂.withAllocator s (w₀.servers s).etcd)
          [(s, .call (.allocate o)), (s, .attempt 0 false)]).map World.returned =
        ((machine d).runFrom w₂
          [(s, .call (.allocate o)), (s, .attempt 0 false)]).map World.returned := by
      have hsnd := congrArg (Option.map Prod.snd)
        (hsame [(s, .call (.allocate o)), (s, .attempt 0 false)])
      rwa [map_map, map_map] at hsnd
    rw [returned_probe (r := r) d (by rw [hbase]) (by rw [hbase]; exact hstore ▸ hload),
      returned_probe (r := r') d (by rw [hs]) (by rw [hs, hstore]; exact hreload)] at hprobe
    by_cases ho : o ∈ r.offsets <;> by_cases ho' : o ∈ r'.offsets <;>
      simp [ho, ho', World.withAllocator] at hprobe ⊢
  · intro hoffs
    obtain rfl : r' = r := by
      rcases Call.fn_spec hfn with ⟨hnone, -⟩ | ⟨-, hconfig, -⟩
      · cases hnone
      · exact AllocationBitmap.ext_offsets hconfig hoffs
    refine ⟨⟨c, c.reply offset (some .storage), ?_, ?_⟩, fun tr => ?_⟩
    · rw [hw2]
      exact List.getLast?_concat
    · cases c <;> exact some_ne_none _
    have hduring := h.during
    have halike : World.Alike s (w₂.withAllocator s (w₀.servers s).etcd) w₂ := by
      refine ⟨rfl, rfl, ?_, fun i hi => if_neg hi⟩
      rw [hbase, hs]
      show Server.Alike w₂.store _ _
      rw [hstore]
      refine ⟨rfl, ⟨?_, hload.trans hreload.symm⟩, ?_, hduring.recent₀, ?_⟩
      · show (w₀.servers s).etcd.alloc.config = (w₁.servers s).etcd.alloc.config
        rw [hetcd]
        exact (Etcd.load_spec hload).2.1.symm
      · intro _ _ _ heq
        cases heq
      · exact (hduring.recent s).quiet nofun
    exact halike.observe_eq d tr

/-- A call whose write fails has no effect if and only if it is the release of an offset
that is free in the bitmap that it works on. -/
theorem failed_update_iff {d : Deployment ι} {s : ι} {c : Call} {w₀ w₁ w₂ : World ι}
    (h : FailedCall d s c w₀ w₁ w₂) :
    NoEffect d s w₀ w₂ ↔
      ∃ i, c = .release i ∧ i ∉ (w₀.servers s).etcd.workedOn w₁.store := by
  obtain ⟨offset, ⟨draw, off, r, r', hload, hfn, hetcd⟩, -⟩ := h.ran
  rw [h.noEffect_iff, ← Etcd.offsets_load hload, hetcd]
  exact same_offsets_iff hfn

/-- One server whose range is empty. -/
def oneServer : Deployment Unit where
  stored := ⟨some 1, "range", []⟩
  alloc _ := .empty .contiguousScan 8 "range"

/-- The first call fails when it comes to its write. -/
lemma oneServer_fails (c : Call) (offset : Nat) (new : RangeAllocation)
    (hver : new.resourceVersion = some 1) (alloc : AllocationBitmap String)
    (hrun : ((machine oneServer).runFrom (machine oneServer).init
        [((), .call c), ((), .attempt 0 false)]).map (fun w => (w.servers (), w.store)) =
      some (⟨⟨alloc, some 1⟩, .writing c offset new⟩, oneServer.stored)) :
    ∃ w₁ w₂, FailedCall oneServer () c (machine oneServer).init w₁ w₂ ∧
      (w₁.servers ()).etcd.alloc = alloc ∧ w₁.store = oneServer.stored := by
  obtain ⟨w₁, hw1, heq⟩ := map_eq_some_iff.1 hrun
  obtain ⟨hserver, hstore⟩ := Prod.mk.inj heq
  have hphase : (w₁.servers ()).phase = .writing c offset new := by rw [hserver]
  have hcurrent : new.resourceVersion = w₁.store.resourceVersion := by
    rw [hstore]
    exact hver
  have hfails : (machine oneServer).step w₁ ((), .writeError) = some (w₁.apply ()
      (finish w₁.store (w₁.servers ()).etcd c offset (some .storage))) := by
    simp only [machine, World.step, step, hphase, map_some]
  refine ⟨w₁, _, ⟨⟨[], .init⟩, ⟨[((), .attempt 0 false)], ?_, hw1⟩,
    ⟨offset, new, hphase, hcurrent⟩, hfails⟩, by rw [hserver], hstore⟩
  intro c' hc'
  cases List.mem_singleton.1 hc'

/-- A release of an offset that is free. -/
theorem failed_update_release :
    ∃ w₁ w₂, FailedCall oneServer () (.release 5) (machine oneServer).init w₁ w₂ ∧
      NoEffect oneServer () (machine oneServer).init w₂ := by
  obtain ⟨w₁, w₂, h, -, hstore⟩ := oneServer_fails (.release 5) 0 ⟨some 1, "range", []⟩ rfl
    (.empty .contiguousScan 8 "range") (by decide +kernel)
  refine ⟨w₁, w₂, h, (failed_update_iff h).2 ⟨5, rfl, ?_⟩⟩
  rw [hstore]
  decide +kernel

/-- An `Allocate` that failed takes its offset, although nothing is stored. -/
theorem failed_update_leaks :
    ∃ w₁ w₂, FailedCall oneServer () (.allocate 5) (machine oneServer).init w₁ w₂ ∧
      ¬NoEffect oneServer () (machine oneServer).init w₂ := by
  obtain ⟨w₁, w₂, h, halloc, hstore⟩ := oneServer_fails (.allocate 5) 0 ⟨some 1, "range", [32]⟩
    rfl ⟨.contiguousScan, 8, "range", 1, 32, by decide⟩ (by decide +kernel)
  refine ⟨w₁, w₂, h, fun hno => ?_⟩
  rw [h.noEffect_iff, halloc, hstore] at hno
  exact absurd hno (by decide +kernel)

end Kubernetes.Registry
