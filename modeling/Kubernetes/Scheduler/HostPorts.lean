import Kubernetes.Scheduler.ResourceFit

/-! # The host ports in use

`UsedPorts` is a set: it does not say how many pods declare a host port. Adding a pod keeps it
right. Removing one does so exactly if no pod that stays declares one of its host ports
(`used_ports_exact_iff`).
-/

namespace Kubernetes.Scheduler

open List HostPortInfo

variable (ip : String) (pp : ProtocolPort) (h : HostPortInfo)

def HostPortInfo.Has : Prop := pp ∈ (h.lookup ip).getD ∅

variable (cp : ContainerPort)

/-- The port of a container is a host port, as `sanitize` reads it. -/
def ContainerPort.Takes : Prop :=
  0 < cp.hostPort ∧ ip = sanitizeIP cp.hostIP ∧ pp = ⟨sanitizeProtocol cp.protocol, cp.hostPort⟩

/-- Some container of the pod declares the host port. -/
def Pod.Declares (pod : Pod) : Prop := ∃ cp ∈ pod.containers.flatMap (·.ports), cp.Takes ip pp

variable (n : NodeInfo)

def NodeInfo.PortsExact : Prop :=
  ∀ ip pp, n.usedPorts.Has ip pp ↔ ∃ p ∈ n.pods, p.Declares ip pp

inductive PodCall where
  | addPod (pod : Pod) (generation : Nat)
  | removePod (pod : Pod) (generation : Nat)

/-- A node info, starting without pods. A call of `RemovePod` may return an error, or panic if
there is no node. -/
def podCalls (cfg : Config) (node : Option Node) : Machine NodeInfo PodCall where
  init := { NodeInfo.empty with node := node }
  step n
    | .addPod pod g => some (n.addPod cfg pod g)
    | .removePod pod g =>
      match n.removePod cfg pod g with
      | .removed m => some m
      | .failed m _ => some m
      | .panicked => none

namespace PodCall

/-- `RemovePod` is given the containers of the pod that it removes. -/
def SameSpec : PodCall → Prop
  | .addPod _ _ => True
  | .removePod pod _ => ∀ p, n.pods.find? (hasKey pod.uid) = some p → p.containers = pod.containers

/-- No pod that stays declares a host port of the pod that is removed. -/
def Unshared : PodCall → Prop
  | .addPod _ _ => True
  | .removePod pod _ => (∃ p ∈ n.pods, hasKey pod.uid p) →
      ∀ p ∈ n.pods.eraseP (hasKey pod.uid), ∀ ip pp, pod.Declares ip pp → ¬p.Declares ip pp

end PodCall

variable {ip pp}

lemma has_add :
    (h.add cp.hostIP cp.protocol cp.hostPort).Has ip pp ↔ cp.Takes ip pp ∨ h.Has ip pp := by
  unfold HostPortInfo.add Has ContainerPort.Takes
  by_cases hport : cp.hostPort ≤ 0
  · simp [hport, not_lt.2 hport]
  rw [if_neg hport, GoMap.lookup_insert_if]
  by_cases hip : ip = sanitizeIP cp.hostIP
  · subst hip
    simp [not_le.1 hport]
  · simp [hip]

lemma has_remove :
    (h.remove cp.hostIP cp.protocol cp.hostPort).Has ip pp ↔ h.Has ip pp ∧ ¬cp.Takes ip pp := by
  unfold HostPortInfo.remove Has ContainerPort.Takes
  by_cases hport : cp.hostPort ≤ 0
  · simp [hport, not_lt.2 hport]
  rw [if_neg hport]
  dsimp only
  by_cases hip : ip = sanitizeIP cp.hostIP
  · subst hip
    cases hm : h.lookup (sanitizeIP cp.hostIP) with
    | none => simp [hm]
    | some m =>
      dsimp only
      split_ifs with hempty
      · -- the last port of the ip
        have hnone := Finset.ext_iff.1 hempty pp
        simp at hnone
        simp [not_le.1 hport]
        tauto
      · simp [not_le.1 hport, and_comm]
  · cases h.lookup (sanitizeIP cp.hostIP) with
    | none => simp [hip]
    | some m =>
      dsimp only
      split_ifs
      · simp [hip]
      · simp [hip]

lemma has_updateUsedPorts (ports : HostPortInfo) (pod : Pod) (add : Bool) :
    (NodeInfo.updateUsedPorts ports pod add).Has ip pp ↔
      if add then pod.Declares ip pp ∨ ports.Has ip pp
      else ports.Has ip pp ∧ ¬pod.Declares ip pp := by
  unfold NodeInfo.updateUsedPorts Pod.Declares
  rw [← foldl_flatMap]
  induction pod.containers.flatMap (·.ports) generalizing ports with
  | nil => cases add <;> simp
  | cons cp l ih =>
    rw [foldl_cons, ih]
    cases add with
    | true => simp [has_add, or_assoc, or_left_comm]
    | false => simp [has_remove, and_assoc]

namespace NodeInfo.PortsExact

variable {cfg : Config} {n m : NodeInfo} {pod : Pod} {g : Nat}

lemma addPod (h : n.PortsExact) : (n.addPod cfg pod g).PortsExact := by
  intro ip pp
  show (updateUsedPorts n.usedPorts pod true).Has ip pp ↔ ∃ p ∈ n.pods ++ [pod], p.Declares ip pp
  rw [has_updateUsedPorts, if_pos rfl, h]
  simp [or_and_right, exists_or, or_comm]

lemma removePod_iff (h : n.PortsExact) (hspec : (PodCall.removePod pod g).SameSpec n)
    (hm : n.removePod cfg pod g = .removed m) :
    m.PortsExact ↔ (PodCall.removePod pod g).Unshared n := by
  obtain ⟨-, -, -, hports, hperm, p, hp, hkey⟩ := removePod_eq_removed hm
  have hfound : ∃ p ∈ n.pods, hasKey pod.uid p := ⟨p, hp, hkey⟩
  obtain ⟨q, l, l', hl, hq, hpods, herase⟩ := exists_of_eraseP hp hkey
  have hfirst : n.pods.find? (hasKey pod.uid) = some q := by
    rw [hpods, find?_append, find?_eq_none.2 hl, find?_cons_of_pos hq]
    rfl
  -- what was declared before: by the pod that goes, or by one that stays
  have hbefore : ∀ ip pp, n.usedPorts.Has ip pp ↔
      pod.Declares ip pp ∨ ∃ p ∈ l ++ l', p.Declares ip pp := by
    intro ip pp
    have hsame : q.Declares ip pp ↔ pod.Declares ip pp := by
      unfold Pod.Declares
      rw [hspec q hfirst]
    rw [h, hpods, ← hsame]
    simp [or_and_right, exists_or, or_left_comm]
  unfold PortsExact PodCall.Unshared
  simp only [hports, has_updateUsedPorts, Bool.false_eq_true, if_false, hbefore, hperm.mem_iff,
    herase, hfound, forall_const]
  constructor
  · intro hexact p hp ip pp hdeclares hstays
    exact ((hexact ip pp).2 ⟨p, hp, hstays⟩).2 hdeclares
  · intro hunshared ip pp
    refine ⟨fun hleft => hleft.1.resolve_left hleft.2, ?_⟩
    rintro ⟨p, hp, hstays⟩
    exact ⟨.inr ⟨p, hp, hstays⟩, fun hdeclares => hunshared p hp ip pp hdeclares hstays⟩

lemma step_iff {node : Option Node} {call : PodCall} (h : n.PortsExact)
    (hspec : call.SameSpec n) (hstep : (podCalls cfg node).step n call = some m) :
    m.PortsExact ↔ call.Unshared n := by
  cases call with
  | addPod pod g =>
    cases hstep
    exact iff_of_true h.addPod trivial
  | removePod pod g =>
    rcases removePod_cases cfg n pod g with ⟨m', heq, -⟩ | ⟨m', err, heq, hcore, -, hnone⟩ | ⟨heq, -⟩
    all_goals simp only [podCalls, heq] at hstep
    all_goals cases hstep
    · exact h.removePod_iff hspec heq
    · -- nothing was removed
      refine iff_of_true ?_ fun ⟨p, hp, hkey⟩ => absurd hkey (hnone p hp)
      unfold PortsExact
      rw [hcore.usedPorts, hcore.pods]
      exact h

end NodeInfo.PortsExact

open NodeInfo.PortsExact

/-- As long as no removed pod shared a host port with one that stays, `UsedPorts` is what the
pods declare; and after the next call it is so exactly if that goes on. -/
theorem used_ports_exact_iff (cfg : Config) (node : Option Node) {calls : List PodCall}
    {n : NodeInfo} (h : (podCalls cfg node).ReachWhen
      (fun n call => call.SameSpec n ∧ call.Unshared n) calls n) :
    n.PortsExact ∧ ∀ call m, call.SameSpec n → (podCalls cfg node).step n call = some m →
      (m.PortsExact ↔ call.Unshared n) := by
  have hexact : n.PortsExact := by
    refine h.invariant NodeInfo.PortsExact ?_ ?_
    · intro ip pp
      simp [podCalls, NodeInfo.empty, NodeInfo.new, Has]
    · intro n m call hn hok hstep
      exact (step_iff hn hok.1 hstep).2 hok.2
  exact ⟨hexact, fun call m => step_iff hexact⟩

def portPod (uid : String) : Pod where
  uid := uid
  name := uid
  nodeName := "n"
  containers := [⟨∅, [⟨"", "", 80⟩]⟩]

/-- Of two pods with different host ports the first is removed: its port is free again, that of the
second is not. -/
theorem used_ports_exact_two :
    let b := { portPod "b" with containers := [⟨∅, [⟨"", "", 81⟩]⟩] }
    ∃ n : NodeInfo, n.pods = [b] ∧ n.usedPorts.entries.length = 1 ∧ n.PortsExact := by
  intro b
  have hunshared : ∀ ip pp, (portPod "a").Declares ip pp → ¬b.Declares ip pp := by
    simp [Pod.Declares, ContainerPort.Takes, portPod, b]
  let cfg : Config := ⟨true, true, fun _ => false⟩
  have h : (podCalls cfg none).ReachWhen (fun n call => call.SameSpec n ∧ call.Unshared n)
      [.addPod (portPod "a") 1, .addPod b 2, .removePod (portPod "a") 3] _ :=
    ((Machine.ReachWhen.init.step _ ⟨trivial, trivial⟩ rfl).step _ ⟨trivial, trivial⟩ rfl).step _
      ⟨fun p hp => by cases hp; rfl, fun _ p hp => by
        cases mem_singleton.1 hp
        exact hunshared⟩ rfl
  exact ⟨_, rfl, rfl, (used_ports_exact_iff cfg none h).1⟩

/-- Two pods declare one host port: it is free again when the first of them is removed. -/
theorem used_ports_lost :
    let calls := podCalls ⟨true, true, fun _ => false⟩ none
    (calls.runFrom calls.init [.addPod (portPod "a") 1, .addPod (portPod "b") 2,
      .removePod (portPod "a") 3]).map (fun n => (n.pods, n.usedPorts)) =
        some ([portPod "b"], ∅) := by
  decide

end Kubernetes.Scheduler
