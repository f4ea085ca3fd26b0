import OdwaManager.SerialRun
import OdwaManager.TickSpec

/-! The scaler never acts on an unsettled fleet. The tick compares two counts only; that
equal counts are equal sets rests on an inclusion which every operation keeps. -/
namespace OdwaManager
open Effect Program

/-- The load balancer calls a target healthy only while its instance is running. -/
def Truthful (w : Account) : Prop := ∀ id ∈ w.healthy, w.InState id .running

def Account.IsWorker (w : Account) (id : InstanceId) : Prop := ∃ s, w.Worker id s

/-- Whatever is registered or waits for registration is a worker, and health is truthful. -/
structure Inclusion (w : Account) : Prop where
  targets : ∀ t ∈ w.targets, w.IsWorker t.id
  queued : ∀ id ∈ w.queue, w.IsWorker id
  truthful : Truthful w

section
variable {w : Account} {id j : InstanceId} {f : InstanceState → InstanceState}

theorem Account.IsWorker.modify (h : w.IsWorker j) : (w.modify id f).IsWorker j := by
  obtain ⟨s, hs⟩ := h
  exact exists_mem_modify hs

theorem Account.IsWorker.launch (h : w.IsWorker j) (hf : w.Fresh id) (name : String) :
    (w.launch id name hf).IsWorker j := by
  obtain ⟨s, hs⟩ := h
  exact ⟨s, mem_launch.mpr (.inl hs)⟩

theorem Account.IsWorker.running (h : w.IsWorker id) (hr : w.InState id .running) :
    w.Worker id .running := by
  obtain ⟨s, hs⟩ := h
  cases hs.inState.unique hr
  exact hs

theorem Inclusion.healthy_worker (h : Inclusion w) : ∀ id ∈ w.healthy, w.Worker id .running := by
  intro id hid
  exact (h.targets _ (Account.mem_healthy.mp hid)).running (h.truthful id hid)

theorem Inclusion.healthy_subset (h : Inclusion w) : w.healthy ⊆ w.workers runningStates := by
  intro id hid
  exact Account.mem_workers.mpr ⟨.running, by simp [runningStates], h.healthy_worker id hid⟩

/-- Equal counts are equal sets. -/
theorem Inclusion.healthy_eq (h : Inclusion w)
    (hn : w.healthy.card = (w.workers runningStates).card) :
    w.healthy = w.workers runningStates :=
  Finset.eq_of_subset_of_card_le h.healthy_subset hn.ge

theorem Inclusion.deregister (h : Inclusion w) : Inclusion (w.deregister id) where
  targets := by
    intro t ht
    obtain ⟨t₀, ht₀, hid⟩ := Account.exists_target_of_mem_deregister ht
    rw [← hid]
    exact h.targets t₀ ht₀
  queued := h.queued
  truthful := by
    intro j hj
    rw [Account.healthy_deregister] at hj
    exact h.truthful j (Finset.mem_of_mem_erase hj)

theorem Inclusion.modify (h : Inclusion w) (hid : id ∉ w.healthy) : Inclusion (w.modify id f) where
  targets := fun t ht => (h.targets t ht).modify
  queued := fun j hj => (h.queued j hj).modify
  truthful := by
    intro j hj
    exact (h.truthful j hj).modify_ne fun he => hid (he ▸ hj)

theorem Inclusion.destroy (h : Inclusion w) : Inclusion (w.destroy id) :=
  h.deregister.modify (by rw [Account.healthy_deregister]; exact Finset.notMem_erase id w.healthy)

theorem Inclusion.launch (h : Inclusion w) (hf : w.Fresh id) (name : String) :
    Inclusion (w.launch id name hf) where
  targets := fun t ht => (h.targets t ht).launch hf name
  queued := fun j hj => (h.queued j hj).launch hf name
  truthful := by
    intro j hj
    obtain ⟨n, hn⟩ := h.truthful j hj
    exact ⟨n, Account.mem_launch.mpr (.inl hn)⟩

theorem Inclusion.enqueue (h : Inclusion w) (hid : w.IsWorker id) : Inclusion (w.enqueue id) where
  targets := h.targets
  queued := by
    intro j hj
    cases List.mem_append.mp hj with
    | inl hj => exact h.queued j hj
    | inr hj => rw [List.mem_singleton.mp hj]; exact hid
  truthful := h.truthful

theorem Inclusion.dequeue (h : Inclusion w) : Inclusion (w.dequeue id) :=
  ⟨h.targets, fun j hj => h.queued j (List.mem_of_mem_erase hj), h.truthful⟩

theorem Inclusion.register (h : Inclusion w) (hid : w.IsWorker id) : Inclusion (w.register id) := by
  have hworker : ∀ j, (w.register id).IsWorker j ↔ w.IsWorker j := by
    intro j
    simp only [Account.IsWorker, Account.Worker, Account.register_instances]
  refine ⟨fun t ht => ?_, fun j hj => ?_, fun j hj => ?_⟩
  · rw [hworker]
    obtain ht | ⟨ht, _⟩ := Account.mem_register ht
    · exact h.targets _ ht
    · exact ht ▸ hid
  · rw [Account.register_queue] at hj
    exact (hworker j).mpr (h.queued j hj)
  · rw [Account.InState, Account.register_instances]
    obtain ht | ⟨_, ht⟩ := Account.mem_register (Account.mem_healthy.mp hj)
    · exact h.truthful j (Account.mem_healthy.mpr ht)
    · cases ht

theorem Inclusion.table (h : Inclusion w) (table : ConfigTable) :
    Inclusion { w with table := table } :=
  ⟨h.targets, h.queued, h.truthful⟩

end

section
variable {faults : Call → Account → Prop} {w w' : Account} {id : InstanceId}

theorem keeps_readOnly {α : Type} {p : Op α} (I : Account → Prop) (hp : p.Uses Call.ReadOnly) :
    Keeps (services faults) I p := by
  intro w res w' hi hr
  rw [runs_readOnly hp hr]
  exact hi

theorem inclusion_stores {α : Type} {p : Op α} (hp : p.Uses Call.Stores) :
    Keeps (services faults) Inclusion p := by
  refine Keeps.of_uses hp fun c w r w' hc hs hi => ?_
  cases c with
  | queryFirst => rw [hs.2]; exact hi
  | insertConfig row =>
    obtain ⟨_, rfl⟩ := hs
    exact hi.table _
  | updateConfig key changes =>
    obtain ⟨_, _, rfl⟩ := hs
    exact hi.table _
  | recreateTable => rw [hs]; exact hi.table _
  | _ => exact False.elim hc

theorem inclusion_destroyAWorker (id : InstanceId) :
    Keeps (services faults) Inclusion (destroyAWorker id) := by
  intro w res w' hi hr
  obtain rfl | rfl | rfl := destroyAWorker_leaves hr
  · exact hi
  · exact hi.deregister
  · exact hi.destroy

theorem inclusion_celeryCreateWorker : Keeps (services faults) Inclusion celeryCreateWorker := by
  intro w res w' hi hr
  obtain rfl | ⟨id, hid, rfl | rfl⟩ := celeryCreateWorker_leaves hr
  · exact hi
  · exact hi.launch hid "worker"
  · have hnew : (w.launch id "worker" hid).IsWorker id := ⟨.pending, Account.mem_launch.mpr (.inr rfl)⟩
    exact (hi.launch hid "worker").enqueue hnew

theorem inclusion_randomDestroyWorker (k : ℤ) :
    Keeps (services faults) Inclusion (randomDestroyWorker k) := by
  refine Keeps.bind (keeps_readOnly _ (getServingInstances_uses.mono fun c h => h.readOnly)) fun a => ?_
  dsimp only
  split
  · exact Keeps.pure _
  · refine Keeps.bind (keeps_readOnly _ ((randomSample_uses _ _).mono fun c h => h.readOnly)) fun l => ?_
    exact Keeps.bind (Keeps.each l fun id _ => inclusion_destroyAWorker id) fun _ => Keeps.pure _

theorem keeps_numeric (I : Account → Prop) (q : Option ℚ) : Keeps (services faults) I (numeric q) :=
  keeps_readOnly I (numeric_uses q _)

theorem inclusion_actOn (config : AutoScalingConfig) (n m : Nat) (avg : Num) :
    Keeps (services faults) Inclusion (actOn config n m avg) := by
  refine Keeps.bind (keeps_numeric _ _) fun et => ?_
  split
  · unfold expandFleet
    split
    · exact Keeps.pure _
    · refine Keeps.bind (keeps_numeric _ _) fun ratio => ?_
      exact Keeps.bind (Keeps.times _ inclusion_celeryCreateWorker) fun _ => Keeps.pure _
  · refine Keeps.bind (keeps_numeric _ _) fun st => ?_
    split
    · refine Keeps.bind (keeps_numeric _ _) fun ratio => ?_
      dsimp only
      split
      · exact Keeps.bind (inclusion_randomDestroyWorker _) fun _ => Keeps.pure _
      · exact Keeps.pure _
    · exact Keeps.pure _

theorem inclusion_tick : Keeps (services faults) Inclusion autoCheckAvgCpuUtilization := by
  intro w res w' hi hr
  obtain rfl | ⟨config, _, hr⟩ := tick_acts hr
  · exact hi
  · exact inclusion_actOn config _ _ _ w res w' hi hr

theorem inclusion_destroyEveryWorker : Keeps (services faults) Inclusion destroyEveryWorker :=
  Keeps.bind (keeps_readOnly _ (Uses.request trivial)) fun l =>
    Keeps.each l fun i _ => inclusion_destroyAWorker i.id

/-- The instances that panel.stop_manager stops are tagged Manager, so they serve nobody. -/
theorem inclusion_stops (l : List Instance) {res : Except PyError Unit} (hi : Inclusion w)
    (hl : ∀ i ∈ l, ∃ s, (⟨i.id, some "Manager", s⟩ : Instance) ∈ w.instances)
    (hr : Runs (services faults) (each l fun manager => ask (.stop manager.id)) w res w') :
    Inclusion w' := by
  induction l generalizing w with
  | nil => rw [hr.2]; exact hi
  | cons i l ih =>
    obtain rfl | ⟨_, w₁, ⟨_, rfl⟩, hr⟩ := runs_request_bind hr
    · exact hi
    · have hid : i.id ∉ w.healthy := by
        intro hmem
        obtain ⟨s, hs⟩ := hl i (by simp)
        have heq := Account.record_unique hs (hi.healthy_worker _ hmem) rfl
        simp at heq
      refine ih (hi.modify hid) (fun i' hi' => ?_) hr
      obtain ⟨s, hs⟩ := hl i' (List.mem_cons_of_mem i hi')
      exact Account.exists_mem_modify hs

theorem inclusion_stopManager : Keeps (services faults) Inclusion stopManager := by
  refine Keeps.bind inclusion_destroyEveryWorker fun _ => ?_
  intro w res w' hi hr
  obtain rfl | ⟨l, w₁, ⟨rfl, rfl⟩, hr⟩ := runs_request_bind hr
  · exact hi
  · refine inclusion_stops _ hi (fun i hl => ?_) hr
    obtain ⟨hmem, hacc⟩ := List.mem_filter.mp hl
    obtain ⟨id, name, s⟩ := i
    have hname : name = some "Manager" := by simpa [InstanceFilter.accepts] using hacc
    exact ⟨s, hname ▸ hmem⟩

theorem Inclusion.not_healthy (h : Inclusion w) {s : InstanceState} (hs : w.InState id s)
    (hne : s ≠ .running) : id ∉ w.healthy :=
  fun hid => hne (hs.unique (h.truthful id hid))

theorem env_inclusion (h : Env Truthful w w') (hi : Inclusion w) : Inclusion w' := by
  cases h with
  | boot hs => exact hi.modify (hi.not_healthy hs (by decide))
  | halt hs => exact hi.modify (hi.not_healthy hs (by decide))
  | health f hf ht =>
    refine ⟨fun t hmem => ?_, hi.queued, ht⟩
    obtain ⟨t₀, ht₀, hid⟩ := Account.exists_target_of_mem_map (fun t => by split <;> rfl) hmem
    rw [← hid]
    exact hi.targets t₀ ht₀
  | drained id =>
    refine ⟨fun t hmem => hi.targets t (List.mem_of_mem_filter hmem), hi.queued, fun j hj => ?_⟩
    exact hi.truthful j (Account.mem_healthy.mpr (List.mem_of_mem_filter (Account.mem_healthy.mp hj)))
  | metrics cpu => exact ⟨hi.targets, hi.queued, hi.truthful⟩

theorem program_inclusion {o : Operation} (ho : ∀ id, o ≠ .registerInstance id) :
    Keeps (services faults) Inclusion o.program := by
  cases o with
  | tick => exact inclusion_tick.forget
  | createWorker =>
    refine Keeps.forget (Keeps.bind (keeps_readOnly _ ?_) fun a => ?_)
    · exact getNonTerminatedInstances_uses.mono fun c h => h ▸ trivial
    · dsimp only
      split
      · exact Keeps.pure _
      · exact Keeps.bind inclusion_celeryCreateWorker fun _ => Keeps.pure _
  | destroyWorker =>
    refine Keeps.forget (Keeps.bind (inclusion_randomDestroyWorker 1) fun b => ?_)
    split <;> exact Keeps.pure _
  | detailDestroyWorker id => exact inclusion_destroyAWorker id
  | destroyAll => exact inclusion_destroyEveryWorker
  | apply form => exact (inclusion_stores (apply_uses form)).forget
  | turnOn => exact inclusion_stores turnOn_uses
  | registerInstance id => exact absurd rfl (ho id)
  | processStart =>
    exact Keeps.bind (inclusion_stores (Uses.request trivial)) fun _ => inclusion_celeryCreateWorker
  | stopManager => exact inclusion_stopManager

theorem operation_inclusion {o : Operation} {w₀ : Account} {res : Except PyError Unit}
    (hb : o.Begins w w₀) (hr : Runs (services faults) o.program w₀ res w') (hi : Inclusion w) :
    Inclusion w' := by
  by_cases ho : ∃ id, o = .registerInstance id
  · obtain ⟨id, rfl⟩ := ho
    obtain ⟨hq, rfl⟩ := hb
    have hworker : (w.dequeue id).IsWorker id := hi.queued id hq
    obtain rfl | rfl := registerInstanceToElb_leaves hr
    · exact hi.dequeue
    · exact hi.dequeue.register hworker
  · have hother : ∀ id, o ≠ .registerInstance id := fun id h => ho ⟨id, h⟩
    rw [hb.eq hother] at hr
    exact program_inclusion hother w res w' hi hr

theorem step_inclusion {m : Move} (h : SerialStep faults Truthful w m w') (hi : Inclusion w) :
    Inclusion w' := by
  cases h with
  | env h => exact env_inclusion h hi
  | op hb hr => exact operation_inclusion hb hr hi

theorem run_inclusion {w₀ : Account} {ms : List Move} (h₀ : Inclusion w₀)
    (hr : SerialRun faults Truthful w₀ ms w) : Inclusion w :=
  hr.invariant (I := fun _ w => Inclusion w) h₀ fun _ _ _ _ hi hs => step_inclusion hs hi

theorem inclusion_of_no_targets {w₀ : Account} (h₀ : w₀.targets = [])
    (hq : ∀ id ∈ w₀.queue, w₀.IsWorker id) : Inclusion w₀ := by
  refine ⟨fun t ht => ?_, hq, fun id hid => ?_⟩
  · rw [h₀] at ht
    cases ht
  · rw [Account.mem_healthy, h₀] at hid
    cases hid

end

/-- A worker that is not settled: still booting, not in service, or without data. -/
def Account.Unsettled (w : Account) (id : InstanceId) : Prop :=
  w.Worker id .pending ∨ w.Worker id .running ∧ id ∉ w.healthy ∨
    id ∈ w.healthy ∧ w.datapoints id = []

/-- The healthy ids are running workers in every reachable account, so a tick that changes
anything finds every running worker healthy and measured and none pending. A worker that
is not settled, as one that an earlier tick created, keeps every tick from acting. -/
theorem cooldown {faults : Call → Account → Prop} {w₀ w : Account} {ms : List Move}
    (h₀ : w₀.targets = []) (hq : ∀ id ∈ w₀.queue, w₀.IsWorker id)
    (hr : SerialRun faults Truthful w₀ ms w) :
    w.healthy ⊆ w.workers runningStates ∧
    (∀ res w', Runs (services faults) autoCheckAvgCpuUtilization w res w' → w' ≠ w →
      w.healthy = w.workers runningStates ∧ w.workers pendingStates = ∅ ∧
        ∀ id ∈ w.workers runningStates, w.datapoints id ≠ []) ∧
    ∀ id, w.Unsettled id →
      ∀ res w', Runs (services faults) autoCheckAvgCpuUtilization w res w' → w' = w := by
  have hi := run_inclusion (inclusion_of_no_targets h₀ hq) hr
  have hact : ∀ res w', Runs (services faults) autoCheckAvgCpuUtilization w res w' → w' ≠ w →
      w.healthy = w.workers runningStates ∧ w.workers pendingStates = ∅ ∧
        ∀ id ∈ w.workers runningStates, w.datapoints id ≠ [] := by
    intro res w' hrun hne
    obtain hw | ⟨config, hready, _⟩ := tick_acts hrun
    · exact absurd hw hne
    · have heq := hi.healthy_eq hready.inService
      exact ⟨heq, hready.settled, fun id hid => hready.measured id (heq ▸ hid)⟩
  refine ⟨hi.healthy_subset, hact, fun id hun res w' hrun => ?_⟩
  by_contra hne
  obtain ⟨heq, hpending, hdata⟩ := hact res w' hrun hne
  obtain hw | ⟨hw, hnot⟩ | ⟨hhealthy, hnone⟩ := hun
  · have hmem : id ∈ w.workers pendingStates :=
      Account.mem_workers.mpr ⟨.pending, by simp [pendingStates], hw⟩
    rw [hpending] at hmem
    exact absurd hmem (Finset.notMem_empty id)
  · rw [heq] at hnot
    exact hnot (Account.mem_workers.mpr ⟨.running, by simp [runningStates], hw⟩)
  · exact hdata id (heq ▸ hhealthy) hnone

/-- One running worker whose registration is still queued, under a policy that is on. -/
def lone : Account :=
  { Account.vacant with
    instances := [⟨"i-1", some "worker", .running⟩]
    ids_nodup := by decide
    queue := ["i-1"]
    cpu := fun _ _ => [90]
    table := .single ⟨true, some (1/10), some 2, some (1/10), some (4/5)⟩ }

/-- The worker is registered and found healthy. -/
def loneServing : Account := { lone with queue := [], targets := [⟨"i-1", .healthy⟩] }

theorem loneServing_truthful : Truthful loneServing := by
  intro id hid
  rw [show loneServing.healthy = {"i-1"} from rfl, Finset.mem_singleton] at hid
  rw [hid]
  exact ⟨some "worker", List.mem_cons_self⟩

theorem loneServing_reached :
    SerialRun noFaults Truthful lone [.env, .op (.registerInstance "i-1")] loneServing := by
  have hrunning : (lone.dequeue "i-1").InState "i-1" .running := ⟨some "worker", List.mem_cons_self⟩
  have hregister : Runs (services noFaults) (registerInstanceToElb "i-1") (lone.dequeue "i-1")
      (.ok ()) ((lone.dequeue "i-1").register "i-1") := by
    refine .inl ⟨(), _, ⟨hrunning, rfl⟩, .inl ⟨(), _, ⟨?_, rfl⟩, .inl ⟨(), _, ⟨hrunning, rfl⟩, rfl, rfl⟩⟩⟩
    exact ⟨.running, hrunning, by decide, by decide⟩
  refine .cons (.cons .nil (.op ⟨List.mem_cons_self, rfl⟩ hregister)) (.env ?_)
  exact Env.health (fun _ => .healthy) nofun loneServing_truthful

theorem loneServing_ready :
    loneServing.Ready ⟨true, some (1/10), some 2, some (1/10), some (4/5)⟩ where
  stored := rfl
  isOn := rfl
  settled := rfl
  inService := rfl
  measured := fun _ _ => List.cons_ne_nil _ _

theorem loneServing_fresh : loneServing.Fresh "i-2" := by decide

theorem loneServing_mean : loneServing.fleetMean.gt (4/5) = true := by
  have hne : loneServing.healthy.Nonempty := ⟨"i-1", by decide⟩
  rw [Account.fleetMean_eq hne, Account.meanCpu, show loneServing.healthy = {"i-1"} from rfl]
  norm_num [Num.gt, Account.datapoints, loneServing, lone, mean]

theorem loneServing_toCreate : toCreate 2 loneServing.healthy.card loneServing.fleetSize = 1 := by
  rw [show loneServing.healthy.card = 1 from rfl, show loneServing.fleetSize = 1 from rfl]
  norm_num [toCreate]

/-- A tick that finds the worker busy creates a second one. -/
theorem loneServing_tick : Runs (services noFaults) autoCheckAvgCpuUtilization loneServing
    (.ok (.expand 1)) ((loneServing.launch "i-2" "worker" loneServing_fresh).enqueue "i-2") := by
  rw [runs_tick, gate_of_ready loneServing_ready]
  dsimp only
  rw [Account.action, actOn_expand rfl loneServing_mean, runs_expandFleet (by decide) rfl]
  rw [loneServing_toCreate]
  exact ⟨rfl, "i-2", loneServing_fresh, rfl⟩

theorem loneServing_expands : ∃ w',
    Runs (services noFaults) autoCheckAvgCpuUtilization loneServing (.ok (.expand 1)) w' ∧
      w' ≠ loneServing := by
  refine ⟨_, loneServing_tick, fun h => ?_⟩
  have hlen := congrArg (fun w => w.queue.length) h
  simp [Account.enqueue, Account.launch, loneServing] at hlen

theorem lone_queue : ∀ id ∈ lone.queue, lone.IsWorker id := by
  intro id hid
  rw [List.mem_singleton.mp hid]
  exact ⟨.running, List.mem_cons_self⟩

theorem cooldown_expanding : loneServing.healthy = loneServing.workers runningStates := by
  obtain ⟨w', hrun, hne⟩ := loneServing_expands
  exact ((cooldown rfl lone_queue loneServing_reached).2.1 _ w' hrun hne).1

end OdwaManager
