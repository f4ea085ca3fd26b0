import OdwaManager.EmptyPool
import OdwaManager.Interrupted

/-! Destroying all workers is final. Once the loop has returned, nothing is up and nothing is
registered, and no tick or task that is still to come changes that. -/
namespace OdwaManager
open Effect Program

/-- Nothing is up and nothing is registered. -/
structure Account.ShutDown (w : Account) : Prop where
  noneLive : w.NoneLive
  noneRegistered : ∀ id, ¬ w.Registered id

section
variable {faults : Call → Account → Prop} {w w' : Account} {id : InstanceId}

theorem live_of_destroyed {l : List InstanceId} (h : (w.destroyed l).Live id) : w.Live id ∧ id ∉ l := by
  have hstate : ∀ s, (s = .pending ∨ s = .running) → (w.destroyed l).Worker id s →
      w.Worker id s ∧ id ∉ l := by
    intro s hs hworker
    have hmem := (Account.mem_destroyed l).mp hworker
    split at hmem
    · obtain ⟨s₀, _, rfl⟩ := hmem
      cases s₀ <;> simp [InstanceState.terminate] at hs
    · exact ⟨hmem, by assumption⟩
  obtain h | h := h
  · exact ⟨.inl (hstate _ (.inl rfl) h).1, (hstate _ (.inl rfl) h).2⟩
  · exact ⟨.inr (hstate _ (.inr rfl) h).1, (hstate _ (.inr rfl) h).2⟩

theorem registered_of_destroyed {l : List InstanceId} (h : (w.destroyed l).Registered id) :
    w.Registered id ∧ id ∉ l := by
  obtain ⟨t, ht, rfl, hs⟩ := h
  rw [destroyed_targets, List.mem_map] at ht
  obtain ⟨t₀, ht₀, heq⟩ := ht
  split at heq
  · subst heq
    exact absurd rfl hs
  · subst heq
    exact ⟨⟨t₀, ht₀, rfl, hs⟩, by assumption⟩

/-- A bulk destroy that returns has destroyed what it listed, each by its id. -/
theorem destroyEveryWorker_returned (h : Runs (services faults) destroyEveryWorker w (.ok ()) w') :
    w' = w.destroyed ((w.listed ⟨none, "worker"⟩).map Instance.id) := by
  obtain ⟨listed, w₁, hlist, h⟩ | ⟨_, _, hok⟩ := runs_bind.mp h
  · obtain ⟨rfl, rfl⟩ := ask_ok hlist
    rw [← each_map] at h
    obtain ⟨_, ht⟩ | ⟨_, _, _, _, _, _, _, _, hok⟩ := h.each_cut
    · exact through_destroy ht
    · cases hok
  · cases hok

theorem listed_of_isWorker (h : w.IsWorker id) : id ∈ (w.listed ⟨none, "worker"⟩).map Instance.id := by
  obtain ⟨s, hs⟩ := h
  refine List.mem_map.mpr ⟨_, List.mem_filter.mpr ⟨hs, ?_⟩, rfl⟩
  simp [InstanceFilter.accepts]

theorem noneLive_of_destroyEveryWorker (h : Runs (services faults) destroyEveryWorker w (.ok ()) w') :
    w'.NoneLive := by
  rw [destroyEveryWorker_returned h]
  intro id hl
  obtain ⟨hl, hnot⟩ := live_of_destroyed hl
  exact hnot (listed_of_isWorker (hl.elim (fun h => ⟨_, h⟩) fun h => ⟨_, h⟩))

theorem shutDown_of_destroyAll (hi : Inclusion w) (h : Runs (services faults) destroyAll w (.ok ()) w') :
    w'.ShutDown := by
  refine ⟨noneLive_of_destroyEveryWorker h, fun id hr => ?_⟩
  rw [destroyEveryWorker_returned h] at hr
  obtain ⟨⟨t, ht, rfl, _⟩, hnot⟩ := registered_of_destroyed hr
  exact hnot (listed_of_isWorker (hi.targets t ht))

/- Nothing comes back. -/

/-- Only one call registers a target. -/
theorem serves_registered {c : Call} {r : Answer c} (hc : ¬ c.Registers) (hs : Serves c w r w')
    (hr : w'.Registered id) : w.Registered id := by
  cases c with
  | registerTargets j => exact absurd trivial hc
  | deregisterTargets j =>
    rw [show w' = w.deregister j from hs] at hr
    exact hr.of_deregister
  | createInstances _ =>
    obtain ⟨_, rfl⟩ := hs
    exact hr
  | terminate _ | stop _ =>
    rw [hs.2] at hr
    exact hr
  | applyAsync _ | recreateTable =>
    rw [hs] at hr
    exact hr
  | insertConfig _ =>
    obtain ⟨_, rfl⟩ := hs
    exact hr
  | updateConfig _ _ =>
    obtain ⟨_, _, rfl⟩ := hs
    exact hr
  | describeInstances _ | describeInstance _ | waitRunning _ | associateProfile _
  | describeTargetHealth | getMetricStatistics _ _ | putMetricData _ _ | queryFirst
  | iterate _ | sample _ _ =>
    rw [serves_readOnly (by trivial) hs] at hr
    exact hr

theorem Call.not_registers {c : Call}
    (h : c.Stores ∨ c.Creates ∨ c.Destroys ∨ c.Observes ∨ c.Lists) : ¬ c.Registers := by
  intro hr
  cases c with
  | waitRunning _ | associateProfile _ | registerTargets _ => obtain h | h | h | h | h := h <;> exact h
  | _ => exact hr

theorem program_unregistering (o : Operation) (ho : ∀ id, o ≠ .registerInstance id) :
    o.program.Uses fun c => ¬ c.Registers := by
  have hstores : ∀ c : Call, c.Stores → ¬ c.Registers := fun c h => Call.not_registers (.inl h)
  have hcreates : ∀ c : Call, c.Creates → ¬ c.Registers := fun c h => Call.not_registers (.inr (.inl h))
  have hdestroys : ∀ c : Call, c.Destroys → ¬ c.Registers :=
    fun c h => Call.not_registers (.inr (.inr (.inl h)))
  have hobserves : ∀ c : Call, c.Observes → ¬ c.Registers :=
    fun c h => Call.not_registers (.inr (.inr (.inr (.inl h))))
  have hlists : ∀ c : Call, c.Lists → ¬ c.Registers :=
    fun c h => Call.not_registers (.inr (.inr (.inr (.inr h))))
  cases o with
  | tick =>
    refine Uses.forget (tick_uses.mono fun c h => ?_)
    obtain rfl | h | h | h | h := h
    · exact id
    · exact hlists c h
    · exact hobserves c h
    · exact hcreates c h
    · exact hdestroys c h
  | createWorker =>
    refine Uses.forget (Uses.bind (getNonTerminatedInstances_uses.mono fun c h => h ▸ id) fun a => ?_)
    dsimp only
    split
    · exact Uses.pure _
    · exact Uses.bind (celeryCreateWorker_uses.mono hcreates) fun _ => Uses.pure _
  | destroyWorker =>
    refine Uses.forget (Uses.bind ((randomDestroyWorker_uses 1).mono fun c h => ?_) fun b => ?_)
    · exact h.elim (hobserves c) (hdestroys c)
    · split <;> exact Uses.pure _
  | detailDestroyWorker id => exact (destroyAWorker_uses id).mono hdestroys
  | destroyAll => exact destroyEveryWorker_uses.mono fun c h => h.elim (hlists c) (hdestroys c)
  | apply form => exact ((apply_uses form).mono hstores).forget
  | turnOn => exact turnOn_uses.mono hstores
  | registerInstance id => exact absurd rfl (ho id)
  | processStart => exact Uses.bind (Uses.request id) fun _ => celeryCreateWorker_uses.mono hcreates
  | stopManager =>
    refine stopManager_uses.mono fun c h => ?_
    obtain (h | h) | ⟨j, rfl⟩ := h
    · exact hlists c h
    · exact hdestroys c h
    · exact id

/-- A registration waits for a running instance. -/
theorem register_unregistered {res : Except PyError Unit} (hid : ¬ w.InState id .running)
    (h : Runs (services faults) (registerInstanceToElb id) w res w') : w' = w := by
  obtain hw | ⟨_, _, ⟨hrunning, _⟩, _⟩ := runs_request_bind h
  · exact hw
  · exact absurd hrunning hid

theorem step_shutDown {m : Move} (hm : ¬ m.Creates) (hs : SerialStep faults Truthful w m w')
    (hi : Inclusion w) (h : w.ShutDown) : w'.ShutDown := by
  refine ⟨step_noneLive hm hs hi h.noneLive, fun j hr => h.noneRegistered j ?_⟩
  cases hs with
  | env he => exact (env_registered he).mp hr
  | @op w₁ _ o res hb hrun =>
    by_cases ho : ∃ i, o = .registerInstance i
    · obtain ⟨i, rfl⟩ := ho
      obtain ⟨hq, rfl⟩ := hb
      have hstopped : ¬ (w.dequeue i).InState i .running := fun hrunning =>
        h.noneLive i (.inr ((hi.queued i hq).running hrunning))
      rw [register_unregistered hstopped hrun] at hr
      exact hr
    · have hother : ∀ i, o ≠ .registerInstance i := fun i hi => ho ⟨i, hi⟩
      rw [hb.eq hother] at hrun
      have hback : w'.Registered j → w.Registered j := hrun.visits.respects
        (fun w w' => w'.Registered j → w.Registered j) (program_unregistering o hother)
        (fun _ h => h) (fun _ _ _ h₁ h₂ h => h₁ (h₂ h)) fun _ _ _ _ hc hs => serves_registered hc hs
      exact hback hr

/-- Once destroy_all has returned, no worker is pending or running and no target is registered; in
every run that follows, whichever calls raise, this stays so and no tick does anything, until
somebody creates a worker by hand or starts the process again. -/
theorem destroy_all_final {w₀ w₁ : Account} {ms : List Move} (h₀ : Inclusion w₀)
    (hall : Runs (services faults) destroyAll w₀ (.ok ()) w₁) (hms : ∀ m ∈ ms, ¬ m.Creates)
    (hr : SerialRun faults Truthful w₁ ms w) :
    (∀ id, ¬ w.Live id) ∧ (∀ id, ¬ w.Registered id) ∧
      ∀ res w', Runs (services faults) autoCheckAvgCpuUtilization w res w' → w' = w := by
  have hi₁ : Inclusion w₁ := inclusion_destroyEveryWorker w₀ _ w₁ h₀ hall
  have hshut : Inclusion w ∧ w.ShutDown := by
    refine hr.invariant (I := fun ms w => (∀ m ∈ ms, ¬ m.Creates) → Inclusion w ∧ w.ShutDown)
      (fun _ => ⟨hi₁, shutDown_of_destroyAll h₀ hall⟩) ?_ hms
    intro ms w₂ m w₃ ih hs hms
    obtain ⟨hi, hshut⟩ := ih fun m' hm' => hms m' (List.mem_cons_of_mem m hm')
    exact ⟨step_inclusion hs hi, step_shutDown (hms m (by simp)) hs hi hshut⟩
  refine ⟨hshut.2.noneLive, hshut.2.noneRegistered, fun res w' h => ?_⟩
  exact tick_still (hshut.2.noneLive.healthy hshut.1) h

end

/-- The lone worker is destroyed with all others, and then gone. -/
theorem destroy_all_final_lone : ∃ w₁ w, Runs (services noFaults) destroyAll loneServing (.ok ()) w₁ ∧
    SerialRun noFaults Truthful w₁ [.env] w ∧ (∀ id, ¬ w.Live id) ∧
      ∀ res w', Runs (services noFaults) autoCheckAvgCpuUtilization w res w' → w' = w := by
  have hknown : loneServing.Known "i-1" := List.mem_cons_self
  have hall : Runs (services noFaults) destroyAll loneServing (.ok ()) (loneServing.destroy "i-1") :=
    .inl ⟨_, loneServing, ⟨rfl, rfl⟩, ((does_destroyAWorker hknown).bind Does.pure).runs⟩
  have hending : (loneServing.destroy "i-1").InState "i-1" .shuttingDown :=
    ⟨some "worker", List.mem_cons_self⟩
  have hhalt : Env Truthful (loneServing.destroy "i-1") _ := .halt hending
  have hrun : SerialRun noFaults Truthful (loneServing.destroy "i-1") [.env] _ := .cons .nil (.env hhalt)
  have hfinal := destroy_all_final loneServing_inclusion hall (by simp [Move.Creates]) hrun
  exact ⟨_, _, hall, hrun, hfinal.1, hfinal.2.2⟩

end OdwaManager
