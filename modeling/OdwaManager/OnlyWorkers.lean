import OdwaManager.Cooldown
import OdwaManager.Effect.Rely

/-! Only workers are terminated, as long as nobody asks for another instance by its id: the
page of one instance takes any id, while the other ways to terminate go by the tag or by
the target group. -/
namespace OdwaManager
open Effect Program

/-- Any operations at once, each begun in an account that `allowed` admits. -/
def operations (faults : Call → Account → Prop) (allowed : Operation → Account → Prop) :
    System Call Answer PyError Account where
  services := services faults
  starts w p w' := ∃ o : Operation, allowed o w ∧ p = o.program ∧ o.Begins w w'
  env := Env fun _ => True

def InstanceState.Ending (s : InstanceState) : Prop := s = .shuttingDown ∨ s = .terminated

instance (s : InstanceState) : Decidable s.Ending := inferInstanceAs (Decidable (_ ∨ _))

/-- The instance with this id, if there is one, is tagged as a worker or has ended already. -/
def Account.WorkerOnly (w : Account) (id : InstanceId) : Prop :=
  ∀ i ∈ w.instances, i.id = id → i.name = some "worker" ∨ i.state.Ending

instance (w : Account) (id : InstanceId) : Decidable (w.WorkerOnly id) :=
  inferInstanceAs (Decidable (∀ i ∈ w.instances, i.id = id → i.name = some "worker" ∨ i.state.Ending))

/-- The target group and the queue name workers only. -/
structure WorkersOnly (w : Account) : Prop where
  targets : ∀ t ∈ w.targets, w.IsWorker t.id
  queued : ∀ id ∈ w.queue, w.IsWorker id

/-- From `w` to `w'` no other instance than a worker was launched or terminated, and the
target group and the queue name workers only. -/
structure SparesOthers (w w' : Account) : Prop where
  only : WorkersOnly w'
  workers : ∀ id, w.IsWorker id → w'.IsWorker id
  others : ∀ i ∈ w'.instances, i.name ≠ some "worker" →
    ∃ i₀ ∈ w.instances, i₀.id = i.id ∧ i₀.name = i.name ∧ (i.state.Ending ↔ i₀.state.Ending)

/-- A call that spares the other instances where it is served. -/
def Call.Sparing : Call → Account → Prop
  | .terminate id, w => w.WorkerOnly id
  | .registerTargets id, w | .applyAsync id, w => w.IsWorker id
  | .createInstances name, _ => name = "worker"
  | _, _ => True

section
variable {w w' w₁ w₂ w₃ : Account} {id : InstanceId}

theorem SparesOthers.refl (h : WorkersOnly w) : SparesOthers w w :=
  ⟨h, fun _ hid => hid, fun i hi _ => ⟨i, hi, rfl, rfl, Iff.rfl⟩⟩

theorem SparesOthers.trans (h₁ : SparesOthers w₁ w₂) (h₂ : SparesOthers w₂ w₃) :
    SparesOthers w₁ w₃ := by
  refine ⟨h₂.only, fun id hid => h₂.workers id (h₁.workers id hid), fun i hi hname => ?_⟩
  obtain ⟨i₂, hi₂, hid₂, hname₂, hend₂⟩ := h₂.others i hi hname
  obtain ⟨i₁, hi₁, hid₁, hname₁, hend₁⟩ := h₁.others i₂ hi₂ (hname₂ ▸ hname)
  exact ⟨i₁, hi₁, hid₁.trans hid₂, hname₁.trans hname₂, hend₂.trans hend₁⟩

theorem Account.IsWorker.only (h : w.IsWorker id) : w.WorkerOnly id := by
  intro i hi hid
  obtain ⟨s, hs⟩ := h
  rw [record_unique hi hs hid]
  exact .inl rfl

theorem Account.WorkerOnly.later (hw : SparesOthers w w') (h : w.WorkerOnly id) :
    w'.WorkerOnly id := by
  intro i hi hid
  by_cases hname : i.name = some "worker"
  · exact .inl hname
  · obtain ⟨i₀, hi₀, hid₀, hname₀, hend⟩ := hw.others i hi hname
    rw [hend]
    exact .inr ((h i₀ hi₀ (hid₀.trans hid)).resolve_left (hname₀ ▸ hname))

/-- A change of the target group or the queue that names workers only. -/
theorem SparesOthers.of_instances (hi : w'.instances = w.instances)
    (ht : ∀ t ∈ w'.targets, w.IsWorker t.id) (hq : ∀ id ∈ w'.queue, w.IsWorker id) :
    SparesOthers w w' := by
  have hworker : ∀ id, w.IsWorker id → w'.IsWorker id := by
    intro id hid
    simp only [Account.IsWorker, Account.Worker, hi]
    exact hid
  refine ⟨⟨fun t h => hworker _ (ht t h), fun id h => hworker id (hq id h)⟩, hworker, ?_⟩
  intro i hmem _
  rw [hi] at hmem
  exact ⟨i, hmem, rfl, rfl, Iff.rfl⟩

theorem SparesOthers.modify {f : InstanceState → InstanceState} (h : WorkersOnly w)
    (hf : ∀ name s, (⟨id, name, s⟩ : Instance) ∈ w.instances → name ≠ some "worker" →
      ((f s).Ending ↔ s.Ending)) : SparesOthers w (w.modify id f) := by
  refine ⟨⟨fun t ht => (h.targets t ht).modify, fun j hj => (h.queued j hj).modify⟩,
    fun j hj => hj.modify, ?_⟩
  rintro ⟨j, name, s⟩ hi hname
  obtain ⟨_, hold⟩ | ⟨rfl, s₀, hs₀, rfl⟩ := Account.mem_modify_cases hi
  · exact ⟨_, hold, rfl, rfl, Iff.rfl⟩
  · exact ⟨_, hs₀, rfl, rfl, hf name s₀ hs₀ hname⟩

theorem SparesOthers.launch (h : WorkersOnly w) (hf : w.Fresh id) :
    SparesOthers w (w.launch id "worker" hf) := by
  refine ⟨⟨fun t ht => (h.targets t ht).launch hf _, fun j hj => (h.queued j hj).launch hf _⟩,
    fun j hj => hj.launch hf _, fun i hi hname => ?_⟩
  obtain hi | rfl := Account.mem_launch.mp hi
  · exact ⟨i, hi, rfl, rfl, Iff.rfl⟩
  · exact absurd rfl hname

theorem InstanceState.ending_stop (s : InstanceState) : s.stop.Ending ↔ s.Ending := by
  cases s <;> simp [InstanceState.Ending, InstanceState.stop]

theorem InstanceState.ending_terminate (s : InstanceState) : s.terminate.Ending := by
  cases s <;> simp [InstanceState.Ending, InstanceState.terminate]

/-- A sparing call keeps to it. -/
theorem serves_spares {c : Call} {r : Answer c} (h : WorkersOnly w) (hc : c.Sparing w)
    (hs : Serves c w r w') : SparesOthers w w' := by
  cases c with
  | createInstances name =>
    obtain ⟨hf, rfl⟩ := hs
    rw [show name = "worker" from hc]
    exact .launch h hf
  | terminate j =>
    rw [hs.2]
    refine .modify h fun name s hi hname => ?_
    exact iff_of_true s.ending_terminate ((hc _ hi rfl).resolve_left hname)
  | stop j =>
    rw [hs.2]
    exact .modify h fun _ s _ _ => s.ending_stop
  | registerTargets j =>
    rw [hs.2]
    refine .of_instances Account.register_instances (fun t ht => ?_) ?_
    · obtain ht | ⟨ht, _⟩ := Account.mem_register ht
      · exact h.targets _ ht
      · exact ht ▸ hc
    · rw [Account.register_queue]
      exact h.queued
  | deregisterTargets j =>
    obtain rfl : w' = w.deregister j := hs
    refine .of_instances rfl (fun t ht => ?_) h.queued
    obtain ⟨t₀, ht₀, hid⟩ := Account.exists_target_of_mem_deregister ht
    exact hid ▸ h.targets t₀ ht₀
  | applyAsync j =>
    obtain rfl : w' = w.enqueue j := hs
    refine .of_instances rfl h.targets fun i hi => ?_
    obtain hi | hi := List.mem_append.mp hi
    · exact h.queued i hi
    · rw [List.mem_singleton.mp hi]
      exact hc
  | insertConfig row =>
    obtain ⟨_, rfl⟩ := hs
    exact .of_instances rfl h.targets h.queued
  | updateConfig key changes =>
    obtain ⟨_, _, rfl⟩ := hs
    exact .of_instances rfl h.targets h.queued
  | recreateTable =>
    rw [hs]
    exact .of_instances rfl h.targets h.queued
  | describeInstances _ | describeInstance _ | waitRunning _ | associateProfile _
  | describeTargetHealth | getMetricStatistics _ _ | putMetricData _ _ | queryFirst
  | iterate _ | sample _ _ =>
    rw [serves_readOnly (by trivial) hs]
    exact .refl h

theorem env_spares {elb : Account → Prop} (h : WorkersOnly w) (he : Env elb w w') :
    SparesOthers w w' := by
  cases he with
  | boot hp =>
    refine .modify h fun name s hs _ => ?_
    rw [Account.InState.unique ⟨name, hs⟩ hp]
    simp [InstanceState.Ending]
  | halt hp =>
    refine .modify h fun name s hs _ => ?_
    rw [Account.InState.unique ⟨name, hs⟩ hp]
    simp [InstanceState.Ending]
  | health f hf ht =>
    refine .of_instances rfl (fun t hmem => ?_) h.queued
    obtain ⟨t₀, ht₀, hid⟩ := Account.exists_target_of_mem_map (fun t => by split <;> rfl) hmem
    exact hid ▸ h.targets t₀ ht₀
  | drained j => exact .of_instances rfl (fun t ht => h.targets t (List.mem_of_mem_filter ht)) h.queued
  | metrics cpu => exact .of_instances rfl h.targets h.queued

end

/- Every function of the manager, among others that spare the other instances. -/

/-- The program spares the other instances whatever the others do, if they do too. -/
abbrev Sparing (faults : Call → Account → Prop) {α : Type} (post : α → Account → Prop) (p : Op α)
    (w : Account) : Prop :=
  Guards (services faults) SparesOthers Call.Sparing post p w

section
variable {faults : Call → Account → Prop} {w : Account} {id : InstanceId} {α : Type} {p : Op α}

theorem sparing_harmless (hp : p.Uses fun c => ∀ w, c.Sparing w) :
    Sparing faults (fun _ _ => True) p w :=
  Guards.of_uses hp fun _ w₁ hc => hc w₁

theorem Call.Observes.sparing {c : Call} (h : c.Observes) (w : Account) : c.Sparing w := by
  cases c <;> trivial

theorem Call.Lists.sparing {c : Call} (h : c.Lists) (w : Account) : c.Sparing w := by
  cases c <;> trivial

theorem Call.Stores.sparing {c : Call} (h : c.Stores) (w : Account) : c.Sparing w := by
  cases c <;> trivial

/-- What the others keep is still there when the program has ended. -/
theorem Sparing.frame {post : α → Account → Prop} {Q : Account → Prop}
    (hQ : ∀ w w', SparesOthers w w' → Q w → Q w') (h : Sparing faults post p w) (hw : Q w) :
    Sparing faults (fun a w' => post a w' ∧ Q w') p w :=
  Guards.frame (fun _ _ _ _ _ hw₀ hc hs => serves_spares hw₀.only hc hs) hQ h hw

theorem sparing_create : Sparing faults (fun _ _ => True) celeryCreateWorker w := by
  refine Guards.bind (Guards.request fun w₁ hw₁ => ⟨rfl, fun id w₂ hs => ?_⟩)
  obtain ⟨hf, rfl⟩ := hs
  have hid : (w₁.launch id "worker" hf).IsWorker id :=
    ⟨.pending, Account.mem_launch.mpr (.inr rfl)⟩
  exact Guards.request fun w₃ hw₃ => ⟨hw₃.workers id hid, fun _ _ _ => trivial⟩

theorem sparing_register (h : w.IsWorker id) :
    Sparing faults (fun _ _ => True) (registerInstanceToElb id) w := by
  have hstable : ∀ w w', SparesOthers w w' → w.IsWorker id → w'.IsWorker id :=
    fun _ _ hw => hw.workers id
  have hwait : ∀ w, Sparing faults (fun _ _ => True) (ask (.waitRunning id)) w :=
    fun w => sparing_harmless (Uses.request fun _ => trivial)
  have hattach : ∀ w, Sparing faults (fun _ _ => True) (ask (.associateProfile id)) w :=
    fun w => sparing_harmless (Uses.request fun _ => trivial)
  refine Guards.bind (((hwait w).frame hstable h).mono fun _ w₁ h₁ => ?_)
  refine Guards.bind (((hattach w₁).frame hstable h₁.2).mono fun _ w₂ h₂ => ?_)
  exact Guards.request fun w₃ hw₃ => ⟨hw₃.workers id h₂.2, fun _ _ _ => trivial⟩

/-- A destroy looks its instance up again and terminates what it finds under the id. -/
theorem sparing_destroy (h : w.WorkerOnly id) :
    Sparing faults (fun _ _ => True) (destroyAWorker id) w := by
  have hderegister : Sparing faults (fun _ _ => True) (deregisterFromElb id) w :=
    sparing_harmless (Uses.request fun _ => trivial)
  have hstable : ∀ w w', SparesOthers w w' → w.WorkerOnly id → w'.WorkerOnly id :=
    fun _ _ hw h => h.later hw
  refine Guards.bind ((hderegister.frame hstable h).mono fun _ w₁ h₁ => ?_)
  refine Guards.bind (Guards.request fun w₂ hw₂ => ⟨trivial, fun r w₃ hs => ?_⟩)
  obtain ⟨rfl, rfl⟩ := hs
  cases hl : w₃.instances.filter (fun i => i.id = id) with
  | nil => trivial
  | cons i l =>
    have hi : i ∈ w₃.instances.filter (fun i => i.id = id) := by simp [hl]
    have hid : i.id = id := by simpa using (List.mem_filter.mp hi).2
    refine Guards.request fun w₄ hw₄ => ⟨?_, fun _ _ _ => trivial⟩
    rw [hid]
    exact (h₁.2.later hw₂).later hw₄

theorem sparing_each_destroy (l : List InstanceId) (h : ∀ id ∈ l, w.IsWorker id) :
    Sparing faults (fun _ _ => True) (each l destroyAWorker) w := by
  have hstable : ∀ w w', SparesOthers w w' → (∀ id ∈ l, w.IsWorker id) → ∀ id ∈ l, w'.IsWorker id :=
    fun _ _ hw h id hid => hw.workers id (h id hid)
  refine (Guards.each (Q := fun w => ∀ id ∈ l, w.IsWorker id) l (fun id hid w₁ h₁ => ?_) h).mono
    fun _ _ _ => trivial
  exact ((sparing_destroy (h₁ id hid).only).frame hstable h₁).mono fun _ _ h₂ => h₂.2

/-- The target group names workers only, so the ids in service are workers. -/
theorem sparing_serving :
    Sparing faults (fun a w' => ∀ id ∈ a.1, w'.IsWorker id) getServingInstances w := by
  refine Guards.bind (Guards.request fun w₁ hw₁ => ⟨trivial, fun r w₂ hs => ?_⟩)
  obtain ⟨rfl, rfl⟩ := hs
  intro id hid
  rw [inserviceIds_targets, Account.mem_healthy] at hid
  exact hw₁.only.targets _ hid

theorem sparing_randomDestroy (k : ℤ) :
    Sparing faults (fun _ _ => True) (randomDestroyWorker k) w := by
  refine Guards.bind (sparing_serving.mono fun a w₁ h₁ => ?_)
  dsimp only
  split
  · trivial
  · have hstable : ∀ w w', SparesOthers w w' → (∀ id ∈ a.1, w.IsWorker id) →
        ∀ id ∈ a.1, w'.IsWorker id := fun _ _ hw h id hid => hw.workers id (h id hid)
    have hsample : Sparing faults (fun l _ => ∀ id ∈ l, id ∈ a.1) (randomSample a.1 k) w₁ := by
      unfold randomSample
      split
      · exact Guards.request fun w₂ _ => ⟨trivial, fun l w₃ hs => hs.1.2.1⟩
      · trivial
    refine Guards.bind ((hsample.frame hstable h₁).mono fun l w₂ h₂ => ?_)
    refine Guards.bind ((sparing_each_destroy l fun id hid => ?_).mono fun _ _ _ => trivial)
    exact h₂.2 id (h₂.1 id hid)

theorem sparing_actOn (config : AutoScalingConfig) (n m : Nat) (avg : Num) :
    Sparing faults (fun _ _ => True) (actOn config n m avg) w := by
  have hnumeric : ∀ (q : Option ℚ) w, Sparing faults (fun _ _ => True) (numeric q) w :=
    fun q w => sparing_harmless (numeric_uses q _)
  refine Guards.bind ((hnumeric _ w).mono fun et w₁ _ => ?_)
  split
  · unfold expandFleet
    split
    · trivial
    · refine Guards.bind ((hnumeric _ w₁).mono fun er w₂ _ => ?_)
      refine Guards.bind ((Guards.times (Q := fun _ => True) _ ?_ trivial).mono fun _ _ _ => trivial)
      exact fun w₃ _ => sparing_create
  · refine Guards.bind ((hnumeric _ w₁).mono fun st w₂ _ => ?_)
    split
    · refine Guards.bind ((hnumeric _ w₂).mono fun sr w₃ _ => ?_)
      dsimp only
      split
      · exact Guards.bind ((sparing_randomDestroy _).mono fun _ _ _ => trivial)
      · trivial
    · trivial

theorem sparing_tick : Sparing faults (fun _ _ => True) autoCheckAvgCpuUtilization w := by
  have hreads : ∀ {β : Type} {q : Op β} {allowed : Call → Prop} {w}, q.Uses allowed →
      (∀ c, allowed c → ∀ w, c.Sparing w) → Sparing faults (fun _ _ => True) q w :=
    fun hq h => sparing_harmless (hq.mono h)
  have hlists : ∀ c, Call.Lists c → ∀ w, c.Sparing w := fun c h => h.sparing
  have hquery : Sparing faults (fun _ _ => True) (ask .queryFirst) w :=
    sparing_harmless (Uses.request fun _ => trivial)
  refine Guards.bind (hquery.mono fun r w₁ _ => ?_)
  cases r with
  | none => trivial
  | some config =>
    dsimp only
    split
    · refine Guards.bind ((hreads hasPendingInstances_uses fun c h w => h ▸ trivial).mono
        fun b w₂ _ => ?_)
      split
      · exact hreads reportIdle_uses hlists
      · refine Guards.bind ((hreads getServingInstances_uses fun c h => h.sparing).mono fun a w₃ _ => ?_)
        refine Guards.bind ((hreads getRunningInstances_uses fun c h w => h ▸ trivial).mono fun b w₄ _ => ?_)
        dsimp only
        split
        · trivial
        · refine Guards.bind ((hreads getNonTerminatedInstances_uses fun c h w => h ▸ trivial).mono
            fun m w₅ _ => ?_)
          refine Guards.bind ((hreads allInstanceHasValidCpuUtil_uses fun c h => h.sparing).mono
            fun v w₆ _ => ?_)
          dsimp only
          split
          · trivial
          · exact sparing_actOn config _ _ _
    · exact hreads reportIdle_uses hlists

theorem sparing_destroyEvery :
    Sparing faults (fun _ _ => True) destroyEveryWorker w := by
  refine Guards.bind (Guards.request fun w₁ _ => ⟨trivial, fun r w₂ hs => ?_⟩)
  obtain ⟨rfl, rfl⟩ := hs
  have hlisted : ∀ i ∈ w₂.listed ⟨none, "worker"⟩, w₂.IsWorker i.id := by
    rintro ⟨id, name, s⟩ hi
    obtain ⟨hi, hname⟩ := List.mem_filter.mp hi
    simp only [InstanceFilter.accepts, Bool.and_true, decide_eq_true_eq] at hname
    exact ⟨s, hname ▸ hi⟩
  have hstable : ∀ w w', SparesOthers w w' → (∀ i ∈ w₂.listed ⟨none, "worker"⟩, w.IsWorker i.id) →
      ∀ i ∈ w₂.listed ⟨none, "worker"⟩, w'.IsWorker i.id :=
    fun _ _ hw h i hi => hw.workers i.id (h i hi)
  refine (Guards.each (Q := fun w => ∀ i ∈ w₂.listed ⟨none, "worker"⟩, w.IsWorker i.id) _
    (fun i hi w₁ h₁ => ?_) hlisted).mono fun _ _ _ => trivial
  exact ((sparing_destroy (h₁ i hi).only).frame hstable h₁).mono fun _ _ h₂ => h₂.2

theorem sparing_stopManager : Sparing faults (fun _ _ => True) stopManager w := by
  refine Guards.bind (sparing_destroyEvery.mono fun _ w₁ _ => ?_)
  refine sparing_harmless (Uses.bind (Uses.request fun _ => trivial) fun r => ?_)
  exact Uses.each r fun i _ => Uses.request fun _ => trivial

theorem sparing_createWorker : Sparing faults (fun _ _ => True) createWorker w := by
  have hcount : Sparing faults (fun _ _ => True) getNonTerminatedInstances w :=
    sparing_harmless (getNonTerminatedInstances_uses.mono fun c hc w => hc ▸ trivial)
  refine Guards.bind (hcount.mono fun a w₁ _ => ?_)
  dsimp only
  split
  · trivial
  · exact Guards.bind (sparing_create.mono fun _ _ _ => trivial)

theorem sparing_destroyWorker : Sparing faults (fun _ _ => True) destroyWorker w := by
  refine Guards.bind ((sparing_randomDestroy 1).mono fun b w₁ _ => ?_)
  split <;> trivial

/-- No delete by id is begun on an instance that is no worker and has not ended. -/
def NamesWorker (o : Operation) (w : Account) : Prop :=
  ∀ id, o = .detailDestroyWorker id → w.WorkerOnly id

/-- Every operation, begun as allowed, spares the other instances. -/
theorem sparing_program {o : Operation} {w' : Account} (h : WorkersOnly w) (ho : NamesWorker o w)
    (hb : o.Begins w w') :
    SparesOthers w w' ∧ Sparing faults (fun _ _ => True) o.program w' := by
  cases o with
  | registerInstance id =>
    obtain ⟨hid, rfl⟩ := hb
    have hspares : SparesOthers w (w.dequeue id) :=
      .of_instances rfl h.targets fun j hj => h.queued j (List.mem_of_mem_erase hj)
    exact ⟨hspares, sparing_register (hspares.workers id (h.queued id hid))⟩
  | tick => rw [hb]; exact ⟨.refl h, sparing_tick.forget⟩
  | createWorker => rw [hb]; exact ⟨.refl h, sparing_createWorker.forget⟩
  | destroyWorker => rw [hb]; exact ⟨.refl h, sparing_destroyWorker.forget⟩
  | detailDestroyWorker id => rw [hb]; exact ⟨.refl h, sparing_destroy (ho id rfl)⟩
  | destroyAll => rw [hb]; exact ⟨.refl h, sparing_destroyEvery⟩
  | apply form =>
    rw [hb]
    exact ⟨.refl h, Guards.forget (sparing_harmless ((apply_uses form).mono fun c hc => hc.sparing))⟩
  | turnOn => rw [hb]; exact ⟨.refl h, sparing_harmless (turnOn_uses.mono fun c hc => hc.sparing)⟩
  | processStart =>
    rw [hb]
    have htable : Sparing faults (fun _ _ => True) (ask .recreateTable) w :=
      sparing_harmless (Uses.request fun _ => trivial)
    exact ⟨.refl h, Guards.bind (htable.mono fun _ _ _ => sparing_create)⟩
  | stopManager => rw [hb]; exact ⟨.refl h, sparing_stopManager⟩

end

/-- However operations overlap and whichever calls raise: as long as the page of one instance
is only asked to delete workers, every other instance that is shutting down or terminated
was so at the start, and the target group names workers only. -/
theorem only_workers_terminated {faults : Call → Account → Prop} {w : Account}
    {s : Effect.Config Call Answer PyError Account} {tr : List (Label Call)}
    (ht : ∀ t ∈ w.targets, w.IsWorker t.id) (hq : ∀ id ∈ w.queue, w.IsWorker id)
    (hr : (operations faults NamesWorker).Run unguarded ⟨[], w⟩ tr s) :
    (∀ i ∈ s.world.instances, i.name ≠ some "worker" → i.state.Ending →
      ∃ i₀ ∈ w.instances, i₀.id = i.id ∧ i₀.name = i.name ∧ i₀.state.Ending) ∧
    ∀ t ∈ s.world.targets, s.world.IsWorker t.id := by
  have hspares := (hr.guards SparesOthers Call.Sparing (fun _ hw => .refl hw.only) (.refl ⟨ht, hq⟩)
    (fun _ _ _ h₁ h₂ => h₁.trans h₂) (fun w₁ p w₂ hw hp => ?_)
    (fun _ _ _ _ hw hc hs => serves_spares hw.only hc hs)
    fun _ _ hw he => env_spares hw.only he).1
  · refine ⟨fun i hi hname hend => ?_, hspares.only.targets⟩
    obtain ⟨i₀, hi₀, hid, hname₀, hend₀⟩ := hspares.others i hi hname
    exact ⟨i₀, hi₀, hid, hname₀, hend₀.mp hend⟩
  · obtain ⟨o, ho, rfl, hb⟩ := hp
    exact sparing_program hw.only ho hb

/-- The manager's own instance and one worker in service. -/
def office : Account :=
  { Account.vacant with
    instances := [⟨"i-0", some "Manager", .running⟩, ⟨"i-1", some "worker", .running⟩]
    ids_nodup := by decide
    targets := [⟨"i-1", .healthy⟩] }

theorem office_targets : ∀ t ∈ office.targets, office.IsWorker t.id := by
  intro t ht
  rw [List.mem_singleton.mp ht]
  exact ⟨.running, List.mem_cons_of_mem _ List.mem_cons_self⟩

theorem office_queue : ∀ id ∈ office.queue, office.IsWorker id :=
  fun _ hid => absurd hid List.not_mem_nil

/-- A delete by id, once it is begun, does the whole destroy. -/
theorem office_deletes (allowed : Operation → Account → Prop) (id : InstanceId) {i : Instance}
    (h : allowed (.detailDestroyWorker id) office) (hk : office.Known id)
    (hi : office.instances.filter (fun i => i.id = id) = [i]) (hid : i.id = id) :
    ∃ tr, (operations noFaults allowed).Run unguarded ⟨[], office⟩ tr ⟨[.ret ()], office.destroy id⟩ := by
  have h₀ : (operations noFaults allowed).Run unguarded ⟨[], office⟩ [] ⟨[], office⟩ := .nil
  have h₁ := h₀.start (destroyAWorker id) ⟨.detailDestroyWorker id, h, rfl, rfl⟩ trivial
  have h₂ := h₁.serve 0 () rfl rfl trivial
  have h₃ := h₂.serve 0 [i] rfl ⟨hi.symm, rfl⟩ trivial
  have h₄ := h₃.serve 0 () rfl ⟨hid ▸ hk, rfl⟩ trivial
  rw [hid] at h₄
  exact ⟨_, h₄⟩

theorem only_workers_terminated_office :
    (office.destroy "i-1").Worker "i-1" .shuttingDown ∧
    ∀ i ∈ (office.destroy "i-1").instances, i.name ≠ some "worker" → ¬ i.state.Ending := by
  have hallowed : NamesWorker (.detailDestroyWorker "i-1") office := by
    intro id hid
    cases hid
    decide
  obtain ⟨tr, hr⟩ := office_deletes NamesWorker "i-1" hallowed (by decide) rfl rfl
  refine ⟨List.mem_cons_of_mem _ List.mem_cons_self, fun i hi hname hend => ?_⟩
  obtain ⟨i₀, hi₀, _, _, hend₀⟩ :=
    (only_workers_terminated office_targets office_queue hr).1 i hi hname hend
  have hnone : ∀ i ∈ office.instances, ¬ i.state.Ending := by decide
  exact hnone i₀ hi₀ hend₀

/-- Whoever posts the manager's id to the delete page terminates the manager. -/
theorem manager_terminated :
    ¬ ∀ (w : Account) (s : Effect.Config Call Answer PyError Account) (tr : List (Label Call)),
      (∀ t ∈ w.targets, w.IsWorker t.id) → (∀ id ∈ w.queue, w.IsWorker id) →
      (operations noFaults fun _ _ => True).Run unguarded ⟨[], w⟩ tr s →
      (∀ i ∈ s.world.instances, i.name ≠ some "worker" → i.state.Ending →
        ∃ i₀ ∈ w.instances, i₀.id = i.id ∧ i₀.name = i.name ∧ i₀.state.Ending) ∧
      ∀ t ∈ s.world.targets, s.world.IsWorker t.id := by
  intro h
  obtain ⟨tr, hr⟩ := office_deletes (fun _ _ => True) "i-0" trivial (by decide) rfl rfl
  obtain ⟨i₀, hi₀, _, _, hend⟩ := (h _ _ _ office_targets office_queue hr).1
    ⟨"i-0", some "Manager", .shuttingDown⟩ (by decide) (by decide) (by decide)
  have hnone : ∀ i ∈ office.instances, ¬ i.state.Ending := by decide
  exact hnone i₀ hi₀ hend

end OdwaManager
