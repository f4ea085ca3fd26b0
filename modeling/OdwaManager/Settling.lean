import OdwaManager.Convergence
import OdwaManager.OnlyWorkers

/-! The fleet can always settle: from every account in which no worker has fallen out of
management, boots, health checks and the registration tasks that are queued lead to an account
in which every worker is in service or gone. -/
namespace OdwaManager
open Effect Program

section
variable (elb : Account → Prop)

/-- The fleet comes from `w` to `w'` without the manager deciding anything. -/
def Settles (w w' : Account) : Prop :=
  ∃ ms, SerialRun noFaults elb w ms w' ∧ ∀ m ∈ ms, m.Settling

end

/-- The target group and the queue name workers, and every worker that is up is in one of them. -/
structure Tended (w : Account) : Prop where
  only : WorkersOnly w
  kept : ∀ id, w.Live id → w.Kept id

section
variable {elb : Account → Prop} {w w₁ w₂ : Account}

theorem Settles.refl : Settles elb w w := ⟨[], .nil, by simp⟩

theorem Settles.trans (h : Settles elb w w₁) (h' : Settles elb w₁ w₂) : Settles elb w w₂ := by
  obtain ⟨ms, hr, hms⟩ := h
  obtain ⟨ms', hr', hms'⟩ := h'
  refine ⟨ms' ++ ms, ?_, by simpa [or_imp, forall_and] using ⟨hms', hms⟩⟩
  clear hms'
  induction hr' with
  | nil => exact hr
  | cons _ hs ih => exact .cons ih hs

theorem Settles.env (h : Env elb w w₁) : Settles elb w w₁ :=
  ⟨[.env], .cons .nil (.env h), by simp [Move.Settling]⟩

theorem Settles.register {id : InstanceId} {res : Except PyError Unit} (hid : id ∈ w.queue)
    (h : Runs (services noFaults) (registerInstanceToElb id) (w.dequeue id) res w₁) :
    Settles elb w w₁ :=
  ⟨[.op (.registerInstance id)], .cons .nil (.op ⟨hid, rfl⟩ h), by simp [Move.Settling]⟩

/-- One after the other, if no step undoes what another one was for. -/
theorem Settles.all {A : Type} {P : A → Account → Prop} {I : Account → Prop} (l : List A)
    (hstep : ∀ a w, I w → ∃ w', Settles elb w w' ∧ I w' ∧ P a w' ∧ ∀ b, P b w → P b w') (hw : I w) :
    ∃ w', Settles elb w w' ∧ I w' ∧ (∀ a ∈ l, P a w') ∧ ∀ b, P b w → P b w' := by
  induction l generalizing w with
  | nil => exact ⟨w, .refl, hw, by simp, fun _ hb => hb⟩
  | cons a l ih =>
    obtain ⟨w₁, hr₁, hw₁, ha, hkeep₁⟩ := hstep a w hw
    obtain ⟨w₂, hr₂, hw₂, hl, hkeep₂⟩ := ih hw₁
    refine ⟨w₂, hr₁.trans hr₂, hw₂, ?_, fun b hb => hkeep₂ b (hkeep₁ b hb)⟩
    simpa [hkeep₂ a ha] using hl

theorem Tended.env (he : Env elb w w₁) (h : Tended w) : Tended w₁ :=
  ⟨(env_spares h.only he).only, fun id hl => env_kept he (h.kept id (env_live he hl))⟩

/-- No instance is in the state. -/
def Account.Without (s : InstanceState) (id : InstanceId) (w : Account) : Prop := ¬ w.InState id s

theorem without_modify {s t : InstanceState} {id j : InstanceId} (hst : t ≠ s) (h : w.Without s j) :
    (w.modify id fun _ => t).Without s j := by
  rintro ⟨name, hmem⟩
  obtain ⟨_, hold⟩ | ⟨_, _, _, he⟩ := Account.mem_modify_cases hmem
  · exact h ⟨name, hold⟩
  · exact hst he.symm

theorem modify_ids {id : InstanceId} {f : InstanceState → InstanceState} :
    (w.modify id f).instances.map Instance.id = w.instances.map Instance.id := by
  simp [Account.modify, Function.comp_def, Instance.update_id]

/-- A change that EC2 makes to the instances in one state leads to an account without any. -/
theorem settles_without {s t : InstanceState} (hst : t ≠ s)
    (henv : ∀ w id, w.InState id s → Env elb w (w.modify id fun _ => t)) (h : Tended w)
    {Q : Account → Prop} (hQ : ∀ w id, w.InState id s → Q w → Q (w.modify id fun _ => t)) (hw : Q w) :
    ∃ w', Settles elb w w' ∧ Tended w' ∧ Q w' ∧ ∀ id, w'.Without s id := by
  let I := fun w' : Account => (Tended w' ∧ Q w') ∧
    w'.instances.map Instance.id = w.instances.map Instance.id
  have hstep : ∀ id w', I w' → ∃ w'', Settles elb w' w'' ∧ I w'' ∧ w''.Without s id ∧
      ∀ j, w'.Without s j → w''.Without s j := by
    intro id w' hI
    by_cases hs : w'.InState id s
    · refine ⟨_, .env (henv w' id hs), ⟨⟨hI.1.1.env (henv w' id hs), hQ w' id hs hI.1.2⟩, ?_⟩, ?_, ?_⟩
      · rw [modify_ids, hI.2]
      · intro hs'
        exact hst (hs.modify_self.unique hs')
      · exact fun j hj => without_modify hst hj
    · exact ⟨w', .refl, hI, hs, fun _ hj => hj⟩
  obtain ⟨w', hr, hI, hall, _⟩ := Settles.all (w.instances.map Instance.id) hstep ⟨⟨h, hw⟩, rfl⟩
  refine ⟨w', hr, hI.1.1, hI.1.2, fun id hs => ?_⟩
  have hknown : id ∈ w.instances.map Instance.id := by
    rw [← hI.2]
    exact hs.known
  exact hall id hknown hs

theorem runs_register {id : InstanceId} (h : w.InState id .running) :
    Runs (services noFaults) (registerInstanceToElb id) w (.ok ()) (w.register id) := by
  have hattach : w.Attachable id := ⟨.running, h, by decide, by decide⟩
  exact .inl ⟨(), w, ⟨h, rfl⟩, .inl ⟨(), w, ⟨hattach, rfl⟩, .inl ⟨(), _, ⟨h, rfl⟩, rfl, rfl⟩⟩⟩

theorem runs_register_gone {id : InstanceId} (hp : w.Without .pending id)
    (hr : w.Without .running id) :
    Runs (services noFaults) (registerInstanceToElb id) w (.error .waiterError) w :=
  .inr ⟨.waiterError, .inl ⟨⟨hp, hr⟩, rfl⟩, rfl, rfl⟩

theorem live_running {id : InstanceId} (hp : ∀ id, w.Without .pending id) (hl : w.Live id) :
    w.Worker id .running :=
  hl.resolve_left fun h => hp id h.inState

/-- The task that is first in the queue has run. -/
theorem settles_first {id : InstanceId} {q : List InstanceId} (h : Tended w)
    (hp : ∀ id, w.Without .pending id) (hq : w.queue = id :: q) :
    ∃ w', Settles elb w w' ∧ Tended w' ∧ w'.instances = w.instances ∧ w'.queue = q := by
  have hid : id ∈ w.queue := by simp [hq]
  have hqueue : (w.dequeue id).queue = q := by simp [Account.dequeue, hq]
  by_cases hr : w.InState id .running
  · have hqueue' : ((w.dequeue id).register id).queue = q := by rw [Account.register_queue, hqueue]
    have hinst : ((w.dequeue id).register id).instances = w.instances := Account.register_instances
    refine ⟨_, .register hid (runs_register hr), ⟨?_, fun j hl => ?_⟩, hinst, hqueue'⟩
    · refine (SparesOthers.of_instances hinst (fun t ht => ?_) fun j hj => ?_).only
      · obtain ht | ⟨ht, _⟩ := Account.mem_register ht
        · exact h.only.targets _ ht
        · exact ht ▸ h.only.queued id hid
      · rw [hqueue'] at hj
        exact h.only.queued j (by simp [hq, hj])
    · by_cases hj : j = id
      · exact .inl (hj ▸ Account.registered_register)
      · obtain hk | hk := h.kept j ((Account.Live.congr hinst).mp hl)
        · have hk' : (w.dequeue id).Registered j := hk
          exact .inl hk'.register
        · refine .inr ?_
          rw [hqueue']
          simpa [hq, hj] using hk
  · refine ⟨_, .register hid (runs_register_gone (hp id) hr), ⟨⟨h.only.targets, fun j hj => ?_⟩, fun j hl => ?_⟩, rfl, hqueue⟩
    · exact h.only.queued j (List.mem_of_mem_erase hj)
    · have hj : j ≠ id := by
        rintro rfl
        exact hr (live_running hp hl).inState
      refine (h.kept j hl).imp_right fun hk => ?_
      rw [hqueue]
      simpa [hq, hj] using hk

theorem settles_registered (elb : Account → Prop) (h : Tended w) (hp : ∀ id, w.Without .pending id) :
    ∃ w', Settles elb w w' ∧ Tended w' ∧ w'.instances = w.instances ∧ w'.queue = [] := by
  induction hq : w.queue generalizing w with
  | nil => exact ⟨w, .refl, h, rfl, hq⟩
  | cons id q ih =>
    obtain ⟨w₁, hr₁, h₁, hinst₁, hq₁⟩ := settles_first h hp hq
    have hp₁ : ∀ id, w₁.Without .pending id := by
      simpa [Account.Without, Account.InState, hinst₁] using hp
    obtain ⟨w₂, hr₂, h₂, hinst₂, hq₂⟩ := ih h₁ hp₁ hq₁
    exact ⟨w₂, hr₁.trans hr₂, h₂, hinst₂.trans hinst₁, hq₂⟩

/-- No target of this id is draining. -/
def Account.Drained (id : InstanceId) (w : Account) : Prop :=
  ∀ t ∈ w.targets, t.id = id → t.state ≠ .draining

theorem settles_drained (elb : Account → Prop) (h : Tended w) :
    ∃ w', Settles elb w w' ∧ Tended w' ∧ w'.instances = w.instances ∧ w'.queue = w.queue ∧
      ∀ t ∈ w'.targets, t.state ≠ .draining := by
  let I := fun w' : Account => Tended w' ∧ (w'.instances = w.instances ∧ w'.queue = w.queue) ∧
    ∀ t ∈ w'.targets, t ∈ w.targets
  have hstep : ∀ id w', I w' → ∃ w'', Settles elb w' w'' ∧ I w'' ∧ w''.Drained id ∧
      ∀ j, w'.Drained j → w''.Drained j := by
    intro id w' hI
    have hdrain : Env elb w' _ := .drained id
    refine ⟨_, .env hdrain, ⟨hI.1.env hdrain, hI.2.1, fun t ht => ?_⟩, fun t ht hid hs => ?_,
      fun j hj t ht => ?_⟩
    · exact hI.2.2 t (List.mem_of_mem_filter ht)
    · simp [hid, hs] at ht
    · exact hj t (List.mem_of_mem_filter ht)
  obtain ⟨w', hr, hI, hall, _⟩ := Settles.all (w.targets.map Target.id) hstep
    ⟨h, ⟨rfl, rfl⟩, fun _ ht => ht⟩
  refine ⟨w', hr, hI.1, hI.2.1.1, hI.2.1.2, fun t ht => ?_⟩
  exact hall t.id (List.mem_map_of_mem (hI.2.2 t ht)) t ht rfl

/-- The target group as the load balancer sees it once it has checked every target. -/
def Account.checked (w : Account) (f : InstanceId → TargetState) : Account :=
  { w with targets := w.targets.map fun t => if t.state = .draining then t else ⟨t.id, f t.id⟩ }

theorem mem_checked {f : InstanceId → TargetState} {id : InstanceId}
    (hd : ∀ t ∈ w.targets, t.state ≠ .draining) :
    id ∈ (w.checked f).healthy ↔ id ∈ w.targets.map Target.id ∧ f id = .healthy := by
  simp only [Account.mem_healthy, Account.checked, List.mem_map]
  constructor
  · rintro ⟨t, ht, he⟩
    rw [if_neg (hd t ht)] at he
    obtain ⟨rfl, hf⟩ : t.id = id ∧ f t.id = .healthy := by simpa using he
    exact ⟨⟨t, ht, rfl⟩, hf⟩
  · rintro ⟨⟨t, ht, rfl⟩, hf⟩
    exact ⟨t, ht, by rw [if_neg (hd t ht), hf]⟩

/-- Once nothing is pending, queued, ending or draining, a health check and new metrics settle
the fleet. -/
theorem settles_measured (helb : ∀ w, Truthful w → elb w) (h : Tended w)
    (hp : ∀ id, w.Without .pending id) (he : ∀ id, w.Without .shuttingDown id) (hq : w.queue = [])
    (hd : ∀ t ∈ w.targets, t.state ≠ .draining) {cpu : InstanceId → Nat → List ℚ}
    (hcpu : ∀ id, cpu id 120 ≠ []) :
    ∃ w', Settles elb w w' ∧ Tended w' ∧ Settled w' ∧ w'.cpu = cpu := by
  classical
  let f : InstanceId → TargetState := fun id => if w.InState id .running then .healthy else .unhealthy
  have hf : ∀ id, f id ≠ .draining := by
    intro id
    simp only [f]
    split <;> simp
  have hhealthy : ∀ id, id ∈ (w.checked f).healthy ↔ w.Worker id .running := by
    intro id
    rw [mem_checked hd]
    constructor
    · rintro ⟨hid, hfid⟩
      obtain ⟨t, ht, rfl⟩ := List.mem_map.mp hid
      obtain ⟨s, hs⟩ := h.only.targets t ht
      have hrun : w.InState t.id .running := by
        by_contra hnot
        simp [f, hnot] at hfid
      rw [← hs.inState.unique hrun]
      exact hs
    · intro hworker
      have hkept := (h.kept id (.inr hworker)).resolve_right (by simp [hq])
      obtain ⟨t, ht, rfl, _⟩ := hkept
      exact ⟨List.mem_map_of_mem ht, by simp [f, hworker.inState]⟩
  have htruthful : Truthful (w.checked f) := fun id hid => ((hhealthy id).mp hid).inState
  have hcheck : Env elb w (w.checked f) := .health f hf (helb _ htruthful)
  have hmeasure : Env elb (w.checked f) { w.checked f with cpu := cpu } := .metrics cpu
  refine ⟨{ w.checked f with cpu := cpu }, (Settles.env hcheck).trans (.env hmeasure),
    (h.env hcheck).env hmeasure, ?_, rfl⟩
  have hnone : ∀ {s : InstanceState}, (∀ id, w.Without s id) →
      ({ w.checked f with cpu := cpu } : Account).workers [s] = ∅ := by
    intro s hs
    ext id
    simp only [Account.mem_workers, List.mem_singleton, exists_eq_left, Finset.notMem_empty, iff_false]
    exact fun hworker => hs id hworker.inState
  refine ⟨hnone hp, hnone he, ?_, fun id _ => hcpu id⟩
  ext id
  simp only [Account.mem_workers, runningStates, List.mem_singleton, exists_eq_left]
  exact hhealthy id

theorem Tended.settles (helb : ∀ w, Truthful w → elb w) (h : Tended w)
    (cpu : InstanceId → Nat → List ℚ) (hcpu : ∀ id, cpu id 120 ≠ []) :
    ∃ w', Settles elb w w' ∧ Tended w' ∧ Settled w' ∧ w'.cpu = cpu := by
  have hboot : ∃ w₁, Settles elb w w₁ ∧ Tended w₁ ∧ True ∧ ∀ id, w₁.Without .pending id :=
    settles_without (by decide) (fun _ _ hs => .boot hs) h (fun _ _ _ _ => trivial) trivial
  obtain ⟨w₁, hr₁, h₁, _, hp₁⟩ := hboot
  obtain ⟨w₂, hr₂, h₂, hinst₂, hq₂⟩ := settles_registered elb h₁ hp₁
  have hp₂ : ∀ id, w₂.Without .pending id := by
    simpa [Account.Without, Account.InState, hinst₂] using hp₁
  have hhalt : ∃ w₃, Settles elb w₂ w₃ ∧ Tended w₃ ∧
      ((∀ id, w₃.Without .pending id) ∧ w₃.queue = []) ∧ ∀ id, w₃.Without .shuttingDown id :=
    settles_without (by decide) (fun _ _ hs => .halt hs) h₂
      (fun _ _ _ hw => ⟨fun j => without_modify (by decide) (hw.1 j), hw.2⟩) ⟨hp₂, hq₂⟩
  obtain ⟨w₃, hr₃, h₃, ⟨hp₃, hq₃⟩, he₃⟩ := hhalt
  obtain ⟨w₄, hr₄, h₄, hinst₄, hq₄, hd₄⟩ := settles_drained elb h₃
  have hp₄ : ∀ id, w₄.Without .pending id := by
    simpa [Account.Without, Account.InState, hinst₄] using hp₃
  have he₄ : ∀ id, w₄.Without .shuttingDown id := by
    simpa [Account.Without, Account.InState, hinst₄] using he₃
  obtain ⟨w₅, hr₅, h₅, hsettled, hcpu₅⟩ :=
    settles_measured helb h₄ hp₄ he₄ (hq₄.trans hq₃) hd₄ hcpu
  exact ⟨w₅, (((hr₁.trans hr₂).trans hr₃).trans hr₄).trans hr₅, h₅, hsettled, hcpu₅⟩

/-- From every account whose targets and tasks are for workers, and in which every worker that is
up is registered or queued, there is a way to an account in which the fleet has settled: boots,
shutdowns and health checks as the load balancer truthfully makes them, and the registration
tasks that are queued. It changes neither the size of the pool nor the policy, and the load may
come out as any. -/
theorem fleet_can_settle (helb : ∀ w, Truthful w → elb w) (ht : ∀ t ∈ w.targets, w.IsWorker t.id)
    (hq : ∀ id ∈ w.queue, w.IsWorker id) (hkept : ∀ id, w.Live id → w.Kept id)
    (cpu : InstanceId → Nat → List ℚ) (hcpu : ∀ id, cpu id 120 ≠ []) :
    ∃ ms w', SerialRun noFaults elb w ms w' ∧ (∀ m ∈ ms, m.Settling) ∧ Settled w' ∧ w'.cpu = cpu ∧
      w'.poolSize = w.poolSize ∧ w'.table = w.table := by
  have h : Tended w := ⟨⟨ht, hq⟩, hkept⟩
  obtain ⟨w', ⟨ms, hr, hms⟩, _, hsettled, hcpu'⟩ := h.settles helb cpu hcpu
  obtain ⟨hsize, htable⟩ := run_settling hms hr
  exact ⟨ms, w', hr, hms, hsettled, hcpu', hsize, htable⟩

end

/-- A worker that has just been created comes into service. -/
theorem fleet_can_settle_newborn : ∃ ms w',
    SerialRun noFaults Truthful (newborn.enqueue "i-1") ms w' ∧ Settled w' ∧ w'.poolSize = 1 := by
  have hworker : (newborn.enqueue "i-1").IsWorker "i-1" := ⟨.pending, List.mem_cons_self⟩
  have hqueue : ∀ id ∈ (newborn.enqueue "i-1").queue, (newborn.enqueue "i-1").IsWorker id := by
    intro id hid
    obtain rfl : id = "i-1" := List.mem_singleton.mp hid
    exact hworker
  have hkept : ∀ id, (newborn.enqueue "i-1").Live id → (newborn.enqueue "i-1").Kept id := by
    intro id hl
    obtain ⟨i, hi, rfl⟩ := List.mem_map.mp hl.known
    obtain rfl : i = ⟨"i-1", some "worker", .pending⟩ := List.mem_singleton.mp hi
    exact .inr List.mem_cons_self
  obtain ⟨ms, w', hr, _, hsettled, _, hsize, _⟩ := fleet_can_settle (fun _ h => h)
    (fun t ht => absurd ht List.not_mem_nil) hqueue hkept
    (fun _ _ => [50]) fun _ => List.cons_ne_nil _ _
  exact ⟨ms, w', hr, hsettled, hsize.trans (by decide)⟩

end OdwaManager
