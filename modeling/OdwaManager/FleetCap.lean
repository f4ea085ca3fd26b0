import OdwaManager.Actions
import OdwaManager.SerialRun
import OdwaManager.Effect.Budget
import OdwaManager.Effect.Pool

/-! The cap of 8 on the non-terminated workers. The tick and the create request each count
the fleet and then create within the room they found; the start of the process does not. -/
namespace OdwaManager
open Effect Program

def Creation (c : Call) : Prop := ∃ name, c = .createInstances name

/-- Counting the non-terminated workers grants the room that is left. -/
def room : (c : Call) → Answer c → Option Nat
  | .describeInstances f, r =>
    if f = ⟨some nonTerminatedStates, "worker"⟩ then some (8-(ids r).card) else none
  | _, _ => none

theorem fleetSize_congr {w w' : Account} (h : w'.instances = w.instances) :
    w'.fleetSize = w.fleetSize := by
  simp only [Account.fleetSize, Account.workers, Account.listed, h]

theorem fleetSize_modify_le (w : Account) (id : InstanceId) (f : InstanceState → InstanceState)
    (hf : ∀ s, w.InState id s → f s ∈ nonTerminatedStates → s ∈ nonTerminatedStates) :
    (w.modify id f).fleetSize ≤ w.fleetSize := by
  apply Finset.card_le_card
  intro j hj
  obtain ⟨s, hs, hw⟩ := Account.mem_workers.mp hj
  obtain ⟨_, hw⟩ | ⟨rfl, s₀, hs₀, rfl⟩ := Account.mem_modify_cases hw
  · exact Account.mem_workers.mpr ⟨s, hs, hw⟩
  · exact Account.mem_workers.mpr ⟨s₀, hf s₀ ⟨_, hs₀⟩ hs, hs₀⟩

theorem fleetSize_launch_le (w : Account) (id : InstanceId) (name : String) (h : w.Fresh id) :
    (w.launch id name h).fleetSize ≤ w.fleetSize+1 := by
  have hsub : (w.launch id name h).workers nonTerminatedStates ⊆
      insert id (w.workers nonTerminatedStates) := by
    intro j hj
    obtain ⟨s, hs, hw⟩ := Account.mem_workers.mp hj
    rw [Account.Worker, Account.mem_launch] at hw
    cases hw with
    | inl hw => exact Finset.mem_insert_of_mem (Account.mem_workers.mpr ⟨s, hs, hw⟩)
    | inr hw =>
      cases hw
      exact Finset.mem_insert_self _ _
  exact (Finset.card_le_card hsub).trans (Finset.card_insert_le _ _)

theorem fleetSize_launch {w : Account} {id : InstanceId} (h : w.Fresh id) :
    (w.launch id "worker" h).fleetSize = w.fleetSize+1 := by
  have hnew : id ∉ w.workers nonTerminatedStates := by
    intro hid
    obtain ⟨s, _, hw⟩ := Account.mem_workers.mp hid
    exact h.1 hw.inState.known
  have hinsert : (w.launch id "worker" h).workers nonTerminatedStates =
      insert id (w.workers nonTerminatedStates) := by
    ext j
    rw [Finset.mem_insert, Account.mem_workers, Account.mem_workers]
    constructor
    · rintro ⟨s, hs, hw⟩
      obtain hw | hw := Account.mem_launch.mp hw
      · exact .inr ⟨s, hs, hw⟩
      · exact .inl (congrArg Instance.id hw)
    · rintro (rfl | ⟨s, hs, hw⟩)
      · exact ⟨.pending, by decide, Account.mem_launch.mpr (.inr rfl)⟩
      · exact ⟨s, hs, Account.mem_launch.mpr (.inl hw)⟩
  rw [Account.fleetSize, hinsert, Finset.card_insert_of_notMem hnew]
  rfl

theorem fleetSize_create {w : Account} {id : InstanceId} (h : w.Fresh id) :
    ((w.launch id "worker" h).enqueue id).fleetSize = w.fleetSize+1 :=
  (fleetSize_congr rfl).trans (fleetSize_launch h)

theorem serves_creation_fleetSize {c : Call} {w w' : Account} {r : Answer c} (hc : Creation c)
    (h : Serves c w r w') : w'.fleetSize ≤ w.fleetSize+1 := by
  obtain ⟨name, rfl⟩ := hc
  obtain ⟨hf, rfl⟩ := h
  exact fleetSize_launch_le w r name hf

theorem serves_fleetSize {c : Call} {w w' : Account} {r : Answer c} (hc : ¬ Creation c)
    (h : Serves c w r w') : w'.fleetSize ≤ w.fleetSize := by
  obtain hi | ⟨j, name, hj, hcreate, _⟩ | ⟨j, f, hf, hi⟩ := serves_instances h
  · exact (fleetSize_congr hi).le
  · exact absurd ⟨name, hcreate⟩ hc
  · rw [fleetSize_congr hi]
    refine fleetSize_modify_le w j f fun s _ => ?_
    obtain rfl | rfl := hf <;> cases s <;> decide

theorem room_le {c : Call} {w w' : Account} {r : Answer c} {n : Nat} (h : Serves c w r w')
    (hn : room c r = some n) : n ≤ 8-w'.fleetSize := by
  cases c with
  | describeInstances f =>
    obtain ⟨rfl, rfl⟩ := h
    simp only [room] at hn
    split at hn
    next hf =>
      cases hn
      rw [hf]
      exact le_refl _
    next => cases hn
  | _ => cases hn

theorem env_fleetSize {elb : Account → Prop} {w w' : Account} (h : Env elb w w') :
    w'.fleetSize ≤ w.fleetSize := by
  cases h with
  | boot hid =>
    refine fleetSize_modify_le w _ _ fun s hs _ => ?_
    rw [hs.unique hid]
    decide
  | halt hid => exact fleetSize_modify_le w _ _ fun s _ h => absurd h (by decide)
  | health f hf h => exact le_refl _
  | drained id => exact le_refl _
  | metrics cpu => exact le_refl _

/-- A call that neither creates nor counts the fleet. -/
def Uncharged (c : Call) : Prop := ¬ Creation c ∧ ∀ r, room c r = none

theorem uncharged_listing {f : InstanceFilter} (h : f ≠ ⟨some nonTerminatedStates, "worker"⟩) :
    Uncharged (.describeInstances f) := by
  constructor
  · intro hc
    obtain ⟨name, hc⟩ := hc
    cases hc
  · intro r
    simp only [room, if_neg h]

theorem Call.Observes.uncharged {c : Call} (h : c.Observes) : Uncharged c := by
  cases c <;> simp_all [Call.Observes, Uncharged, Creation, room]

theorem Call.Destroys.uncharged {c : Call} (h : c.Destroys) : Uncharged c := by
  cases c <;> simp_all [Call.Destroys, Uncharged, Creation, room]

theorem Call.Registers.uncharged {c : Call} (h : c.Registers) : Uncharged c := by
  cases c <;> simp_all [Call.Registers, Uncharged, Creation, room]

theorem Call.Stores.uncharged {c : Call} (h : c.Stores) : Uncharged c := by
  cases c <;> simp_all [Call.Stores, Uncharged, Creation, room]

theorem room_count (r : List Instance) :
    room (.describeInstances ⟨some nonTerminatedStates, "worker"⟩) r = some (8-(ids r).card) := by
  simp [room]

theorem toCreate_le (ratio : ℚ) (n m : Nat) : (toCreate ratio n m).toNat ≤ 8-m := by
  simp only [toCreate]
  split <;> omega

theorem celeryCreateWorker_bounded : celeryCreateWorker.Bounded Creation 1 := by
  constructor
  · intro _
    refine ⟨0, rfl, fun id => Bounded.of_uses 0 ?_⟩
    exact Uses.request fun hc => by obtain ⟨_, hc⟩ := hc; cases hc
  · intro hc
    exact absurd ⟨_, rfl⟩ hc

theorem expandFleet_bounded (config : AutoScalingConfig) (n m : Nat) :
    (expandFleet config n m).Bounded Creation (8-m) := by
  unfold expandFleet
  split
  · trivial
  · cases config.expandRatio with
    | none => trivial
    | some ratio =>
      have hb := (celeryCreateWorker_bounded.times (toCreate ratio n m).toNat).mono (toCreate_le ratio n m)
      exact Bounded.bind hb fun _ => (Bounded.of_uses 0 (Uses.pure _))

theorem actOn_bounded (config : AutoScalingConfig) (n m : Nat) (avg : Num) :
    (actOn config n m avg).Bounded Creation (8-m) := by
  unfold actOn
  cases config.expandThreshold with
  | none => trivial
  | some et =>
    change (if avg.gt et = true then expandFleet config n m else _).Bounded Creation (8-m)
    split
    · exact expandFleet_bounded config n m
    · cases config.shrinkThreshold with
      | none => trivial
      | some st =>
        change (if avg.lt st = true then shrinkFleet config n else _).Bounded Creation (8-m)
        split
        · refine Bounded.of_uses _ ((shrinkFleet_uses config n).mono fun c h => ?_)
          cases h with
          | inl h => exact h.uncharged.1
          | inr h => exact h.uncharged.1
        · trivial

theorem checkCpuUtil_bounded (config : AutoScalingConfig) (n m : Nat) :
    (checkCpuUtil config n m).Bounded Creation (8-m) := by
  have hobs : allInstanceHasValidCpuUtil.Bounded Creation 0 :=
    Bounded.of_uses 0 (allInstanceHasValidCpuUtil_uses.mono fun c h => h.uncharged.1)
  have hb : (checkCpuUtil config n m).Bounded Creation (0+(8-m)) := by
    refine Bounded.bind hobs fun a => ?_
    split
    next =>
      split
      · trivial
      · exact actOn_bounded config n m _
  simpa using hb

theorem checkCpuUtil_ungranted (config : AutoScalingConfig) (n m : Nat) :
    (checkCpuUtil config n m).Ungranted room := by
  refine (checkCpuUtil_uses config n m).mono fun c h r => ?_
  cases c <;> simp_all [Call.Scales, Call.Creates, Call.Observes, Call.Destroys, room]

theorem scaleFleet_licensed (config : AutoScalingConfig) :
    (scaleFleet config).Licensed Creation room := by
  refine Licensed.bind (getServingInstances_uses.mono fun c h => h.uncharged) ?_
  intro serving
  refine Licensed.bind (getRunningInstances_uses.mono ?_) ?_
  · intro c hc
    rw [hc]
    exact uncharged_listing (by decide)
  · intro running
    dsimp only
    split
    · trivial
    · refine Licensed.request (fun hc => by obtain ⟨_, hc⟩ := hc; cases hc) fun r => ?_
      exact ⟨8-(ids r).card, room_count r, checkCpuUtil_bounded config _ _,
        checkCpuUtil_ungranted config _ _⟩

theorem hasPendingInstances_uncharged : hasPendingInstances.Uses Uncharged := by
  refine hasPendingInstances_uses.mono fun c hc => ?_
  rw [hc]
  exact uncharged_listing (by decide)

theorem reportIdle_uncharged : reportIdle.Uses Uncharged := by
  refine Uses.bind hasPendingInstances_uncharged fun b => ?_
  split <;> exact Uses.pure _

theorem tick_licensed : autoCheckAvgCpuUtilization.Licensed Creation room := by
  refine Licensed.bind (Uses.request (Call.Stores.uncharged trivial)) fun r => ?_
  cases r with
  | none => trivial
  | some config =>
    dsimp only
    split
    · refine Licensed.bind hasPendingInstances_uncharged fun b => ?_
      split
      · exact Licensed.of_uses reportIdle_uncharged
      · exact scaleFleet_licensed config
    · exact Licensed.of_uses reportIdle_uncharged

theorem createWorker_licensed : createWorker.Licensed Creation room := by
  refine Licensed.request (fun hc => by obtain ⟨_, hc⟩ := hc; cases hc) fun r => ?_
  refine ⟨8-(ids r).card, room_count r, ?_, ?_⟩
  · change (if (ids r).card ≥ 8 then _ else _ : Op Flash).Bounded Creation _
    split
    next => trivial
    next h =>
      have hb := Bounded.bind celeryCreateWorker_bounded
        fun _ => Bounded.of_uses 0 (Uses.pure Flash.created)
      exact hb.mono (by omega)
  · change (if (ids r).card ≥ 8 then _ else _ : Op Flash).Ungranted room
    split
    next => trivial
    next =>
      refine Uses.bind (celeryCreateWorker_uses.mono fun c h r => ?_) fun _ => Uses.pure _
      cases c <;> simp_all [Call.Creates, room]

theorem destroyEveryWorker_uncharged : destroyEveryWorker.Uses Uncharged := by
  refine Uses.bind (Uses.request (uncharged_listing (by decide))) fun r => ?_
  exact Uses.each r fun i _ =>
    (destroyAWorker_uses i.id).mono fun c h => h.uncharged

theorem randomDestroyWorker_uncharged (k : ℤ) : (randomDestroyWorker k).Uses Uncharged := by
  refine (randomDestroyWorker_uses k).mono fun c h => ?_
  cases h with
  | inl h => exact h.uncharged
  | inr h => exact h.uncharged

/-- Every operation but the start of the process counts before it creates. -/
theorem program_licensed (o : Operation) (ho : o ≠ .processStart) :
    o.program.Licensed Creation room := by
  cases o with
  | tick => exact Licensed.append tick_licensed fun _ => Uses.pure _
  | createWorker => exact Licensed.append createWorker_licensed fun _ => Uses.pure _
  | destroyWorker =>
    refine Licensed.of_uses (Uses.forget (Uses.bind (randomDestroyWorker_uncharged 1) fun b => ?_))
    split <;> exact Uses.pure _
  | detailDestroyWorker id =>
    exact Licensed.of_uses
      ((destroyAWorker_uses id).mono fun c h => h.uncharged)
  | destroyAll => exact Licensed.of_uses destroyEveryWorker_uncharged
  | apply form =>
    exact Licensed.of_uses (Uses.forget
      ((apply_uses form).mono fun c h => h.uncharged))
  | turnOn =>
    exact Licensed.of_uses
      (turnOn_uses.mono fun c h => h.uncharged)
  | registerInstance id =>
    exact Licensed.of_uses
      ((registerInstanceToElb_uses id).mono fun c h => h.uncharged)
  | processStart => exact absurd rfl ho
  | stopManager =>
    refine Licensed.of_uses (Uses.bind destroyEveryWorker_uncharged fun _ => ?_)
    refine Uses.bind (Uses.request (uncharged_listing (by decide))) fun r => ?_
    exact Uses.each r fun i _ => Uses.request (by simp [Creation, room])

section serial
variable {faults : Call → Account → Prop} {elb : Account → Prop} {w w₀ w₁ w' : Account}

theorem visits_fleetSize {o : Operation} (ho : o ≠ .processStart) (hb : o.Begins w w₁)
    (hv : Visits (services faults) o.program w₁ w') : w'.fleetSize ≤ max w.fleetSize 8 := by
  rw [← fleetSize_congr hb.instances]
  exact hv.size_le_cap (program_licensed o ho) (fun c w r w' hc h => serves_creation_fleetSize hc h)
    (fun c w r w' hc h => serves_fleetSize hc h) (fun c w r w' n h hn => room_le h hn)

theorem processStart_fleetSize (hv : Visits (services faults) processStart w w') :
    w'.fleetSize ≤ w.fleetSize+1 := by
  have hb : processStart.Bounded Creation (0+1) := by
    refine Bounded.bind (Bounded.of_uses 0 (Uses.request ?_)) fun _ => celeryCreateWorker_bounded
    exact (Call.Stores.uncharged (c := .recreateTable) trivial).1
  exact hv.size_le hb (fun c w r w' hc h => serves_creation_fleetSize hc h)
    (fun c w r w' hc h => serves_fleetSize hc h)

theorem step_fleetSize {m : Move} (hm : m ≠ .op .processStart)
    (hs : SerialStep faults elb w m w') : w'.fleetSize ≤ max w.fleetSize 8 := by
  cases hs with
  | op hb hr => exact visits_fleetSize (fun ho => hm (congrArg Move.op ho)) hb hr.visits
  | env h => exact (env_fleetSize h).trans (le_max_left _ _)

/-- From an account without workers, the fleet stays within 8 and one more for every start
of the process; no other operation takes it past 8, or further past 8, at any point. -/
theorem fleet_cap_serial {ms : List Move} (h₀ : ∀ id s, ¬ w₀.Worker id s)
    (hr : SerialRun faults elb w₀ ms w) :
    w.fleetSize ≤ 8+ms.count (.op .processStart) ∧
    (∀ m w', m ≠ .op .processStart → SerialStep faults elb w m w' →
      w'.fleetSize ≤ max w.fleetSize 8) ∧
    ∀ (o : Operation) (w₁ w' : Account), o ≠ .processStart → o.Begins w w₁ → Visits (services faults) o.program w₁ w' →
      w'.fleetSize ≤ max w.fleetSize 8 := by
  refine ⟨?_, fun m w' hm hs => step_fleetSize hm hs, fun o w₁ w' ho hb hv => visits_fleetSize ho hb hv⟩
  refine hr.invariant (I := fun ms w => w.fleetSize ≤ 8+ms.count (.op .processStart)) ?_ ?_
  · have hempty : w₀.workers nonTerminatedStates = ∅ := by
      refine Finset.eq_empty_of_forall_notMem fun id hid => ?_
      obtain ⟨s, _, hw⟩ := Account.mem_workers.mp hid
      exact h₀ id s hw
    simp [Account.fleetSize, hempty]
  · intro ms w₁ m w₂ ih hs
    by_cases hm : m = .op .processStart
    · subst hm
      rw [List.count_cons_self]
      cases hs with
      | op hb hr =>
        have hstart := processStart_fleetSize hr.visits
        have hbegin := fleetSize_congr hb.instances
        omega
    · have hstep := step_fleetSize hm hs
      rw [List.count_cons_of_ne hm]
      omega

end serial

theorem createWorker_refused {w : Account} (h : 8 ≤ w.fleetSize) :
    Runs (services noFaults) createWorker w (.ok .maximumLimit) w := by
  rw [createWorker, yields_nonTerminated.runs_bind]
  change Runs _ (if w.fleetSize ≥ 8 then _ else _) w _ _
  rw [if_pos h]
  exact ⟨rfl, rfl⟩

section filled
variable {w : Account} (elb : Account → Prop)

theorem createWorker_adds (h : w.fleetSize < 8) :
    ∃ w', SerialStep noFaults elb w (.op .createWorker) w' ∧ w'.fleetSize = w.fleetSize+1 := by
  obtain ⟨id, hid⟩ := w.exists_fresh
  have hcreate : Runs (services noFaults) createWorker w (.ok .created)
      ((w.launch id "worker" hid).enqueue id) := by
    rw [createWorker, yields_nonTerminated.runs_bind]
    change Runs _ (if w.fleetSize ≥ 8 then _ else _) w _ _
    rw [if_neg (not_le.mpr h)]
    exact (runs_celeryCreateWorker.mpr ⟨rfl, id, hid, rfl⟩).bind ⟨rfl, rfl⟩
  exact ⟨_, .op rfl (hcreate.bind ⟨rfl, rfl⟩), fleetSize_create hid⟩

theorem processStart_adds :
    ∃ w', SerialStep noFaults elb w (.op .processStart) w' ∧ w'.fleetSize = w.fleetSize+1 := by
  obtain ⟨id, hid⟩ := Account.exists_fresh { w with table := .empty }
  refine ⟨_, .op rfl (.inl ⟨(), _, rfl, runs_celeryCreateWorker.mpr ⟨rfl, id, hid, rfl⟩⟩), ?_⟩
  exact (fleetSize_create hid).trans (congrArg (·+1) (fleetSize_congr rfl))

/-- Create requests one after the other, as many as there is room for. -/
theorem creates_fill {n : Nat} (hn : n ≤ 8) : ∃ w,
    SerialRun noFaults elb Account.vacant (List.replicate n (.op .createWorker)) w ∧ w.fleetSize = n := by
  induction n with
  | zero => exact ⟨Account.vacant, .nil, rfl⟩
  | succ n ih =>
    obtain ⟨w, hr, hsize⟩ := ih (by omega)
    obtain ⟨w', hs, hsize'⟩ := createWorker_adds elb (w := w) (by omega)
    exact ⟨w', .cons hr hs, by omega⟩

end filled

/-- Eight create requests fill the fleet, the ninth is refused, and a start of the process passes
the cap by the one worker that it is allowed. -/
theorem fleet_cap_serial_filled : (∀ id s, ¬ Account.vacant.Worker id s) ∧
    ∃ w w', SerialRun noFaults (fun _ => True) Account.vacant (List.replicate 9 (.op .createWorker)) w ∧
      w.fleetSize = 8 ∧
      SerialRun noFaults (fun _ => True) Account.vacant
        (.op .processStart :: List.replicate 9 (.op .createWorker)) w' ∧
      w'.fleetSize = 9 ∧ w'.fleetSize ≤ 8+1 := by
  have h₀ : ∀ id s, ¬ Account.vacant.Worker id s := fun id s h => List.not_mem_nil h
  obtain ⟨w, hr, hsize⟩ := creates_fill (fun _ => True) (le_refl 8)
  have hnine : SerialRun noFaults (fun _ => True) Account.vacant (List.replicate 9 (.op .createWorker)) w :=
    .cons hr (.op rfl ((createWorker_refused hsize.ge).bind ⟨rfl, rfl⟩))
  obtain ⟨w', hs, hsize'⟩ := processStart_adds (fun _ => True) (w := w)
  refine ⟨h₀, w, w', hnine, hsize, .cons hnine hs, by omega, ?_⟩
  exact (fleet_cap_serial h₀ (.cons hnine hs)).1

end OdwaManager
