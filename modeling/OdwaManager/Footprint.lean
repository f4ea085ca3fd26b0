import OdwaManager.Handlers

/-! Which calls each function of the manager can make, whatever it is answered. -/
namespace OdwaManager
open Effect Program

namespace Call

/-- Reads of the load balancer and the metrics, and the choices of the Python runtime. -/
def Observes : Call → Prop
  | .describeTargetHealth | .getMetricStatistics _ _ | .iterate _ | .sample _ _ => True
  | _ => False

def Lists : Call → Prop
  | .describeInstances _ => True
  | _ => False

def Creates : Call → Prop
  | .createInstances _ | .applyAsync _ => True
  | _ => False

def Destroys : Call → Prop
  | .deregisterTargets _ | .describeInstance _ | .terminate _ => True
  | _ => False

def Registers : Call → Prop
  | .waitRunning _ | .associateProfile _ | .registerTargets _ => True
  | _ => False

/-- The database. -/
def Stores : Call → Prop
  | .queryFirst | .insertConfig _ | .updateConfig _ _ | .recreateTable => True
  | _ => False

end Call

theorem hasPendingInstances_uses :
    hasPendingInstances.Uses fun c => c = .describeInstances ⟨some pendingStates, "worker"⟩ := by
  refine Uses.bind (Uses.request rfl) fun r => ?_
  split <;> exact Uses.pure _

theorem getRunningInstances_uses :
    getRunningInstances.Uses fun c => c = .describeInstances ⟨some runningStates, "worker"⟩ :=
  Uses.bind (Uses.request rfl) fun _ => Uses.pure _

theorem getNonTerminatedInstances_uses :
    getNonTerminatedInstances.Uses fun c =>
      c = .describeInstances ⟨some nonTerminatedStates, "worker"⟩ :=
  Uses.bind (Uses.request rfl) fun _ => Uses.pure _

theorem getServingInstances_uses : getServingInstances.Uses Call.Observes :=
  Uses.bind (Uses.request trivial) fun _ => Uses.pure _

theorem numeric_uses (q : Option ℚ) (allowed : Call → Prop) : (numeric q).Uses allowed := by
  cases q with
  | none => trivial
  | some q => exact Uses.pure _

theorem gatherCpuStats_uses (order : List InstanceId) (stats : List Num) :
    (gatherCpuStats order stats).Uses Call.Observes := by
  induction order generalizing stats with
  | nil => exact Uses.pure _
  | cons id rest ih =>
    refine Uses.bind (Uses.request trivial) fun r => ?_
    split
    · exact Uses.pure _
    · exact ih _

theorem allInstanceHasValidCpuUtil_uses : allInstanceHasValidCpuUtil.Uses Call.Observes := by
  refine Uses.bind getServingInstances_uses fun a => ?_
  exact Uses.bind (Uses.request trivial) fun order => gatherCpuStats_uses order []

theorem celeryCreateWorker_uses : celeryCreateWorker.Uses Call.Creates :=
  Uses.bind (Uses.request trivial) fun _ => Uses.request trivial

theorem destroyAWorker_uses (id : InstanceId) : (destroyAWorker id).Uses Call.Destroys := by
  refine Uses.bind (Uses.request trivial) fun _ => ?_
  refine Uses.bind (Uses.request trivial) fun r => ?_
  cases r with
  | nil => trivial
  | cons i r => exact Uses.request trivial

theorem randomSample_uses (s : Finset InstanceId) (k : ℤ) :
    (randomSample s k).Uses Call.Observes := by
  unfold randomSample
  split
  · exact Uses.request trivial
  · trivial

theorem randomDestroyWorker_uses (k : ℤ) :
    (randomDestroyWorker k).Uses fun c => c.Observes ∨ c.Destroys := by
  refine Uses.bind (getServingInstances_uses.mono fun c h => .inl h) fun a => ?_
  split
  next =>
    split
    · exact Uses.pure _
    · refine Uses.bind ((randomSample_uses _ _).mono fun c h => .inl h) fun l => ?_
      refine Uses.bind (Uses.each l fun id _ => ?_) fun _ => Uses.pure _
      exact (destroyAWorker_uses id).mono fun c h => .inr h

theorem registerInstanceToElb_uses (id : InstanceId) :
    (registerInstanceToElb id).Uses Call.Registers :=
  Uses.bind (Uses.request trivial) fun _ =>
    Uses.bind (Uses.request trivial) fun _ => Uses.request trivial

theorem commitChanges_uses (read : AutoScalingConfig) (changes : Changes) :
    (commitChanges read changes).Uses Call.Stores := by
  unfold commitChanges
  split
  · exact Uses.pure _
  · exact Uses.request trivial

theorem apply_uses (form : Form) : (apply form).Uses Call.Stores := by
  refine Uses.bind (Uses.request trivial) fun r => ?_
  cases r with
  | none => exact Uses.bind (Uses.request trivial) fun _ => Uses.pure _
  | some config => exact Uses.bind (commitChanges_uses _ _) fun _ => Uses.pure _

theorem turnOn_uses : turnOn.Uses Call.Stores := by
  refine Uses.bind (Uses.request trivial) fun r => ?_
  cases r with
  | none => trivial
  | some config => exact commitChanges_uses _ _

theorem destroyEveryWorker_uses :
    destroyEveryWorker.Uses fun c => c.Lists ∨ c.Destroys := by
  refine Uses.bind (Uses.request (.inl trivial)) fun r => Uses.each r fun i _ => ?_
  exact (destroyAWorker_uses i.id).mono fun c h => .inr h

theorem stopManager_uses :
    stopManager.Uses fun c => (c.Lists ∨ c.Destroys) ∨ ∃ id, c = .stop id := by
  refine Uses.bind (destroyEveryWorker_uses.mono fun c h => .inl h) fun _ => ?_
  refine Uses.bind (Uses.request (.inl (.inl trivial))) fun r => Uses.each r fun i _ => ?_
  exact Uses.request (.inr ⟨_, rfl⟩)

theorem shrinkFleet_uses (config : AutoScalingConfig) (n : Nat) :
    (shrinkFleet config n).Uses fun c => c.Observes ∨ c.Destroys := by
  refine Uses.bind (numeric_uses _ _) fun ratio => ?_
  dsimp only
  split
  · exact Uses.bind (randomDestroyWorker_uses _) fun _ => Uses.pure _
  · exact Uses.pure _

theorem expandFleet_uses (config : AutoScalingConfig) (n m : Nat) :
    (expandFleet config n m).Uses Call.Creates := by
  unfold expandFleet
  split
  · exact Uses.pure _
  · refine Uses.bind (numeric_uses _ _) fun ratio => ?_
    exact Uses.bind (Uses.times _ celeryCreateWorker_uses) fun _ => Uses.pure _

/-- What a tick may call once it is past its first reads. -/
def Call.Scales (c : Call) : Prop := c.Observes ∨ c.Creates ∨ c.Destroys

theorem actOn_uses (config : AutoScalingConfig) (n m : Nat) (avg : Num) :
    (actOn config n m avg).Uses Call.Scales := by
  refine Uses.bind (numeric_uses _ _) fun et => ?_
  split
  · exact (expandFleet_uses config n m).mono fun c h => .inr (.inl h)
  · refine Uses.bind (numeric_uses _ _) fun st => ?_
    split
    · exact (shrinkFleet_uses config n).mono fun c h => h.imp_right .inr
    · exact Uses.pure _

theorem checkCpuUtil_uses (config : AutoScalingConfig) (n m : Nat) :
    (checkCpuUtil config n m).Uses Call.Scales := by
  refine Uses.bind (allInstanceHasValidCpuUtil_uses.mono fun c h => .inl h) fun a => ?_
  dsimp only
  split
  · exact Uses.pure _
  · exact actOn_uses config n m a.2

theorem scaleFleet_uses (config : AutoScalingConfig) :
    (scaleFleet config).Uses fun c => c.Lists ∨ c.Scales := by
  refine Uses.bind (getServingInstances_uses.mono fun c h => .inr (.inl h)) fun a => ?_
  refine Uses.bind (getRunningInstances_uses.mono fun c h => .inl (h ▸ trivial)) fun b => ?_
  dsimp only
  split
  · exact Uses.pure _
  · refine Uses.bind (getNonTerminatedInstances_uses.mono fun c h => .inl (h ▸ trivial)) fun m => ?_
    exact (checkCpuUtil_uses config a.2 m.2).mono fun c h => .inr h

theorem reportIdle_uses : reportIdle.Uses Call.Lists := by
  refine Uses.bind (hasPendingInstances_uses.mono fun c h => h ▸ trivial) fun b => ?_
  split <;> exact Uses.pure _

theorem tick_uses :
    autoCheckAvgCpuUtilization.Uses fun c => c = .queryFirst ∨ c.Lists ∨ c.Scales := by
  refine Uses.bind (Uses.request (.inl rfl)) fun r => ?_
  cases r with
  | none => exact Uses.pure _
  | some config =>
    dsimp only
    split
    · refine Uses.bind (hasPendingInstances_uses.mono fun c h => .inr (.inl (h ▸ trivial))) fun b => ?_
      split
      · exact reportIdle_uses.mono fun c h => .inr (.inl h)
      · exact (scaleFleet_uses config).mono fun c h => .inr h
    · exact reportIdle_uses.mono fun c h => .inr (.inl h)

end OdwaManager
