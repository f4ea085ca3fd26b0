import OdwaManager.Scaler

/-! The request handlers of the four blueprints and the start of the manager process. -/
namespace OdwaManager
open Effect Program

inductive Flash where
  | policyApplied
  | maximumLimit
  | created
  | noAvailableWorkers
  | deleted
  deriving DecidableEq, Repr

/- autoscaling/view.py -/

/-- The four fields of the policy form; a missing field is None. -/
structure Form where
  expandThreshold : Option ℚ
  shrinkThreshold : Option ℚ
  expandRatio : Option ℚ
  shrinkRatio : Option ℚ
  deriving DecidableEq

/-- A column is in the SET clause when its value changed: the text of a form field never
equals the stored float, so only null over null is no change. -/
def setColumn (old new : Option ℚ) : Option (Option ℚ) :=
  if old = none ∧ new = none then none else some new

def setIsOn (old new : Bool) : Option Bool := if old = new then none else some new

/-- db.session.commit after changing a row that was read with `read.isOn` as its key. -/
def commitChanges (read : AutoScalingConfig) (changes : Changes) : Op Unit :=
  if changes = Changes.none then pure () else ask (.updateConfig read.isOn changes)

def apply (form : Form) : Op Flash := do
  let expandThreshold := form.expandThreshold
  let shrinkThreshold := form.shrinkThreshold
  let expandRatio := form.expandRatio
  let shrinkRatio := form.shrinkThreshold
  match ← ask .queryFirst with
  | none =>
    ask (.insertConfig {
      isOn := true
      shrinkRatio := shrinkRatio
      expandRatio := expandRatio
      shrinkThreshold := shrinkThreshold
      expandThreshold := expandThreshold })
  | some config =>
    commitChanges config {
      isOn := setIsOn config.isOn true
      shrinkRatio := setColumn config.shrinkRatio shrinkRatio
      expandRatio := setColumn config.expandRatio expandRatio
      shrinkThreshold := setColumn config.shrinkThreshold shrinkThreshold
      expandThreshold := setColumn config.expandThreshold expandThreshold }
  return .policyApplied

/- manualscaling/view.py -/

def createWorker : Op Flash := do
  let (_, nonTerminatedInstances) ← getNonTerminatedInstances
  if nonTerminatedInstances ≥ 8 then return .maximumLimit
  celeryCreateWorker
  return .created

def destroyWorker : Op Flash := do
  let isDeleted ← randomDestroyWorker 1
  if isDeleted = false then return .noAvailableWorkers
  return .deleted

def turnOn : Op Unit := do
  match ← ask .queryFirst with
  | none => .raise .attributeError
  | some config => commitChanges config { Changes.none with isOn := setIsOn config.isOn false }

/- detail/view.py and panel/view.py -/

def destroyEveryWorker : Op Unit := do
  let instances ← ask (.describeInstances ⟨none, "worker"⟩)
  each instances fun inst => destroyAWorker inst.id

def destroyAll : Op Unit := destroyEveryWorker

def stopManager : Op Unit := do
  destroyEveryWorker
  let managers ← ask (.describeInstances ⟨none, "Manager"⟩)
  each managers fun manager => ask (.stop manager.id)

/- run.py: importing src recreates the table, then one worker is created unchecked. -/

def processStart : Op Unit := do
  ask .recreateTable
  celeryCreateWorker

/-- The operations that change the fleet or the policy. -/
inductive Operation where
  | tick
  | createWorker
  | destroyWorker
  | detailDestroyWorker (id : InstanceId)
  | destroyAll
  | apply (form : Form)
  | turnOn
  | registerInstance (id : InstanceId)
  | processStart
  | stopManager
  deriving DecidableEq

def Operation.program : Operation → Op Unit
  | .tick => autoCheckAvgCpuUtilization.forget
  | .createWorker => OdwaManager.createWorker.forget
  | .destroyWorker => OdwaManager.destroyWorker.forget
  | .detailDestroyWorker id => destroyAWorker id
  | .destroyAll => OdwaManager.destroyAll
  | .apply form => (OdwaManager.apply form).forget
  | .turnOn => OdwaManager.turnOn
  | .registerInstance id => registerInstanceToElb id
  | .processStart => OdwaManager.processStart
  | .stopManager => OdwaManager.stopManager

/-- What beginning an operation does to the account: Celery takes the task it runs off
the queue, and does not put it back. -/
def Operation.Begins : Operation → Account → Account → Prop
  | .registerInstance id, w, w' => id ∈ w.queue ∧ w' = w.dequeue id
  | _, w, w' => w' = w

end OdwaManager
