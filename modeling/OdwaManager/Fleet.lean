import OdwaManager.Services

/-! instances.py, loadbalancer.py and the fleet operations of worker.py, call by call. -/
namespace OdwaManager
open Effect Program

/- instances.py -/

def runningStates : List InstanceState := [.running]
def nonTerminatedStates : List InstanceState := [.running, .pending, .shuttingDown]
def pendingStates : List InstanceState := [.pending]

/-- The number the cap is about. -/
def Account.fleetSize (w : Account) : Nat := (w.workers nonTerminatedStates).card

def getRunningInstances : Op (List Instance × Nat) := do
  let instances ← ask (.describeInstances ⟨some runningStates, "worker"⟩)
  return (instances, (ids instances).card)

def getNonTerminatedInstances : Op (List Instance × Nat) := do
  let instances ← ask (.describeInstances ⟨some nonTerminatedStates, "worker"⟩)
  return (instances, (ids instances).card)

def hasPendingInstances : Op Bool := do
  let instances ← ask (.describeInstances ⟨some pendingStates, "worker"⟩)
  if instances.length = 0 then return false
  return true

/- loadbalancer.py -/

def healthCheck : Op (List Target) := ask .describeTargetHealth

def deregisterFromElb (id : InstanceId) : Op Unit := ask (.deregisterTargets id)

/-- The body of the Celery task that celeryCreateWorker queues. -/
def registerInstanceToElb (id : InstanceId) : Op Unit := do
  ask (.waitRunning id)
  ask (.associateProfile id)
  ask (.registerTargets id)

def addHealthy (inservice : Finset InstanceId) (t : Target) : Finset InstanceId :=
  if t.state = .healthy then insert t.id inservice else inservice

def inserviceIds (response : List Target) : Finset InstanceId := response.foldl addHealthy ∅

def getServingInstances : Op (Finset InstanceId × Nat) := do
  let response ← healthCheck
  return (inserviceIds response, (inserviceIds response).card)

/- worker.py -/

def celeryCreateWorker : Op Unit := do
  let id ← ask (.createInstances "worker")
  ask (.applyAsync id)

def destroyAWorker (id : InstanceId) : Op Unit := do
  deregisterFromElb id
  match ← ask (.describeInstance id) with
  | [] => .raise .indexError
  | inst :: _ => ask (.terminate inst.id)

/-- random.sample of a set: too large or negative a size is a ValueError. -/
def randomSample (s : Finset InstanceId) (k : ℤ) : Op (List InstanceId) :=
  if 0 ≤ k ∧ k ≤ s.card then ask (.sample s k.toNat) else .raise .valueError

/-- `false` is the False of the empty pool, `true` the None of a finished loop. -/
def randomDestroyWorker (toDestroy : ℤ) : Op Bool := do
  let (workersId, numRunningWorkers) ← getServingInstances
  if numRunningWorkers = 0 then return false
  let workersToDestroyId ← randomSample workersId toDestroy
  each workersToDestroyId destroyAWorker
  return true

end OdwaManager
