import OdwaManager.Fleet

/-! cpu.py and background.py: the CPU averages and the periodic auto-scaling tick. The doubles of
both are exact rationals here: no mean and no product with a ratio is rounded, and none overflows,
so that `Num`, `toCreate` and `toDestroy` agree with the code where the doubles are exact. -/
namespace OdwaManager
open Effect Program

/-- A numpy float: a number, taken exactly, or NaN. -/
inductive Num where
  | nan
  | val (q : ℚ)
  deriving DecidableEq

def Num.gt : Num → ℚ → Bool
  | .nan, _ => false
  | .val q, t => decide (q > t)

def Num.lt : Num → ℚ → Bool
  | .nan, _ => false
  | .val q, t => decide (q < t)

/-- The numbers of a list, unless one of them is NaN. -/
def Num.values : List Num → Option (List ℚ)
  | [] => some []
  | .nan :: _ => none
  | .val q :: l => (Num.values l).map (q :: ·)

/-- np.mean: NaN for the empty list and for a list with a NaN. -/
def npMean (l : List Num) : Num :=
  match Num.values l with
  | none => .nan
  | some [] => .nan
  | some qs => .val (qs.sum / qs.length)

/-- int(): truncation toward zero. -/
def pyInt (q : ℚ) : ℤ := if 0 ≤ q then ⌊q⌋ else ⌈q⌉

/-- Arithmetic or an order comparison with a null column is a TypeError. -/
def numeric : Option ℚ → Op ℚ
  | none => .raise .typeError
  | some q => pure q

/- cpu.py -/

def getSingleInstanceCpuUtil (id : InstanceId) (seconds : Nat) : Op (List ℚ) :=
  ask (.getMetricStatistics id seconds)

def collectCpuStats : List InstanceId → List Num → Op (List Num)
  | [], cpuStatsList => pure cpuStatsList
  | id :: rest, cpuStatsList => do
    let cpuStats ← getSingleInstanceCpuUtil id 120
    if cpuStats.length ≠ 0 then
      collectCpuStats rest (cpuStatsList ++ [npMean (cpuStats.map .val)])
    else collectCpuStats rest cpuStatsList

def getAvgCpuUtilization2 : Op (Option Num) := do
  let (inserviceInstancesId, _) ← getServingInstances
  if inserviceInstancesId.card = 0 then return none
  let order ← ask (.iterate inserviceInstancesId)
  let cpuStatsList ← collectCpuStats order []
  if cpuStatsList.length ≠ 0 then return some (npMean cpuStatsList)
  return none

/- background.py -/

/-- The loop of allInstanceHasValidCpuUtil, which gives up at the first worker without data. -/
def gatherCpuStats : List InstanceId → List Num → Op (Bool × Num)
  | [], cpuStatsList => pure (true, npMean cpuStatsList)
  | workerId :: rest, cpuStatsList => do
    let cpuStats ← getSingleInstanceCpuUtil workerId 120
    if cpuStats.length = 0 then return (false, .val 0)
    gatherCpuStats rest (cpuStatsList ++ [npMean (cpuStats.map .val)])

def allInstanceHasValidCpuUtil : Op (Bool × Num) := do
  let (workersIds, _) ← getServingInstances
  let order ← ask (.iterate workersIds)
  gatherCpuStats order []

/-- What a tick prints last. -/
inductive TickReport where
  | noConfig
  | notInService
  | noCpuUtilYet
  | reachesLimit
  | expand (toCreate : ℤ)
  | shrink (toDestroy : ℤ)
  | withinRange
  | pendingInstances
  | configOff
  deriving DecidableEq, Repr

/-- The number of workers to create, clamped so that the fleet does not pass 8. The product, a double
in the code, is exact. -/
def toCreate (expandRatio : ℚ) (numWorkers numNonTerminated : Nat) : ℤ :=
  let wanted := ⌈(expandRatio - 1) * numWorkers⌉
  if wanted + numNonTerminated ≥ 8 then max (8 - (numNonTerminated : ℤ)) 0 else wanted

/-- The number of workers to destroy. The product is exact here as well. -/
def toDestroy (shrinkRatio : ℚ) (numWorkers : Nat) : ℤ := pyInt (shrinkRatio * numWorkers)

def expandFleet (config : AutoScalingConfig) (numWorkers numNonTerminated : Nat) : Op TickReport := do
  if numNonTerminated ≥ 8 then return .reachesLimit
  let ratio ← numeric config.expandRatio
  let n := toCreate ratio numWorkers numNonTerminated
  times n.toNat celeryCreateWorker
  return .expand n

def shrinkFleet (config : AutoScalingConfig) (numWorkers : Nat) : Op TickReport := do
  let ratio ← numeric config.shrinkRatio
  let n := toDestroy ratio numWorkers
  if n > 0 then
    let _ ← randomDestroyWorker n
    return .shrink n
  else return .shrink n

/-- The two thresholds against the average. -/
def actOn (config : AutoScalingConfig) (numWorkers numNonTerminated : Nat) (avgCpuUtil : Num) :
    Op TickReport := do
  let expandThreshold ← numeric config.expandThreshold
  if avgCpuUtil.gt expandThreshold then expandFleet config numWorkers numNonTerminated
  else
    let shrinkThreshold ← numeric config.shrinkThreshold
    if avgCpuUtil.lt shrinkThreshold then shrinkFleet config numWorkers
    else return .withinRange

/-- The tick once every running worker is in service and the fleet is counted. -/
def checkCpuUtil (config : AutoScalingConfig) (numWorkers numNonTerminated : Nat) :
    Op TickReport := do
  let (allHasCpuUtil, avgCpuUtil) ← allInstanceHasValidCpuUtil
  if !allHasCpuUtil then return .noCpuUtilYet
  actOn config numWorkers numNonTerminated avgCpuUtil

/-- The tick once auto scaling is on and nothing is pending. -/
def scaleFleet (config : AutoScalingConfig) : Op TickReport := do
  let (_, numWorkers) ← getServingInstances
  let (_, numRunningInstances) ← getRunningInstances
  if numWorkers ≠ numRunningInstances then return .notInService
  let (_, numNonTerminated) ← getNonTerminatedInstances
  checkCpuUtil config numWorkers numNonTerminated

/-- The second look at the pending instances, in the elif. -/
def reportIdle : Op TickReport := do
  if ← hasPendingInstances then return .pendingInstances
  return .configOff

def autoCheckAvgCpuUtilization : Op TickReport := do
  match ← ask .queryFirst with
  | none => return .noConfig
  | some config =>
    if config.isOn then
      if ← hasPendingInstances then reportIdle
      else scaleFleet config
    else reportIdle

def recordServingInstancesAvgCpuUtil : Op Unit := do
  let (workersIds, numWorkers) ← getServingInstances
  ask (.putMetricData .numWorkersAverage numWorkers)
  let avgCpuUtil ← averageOf workersIds numWorkers
  match avgCpuUtil with
  | .val v => ask (.putMetricData .avgCpuUtil v)
  | .nan => .raise .clientError
where
  averageOf (workersIds : Finset InstanceId) (numWorkers : Nat) : Op Num := do
    if numWorkers ≠ 0 then
      let order ← ask (.iterate workersIds)
      let cpuStatsList ← collectCpuStats order []
      if cpuStatsList.length ≠ 0 then return npMean cpuStatsList
      return .val 0
    return .val 0

end OdwaManager
