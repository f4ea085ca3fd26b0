import OdwaManager.Charts
import OdwaManager.Services

/-! The half-hour charts of cpu.py and worker.py: one query of CloudWatch each, put in order
for the chart. -/
namespace OdwaManager
open Effect Program

inductive MetricName where
  | cpuUtilization | avgCpuUtil | numWorkersAverage | httpRequestRate
  deriving DecidableEq, Repr

/-- cw.get_metric_statistics from `seconds` ago until now, in the namespace AWS/EC2. -/
structure StatisticsQuery where
  metric : MetricName
  instance_ : InstanceId
  statistic : Statistic
  period : Nat
  seconds : Nat
  deriving DecidableEq

abbrev Chart := List String × List ℚ × ℚ

abbrev ChartOp := Program StatisticsQuery (fun _ => List Datapoint) PyError

def chartOf (query : StatisticsQuery) : ChartOp Chart := do
  let stats ← request query
  return returnLabelValues stats query.statistic

/-- The instance under whose id the manager publishes. -/
def recordedId : InstanceId := "i-078f69c8c9c0097d6"

/- cpu.py -/

def getCpuUtilization30 (id : InstanceId) : ChartOp Chart :=
  chartOf ⟨.cpuUtilization, id, .average, 1*60, 30*60⟩

def getAvgCpuUtilization30 : ChartOp Chart :=
  chartOf ⟨.avgCpuUtil, recordedId, .average, 60, 30*60⟩

/- worker.py -/

def getNumWorkers30 : ChartOp Chart :=
  chartOf ⟨.numWorkersAverage, recordedId, .average, 1*60, 30*60⟩

def getHttpRate (id : InstanceId) : ChartOp Chart :=
  chartOf ⟨.httpRequestRate, id, .sum, 1*60, 30*60⟩

end OdwaManager
