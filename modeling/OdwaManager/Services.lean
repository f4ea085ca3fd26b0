import OdwaManager.Account
import OdwaManager.Effect.Serial

/-! The outside of the manager: EC2, the load balancer, CloudWatch, the Celery broker and
the policy database. A read answers with the account as it is; what a library call leaves
open (a new id, the order of a set, a random sample) is any answer that fits. -/
namespace OdwaManager
open Effect

inductive PyError where
  | typeError | valueError | indexError | attributeError
  | clientError | waiterError | integrityError | staleDataError
  deriving DecidableEq, Repr

inductive Metric where
  | numWorkersAverage | avgCpuUtil
  deriving DecidableEq, Repr

inductive Call where
  | describeInstances (filter : InstanceFilter)
  | describeInstance (id : InstanceId)
  | createInstances (name : String)
  | terminate (id : InstanceId)
  | stop (id : InstanceId)
  | waitRunning (id : InstanceId)
  | associateProfile (id : InstanceId)
  | describeTargetHealth
  | registerTargets (id : InstanceId)
  | deregisterTargets (id : InstanceId)
  | applyAsync (id : InstanceId)
  | getMetricStatistics (id : InstanceId) (seconds : Nat)
  | putMetricData (metric : Metric) (value : ℚ)
  | queryFirst
  | insertConfig (row : AutoScalingConfig)
  | updateConfig (key : Bool) (changes : Changes)
  | recreateTable
  | iterate (s : Finset InstanceId)
  | sample (s : Finset InstanceId) (k : Nat)
  deriving DecidableEq

abbrev Answer : Call → Type
  | .describeInstances _ | .describeInstance _ => List Instance
  | .createInstances _ => InstanceId
  | .describeTargetHealth => List Target
  | .getMetricStatistics _ _ => List ℚ
  | .queryFirst => Option AutoScalingConfig
  | .iterate _ | .sample _ _ => List InstanceId
  | _ => Unit

abbrev Op := Program Call Answer PyError

abbrev ask (c : Call) : Op (Answer c) := Program.request c

/-- An IAM profile can be attached until the instance is on its way out. -/
def Account.Attachable (w : Account) (id : InstanceId) : Prop :=
  ∃ s, w.InState id s ∧ s ≠ .shuttingDown ∧ s ≠ .terminated

/-- EC2 refuses to stop an instance that is not up yet or is on its way out. -/
def Account.Stoppable (w : Account) (id : InstanceId) : Prop :=
  ∃ s, w.InState id s ∧ s ≠ .pending ∧ s ≠ .shuttingDown ∧ s ≠ .terminated

def Serves : (c : Call) → Account → Answer c → Account → Prop
  | .describeInstances f, w, r, w' => r = w.listed f ∧ w' = w
  | .describeInstance id, w, r, w' => r = w.instances.filter (fun i => i.id = id) ∧ w' = w
  | .createInstances name, w, id, w' => ∃ h : w.Fresh id, w' = w.launch id name h
  | .terminate id, w, _, w' => w.Known id ∧ w' = w.modify id InstanceState.terminate
  | .stop id, w, _, w' => w.Stoppable id ∧ w' = w.modify id InstanceState.stop
  | .waitRunning id, w, _, w' => w.InState id .running ∧ w' = w
  | .associateProfile id, w, _, w' => w.Attachable id ∧ w' = w
  | .describeTargetHealth, w, r, w' => r = w.targets ∧ w' = w
  | .registerTargets id, w, _, w' => w.InState id .running ∧ w' = w.register id
  | .deregisterTargets id, w, _, w' => w' = w.deregister id
  | .applyAsync id, w, _, w' => w' = w.enqueue id
  | .getMetricStatistics id seconds, w, r, w' => r = w.cpu id seconds ∧ w' = w
  | .putMetricData _ _, w, _, w' => w' = w
  | .queryFirst, w, r, w' => r = w.table.rows.head? ∧ w' = w
  | .insertConfig row, w, _, w' =>
    ∃ h : ¬ w.table.HasKey row.isOn, w' = { w with table := w.table.insert row h }
  | .updateConfig key c, w, _, w' =>
    w.table.HasKey key ∧
      ∃ h : ¬ w.table.Clashes key c, w' = { w with table := w.table.update key c h }
  | .recreateTable, w, _, w' => w' = { w with table := .empty }
  | .iterate s, w, l, w' => (l.Nodup ∧ l.toFinset = s) ∧ w' = w
  | .sample s k, w, l, w' => (l.Nodup ∧ (∀ id ∈ l, id ∈ s) ∧ l.length = k) ∧ w' = w

/-- The errors a service answers with on its own account. The waiter blocks while the
instance is pending, and gives up on one that can no longer start. -/
def Rejects : Call → Account → PyError → Prop
  | .describeInstance id, w, e | .terminate id, w, e => ¬ w.Known id ∧ e = .clientError
  | .stop id, w, e => ¬ w.Stoppable id ∧ e = .clientError
  | .waitRunning id, w, e => (¬ w.InState id .pending ∧ ¬ w.InState id .running) ∧ e = .waiterError
  | .associateProfile id, w, e => ¬ w.Attachable id ∧ e = .clientError
  | .registerTargets id, w, e => ¬ w.InState id .running ∧ e = .clientError
  | .insertConfig row, w, e => w.table.HasKey row.isOn ∧ e = .integrityError
  | .updateConfig key c, w, e =>
    (¬ w.table.HasKey key ∧ e = .staleDataError) ∨
      (w.table.HasKey key ∧ w.table.Clashes key c ∧ e = .integrityError)
  | _, _, _ => False

/-- The calls that leave this process over the network. -/
def Call.Remote : Call → Prop
  | .iterate _ | .sample _ _ => False
  | _ => True

/-- The services, where `faults` says which further calls may raise in which account. -/
def services (faults : Call → Account → Prop) : Services Call Answer PyError Account where
  serve := Serves
  fail c w e := Rejects c w e ∨ (faults c w ∧ e = .clientError)

def noFaults : Call → Account → Prop := fun _ _ => False

def anyFaults : Call → Account → Prop := fun c _ => c.Remote

/-- What happens without the manager: `elb` constrains the health the load balancer may
come to report. Only a deregistration makes a target drain, and only a drained target
leaves the listing. -/
inductive Env (elb : Account → Prop) : Account → Account → Prop
  | boot {w : Account} {id : InstanceId} (h : w.InState id .pending) :
    Env elb w (w.modify id fun _ => .running)
  | halt {w : Account} {id : InstanceId} (h : w.InState id .shuttingDown) :
    Env elb w (w.modify id fun _ => .terminated)
  | health {w : Account} (f : InstanceId → TargetState) (hf : ∀ id, f id ≠ .draining)
    (h : elb { w with targets := w.targets.map fun t =>
      if t.state = .draining then t else ⟨t.id, f t.id⟩ }) :
    Env elb w { w with targets := w.targets.map fun t =>
      if t.state = .draining then t else ⟨t.id, f t.id⟩ }
  | drained {w : Account} (id : InstanceId) :
    Env elb w { w with targets := w.targets.filter fun t => ¬ (t.id = id ∧ t.state = .draining) }
  | metrics {w : Account} (cpu : InstanceId → Nat → List ℚ) : Env elb w { w with cpu := cpu }

end OdwaManager
