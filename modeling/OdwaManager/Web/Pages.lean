import OdwaManager.Effect.Embed
import OdwaManager.Handlers
import OdwaManager.Metrics
import OdwaManager.UserData
import OdwaManager.Web.Routes

/-! The pages of the manager: what each view calls, what its template is given, and which
buttons the template offers. -/
namespace OdwaManager
open Effect Program Routing

inductive Message where
  | flash (f : Flash)
  | allDataDeleted
  deriving DecidableEq, Repr

/-- A row of the table in list.html. -/
structure WorkerRow where
  id : InstanceId
  state : InstanceState
  inservice : Bool
  deriving DecidableEq

inductive Page where
  | panel (numServing : Nat) (avgCpuUtil : Option Num)
  | list (instances : List WorkerRow) (workerPoolSize : Nat) (workers cpu : Chart)
  | detail (worker : Instance) (cpu http : Chart)
  | autoscaling (config : Option AutoScalingConfig)
  | manualscaling (numWorkers numInstances : Nat) (autoScaleOn : Bool)
  deriving DecidableEq

/-- What a view returns. -/
inductive Reply where
  | render (page : Page)
  | redirect (target : Endpoint) (message : Option Message)
  deriving DecidableEq

/-- What a view may call, and the answer it sends in the end. -/
inductive WebCall where
  | cloud (c : Call)
  | chart (query : StatisticsQuery)
  | data (c : DataCall)
  | respond (reply : Reply)

abbrev WebAnswer : WebCall → Type
  | .cloud c => Answer c
  | .chart _ => List Datapoint
  | .data c => DataAnswer c
  | .respond _ => Unit

inductive WebError where
  | py (e : PyError)
  | data (e : DataError)
  deriving DecidableEq, Repr

abbrev WebOp := Program WebCall WebAnswer WebError

def onCloud {α : Type} (p : Op α) : WebOp α := p.embed WebCall.cloud WebError.py

def onChart {α : Type} (p : ChartOp α) : WebOp α := p.embed WebCall.chart WebError.py

def onData {α : Type} (p : DataOp α) : WebOp α := p.embed WebCall.data WebError.data

/- panel/view.py -/

def panelIndex : WebOp Reply := do
  let (_, numServingInstance) ← onCloud getServingInstances
  let avgCpuUtil ← onCloud getAvgCpuUtilization2
  return .render (.panel numServingInstance avgCpuUtil)

/-- The filter is a query that is sent when the loop begins, after the health check. -/
def listWorkers : WebOp Reply := do
  let (inserviceInstancesId, _) ← onCloud getServingInstances
  let instances ← onCloud (ask (.describeInstances ⟨none, "worker"⟩))
  let instancesList := instances.map fun inst =>
    (⟨inst.id, inst.state, inst.id ∈ inserviceInstancesId⟩ : WorkerRow)
  let workers ← onChart getNumWorkers30
  let cpu ← onChart getAvgCpuUtilization30
  return .render (.list instancesList inserviceInstancesId.card workers cpu)

def deleteDataView : WebOp Reply := do
  onData deleteData
  return .redirect .panelIndex (some .allDataDeleted)

/-- The view returns nothing, which is an error once the instances are stopped. -/
def stopManagerView : WebOp Reply := do
  onCloud stopManager
  .raise (.py .typeError)

def gotoAutoscaling : WebOp Reply := return .redirect .autoscalingIndex none

def gotoManualscaling : WebOp Reply := return .redirect .manualscalingIndex none

/- detail/view.py -/

/-- The template looks the instance up when it first needs more than the id. -/
def workerView (id : InstanceId) : WebOp Reply := do
  let cpu ← onChart (getCpuUtilization30 id)
  let http ← onChart (getHttpRate id)
  let found ← onCloud (ask (.describeInstance id))
  match found with
  | [] => .raise (.py .attributeError)
  | inst :: _ => return .render (.detail inst cpu http)

def detailDestroyWorkerView (id : InstanceId) : WebOp Reply := do
  onCloud (destroyAWorker id)
  return .redirect .listWorkers none

def destroyAllView : WebOp Reply := do
  onCloud destroyAll
  return .redirect .listWorkers none

/- autoscaling/view.py -/

def autoscalingIndex : WebOp Reply := do
  let autoScalingConfig ← onCloud (ask .queryFirst)
  return .render (.autoscaling autoScalingConfig)

def applyView (form : Form) : WebOp Reply := do
  let message ← onCloud (apply form)
  return .redirect .autoscalingIndex (some (.flash message))

/- manualscaling/view.py -/

def manualscalingIndex : WebOp Reply := do
  let (_, numInstances) ← onCloud getRunningInstances
  let (_, numWorkers) ← onCloud getServingInstances
  let config ← onCloud (ask .queryFirst)
  let autoScaleOn := match config with
    | some config => config.isOn
    | none => false
  return .render (.manualscaling numWorkers numInstances autoScaleOn)

def createWorkerView : WebOp Reply := do
  let message ← onCloud createWorker
  return .redirect .manualscalingIndex (some (.flash message))

def destroyWorkerView : WebOp Reply := do
  let message ← onCloud destroyWorker
  return .redirect .manualscalingIndex (some (.flash message))

def turnOnView : WebOp Reply := do
  onCloud turnOn
  return .redirect .manualscalingIndex none

/-- The view function of an endpoint; `form` is the body of the request. -/
def Endpoint.handler (form : Form) : Endpoint → WebOp Reply
  | .workerView id => OdwaManager.workerView id
  | .detailDestroyWorker id => detailDestroyWorkerView id
  | .destroyAll => destroyAllView
  | .autoscalingIndex => OdwaManager.autoscalingIndex
  | .apply => applyView form
  | .panelIndex => OdwaManager.panelIndex
  | .listWorkers => OdwaManager.listWorkers
  | .deleteData => deleteDataView
  | .stopManager => stopManagerView
  | .gotoAutoscaling => OdwaManager.gotoAutoscaling
  | .gotoManualscaling => OdwaManager.gotoManualscaling
  | .manualscalingIndex => OdwaManager.manualscalingIndex
  | .createWorker => createWorkerView
  | .destroyWorker => destroyWorkerView
  | .turnOn => turnOnView

/- The templates. -/

/-- A form of a template with its method. -/
structure Button where
  method : Method
  target : Endpoint
  deriving DecidableEq

def WorkerRow.buttons (row : WorkerRow) : List Button :=
  (if row.state = .pending ∨ row.state = .shuttingDown then [] else [⟨.get, .workerView row.id⟩]) ++
    if row.state = .shuttingDown then [] else [⟨.post, .detailDestroyWorker row.id⟩]

def Page.buttons : Page → List Button
  | .panel _ _ => [⟨.post, .stopManager⟩, ⟨.get, .gotoManualscaling⟩, ⟨.get, .gotoAutoscaling⟩,
      ⟨.get, .listWorkers⟩, ⟨.post, .deleteData⟩]
  | .list instances _ _ _ => [⟨.get, .panelIndex⟩, ⟨.get, .listWorkers⟩, ⟨.post, .destroyAll⟩] ++
      (instances.filter fun row => row.state ≠ .terminated).flatMap WorkerRow.buttons
  | .detail _ _ _ => []
  | .autoscaling _ => [⟨.get, .panelIndex⟩, ⟨.post, .apply⟩]
  | .manualscaling _ _ autoScaleOn => [⟨.get, .panelIndex⟩, ⟨.get, .listWorkers⟩] ++
      if autoScaleOn then [⟨.post, .turnOn⟩] else [⟨.post, .createWorker⟩, ⟨.post, .destroyWorker⟩]

/-- The pages whose template shows the flashed messages. -/
def Page.showsMessages : Page → Bool
  | .panel _ _ | .autoscaling _ | .manualscaling _ _ _ => true
  | .list _ _ _ _ | .detail _ _ _ => false

theorem WorkerRow.mem_buttons (row : WorkerRow) {b : Button} (h : b ∈ row.buttons) :
    b = ⟨.get, .workerView row.id⟩ ∨ b = ⟨.post, .detailDestroyWorker row.id⟩ := by
  obtain h | h := List.mem_append.mp h
  · split at h
    · cases h
    · exact .inl (List.mem_singleton.mp h)
  · split at h
    · cases h
    · exact .inr (List.mem_singleton.mp h)

/-- Every button is sent with the method that the route of its view allows. -/
theorem Page.buttons_method {page : Page} {b : Button} (h : b ∈ page.buttons) :
    b.method = b.target.method := by
  cases page with
  | list instances _ _ _ =>
    obtain h | h := List.mem_append.mp h
    · fin_cases h <;> rfl
    · obtain ⟨row, _, h⟩ := List.mem_flatMap.mp h
      obtain rfl | rfl := row.mem_buttons h
      · rfl
      · rfl
  | manualscaling _ _ autoScaleOn => cases autoScaleOn <;> fin_cases h <;> rfl
  | detail _ _ _ => cases h
  | panel _ _ => fin_cases h <;> rfl
  | autoscaling _ => fin_cases h <;> rfl

end OdwaManager
