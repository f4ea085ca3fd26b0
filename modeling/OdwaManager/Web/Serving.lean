import OdwaManager.Averages
import OdwaManager.Web.Pages

/-! The views among the services they call, and which requests can change something. -/
namespace OdwaManager
open Effect Program Routing

/-- What the web server sees beside the account: the data of the user application, and the
pages that it has sent, latest first. -/
structure Backstage where
  store : Store
  pages : List Page

/-- CloudWatch may answer a chart with any points. -/
def webServices (H : DataHost) (faults : Call → Account → Prop) :
    Services WebCall WebAnswer WebError (Account × Backstage) where
  serve
    | .cloud c, w, r, w' => Serves c w.1 r w'.1 ∧ w'.2 = w.2
    | .chart _, w, _, w' => w' = w
    | .data c, w, r, w' =>
      w'.1 = w.1 ∧ w'.2.pages = w.2.pages ∧ H.serve c w.2.store r w'.2.store
    | .respond (.render page), w, _, w' => w' = (w.1, { w.2 with pages := page :: w.2.pages })
    | .respond (.redirect _ _), w, _, w' => w' = w
  fail
    | .cloud c, w, e => ∃ e₀, e = .py e₀ ∧ (services faults).fail c w.1 e₀
    | .chart _, _, e => e = .py .clientError
    | _, _, _ => False

/-- The work that no request asks for. -/
def Operation.Background : Operation → Prop
  | .tick | .registerInstance _ | .processStart => True
  | _ => False

/-- A view, and the answer that is sent when it has returned. -/
def answerRequest (e : Endpoint) (form : Form) : WebOp Unit := do
  let reply ← e.handler form
  Program.request (WebCall.respond reply)

/-- The web server, for the requests that `admits` lets in after the pages sent so far, and the
background work beside it. -/
def webServer (R : Router routes) (H : DataHost) (faults : Call → Account → Prop)
    (admits : List Page → Method → List Char → Prop) :
    System WebCall WebAnswer WebError (Account × Backstage) where
  services := webServices H faults
  starts w p w' :=
    (∃ method path e form, admits w.2.pages method path ∧ R.resolve method path = some e ∧
      p = answerRequest e form ∧ w' = w) ∨
    (∃ o : Operation, o.Background ∧ p = onCloud o.program ∧ o.Begins w.1 w'.1 ∧ w'.2 = w.2) ∨
    p = onCloud recordServingInstancesAvgCpuUtil ∧ w' = w
  env w w' :=
    (Env (fun _ => True) w.1 w'.1 ∧ w'.2 = w.2) ∨
      w'.1 = w.1 ∧ w'.2.pages = w.2.pages ∧ Upload w.2.store w'.2.store

theorem extends_cloud (H : DataHost) (faults : Call → Account → Prop) :
    Extends (f := WebCall.cloud) (services faults) (webServices H faults) WebError.py where
  serve _ _ _ _ := Iff.rfl
  fail _ _ _ := Iff.rfl

/-- A call that changes neither the account nor the data. -/
def WebCall.ReadOnly : WebCall → Prop
  | .cloud c => c.ReadOnly
  | .chart _ => True
  | .data _ | .respond _ => False

theorem webServes_readOnly {H : DataHost} {faults : Call → Account → Prop} {c : WebCall}
    {w w' : Account × Backstage} {r : WebAnswer c} (hc : c.ReadOnly)
    (hs : (webServices H faults).serve c w r w') : w' = w := by
  cases c with
  | cloud c => exact Prod.ext (serves_readOnly hc hs.1) hs.2
  | chart _ => exact hs
  | data _ => exact False.elim hc
  | respond _ => exact False.elim hc

theorem onCloud_readOnly {α : Type} {p : Op α} (hp : p.Uses Call.ReadOnly) :
    (onCloud p).Uses WebCall.ReadOnly :=
  Uses.embed (f := WebCall.cloud) hp fun _ hc => hc

theorem onChart_readOnly {α : Type} (p : ChartOp α) : (onChart p).Uses WebCall.ReadOnly :=
  Uses.embed (f := WebCall.chart) (uses_any p) fun _ _ => trivial

theorem serving_readOnly : (onCloud getServingInstances).Uses WebCall.ReadOnly :=
  onCloud_readOnly (getServingInstances_uses.mono fun _ h => h.readOnly)

theorem getAvgCpuUtilization2_readOnly : getAvgCpuUtilization2.Uses Call.ReadOnly := by
  refine Uses.bind (getServingInstances_uses.mono fun _ h => h.readOnly) fun a => ?_
  dsimp only
  split
  · exact Uses.pure _
  · refine Uses.bind (Uses.request trivial) fun order => ?_
    refine Uses.bind ((collectCpuStats_uses order []).mono fun _ h => h.readOnly) fun l => ?_
    split <;> exact Uses.pure _

theorem record_readOnly : recordServingInstancesAvgCpuUtil.Uses Call.ReadOnly := by
  refine Uses.bind (getServingInstances_uses.mono fun _ h => h.readOnly) fun a => ?_
  refine Uses.bind (Uses.request trivial) fun _ => ?_
  refine Uses.bind ((averageOf_uses _ _).mono fun _ h => h.readOnly) fun avg => ?_
  cases avg with
  | val v => exact Uses.request trivial
  | nan => trivial

/-- The views that are asked for with GET only read. -/
theorem handler_readOnly {e : Endpoint} (form : Form) (h : e.method = .get) :
    (e.handler form).Uses WebCall.ReadOnly := by
  cases e with
  | workerView id =>
    refine Uses.bind (onChart_readOnly _) fun cpu => Uses.bind (onChart_readOnly _) fun http => ?_
    refine Uses.bind (onCloud_readOnly (Uses.request trivial)) fun found => ?_
    cases found with
    | nil => trivial
    | cons inst rest => exact Uses.pure _
  | autoscalingIndex =>
    exact Uses.bind (onCloud_readOnly (Uses.request trivial)) fun _ => Uses.pure _
  | panelIndex =>
    refine Uses.bind serving_readOnly fun _ => ?_
    exact Uses.bind (onCloud_readOnly getAvgCpuUtilization2_readOnly) fun _ => Uses.pure _
  | listWorkers =>
    refine Uses.bind serving_readOnly fun _ => ?_
    refine Uses.bind (onCloud_readOnly (Uses.request trivial)) fun _ => ?_
    exact Uses.bind (onChart_readOnly _) fun _ => Uses.bind (onChart_readOnly _) fun _ => Uses.pure _
  | manualscalingIndex =>
    refine Uses.bind (onCloud_readOnly (getRunningInstances_uses.mono fun _ h => h ▸ trivial)) fun _ => ?_
    refine Uses.bind serving_readOnly fun _ => ?_
    exact Uses.bind (onCloud_readOnly (Uses.request trivial)) fun _ => Uses.pure _
  | gotoAutoscaling | gotoManualscaling => exact Uses.pure _
  | detailDestroyWorker _ | destroyAll | apply | deleteData | stopManager | createWorker
  | destroyWorker | turnOn => cases h

/-- The other views answer with a redirect to a page, if they answer. -/
theorem handler_redirects {e : Endpoint} {form : Form} {H : DataHost} {faults : Call → Account → Prop}
    {w w' : Account × Backstage} {reply : Reply} (he : e.method = .post)
    (h : Runs (webServices H faults) (e.handler form) w (.ok reply) w') :
    ∃ target message, reply = .redirect target message ∧ target.method = .get := by
  have hlast : ∀ {α : Type} {p : WebOp α} (f : α → Reply),
      (∀ a, ∃ target message, f a = .redirect target message ∧ target.method = .get) →
      Runs (webServices H faults) (p >>= fun a => pure (f a)) w (.ok reply) w' →
      ∃ target message, reply = .redirect target message ∧ target.method = .get := by
    intro α p f hf hr
    obtain ⟨a, w₁, _, hok, _⟩ | ⟨e, _, hok⟩ := runs_bind.mp hr
    · cases hok
      exact hf a
    · cases hok
  cases e with
  | detailDestroyWorker id => exact hlast (fun _ => _) (fun _ => ⟨_, _, rfl, rfl⟩) h
  | destroyAll => exact hlast (fun _ => _) (fun _ => ⟨_, _, rfl, rfl⟩) h
  | apply => exact hlast _ (fun _ => ⟨_, _, rfl, rfl⟩) h
  | deleteData => exact hlast (fun _ => _) (fun _ => ⟨_, _, rfl, rfl⟩) h
  | stopManager =>
    obtain ⟨_, _, _, hok, _⟩ | ⟨_, _, hok⟩ := runs_bind.mp h
    · cases hok
    · cases hok
  | createWorker => exact hlast _ (fun _ => ⟨_, _, rfl, rfl⟩) h
  | destroyWorker => exact hlast _ (fun _ => ⟨_, _, rfl, rfl⟩) h
  | turnOn => exact hlast (fun _ => _) (fun _ => ⟨_, _, rfl, rfl⟩) h
  | workerView _ | autoscalingIndex | panelIndex | listWorkers | gotoAutoscaling
  | gotoManualscaling | manualscalingIndex => cases he

/-- Whatever the calls of the view are answered, they change neither the account nor the data. -/
def Endpoint.Harmless (e : Endpoint) (form : Form) : Prop :=
  (e.handler form).Uses fun c => ∀ H faults w r w', (webServices H faults).serve c w r w' → w' = w

theorem harmless_of_get {e : Endpoint} (form : Form) (h : e.method = .get) : e.Harmless form :=
  (handler_readOnly form h).mono fun _ hc _ _ _ _ _ hs => webServes_readOnly hc hs

/-- A request for any path with GET or HEAD, and whatever request made a page that is shown, only
makes calls that change nothing: it can be sent again at any time. A view that may change something
answers, if it answers, with a redirect to a page that is asked for with GET. -/
theorem get_and_reload_harmless :
    (∀ (R : Router routes) (method : Method) (path : List Char) (e : Endpoint) (form : Form),
      method ≠ .post → R.resolve method path = some e → e.Harmless form) ∧
    ∀ (e : Endpoint) (form : Form) (H : DataHost) (faults : Call → Account → Prop)
      (w w' : Account × Backstage) (reply : Reply),
      Runs (webServices H faults) (e.handler form) w (.ok reply) w' →
        ((∃ page, reply = .render page) → e.Harmless form) ∧
        (¬ e.Harmless form → ∃ target message, reply = .redirect target message ∧ target.Allows .get) := by
  refine ⟨fun R method path e form hm hr => ?_, fun e form H faults w w' reply h => ⟨?_, fun hharm => ?_⟩⟩
  · exact harmless_of_get form ((url_of_resolve hr).1.method_get hm)
  · rintro ⟨page, rfl⟩
    obtain hget | hpost := e.method_cases
    · exact harmless_of_get form hget
    · obtain ⟨_, _, hreply, _⟩ := handler_redirects hpost h
      cases hreply
  · obtain hget | hpost := e.method_cases
    · exact absurd (harmless_of_get form hget) hharm
    · obtain ⟨target, message, hreply, hget⟩ := handler_redirects hpost h
      exact ⟨target, message, hreply, .inl hget.symm⟩

theorem get_and_reload_harmless_list :
    flatRouter.resolve .get (urlFor .listWorkers) = some .listWorkers ∧
    Endpoint.listWorkers.Harmless ⟨none, none, none, none⟩ := by
  have hpath : flatRouter.resolve .get (urlFor .listWorkers) = some .listWorkers := by decide
  exact ⟨hpath, get_and_reload_harmless.1 flatRouter .get _ _ _ (by decide) hpath⟩

end OdwaManager
