import OdwaManager.Effect.Simulation
import OdwaManager.Web.Tabs

/-! The web server refines the operations: whatever is asked for, under any URL and with any
form, the account only goes through what the operations do. -/
namespace OdwaManager
open Effect Program Routing

/-- The operation behind a view, if it has one. -/
def Endpoint.operation (form : Form) : Endpoint → Option Operation
  | .detailDestroyWorker id => some (.detailDestroyWorker id)
  | .destroyAll => some .destroyAll
  | .apply => some (.apply form)
  | .stopManager => some .stopManager
  | .createWorker => some .createWorker
  | .destroyWorker => some .destroyWorker
  | .turnOn => some .turnOn
  | _ => none

/-- The call, if it is one that may change the account. -/
def Call.change : Call → Option Call
  | .describeInstances _ | .describeInstance _ | .waitRunning _ | .associateProfile _
  | .describeTargetHealth | .getMetricStatistics _ _ | .putMetricData _ _ | .queryFirst
  | .iterate _ | .sample _ _ => none
  | c => some c

def WebCall.change : WebCall → Option Call
  | .cloud c => c.change
  | _ => none

/-- A call that leaves the account alone. -/
def WebCall.Quiet : WebCall → Prop
  | .cloud c => c.ReadOnly
  | _ => True

theorem WebCall.ReadOnly.quiet {c : WebCall} (h : c.ReadOnly) : c.Quiet := by
  cases c with
  | cloud c => exact h
  | _ => trivial

theorem WebCall.Quiet.unmoved {H : DataHost} {faults : Call → Account → Prop} {c : WebCall}
    {w w' : Account × Backstage} {r : WebAnswer c} (h : c.Quiet)
    (hs : (webServices H faults).serve c w r w') : w'.1 = w.1 := by
  cases c with
  | cloud c => exact serves_readOnly h hs.1
  | chart _ => rw [show w' = w from hs]
  | data _ => exact hs.1
  | respond reply =>
    cases reply with
    | render page => rw [show w' = _ from hs]
    | redirect _ _ => rw [show w' = w from hs]

theorem WebCall.Quiet.change_none {c : WebCall} (h : c.Quiet) : c.change = none := by
  cases c with
  | cloud c => cases c <;> first | rfl | exact False.elim h
  | _ => rfl

/-- A view that does `p` and then only answers stands for it. -/
theorem standsFor_view {α : Type} {p : Op α} {k : α → WebOp Reply}
    (hk : ∀ a, (k a).Uses WebCall.Quiet) :
    StandsFor WebCall.cloud WebCall.Quiet
      ((onCloud p >>= k) >>= fun reply => Program.request (WebCall.respond reply)) p.forget := by
  rw [bind_assoc]
  exact standsFor_embed fun a => Uses.bind (hk a) fun _ => Uses.request trivial

theorem standsFor_operation {e : Endpoint} {form : Form} {o : Operation}
    (h : e.operation form = some o) :
    StandsFor WebCall.cloud WebCall.Quiet (answerRequest e form) o.program := by
  have hunit : ∀ {p : Op Unit} {k : Unit → WebOp Reply}, (∀ a, (k a).Uses WebCall.Quiet) →
      StandsFor WebCall.cloud WebCall.Quiet
        ((onCloud p >>= k) >>= fun reply => Program.request (WebCall.respond reply)) p := by
    intro p k hk
    have hview := standsFor_view (p := p) hk
    rw [forget_unit] at hview
    exact hview
  cases e with
  | detailDestroyWorker id => cases h; exact hunit fun _ => trivial
  | destroyAll => cases h; exact hunit fun _ => trivial
  | apply => cases h; exact standsFor_view fun _ => trivial
  | stopManager => cases h; exact hunit fun _ => trivial
  | createWorker => cases h; exact standsFor_view fun _ => trivial
  | destroyWorker => cases h; exact standsFor_view fun _ => trivial
  | turnOn => cases h; exact hunit fun _ => trivial
  | workerView _ | autoscalingIndex | panelIndex | listWorkers | deleteData | gotoAutoscaling
  | gotoManualscaling | manualscalingIndex => cases h

theorem standsFor_onCloud (p : Op Unit) :
    StandsFor WebCall.cloud WebCall.Quiet (onCloud p) p := by
  have hstands : StandsFor WebCall.cloud WebCall.Quiet (onCloud p).forget p.forget :=
    standsFor_embed fun _ => Uses.pure ()
  rw [forget_unit, forget_unit] at hstands
  exact hstands

/-- A request takes nothing off the queue. -/
theorem begins_operation {e : Endpoint} {form : Form} {o : Operation} {w : Account}
    (h : e.operation form = some o) : o.Begins w w := by
  cases e <;> cases h <;> rfl

theorem quiet_onData {α : Type} (p : DataOp α) : (onData p).Uses WebCall.Quiet := by
  induction p with
  | ret a => trivial
  | raise e => trivial
  | call c k ih => exact ⟨trivial, ih⟩

/-- A view without an operation leaves the account alone. -/
theorem quiet_handler {e : Endpoint} {form : Form} (h : e.operation form = none) :
    (answerRequest e form).Uses WebCall.Quiet := by
  have hhandler : (e.handler form).Uses WebCall.Quiet := by
    by_cases hget : e.method = .get
    · exact (handler_readOnly form hget).mono fun c hc => hc.quiet
    · cases e with
      | deleteData => exact Uses.bind (quiet_onData _) fun _ => Uses.pure _
      | detailDestroyWorker _ | destroyAll | apply | stopManager | createWorker | destroyWorker
      | turnOn => cases h
      | workerView _ | autoscalingIndex | panelIndex | listWorkers | gotoAutoscaling
      | gotoManualscaling | manualscalingIndex => exact absurd rfl hget
  exact Uses.bind hhandler fun _ => Uses.request trivial

theorem webServer_refines (R : Router routes) (H : DataHost) (faults : Call → Account → Prop)
    (admits : List Page → Method → List Char → Prop) :
    Refines (f := WebCall.cloud) (webServer R H faults admits) (operations faults fun _ _ => True) WebError.py
      WebCall.Quiet WebCall.change Call.change where
  services := extends_cloud H faults
  unmoved _ _ _ _ hc hs := hc.unmoved hs
  starts w q w' h := by
    obtain ⟨method, path, e, form, _, _, rfl, rfl⟩ | ⟨o, _, rfl, hb, _⟩ | ⟨rfl, rfl⟩ := h
    · cases ho : e.operation form with
      | none => exact .inl ⟨quiet_handler ho, rfl⟩
      | some o =>
        exact .inr ⟨o.program, ⟨o, trivial, rfl, begins_operation ho⟩, standsFor_operation ho⟩
    · exact .inr ⟨o.program, ⟨o, trivial, rfl, hb⟩, standsFor_onCloud o.program⟩
    · exact .inl ⟨(onCloud_readOnly record_readOnly).mono fun _ hc => hc.quiet, rfl⟩
  env w w' h := by
    obtain ⟨he, _⟩ | ⟨hw, _⟩ := h
    · exact .inr he
    · exact .inl hw
  see _ := rfl
  see_quiet _ hc := hc.change_none

/-- Whatever requests reach the server, under any URL, with any form and at any time beside the
background work: a run of the operations goes through the same changes of the account, in the
same order, and comes to the same account. -/
theorem server_refines_operations {R : Router routes} {H : DataHost} {faults : Call → Account → Prop}
    {admits : List Page → Method → List Char → Prop} {w : Account × Backstage}
    {s : Effect.Config WebCall WebAnswer WebError (Account × Backstage)} {tr : List (Label WebCall)}
    (hr : (webServer R H faults admits).Run unguarded ⟨[], w⟩ tr s) :
    ∃ tr₀ ts, (operations faults fun _ _ => True).Run unguarded ⟨[], w.1⟩ tr₀ ⟨ts, s.world.1⟩ ∧
      tr₀.filterMap (Label.shows Call.change) = tr.filterMap (Label.shows WebCall.change) :=
  (webServer_refines R H faults admits).run hr

theorem server_refines_operations_office : ∃ s tr,
    (webServer flatRouter cleanHost noFaults fun _ _ _ => True).Run unguarded
      ⟨[], (office, ⟨⟨[], fun _ => [], [], 0⟩, []⟩)⟩ tr s ∧
    ∃ tr₀ ts, (operations noFaults fun _ _ => True).Run unguarded ⟨[], office⟩ tr₀
      ⟨ts, office.destroy "i-1"⟩ := by
  obtain ⟨s, tr, hr, hs⟩ := office_deletes_from_list flatRouter cleanHost (fun _ _ _ => True)
    ⟨[], fun _ => [], [], 0⟩ trivial trivial
  obtain ⟨tr₀, ts, hr₀, _⟩ := server_refines_operations hr
  rw [hs] at hr₀
  exact ⟨s, tr, hr, tr₀, ts, hr₀⟩

end OdwaManager
