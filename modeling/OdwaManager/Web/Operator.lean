import OdwaManager.FleetRace
import OdwaManager.Interrupted
import OdwaManager.ModeSwitch
import OdwaManager.PolicyRegister
import OdwaManager.Web.Refinement

/-! One operator at one browser window, who is answered before asking again, while the
background work goes on. What the window shows of the policy is so, and what it says has
happened has happened. -/
namespace OdwaManager
open Effect Program Routing

inductive Screen where
  | showing (page : Page) (messages : List Message)
  | following (target : Endpoint)
  | failed

/-- The flashed messages wait in the cookie for a page that shows them. -/
structure Session where
  world : Account × Backstage
  screen : Screen
  cookie : List Message

def Session.receive (s : Session) (res : Except WebError Reply) (w : Account × Backstage) : Session :=
  match res with
  | .ok (.render page) =>
    if page.showsMessages then ⟨w, .showing page s.cookie, []⟩ else ⟨w, .showing page [], s.cookie⟩
  | .ok (.redirect target message) => ⟨w, .following target, s.cookie ++ message.toList⟩
  | .error _ => ⟨w, .failed, s.cookie⟩

def Session.pages (s : Session) : List Page :=
  match s.screen with
  | .showing page _ => [page]
  | _ => []

/-- The work in the background, as long as the process is not started again. -/
def Move.Background : Move → Prop
  | .op o => o.Background ∧ o ≠ .processStart
  | .env => True

/-- A redirect is followed with GET, which can be asked for at any time. -/
inductive Session.Step (R : Router routes) (H : DataHost) (faults : Call → Account → Prop) :
    Session → Session → Prop
  | request {s : Session} {method : Method} {path : List Char} {e : Endpoint} {form : Form}
    {res : Except WebError Reply} {w : Account × Backstage}
    (ho : Offered s.pages method path) (hr : R.resolve method path = some e)
    (h : Runs (webServices H faults) (e.handler form) s.world res w) :
    Session.Step R H faults s (s.receive res w)
  | background {s : Session} {m : Move} {w : Account} (hm : m.Background)
    (h : SerialStep faults (fun _ => True) s.world.1 m w) :
    Session.Step R H faults s { s with world := (w, s.world.2) }
  | upload {s : Session} {store : Store} (h : Upload s.world.2.store store) :
    Session.Step R H faults s { s with world := (s.world.1, { s.world.2 with store := store }) }

def Session.Run (R : Router routes) (H : DataHost) (faults : Call → Account → Prop) :
    Session → Session → Prop :=
  Relation.ReflTransGen (Session.Step R H faults)

/- What a request does to the account. -/

section
variable {H : DataHost} {faults : Call → Account → Prop} {w w' : Account × Backstage} {e : Endpoint}
  {form : Form}

theorem runs_onCloud {α : Type} {p : Op α} {res : Except WebError α}
    (h : Runs (webServices H faults) (onCloud p) w res w') :
    ∃ res₀, res = res₀.mapError WebError.py ∧ Runs (services faults) p w.1 res₀ w'.1 ∧ w'.2 = w.2 :=
  (extends_cloud H faults).runs.mp h

theorem runs_onData {α : Type} {p : DataOp α} {res : Except WebError α}
    (h : Runs (webServices H faults) (onData p) w res w') :
    ∃ res₀, res = res₀.mapError WebError.data ∧
      Runs (dataServices H) p w.2.store res₀ w'.2.store ∧ w'.1 = w.1 := by
  induction p generalizing w with
  | ret a =>
    obtain ⟨rfl, rfl⟩ := h
    exact ⟨.ok a, rfl, ⟨rfl, rfl⟩, rfl⟩
  | raise e =>
    obtain ⟨rfl, rfl⟩ := h
    exact ⟨.error e, rfl, ⟨rfl, rfl⟩, rfl⟩
  | call c k ih =>
    obtain ⟨r, w₁, ⟨haccount, _, hs⟩, h⟩ | ⟨_, hf, _⟩ := h
    · obtain ⟨res₀, hres, hrun, haccount'⟩ := ih r h
      exact ⟨res₀, hres, .inl ⟨r, w₁.2.store, hs, hrun⟩, haccount'.trans haccount⟩
    · exact False.elim hf

/-- What a view has done to the account when it returns or raises is what its operation does. -/
theorem handler_account {res : Except WebError Reply}
    (h : Runs (webServices H faults) (e.handler form) w res w') :
    (∃ o res₀, e.operation form = some o ∧ Runs (services faults) o.program w.1 res₀ w'.1) ∨
      e.operation form = none ∧ w'.1 = w.1 := by
  have hanswer : ∃ res' w'', Runs (webServices H faults) (answerRequest e form) w res' w'' ∧
      w''.1 = w'.1 := by
    cases res with
    | error err => exact ⟨.error err, w', runs_bind.mpr (.inr ⟨err, h, rfl⟩), rfl⟩
    | ok reply =>
      cases reply with
      | render page =>
        refine ⟨.ok (), (w'.1, { w'.2 with pages := page :: w'.2.pages }), h.bind ?_, rfl⟩
        exact .inl ⟨(), _, rfl, rfl, rfl⟩
      | redirect target message =>
        exact ⟨.ok (), w', h.bind (.inl ⟨(), _, rfl, rfl, rfl⟩), rfl⟩
  obtain ⟨res', w'', hrun, hw⟩ := hanswer
  cases ho : e.operation form with
  | none =>
    have hquiet : w''.1 = w.1 := hrun.visits.preserves Prod.fst (quiet_handler ho)
      fun c w r w' hc hs => hc.unmoved hs
    exact .inr ⟨rfl, hw.symm.trans hquiet⟩
  | some o =>
    obtain ⟨res₀, hr⟩ := (standsFor_operation ho).runs (extends_cloud H faults)
      (fun c w r w' hc hs => WebCall.Quiet.unmoved hc hs) hrun
    rw [hw] at hr
    exact .inl ⟨o, res₀, rfl, hr⟩

/-- A request leaves at most one row. -/
theorem handler_rows {res : Except WebError Reply} (hw : w.1.table.rows.length ≤ 1)
    (h : Runs (webServices H faults) (e.handler form) w res w') : w'.1.table.rows.length ≤ 1 := by
  obtain ⟨o, res₀, ho, hr⟩ | ⟨_, hsame⟩ := handler_account h
  · exact operation_rows (begins_operation ho) hr hw
  · rw [hsame]
    exact hw

theorem onCloud_returned {α : Type} {p : Op α} {a : α}
    (h : Runs (webServices H faults) (onCloud p) w (.ok a) w') :
    Runs (services faults) p w.1 (.ok a) w'.1 := by
  obtain ⟨res₀, hres, hr, _⟩ := runs_onCloud h
  cases res₀ with
  | error e => cases hres
  | ok b =>
    cases hres
    exact hr

/- The policy on the pages. -/

/-- What the page shows of the policy is so. -/
def Page.Current (page : Page) (w : Account) : Prop :=
  match page with
  | .autoscaling config => config = w.policy
  | .manualscaling _ _ autoScaleOn => autoScaleOn = true ↔ w.AutoOn
  | _ => True

theorem Page.Current.of_table {page : Page} {w w' : Account} (h : w'.table = w.table)
    (hp : page.Current w) : page.Current w' := by
  cases page with
  | autoscaling config => exact hp.trans (policy_of_table h).symm
  | manualscaling _ _ _ => exact hp.trans (autoOn_of_table h).symm
  | panel _ _ | list _ _ _ _ | detail _ _ _ => trivial

/- The ids on the pages. -/

/-- Every instance that a button of the page names is one that EC2 knows. -/
def Page.Known (page : Page) (w : Account) : Prop :=
  ∀ b ∈ page.buttons, ∀ id, b.target = .workerView id ∨ b.target = .detailDestroyWorker id → w.Known id

theorem known_of_listed {w : Account} {filter : InstanceFilter} {i : Instance}
    (h : i ∈ w.listed filter) : w.Known i.id :=
  List.mem_map_of_mem (List.mem_of_mem_filter h)

theorem known_list {instances : List WorkerRow} {size : Nat} {workers cpu : Chart} {w : Account}
    (h : ∀ row ∈ instances, w.Known row.id) : (Page.list instances size workers cpu).Known w := by
  intro b hb id hid
  obtain hb | hb := List.mem_append.mp hb
  · fin_cases hb <;> simp at hid
  · obtain ⟨row, hrow, hb⟩ := List.mem_flatMap.mp hb
    have hknown := h row (List.mem_filter.mp hrow).1
    obtain rfl | rfl := row.mem_buttons hb
    · simp only [Endpoint.workerView.injEq, reduceCtorEq, or_false] at hid
      exact hid ▸ hknown
    · simp only [reduceCtorEq, Endpoint.detailDestroyWorker.injEq, false_or] at hid
      exact hid ▸ hknown

theorem known_other {page : Page} {w : Account}
    (h : ∀ instances size workers cpu, page ≠ .list instances size workers cpu) : page.Known w := by
  intro b hb id hid
  cases page with
  | list instances size workers cpu => exact absurd rfl (h instances size workers cpu)
  | manualscaling _ _ autoScaleOn => cases autoScaleOn <;> fin_cases hb <;> simp at hid
  | detail _ _ _ => cases hb
  | panel _ _ => fin_cases hb <;> simp at hid
  | autoscaling _ => fin_cases hb <;> simp at hid

theorem onChart_unmoved {α : Type} {p : ChartOp α} {res : Except WebError α}
    (h : Runs (webServices H faults) (onChart p) w res w') : w' = w :=
  h.visits.preserves id (onChart_readOnly p) fun _ _ _ _ hc hs => webServes_readOnly hc hs

/-- A request with GET is answered with a page, made from the policy and the instances that are
stored then, or with a redirect that says nothing. -/
theorem get_reply {reply : Reply} (hm : e.method = .get)
    (h : Runs (webServices H faults) (e.handler form) w (.ok reply) w') :
    (∃ page, reply = .render page ∧ page.Current w'.1 ∧ page.Known w'.1) ∨
      ∃ target, reply = .redirect target none := by
  cases e with
  | autoscalingIndex =>
    obtain ⟨config, w₁, hask, hok, rfl⟩ := runs_bind_ok h
    cases hok
    obtain ⟨hconfig, hw⟩ := ask_ok (onCloud_returned hask)
    exact .inl ⟨_, rfl, hconfig.trans (by rw [hw]; rfl), known_other (by simp)⟩
  | manualscalingIndex =>
    obtain ⟨_, w₁, _, h⟩ := runs_bind_ok h
    obtain ⟨_, w₂, _, h⟩ := runs_bind_ok h
    obtain ⟨config, w₃, hask, hok, rfl⟩ := runs_bind_ok h
    cases hok
    obtain ⟨hconfig, hw⟩ := ask_ok (onCloud_returned hask)
    rw [← hw] at hconfig
    refine .inl ⟨_, rfl, ?_, known_other (by simp)⟩
    change _ = true ↔ ∃ row, w'.1.table.rows.head? = some row ∧ row.isOn = true
    rw [← hconfig]
    cases config with
    | none => simp
    | some row => simp
  | panelIndex =>
    obtain ⟨_, w₁, _, h⟩ := runs_bind_ok h
    obtain ⟨_, w₂, _, hok, _⟩ := runs_bind_ok h
    cases hok
    exact .inl ⟨_, rfl, trivial, known_other (by simp)⟩
  | listWorkers =>
    obtain ⟨_, w₁, _, h⟩ := runs_bind_ok h
    obtain ⟨instances, w₂, hask, h⟩ := runs_bind_ok h
    obtain ⟨_, w₃, hworkers, h⟩ := runs_bind_ok h
    obtain ⟨_, w₄, hcpu, hok, rfl⟩ := runs_bind_ok h
    cases hok
    obtain ⟨hlisted, hw⟩ := ask_ok (onCloud_returned hask)
    refine .inl ⟨_, rfl, trivial, ?_⟩
    rw [onChart_unmoved hcpu, onChart_unmoved hworkers, hw]
    refine known_list fun row hrow => ?_
    obtain ⟨i, hi, rfl⟩ := List.mem_map.mp hrow
    rw [hlisted] at hi
    exact known_of_listed hi
  | workerView id =>
    obtain ⟨_, w₁, _, h⟩ := runs_bind_ok h
    obtain ⟨_, w₂, _, h⟩ := runs_bind_ok h
    obtain ⟨found, w₃, _, h⟩ := runs_bind_ok h
    cases found with
    | nil => cases h.1
    | cons i rest =>
      cases h.1
      exact .inl ⟨_, rfl, trivial, known_other (by simp)⟩
  | gotoAutoscaling | gotoManualscaling =>
    cases h.1
    exact .inr ⟨_, rfl⟩
  | detailDestroyWorker _ | destroyAll | apply | deleteData | stopManager | createWorker
  | destroyWorker | turnOn => cases hm

/-- What a page shows is so when it is made. -/
theorem handler_draws {page : Page} (h : Runs (webServices H faults) (e.handler form) w (.ok (.render page)) w') :
    page.Current w'.1 ∧ page.Known w'.1 := by
  obtain hget | hpost := e.method_cases
  · obtain ⟨page', hreply, hpage⟩ | ⟨_, hreply⟩ := get_reply hget h
    · cases hreply
      exact hpage
    · cases hreply
  · obtain ⟨_, _, hreply, _⟩ := handler_redirects hpost h
    cases hreply

theorem commitChanges_finds {w w' : Account} {read : AutoScalingConfig} {changes : Changes}
    {err : PyError} (h : Runs (services faults) (commitChanges read changes) w (.error err) w') :
    err ≠ .attributeError := by
  unfold commitChanges at h
  split at h
  · cases h.1
  · obtain ⟨_, _, hok⟩ | ⟨e, hf, hok, _⟩ := runs_request.mp h
    · cases hok
    · cases hok
      obtain (⟨_, rfl⟩ | ⟨_, _, rfl⟩) | ⟨_, rfl⟩ := hf <;> simp

/-- Where a policy is stored, turn_on does not miss it. -/
theorem turnOn_finds {w w' : Account} {err : PyError} (hp : w.policy ≠ none)
    (h : Runs (services faults) turnOn w (.error err) w') : err ≠ .attributeError := by
  obtain ⟨r, w₁, ⟨rfl, rfl⟩, h⟩ | ⟨e, hf, hok, _⟩ := h
  · cases hrow : w₁.table.rows.head? with
    | none => exact absurd hrow hp
    | some row =>
      rw [hrow] at h
      exact commitChanges_finds h
  · cases hok
    obtain hf | ⟨_, rfl⟩ := hf
    · exact False.elim hf
    · simp

end

section
variable {R : Router routes} {H : DataHost} {faults : Call → Account → Prop} {s s' : Session}

theorem Move.Background.keepsPolicy {m : Move} (h : m.Background) : ¬ m.SetsPolicy := by
  cases m with
  | env => exact id
  | op o =>
    intro hsets
    cases o with
    | processStart => exact h.2 rfl
    | apply _ | turnOn => exact h.1
    | _ => exact hsets

theorem Session.receive_world {res : Except WebError Reply} {w : Account × Backstage} :
    (s.receive res w).world = w := by
  unfold Session.receive
  split
  · split <;> rfl
  · rfl
  · rfl

theorem receive_pages {res : Except WebError Reply} {w : Account × Backstage} {page : Page}
    (h : page ∈ (s.receive res w).pages) : res = .ok (.render page) := by
  cases res with
  | error err => cases h
  | ok reply =>
    cases reply with
    | redirect target message => cases h
    | render page' =>
      unfold Session.receive at h
      dsimp only at h
      split at h
      · rw [List.mem_singleton.mp h]
      · rw [List.mem_singleton.mp h]

/-- At most one row is stored, and the window shows it. -/
structure Session.Current (s : Session) : Prop where
  rows : s.world.1.table.rows.length ≤ 1
  page : ∀ page ∈ s.pages, page.Current s.world.1

theorem Session.Current.of_table {w : Account × Backstage} (h : s.Current)
    (hw : w.1.table = s.world.1.table) : ({ s with world := w } : Session).Current :=
  ⟨by rw [hw]; exact h.rows, fun page hpage => (h.page page hpage).of_table hw⟩

theorem Session.Current.step (h : s.Current) (hs : Session.Step R H faults s s') : s'.Current := by
  cases hs with
  | @request method path e form res w _ _ hrun =>
    refine ⟨?_, fun page hpage => ?_⟩
    · rw [Session.receive_world]
      exact handler_rows h.rows hrun
    · rw [Session.receive_world]
      rw [receive_pages hpage] at hrun
      exact (handler_draws hrun).1
  | background hm hstep => exact h.of_table (step_table hm.keepsPolicy hstep)
  | upload _ => exact h.of_table rfl

theorem Session.Current.run (h : s.Current) (hr : Session.Run R H faults s s') : s'.Current := by
  induction hr with
  | refl => exact h
  | tail _ hs ih => exact ih.step hs

/-- What a page offers for the manual mode it offers while the scaler is off. -/
theorem buttons_of_current {page : Page} {b : Button} {w : Account} (h : page.Current w)
    (hb : b ∈ page.buttons) :
    (b.target = .createWorker ∨ b.target = .destroyWorker → ¬ w.AutoOn) ∧
      (b.target = .turnOn → w.AutoOn) := by
  cases page with
  | manualscaling _ _ autoScaleOn =>
    cases autoScaleOn with
    | true =>
      have hon : w.AutoOn := h.mp rfl
      fin_cases hb <;> simp [hon]
    | false =>
      have hoff : ¬ w.AutoOn := fun hon => Bool.false_ne_true (h.mpr hon)
      fin_cases hb <;> simp [hoff]
  | panel _ _ => fin_cases hb <;> simp
  | autoscaling _ => fin_cases hb <;> simp
  | detail _ _ _ => cases hb
  | list instances _ _ _ =>
    obtain hb | hb := List.mem_append.mp hb
    · fin_cases hb <;> simp
    · obtain ⟨row, _, hb⟩ := List.mem_flatMap.mp hb
      obtain rfl | rfl := row.mem_buttons hb
      · simp
      · simp

/-- As long as there is one operator and the process is not started again: a window that shows
the policy shows the one that is stored, it lets workers be created and destroyed by hand only
while the scaler is off, and it offers to switch the scaler off only where this finds a policy. -/
theorem operator_sees_policy (hrows : s.world.1.table.rows.length ≤ 1) (hblank : s.screen = .failed)
    (hr : Session.Run R H faults s s') {page : Page} {messages : List Message}
    (hshown : s'.screen = .showing page messages) :
    page.Current s'.world.1 ∧ ∀ b ∈ page.buttons,
      (b.target = .createWorker ∨ b.target = .destroyWorker → ¬ s'.world.1.AutoOn) ∧
      (b.target = .turnOn → s'.world.1.AutoOn ∧
        ∀ w, ¬ Runs (webServices H faults) turnOnView s'.world (.error (.py .attributeError)) w) := by
  have hstart : s.Current := ⟨hrows, fun page hpage => by simp [Session.pages, hblank] at hpage⟩
  have hcurrent := (hstart.run hr).page page (by simp [Session.pages, hshown])
  refine ⟨hcurrent, fun b hb => ?_⟩
  obtain ⟨hmanual, hturn⟩ := buttons_of_current hcurrent hb
  refine ⟨hmanual, fun ht => ⟨hturn ht, fun w hrun => ?_⟩⟩
  obtain ⟨row, hrow, _⟩ := hturn ht
  obtain ⟨_, _, _, hok, _⟩ | ⟨err, hrun, herr⟩ := runs_bind.mp hrun
  · cases hok
  · cases herr
    obtain ⟨res₀, hres, hrun, _⟩ := runs_onCloud hrun
    cases res₀ with
    | ok _ => cases hres
    | error err =>
      cases hres
      exact turnOn_finds (by rw [Account.policy, hrow]; simp) hrun rfl

end

/-- A manager without workers whose scaler is switched on. -/
def idleOffice : Account × Backstage :=
  ({ Account.vacant with table := .single firstForm.row }, ⟨⟨[], fun _ => [], [], 0⟩, []⟩)

theorem operator_sees_policy_switch : ∃ s',
    Session.Run flatRouter cleanHost noFaults ⟨idleOffice, .failed, []⟩ s' ∧
    s'.screen = .showing (.manualscaling 0 0 true) [] ∧ s'.world.1.AutoOn := by
  have hrun : Runs (webServices cleanHost noFaults) (Endpoint.manualscalingIndex.handler firstForm) idleOffice
      (.ok (.render (.manualscaling 0 0 true))) idleOffice :=
    .inl ⟨[], _, ⟨⟨rfl, rfl⟩, rfl⟩, .inl ⟨[], _, ⟨⟨rfl, rfl⟩, rfl⟩,
      .inl ⟨some firstForm.row, _, ⟨⟨rfl, rfl⟩, rfl⟩, rfl, rfl⟩⟩⟩
  have hpath : flatRouter.resolve .get (urlFor .manualscalingIndex) = some .manualscalingIndex := by decide
  have hr : Session.Run flatRouter cleanHost noFaults ⟨idleOffice, .failed, []⟩ _ := .single (.request (.inl rfl) hpath hrun)
  refine ⟨_, hr, rfl, ?_⟩
  have hrows : idleOffice.1.table.rows.length ≤ 1 := by decide
  have hturn := (operator_sees_policy hrows rfl hr rfl).2 ⟨.post, .turnOn⟩ (by decide)
  exact (hturn.2 rfl).1

/- What the messages say. -/

/-- What the message says happened with the request that was sent with the form. -/
def Message.Tells (message : Message) (form : Form) (w w' : Account × Backstage) : Prop :=
  match message with
  | .flash .policyApplied => w'.1.policy = some form.row
  -- "Number of instances reaches maximum limit! (10 instances allowed)"
  | .flash .maximumLimit => 10 ≤ w.1.fleetSize ∧ w'.1 = w.1
  | .flash .created => ∃ (id : InstanceId) (hf : w.1.Fresh id),
    w'.1 = (w.1.launch id "worker" hf).enqueue id
  | .flash .noAvailableWorkers => w.1.healthy = ∅ ∧ w'.1 = w.1
  | .flash .deleted => ∃ id ∈ w.1.healthy, w'.1 = w.1.destroy id
  | .allDataDeleted => NoRows w.2.store.next w'.2.store ∧ ∀ i < w.2.store.next, i ∉ w'.2.store.objects

/-- The limit is flashed from 8 workers on. -/
def Message.Early (message : Message) (w w' : Account × Backstage) : Prop :=
  message = .flash .maximumLimit ∧ 8 ≤ w.1.fleetSize ∧ w.1.fleetSize < 10 ∧ w'.1 = w.1

section
variable {faults : Call → Account → Prop} {w w' : Account}

theorem createWorker_tells {flash : Flash} (h : Runs (services faults) createWorker w (.ok flash) w') :
    (flash = .maximumLimit ∧ 8 ≤ w.fleetSize ∧ w' = w) ∨
      flash = .created ∧ ∃ (id : InstanceId) (hf : w.Fresh id), w' = (w.launch id "worker" hf).enqueue id := by
  have hrun := runs_ok_noFaults h
  rw [createWorker, yields_nonTerminated.runs_bind] at hrun
  dsimp only at hrun
  split at hrun
  next hfull =>
    obtain ⟨hok, hw⟩ := hrun
    cases hok
    exact .inl ⟨rfl, hfull, hw⟩
  next =>
    obtain ⟨_, w₁, hcreate, hok, rfl⟩ := runs_bind_ok hrun
    cases hok
    exact .inr ⟨rfl, (runs_celeryCreateWorker.mp hcreate).2⟩

theorem destroyWorker_tells {flash : Flash} (h : Runs (services faults) destroyWorker w (.ok flash) w') :
    (flash = .noAvailableWorkers ∧ w.healthy = ∅ ∧ w' = w) ∨
      flash = .deleted ∧ ∃ id ∈ w.healthy, w' = w.destroy id := by
  obtain ⟨deleted, w₁, hrandom, h⟩ := runs_bind_ok (runs_ok_noFaults h)
  rw [randomDestroyWorker, yields_serving.runs_bind] at hrandom
  dsimp only at hrandom
  split at hrandom
  next hempty =>
    obtain ⟨hok, rfl⟩ := hrandom
    cases hok
    obtain ⟨hok, rfl⟩ := h
    cases hok
    exact .inl ⟨rfl, Finset.card_eq_zero.mp hempty, rfl⟩
  next =>
    obtain ⟨l, w₂, hsample, hrandom⟩ := runs_bind_ok hrandom
    obtain ⟨_, w₃, hloop, hok, rfl⟩ := runs_bind_ok hrandom
    cases hok
    obtain ⟨hok, rfl⟩ := h
    cases hok
    have hpicked := runs_randomSample.mp hsample
    split at hpicked
    · obtain ⟨rfl, l', hl, hok⟩ := hpicked
      cases hok
      obtain ⟨id, rfl⟩ := List.length_eq_one_iff.mp hl.2.2
      obtain ⟨_, w₄, hdestroy, hok, rfl⟩ := runs_bind_ok hloop
      exact .inr ⟨rfl, id, hl.2.1 id (by simp), destroyAWorker_returned hdestroy⟩
    · cases hpicked.1

theorem deleteData_tells {H : DataHost} {s s' : Store} (hH : H.Thorough)
    (h : Runs (dataServices H) deleteData s (.ok ()) s') :
    NoRows s.next s' ∧ ∀ i < s.next, i ∉ s'.objects := by
  have hused : Runs (whileUsed H) deleteData s (.ok ()) s' := h.under fun _ => .refl
  obtain ⟨_, s₁, hs3, hrds⟩ := runs_bind_ok hused
  obtain ⟨_, _, hobjects, hnext⟩ := runs_deleteS3Data (Nat.le_refl s.next) hs3
  obtain ⟨⟨hsame, hgone⟩, _⟩ | ⟨hres, _⟩ := runs_deleteRdsData hnext hrds
  · exact ⟨hgone, fun i hi ho => hobjects hH rfl i hi ((hsame i hi).mp ho)⟩
  · exact absurd rfl hres

end

section
variable {R : Router routes} {H : DataHost} {faults : Call → Account → Prop} {s s' : Session}

/-- A view only says what it has done, but for the limit. -/
theorem handler_tells {e : Endpoint} {form : Form} {w w' : Account × Backstage} {target : Endpoint}
    {message : Message} (hH : H.Thorough) (hrows : w.1.table.rows.length ≤ 1)
    (h : Runs (webServices H faults) (e.handler form) w (.ok (.redirect target (some message))) w') :
    message.Tells form w w' ∨ message.Early w w' := by
  cases e with
  | apply =>
    obtain ⟨flash, w₁, happly, hok, rfl⟩ := runs_bind_ok h
    cases hok
    obtain ⟨hok, hw⟩ := (does_apply form hrows _ _).mp (runs_ok_noFaults (onCloud_returned happly))
    cases hok
    left
    change w'.1.policy = _
    rw [hw]
    rfl
  | createWorker =>
    obtain ⟨flash, w₁, hcreate, hok, rfl⟩ := runs_bind_ok h
    cases hok
    obtain ⟨rfl, hfull, hsame⟩ | ⟨rfl, htold⟩ := createWorker_tells (onCloud_returned hcreate)
    · by_cases hten : 10 ≤ w.1.fleetSize
      · exact .inl ⟨hten, hsame⟩
      · exact .inr ⟨rfl, hfull, by omega, hsame⟩
    · exact .inl htold
  | destroyWorker =>
    obtain ⟨flash, w₁, hdestroy, hok, rfl⟩ := runs_bind_ok h
    cases hok
    obtain ⟨rfl, htold⟩ | ⟨rfl, htold⟩ := destroyWorker_tells (onCloud_returned hdestroy)
    · exact .inl htold
    · exact .inl htold
  | deleteData =>
    obtain ⟨_, w₁, hdelete, hok, rfl⟩ := runs_bind_ok h
    cases hok
    obtain ⟨res₀, hres, hrun, _⟩ := runs_onData hdelete
    cases res₀ with
    | error err => cases hres
    | ok _ => exact .inl (deleteData_tells hH hrun)
  | detailDestroyWorker _ =>
    obtain ⟨_, _, _, hok, _⟩ := runs_bind_ok h
    cases hok
  | destroyAll | turnOn | stopManager =>
    obtain ⟨_, _, _, hok, _⟩ := runs_bind_ok h
    cases hok
  | workerView _ | autoscalingIndex | panelIndex | listWorkers | gotoAutoscaling
  | gotoManualscaling | manualscalingIndex =>
    obtain ⟨_, hreply, _⟩ | ⟨_, hreply⟩ := get_reply rfl h
    · cases hreply
    · cases hreply

/-- The messages that the window shows or will show. -/
def Session.pending (s : Session) : List Message :=
  match s.screen with
  | .showing _ messages => messages ++ s.cookie
  | _ => s.cookie

/-- At some time since `s₀` it has happened what the message says, or it was the limit. -/
def HasHappened (R : Router routes) (H : DataHost) (faults : Call → Account → Prop) (s₀ s : Session)
    (message : Message) : Prop :=
  ∃ s₁ s₂ form, Session.Run R H faults s₀ s₁ ∧ Session.Step R H faults s₁ s₂ ∧ Session.Run R H faults s₂ s ∧
    (message.Tells form s₁.world s₂.world ∨ message.Early s₁.world s₂.world)

theorem HasHappened.later {s₀ : Session} {message : Message} (h : HasHappened R H faults s₀ s message)
    (hs : Session.Step R H faults s s') : HasHappened R H faults s₀ s' message := by
  obtain ⟨s₁, s₂, form, hbefore, hstep, hafter, htells⟩ := h
  exact ⟨s₁, s₂, form, hbefore, hstep, hafter.tail hs, htells⟩

/-- A message that waits after a step has waited before, or the step has flashed it. -/
theorem pending_receive {res : Except WebError Reply} {w : Account × Backstage} {message : Message}
    (h : message ∈ (s.receive res w).pending) :
    message ∈ s.pending ∨ ∃ target, res = .ok (.redirect target (some message)) := by
  have hcookie : ∀ m, m ∈ s.cookie → m ∈ s.pending := by
    intro m hm
    unfold Session.pending
    split
    · exact List.mem_append_right _ hm
    · exact hm
  cases res with
  | error err => exact .inl (hcookie _ h)
  | ok reply =>
    cases reply with
    | render page =>
      left
      unfold Session.receive at h
      dsimp only at h
      split at h
      · simpa [Session.pending] using hcookie message (by simpa [Session.pending] using h)
      · simpa [Session.pending] using hcookie message (by simpa [Session.pending] using h)
    | redirect target flashed =>
      obtain h | h := List.mem_append.mp h
      · exact .inl (hcookie _ h)
      · obtain rfl : flashed = some message := by simpa using h
        exact .inr ⟨target, rfl⟩

theorem HasHappened.step {s₀ : Session} (hH : H.Thorough) (hr : Session.Run R H faults s₀ s) (hc : s.Current)
    (h : ∀ m ∈ s.pending, HasHappened R H faults s₀ s m) (hs : Session.Step R H faults s s') :
    ∀ m ∈ s'.pending, HasHappened R H faults s₀ s' m := by
  intro m hm
  have hstep := hs
  cases hs with
  | background _ _ => exact (h m hm).later hstep
  | upload _ => exact (h m hm).later hstep
  | @request _ _ e form res w _ _ hrun =>
    obtain hm | ⟨target, rfl⟩ := pending_receive hm
    · exact (h m hm).later hstep
    · refine ⟨s, _, form, hr, hstep, .refl, ?_⟩
      rw [Session.receive_world]
      exact handler_tells hH hc.rows hrun

theorem HasHappened.run (hH : H.Thorough) (hc : s.Current) (hnone : s.pending = []) (hr : Session.Run R H faults s s') :
    ∀ m ∈ s'.pending, HasHappened R H faults s s' m := by
  induction hr with
  | refl => simp [hnone]
  | tail hrun hs ih => exact HasHappened.step hH hrun (hc.run hrun) ih hs

end

end OdwaManager
