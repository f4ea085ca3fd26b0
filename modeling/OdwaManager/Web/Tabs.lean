import OdwaManager.OnlyWorkers
import OdwaManager.Web.Serving

/-! Whoever uses the pages: any number of tabs, each of which may show an old page, beside the
background work. What the pages offer is enough to keep the deletes to workers. -/
namespace OdwaManager
open Effect Program Routing

/-- A request from the address bar, or from a button of a page that was sent at some time. -/
def Offered (pages : List Page) (method : Method) (path : List Char) : Prop :=
  method = .get ∨ ∃ page ∈ pages, ∃ b ∈ page.buttons, method = b.method ∧ path = urlFor b.target

/-- Users who only follow what they are offered. -/
def tabs (R : Router routes) (H : DataHost) (faults : Call → Account → Prop) :
    System WebCall WebAnswer WebError (Account × Backstage) := webServer R H faults Offered

/-- Every delete button of the page is for a worker. -/
def Page.Safe (page : Page) (w : Account) : Prop :=
  ∀ b ∈ page.buttons, ∀ id, b.target = .detailDestroyWorker id → w.IsWorker id

def Reply.Safe (reply : Reply) (w : Account) : Prop :=
  ∀ page, reply = .render page → page.Safe w

/-- Other instances than workers are spared, and the pages sent are safe. -/
structure SafeTabs (w w' : Account × Backstage) : Prop where
  spares : SparesOthers w.1 w'.1
  safe : ∀ page ∈ w'.2.pages, page.Safe w'.1

def WebCall.Sparing : WebCall → Account × Backstage → Prop
  | .cloud c, w => c.Sparing w.1
  | .respond reply, w => reply.Safe w.1
  | _, _ => True

section
variable {w w' w₁ w₂ w₃ : Account × Backstage} {R : Router routes} {H : DataHost}
  {faults : Call → Account → Prop}

theorem Page.Safe.later {page : Page} {w w' : Account} (hw : SparesOthers w w')
    (h : page.Safe w) : page.Safe w' :=
  fun b hb id hid => hw.workers id (h b hb id hid)

/-- A row is listed with its id, and the list is of workers. -/
theorem safe_list {instances : List WorkerRow} {size : Nat} {workers cpu : Chart} {w : Account}
    (h : ∀ row ∈ instances, w.IsWorker row.id) : (Page.list instances size workers cpu).Safe w := by
  intro b hb id hid
  obtain hb | hb := List.mem_append.mp hb
  · fin_cases hb <;> cases hid
  · obtain ⟨row, hrow, hb⟩ := List.mem_flatMap.mp hb
    have hworker := h row (List.mem_filter.mp hrow).1
    obtain rfl | rfl := row.mem_buttons hb
    · cases hid
    · cases hid
      exact hworker

/-- The other pages have no delete button for one instance. -/
theorem safe_other {page : Page} {w : Account}
    (h : ∀ instances size workers cpu, page ≠ .list instances size workers cpu) : page.Safe w := by
  intro b hb id hid
  cases page with
  | list instances size workers cpu => exact absurd rfl (h instances size workers cpu)
  | manualscaling _ _ autoScaleOn => cases autoScaleOn <;> fin_cases hb <;> cases hid
  | detail _ _ _ => cases hb
  | panel _ _ => fin_cases hb <;> cases hid
  | autoscaling _ => fin_cases hb <;> cases hid

theorem SafeTabs.trans (h₁ : SafeTabs w₁ w₂) (h₂ : SafeTabs w₂ w₃) : SafeTabs w₁ w₃ :=
  ⟨h₁.spares.trans h₂.spares, h₂.safe⟩

/-- A change of the account that spares the others leaves the pages safe. -/
theorem SafeTabs.of_spares (h : ∀ page ∈ w.2.pages, page.Safe w.1) (hw : SparesOthers w.1 w'.1)
    (hpages : w'.2.pages = w.2.pages) : SafeTabs w w' := by
  refine ⟨hw, fun page hpage => (h page ?_).later hw⟩
  rw [← hpages]
  exact hpage

theorem SafeTabs.of_account (h : SafeTabs w₁ w) (hw : w'.1 = w.1)
    (hpages : w'.2.pages = w.2.pages) : SafeTabs w w' := by
  refine .of_spares h.safe ?_ hpages
  rw [hw]
  exact .refl h.spares.only

theorem webServes_safe {c : WebCall} {r : WebAnswer c} (h : SafeTabs w₁ w) (hc : c.Sparing w)
    (hs : (webServices H faults).serve c w r w') : SafeTabs w w' := by
  cases c with
  | cloud c => exact .of_spares h.safe (serves_spares h.spares.only hc hs.1) (by rw [hs.2])
  | chart _ =>
    obtain rfl : w' = w := hs
    exact h.of_account rfl rfl
  | data c => exact h.of_account hs.1 hs.2.1
  | respond reply =>
    cases reply with
    | redirect _ _ =>
      obtain rfl : w' = w := hs
      exact h.of_account rfl rfl
    | render page =>
      obtain rfl : w' = (w.1, { w.2 with pages := page :: w.2.pages }) := hs
      refine ⟨.refl h.spares.only, fun page' hpage' => ?_⟩
      obtain rfl | hpage' := List.mem_cons.mp hpage'
      · exact hc page' rfl
      · exact h.safe page' hpage'

/- Every view, among others that keep the tabs safe. -/

/-- The program keeps the tabs safe whatever the others do, if they do too. -/
abbrev Safely (H : DataHost) (faults : Call → Account → Prop) {α : Type} (post : α → Account → Prop)
    (p : WebOp α) (w : Account × Backstage) : Prop :=
  Guards (webServices H faults) SafeTabs WebCall.Sparing (fun a w => post a w.1) p w

variable {α : Type} {e : Endpoint}

theorem Sparing.safely {post : α → Account → Prop} {p : Op α} (h : Sparing faults post p w.1) :
    Safely H faults post (onCloud p) w :=
  Guards.embed (extends_cloud H faults) (fun _ _ hw => hw.spares) (fun _ _ hc => hc) h

theorem WebCall.ReadOnly.sparing {c : WebCall} (h : c.ReadOnly) (w : Account × Backstage) :
    c.Sparing w := by
  cases c with
  | cloud c => cases c <;> trivial
  | respond _ => exact False.elim h
  | chart _ | data _ => trivial

theorem safely_reads {p : WebOp α} (hp : p.Uses WebCall.ReadOnly) :
    Safely H faults (fun _ _ => True) p w :=
  Guards.of_uses hp fun _ w₁ hc => hc.sparing w₁

theorem safely_data (p : DataOp α) : Safely H faults (fun _ _ => True) (onData p) w := by
  induction p generalizing w with
  | ret a => trivial
  | raise e => trivial
  | call c k ih => exact fun w₁ _ => ⟨trivial, fun r w₂ _ => ih r⟩

theorem safe_redirect {target : Endpoint} {message : Option Message} {w : Account} :
    (Reply.redirect target message).Safe w := by
  intro page h
  cases h

theorem safe_rendered {page : Page} {w : Account}
    (h : ∀ instances size workers cpu, page ≠ .list instances size workers cpu) :
    (Reply.render page).Safe w := by
  intro page' hpage
  cases hpage
  exact safe_other h

/-- What is still a worker when the view goes on to ask CloudWatch is one when it returns. -/
theorem Safely.frame {post : α → Account → Prop} {Q : Account → Prop} {p : WebOp α}
    (hQ : ∀ w w', SparesOthers w w' → Q w → Q w') (h : Safely H faults post p w) (hw : Q w.1) :
    Safely H faults (fun a w' => post a w' ∧ Q w') p w :=
  Guards.frame (Q := fun w : Account × Backstage => Q w.1) (fun _ _ _ _ _ hw₀ hc hs => webServes_safe hw₀ hc hs)
    (fun _ _ hw₁ => hQ _ _ hw₁.spares) h hw

theorem listed_isWorker {w : Account} {i : Instance} (hi : i ∈ w.listed ⟨none, "worker"⟩) :
    w.IsWorker i.id := by
  obtain ⟨hi, hname⟩ := List.mem_filter.mp hi
  simp only [InstanceFilter.accepts, Bool.and_true, decide_eq_true_eq] at hname
  exact ⟨i.state, by rw [Account.Worker, ← hname]; exact hi⟩

theorem safely_listWorkers : Safely H faults Reply.Safe listWorkers w := by
  refine Guards.bind ((safely_reads serving_readOnly).mono fun a w₁ _ => ?_)
  refine Guards.bind (Guards.request fun w₂ _ => ⟨trivial, fun r w₃ hs => ?_⟩)
  obtain ⟨⟨rfl, hw⟩, _⟩ := hs
  have hlisted : ∀ i ∈ w₂.1.listed ⟨none, "worker"⟩, w₃.1.IsWorker i.id := by
    rw [hw]
    exact fun i hi => listed_isWorker hi
  have hstable : ∀ w w', SparesOthers w w' → (∀ i ∈ w₂.1.listed ⟨none, "worker"⟩, w.IsWorker i.id) →
      ∀ i ∈ w₂.1.listed ⟨none, "worker"⟩, w'.IsWorker i.id :=
    fun _ _ hw h i hi => hw.workers i.id (h i hi)
  refine Guards.bind (((safely_reads (onChart_readOnly _)).frame hstable hlisted).mono fun _ w₄ h₄ => ?_)
  refine Guards.bind (((safely_reads (onChart_readOnly _)).frame hstable h₄.2).mono fun _ w₅ h₅ => ?_)
  intro page hpage
  cases hpage
  refine safe_list fun row hrow => ?_
  obtain ⟨i, hi, rfl⟩ := List.mem_map.mp hrow
  exact h₅.2 i hi

/-- A view whose answer is safe whatever it has found. -/
theorem Safely.returns {p : WebOp α} {f : α → Reply} (h : Safely H faults (fun _ _ => True) p w)
    (hf : ∀ a w, (f a).Safe w) : Safely H faults Reply.Safe (p >>= fun a => pure (f a)) w :=
  Guards.bind (h.mono fun a _ _ => hf a _)

/-- Whichever view a request reaches: it is safe, if a delete by id is for a worker. -/
theorem safely_handler (form : Form) (he : ∀ id, e = .detailDestroyWorker id → w.1.IsWorker id) :
    Safely H faults Reply.Safe (e.handler form) w := by
  have hfirst : ∀ {w}, Safely H faults (fun _ _ => True) (onCloud (ask .queryFirst)) w :=
    safely_reads (onCloud_readOnly (Uses.request trivial))
  cases e with
  | listWorkers => exact safely_listWorkers
  | detailDestroyWorker id =>
    exact (sparing_destroy (he id rfl).only).safely.returns fun _ _ => safe_redirect
  | destroyAll => exact sparing_destroyEvery.safely.returns fun _ _ => safe_redirect
  | createWorker => exact sparing_createWorker.safely.returns fun _ _ => safe_redirect
  | destroyWorker => exact sparing_destroyWorker.safely.returns fun _ _ => safe_redirect
  | deleteData => exact (safely_data _).returns fun _ _ => safe_redirect
  | apply =>
    have happly : Sparing faults (fun _ _ => True) (apply form) w.1 :=
      sparing_harmless ((apply_uses form).mono fun c hc => hc.sparing)
    exact happly.safely.returns fun _ _ => safe_redirect
  | turnOn =>
    have hturn : Sparing faults (fun _ _ => True) turnOn w.1 :=
      sparing_harmless (turnOn_uses.mono fun c hc => hc.sparing)
    exact hturn.safely.returns fun _ _ => safe_redirect
  | stopManager => exact Guards.bind (sparing_stopManager.safely.mono fun _ _ _ => trivial)
  | gotoAutoscaling | gotoManualscaling => exact safe_redirect
  | autoscalingIndex =>
    exact hfirst.returns fun _ _ => safe_rendered fun _ _ _ _ h => by cases h
  | panelIndex =>
    refine Guards.bind ((safely_reads serving_readOnly).mono fun _ w₁ _ => ?_)
    have havg : Safely H faults (fun _ _ => True) (onCloud getAvgCpuUtilization2) w₁ :=
      safely_reads (onCloud_readOnly getAvgCpuUtilization2_readOnly)
    exact havg.returns fun _ _ => safe_rendered fun _ _ _ _ h => by cases h
  | manualscalingIndex =>
    have hrunning : Safely H faults (fun _ _ => True) (onCloud getRunningInstances) w :=
      safely_reads (onCloud_readOnly (getRunningInstances_uses.mono fun _ h => h ▸ trivial))
    refine Guards.bind (hrunning.mono fun _ w₁ _ => ?_)
    refine Guards.bind ((safely_reads serving_readOnly).mono fun _ w₂ _ => ?_)
    exact hfirst.returns fun _ _ => safe_rendered fun _ _ _ _ h => by cases h
  | workerView id =>
    refine Guards.bind ((safely_reads (onChart_readOnly _)).mono fun _ w₁ _ => ?_)
    refine Guards.bind ((safely_reads (onChart_readOnly _)).mono fun _ w₂ _ => ?_)
    have hfound : Safely H faults (fun _ _ => True) (onCloud (ask (.describeInstance id))) w₂ :=
      safely_reads (onCloud_readOnly (Uses.request trivial))
    refine Guards.bind (hfound.mono fun found w₃ _ => ?_)
    cases found with
    | nil => trivial
    | cons i rest => exact safe_rendered fun _ _ _ _ h => by cases h

theorem urlFor_delete (id : InstanceId) :
    urlFor (.detailDestroyWorker id) = "/detail/delete/".toList ++ id.toList := by
  simp [urlFor, Endpoint.view, Endpoint.args, View.rule, Rule.build, text, buildParts,
    List.intercalate]

/-- Only the delete of every worker can share the URL of the delete of one instance. -/
theorem target_of_urlFor_delete {id : InstanceId} (hmethod : e.method = .post)
    (hurl : urlFor e = urlFor (.detailDestroyWorker id)) :
    e = .detailDestroyWorker id ∨ e = .destroyAll := by
  rw [urlFor_delete] at hurl
  cases e with
  | detailDestroyWorker id' =>
    rw [urlFor_delete] at hurl
    exact .inl (by rw [String.toList_inj.mp (List.append_cancel_left hurl)])
  | destroyAll => exact .inr rfl
  | workerView _ | autoscalingIndex | panelIndex | listWorkers | gotoAutoscaling
  | gotoManualscaling | manualscalingIndex => cases hmethod
  | apply | deleteData | stopManager | createWorker | destroyWorker | turnOn =>
    have hstart := congrArg (List.take 2) hurl
    simp [urlFor, Endpoint.view, Endpoint.args, View.rule, Rule.build, text, buildParts,
      List.intercalate] at hstart

/-- A delete by id that the pages offer is for a worker. -/
theorem offered_delete {method : Method} {path : List Char} {id : InstanceId}
    (hsafe : ∀ page ∈ w.2.pages, page.Safe w.1) (ho : Offered w.2.pages method path)
    (hr : R.resolve method path = some (.detailDestroyWorker id)) : w.1.IsWorker id := by
  obtain ⟨hallows, hurl⟩ := url_of_resolve hr
  have hpost : method = .post := by
    obtain h | ⟨_, h⟩ := hallows
    · exact h
    · cases h
  obtain hget | ⟨page, hpage, b, hb, hbm, hbpath⟩ := ho
  · cases hget.symm.trans hpost
  · have htarget : b.target.method = .post := by rw [← Page.buttons_method hb, ← hbm, hpost]
    rw [hbpath, ← relative_urlFor] at hurl
    obtain htarget | hall := target_of_urlFor_delete htarget hurl.symm
    · exact hsafe page hpage b hb id htarget
    · have hreach : R.resolve .post (urlFor .destroyAll) = some .destroyAll :=
        resolve_urlFor trivial (by simp) (by decide)
      rw [hbpath, hall, hpost] at hr
      cases hreach.symm.trans hr

theorem safely_answerRequest (form : Form)
    (he : ∀ id, e = .detailDestroyWorker id → w.1.IsWorker id) :
    Safely H faults (fun _ _ => True) (answerRequest e form) w := by
  refine Guards.bind ((safely_handler form he).mono fun reply w₁ h => ?_)
  refine Guards.request fun w₂ hw₂ => ⟨fun page hpage => ?_, fun _ _ _ => trivial⟩
  exact (h page hpage).later hw₂.spares

theorem tabs_starts {p : WebOp Unit} (h : SafeTabs w₁ w) (hp : (tabs R H faults).starts w p w') :
    SafeTabs w w' ∧ Safely H faults (fun _ _ => True) p w' := by
  have hrefl : SafeTabs w w := h.of_account rfl rfl
  obtain ⟨method, path, e, form, ho, hr, rfl, rfl⟩ | ⟨o, hback, rfl, hb, hrest⟩ | ⟨rfl, rfl⟩ := hp
  · refine ⟨hrefl, safely_answerRequest form fun id hid => ?_⟩
    exact offered_delete h.safe ho (hid ▸ hr)
  · have hnames : NamesWorker o w.1 := by
      rintro id rfl
      exact False.elim hback
    have hprogram : SparesOthers w.1 w'.1 ∧ Sparing faults (fun _ _ => True) o.program w'.1 :=
      sparing_program h.spares.only hnames hb
    obtain ⟨hspares, hsparing⟩ := hprogram
    exact ⟨.of_spares h.safe hspares (by rw [hrest]), hsparing.safely⟩
  · exact ⟨hrefl, safely_reads (onCloud_readOnly record_readOnly)⟩

theorem tabs_env (h : SafeTabs w₁ w) (he : (tabs R H faults).env w w') : SafeTabs w w' := by
  obtain ⟨he, hrest⟩ | ⟨haccount, hpages, _⟩ := he
  · exact .of_spares h.safe (env_spares h.spares.only he) (by rw [hrest])
  · exact h.of_account haccount hpages

end

/-- However many tabs are open and however old the pages are that they show: users who only
press the buttons of pages that they were sent delete no instance but workers, whatever runs at
the same time and whichever calls raise. Every delete button that was ever sent is for a
worker. -/
theorem stale_pages_spare_others {R : Router routes} {H : DataHost} {faults : Call → Account → Prop}
    {w : Account} {store : Store}
    {s : Effect.Config WebCall WebAnswer WebError (Account × Backstage)} {tr : List (Label WebCall)}
    (ht : ∀ t ∈ w.targets, w.IsWorker t.id) (hq : ∀ id ∈ w.queue, w.IsWorker id)
    (hr : (tabs R H faults).Run unguarded ⟨[], (w, ⟨store, []⟩)⟩ tr s) :
    (∀ i ∈ s.world.1.instances, i.name ≠ some "worker" → i.state.Ending →
      ∃ i₀ ∈ w.instances, i₀.id = i.id ∧ i₀.name = i.name ∧ i₀.state.Ending) ∧
    ∀ page ∈ s.world.2.pages, ∀ b ∈ page.buttons, ∀ id,
      b.target = .detailDestroyWorker id → s.world.1.IsWorker id := by
  have hstart : SafeTabs (w, ⟨store, []⟩) (w, ⟨store, []⟩) :=
    ⟨.refl ⟨ht, hq⟩, fun page hpage => absurd hpage List.not_mem_nil⟩
  have hsafe := (hr.guards SafeTabs WebCall.Sparing (fun _ hw => hw.of_account rfl rfl) hstart
    (fun _ _ _ h₁ h₂ => h₁.trans h₂) (fun _ _ _ hw hp => tabs_starts hw hp)
    (fun _ _ _ _ hw hc hs => webServes_safe hw hc hs) fun _ _ hw he => tabs_env hw he).1
  refine ⟨fun i hi hname hend => ?_, hsafe.safe⟩
  obtain ⟨i₀, hi₀, hid, hname₀, hend₀⟩ := hsafe.spares.others i hi hname
  exact ⟨i₀, hi₀, hid, hname₀, hend₀.mp hend⟩

/-- The list of the workers of the office, from CloudWatch without any point. -/
def officeList : Page :=
  .list [⟨"i-1", .running, "i-1" ∈ office.healthy⟩] office.healthy.card
    (returnLabelValues [] .average) (returnLabelValues [] .average)

/-- The list of workers is loaded, and the worker on it is deleted. -/
theorem office_deletes_from_list (R : Router routes) (H : DataHost)
    (admits : List Page → Method → List Char → Prop) (store : Store)
    (hlist : admits [] .get (urlFor .listWorkers))
    (hdelete : admits [officeList] .post (urlFor (.detailDestroyWorker "i-1"))) :
    ∃ s tr, (webServer R H noFaults admits).Run unguarded ⟨[], (office, ⟨store, []⟩)⟩ tr s ∧
      s.world = (office.destroy "i-1", ⟨store, [officeList]⟩) := by
  have form : Form := ⟨none, none, none, none⟩
  have hget : R.resolve .get (urlFor .listWorkers) = some .listWorkers :=
    resolve_urlFor trivial (by simp) (by decide)
  have hpost : R.resolve .post (urlFor (.detailDestroyWorker "i-1")) = some (.detailDestroyWorker "i-1") :=
    resolve_urlFor (by simp [Endpoint.Plain, PlainId, Unquoted]) (by simp) (by decide)
  have h₀ : (webServer R H noFaults admits).Run unguarded ⟨[], (office, ⟨store, []⟩)⟩ []
    ⟨[], (office, ⟨store, []⟩)⟩ := .nil
  have h₁ := h₀.start (answerRequest .listWorkers form)
    (.inl ⟨.get, _, _, form, hlist, hget, rfl, rfl⟩) trivial
  have h₂ := h₁.serve 0 office.targets rfl ⟨⟨rfl, rfl⟩, rfl⟩ trivial
  have h₃ := h₂.serve 0 (office.listed ⟨none, "worker"⟩) rfl ⟨⟨rfl, rfl⟩, rfl⟩ trivial
  have h₄ := h₃.serve 0 [] rfl rfl trivial
  have h₅ := h₄.serve 0 [] rfl rfl trivial
  have h₆ := h₅.serve 0 () rfl rfl trivial
  let sent : Backstage := ⟨store, [officeList]⟩
  have h₆' : (webServer R H noFaults admits).Run unguarded ⟨[], (office, ⟨store, []⟩)⟩ _ ⟨[.ret ()], (office, sent)⟩ := h₆
  have h₇ := h₆'.start (answerRequest (.detailDestroyWorker "i-1") form)
    (.inl ⟨.post, _, _, form, hdelete, hpost, rfl, rfl⟩) trivial
  have h₈ := h₇.serve 1 () rfl (show (webServices H noFaults).serve
    (.cloud (.deregisterTargets "i-1")) _ () (office.deregister "i-1", sent) from ⟨rfl, rfl⟩) trivial
  have h₉ := h₈.serve 1 [⟨"i-1", some "worker", .running⟩] rfl ⟨⟨rfl, rfl⟩, rfl⟩ trivial
  have h₁₀ := h₉.serve 1 () rfl (show (webServices H noFaults).serve
    (.cloud (.terminate "i-1")) _ () (office.destroy "i-1", sent) from
      ⟨⟨(by decide : (office.deregister "i-1").Known "i-1"), rfl⟩, rfl⟩) trivial
  exact ⟨_, _, h₁₀, rfl⟩

theorem stale_pages_spare_others_office : ∃ s tr,
    (tabs flatRouter cleanHost noFaults).Run unguarded ⟨[], (office, ⟨⟨[], fun _ => [], [], 0⟩, []⟩)⟩ tr s ∧
    s.world.1.Worker "i-1" .shuttingDown ∧
    ∀ i ∈ s.world.1.instances, i.name ≠ some "worker" → ¬ i.state.Ending := by
  have hdelete : Offered [officeList] .post (urlFor (.detailDestroyWorker "i-1")) :=
    .inr ⟨officeList, List.mem_cons_self, ⟨.post, .detailDestroyWorker "i-1"⟩, by decide, rfl, rfl⟩
  obtain ⟨s, tr, hr, hs⟩ := office_deletes_from_list flatRouter cleanHost Offered
    ⟨[], fun _ => [], [], 0⟩ (.inl rfl) hdelete
  refine ⟨s, tr, hr, ?_, fun i hi hname hend => ?_⟩
  · rw [hs]
    exact List.mem_cons_of_mem _ List.mem_cons_self
  · obtain ⟨i₀, hi₀, _, _, hend₀⟩ :=
      (stale_pages_spare_others office_targets office_queue hr).1 i hi hname hend
    have hnone : ∀ i ∈ office.instances, ¬ i.state.Ending := by decide
    exact hnone i₀ hi₀ hend₀

end OdwaManager
