import OdwaManager.Effect.Outcome
import OdwaManager.Shutdown
import OdwaManager.Web.Operator

/-! The buttons of the one operator. As long as no call raises, each of them is answered; only the
one that stops the manager ends in an error, after it has ended the workers. -/
namespace OdwaManager
open Effect Program Routing

/-- The load balancer only knows instances that EC2 knows. -/
def Account.TargetsKnown (w : Account) : Prop := ∀ t ∈ w.targets, w.Known t.id

/-- EC2 forgets no instance, and every target stays one that it knows. -/
structure Remembers (w w' : Account) : Prop where
  known : ∀ id, w.Known id → w'.Known id
  targets : w.TargetsKnown → w'.TargetsKnown

section
variable {faults : Call → Account → Prop} {elb : Account → Prop} {w w' w₁ w₂ w₃ : Account}

theorem Remembers.refl : Remembers w w := ⟨fun _ h => h, fun h => h⟩

theorem Remembers.trans (h₁ : Remembers w₁ w₂) (h₂ : Remembers w₂ w₃) : Remembers w₁ w₃ :=
  ⟨fun id hid => h₂.known id (h₁.known id hid), fun h => h₂.targets (h₁.targets h)⟩

theorem Remembers.of_known (hk : ∀ id, w.Known id → w'.Known id)
    (ht : ∀ t ∈ w'.targets, (∃ t₀ ∈ w.targets, t₀.id = t.id) ∨ w'.Known t.id) : Remembers w w' := by
  refine ⟨hk, fun h t hmem => ?_⟩
  obtain ⟨t₀, ht₀, hid⟩ | hknown := ht t hmem
  · exact hid ▸ hk _ (h t₀ ht₀)
  · exact hknown

theorem Remembers.of_same (hi : w'.instances = w.instances) (ht : w'.targets = w.targets) :
    Remembers w w' := by
  refine .of_known (fun id h => ?_) fun t hmem => .inl ⟨t, ht ▸ hmem, rfl⟩
  rw [Account.Known, hi]
  exact h

theorem serves_remembers {c : Call} {r : Answer c} (hs : Serves c w r w') : Remembers w w' := by
  cases c with
  | createInstances name =>
    obtain ⟨hf, rfl⟩ := hs
    exact .of_known (fun _ h => h.launch) fun t ht => .inl ⟨t, ht, rfl⟩
  | terminate j | stop j =>
    rw [hs.2]
    exact .of_known (fun _ h => Account.modify_known.mpr h) fun t ht => .inl ⟨t, ht, rfl⟩
  | registerTargets j =>
    obtain ⟨hrunning, rfl⟩ := hs
    have hknown : ∀ id, w.Known id → (w.register j).Known id := by
      intro id h
      rw [Account.Known, Account.register_instances]
      exact h
    refine .of_known hknown fun t ht => ?_
    obtain ht | ⟨hid, _⟩ := Account.mem_register ht
    · exact .inl ⟨_, ht, rfl⟩
    · exact .inr (hid ▸ hknown j hrunning.known)
  | deregisterTargets j =>
    obtain rfl : w' = w.deregister j := hs
    exact .of_known (fun _ h => h) fun t ht => .inl (Account.exists_target_of_mem_deregister ht)
  | applyAsync _ | recreateTable =>
    rw [hs]
    exact .of_same rfl rfl
  | insertConfig row =>
    obtain ⟨_, rfl⟩ := hs
    exact .of_same rfl rfl
  | updateConfig key changes =>
    obtain ⟨_, _, rfl⟩ := hs
    exact .of_same rfl rfl
  | describeInstances _ | describeInstance _ | waitRunning _ | associateProfile _
  | describeTargetHealth | getMetricStatistics _ _ | putMetricData _ _ | queryFirst
  | iterate _ | sample _ _ =>
    rw [serves_readOnly (by trivial) hs]
    exact .refl

theorem runs_remembers {α : Type} {p : Op α} {res : Except PyError α}
    (h : Runs (services faults) p w res w') : Remembers w w' :=
  h.visits.respects Remembers (uses_any p) (fun _ => .refl) (fun _ _ _ h₁ h₂ => h₁.trans h₂)
    fun _ _ _ _ _ hs => serves_remembers hs

theorem env_remembers (he : Env elb w w') : Remembers w w' := by
  have hknown : ∀ id, w.Known id → w'.Known id := fun id h => (env_known he).mpr h
  cases he with
  | boot _ | halt _ | metrics _ => exact .of_known hknown fun t ht => .inl ⟨t, ht, rfl⟩
  | health f hf _ =>
    refine .of_known hknown fun t ht => .inl ?_
    exact Account.exists_target_of_mem_map (fun t => by split <;> rfl) ht
  | drained j =>
    exact .of_known hknown fun t ht => .inl ⟨t, List.mem_of_mem_filter ht, rfl⟩

theorem step_remembers {m : Move} (hs : SerialStep faults elb w m w') : Remembers w w' := by
  cases hs with
  | env he => exact env_remembers he
  | op hb hr =>
    have hbegins : Remembers w _ := .of_same hb.instances hb.targets
    exact hbegins.trans (runs_remembers hr)

end

/- The window. -/

/-- The window and the account agree on the instances and the policy. -/
structure Session.Known (s : Session) : Prop where
  current : s.Current
  targets : s.world.1.TargetsKnown
  page : ∀ page ∈ s.pages, page.Known s.world.1

section
variable {R : Router routes} {H : DataHost} {faults : Call → Account → Prop} {s s' : Session}
  {w w' : Account × Backstage} {e : Endpoint} {form : Form}

theorem handler_remembers {res : Except WebError Reply}
    (h : Runs (webServices H faults) (e.handler form) w res w') : Remembers w.1 w'.1 := by
  obtain ⟨o, res₀, _, hr⟩ | ⟨_, hsame⟩ := handler_account h
  · exact runs_remembers hr
  · rw [hsame]
    exact .refl

theorem Session.Known.step (h : s.Known) (hs : Session.Step R H faults s s') : s'.Known := by
  have hcurrent := h.current.step hs
  cases hs with
  | @request method path e form res w _ _ hrun =>
    have hremembers := handler_remembers hrun
    refine ⟨hcurrent, ?_, fun page hpage => ?_⟩
    · rw [Session.receive_world]
      exact hremembers.targets h.targets
    · rw [Session.receive_world]
      rw [receive_pages hpage] at hrun
      exact (handler_draws hrun).2
  | background _ hstep =>
    have hremembers := step_remembers hstep
    refine ⟨hcurrent, hremembers.targets h.targets, fun page hpage b hb id hid => ?_⟩
    exact hremembers.known id (h.page page hpage b hb id hid)
  | upload _ => exact ⟨hcurrent, h.targets, h.page⟩

theorem Session.Known.run (h : s.Known) (hr : Session.Run R H faults s s') : s'.Known := by
  induction hr with
  | refl => exact h
  | tail _ hs ih => exact ih.step hs

end

/- The operations, as long as no call raises. -/

section
variable {w w' : Account}

theorem createWorker_answers : RaisesOnly (services noFaults) (fun _ _ => False) createWorker w := by
  refine yields_nonTerminated.raisesOnly.bind fun a w₁ h => ?_
  dsimp only
  split
  · exact .pure
  · refine .bind ⟨?_, fun res w₂ hr e he => ?_⟩ fun _ _ _ => .pure
    · obtain ⟨id, hid⟩ := w₁.exists_fresh
      exact ⟨_, _, runs_celeryCreateWorker.mpr ⟨rfl, id, hid, rfl⟩⟩
    · cases he.symm.trans (runs_celeryCreateWorker.mp hr).1

theorem destroyWorker_answers (hk : w.TargetsKnown) :
    RaisesOnly (services noFaults) (fun _ _ => False) destroyWorker w := by
  have hhealthy : ∀ id ∈ w.healthy, w.Known id := fun id hid => hk _ (Account.mem_healthy.mp hid)
  refine .bind ⟨?_, fun res w' hr e he => ?_⟩ fun b w' _ => ?_
  · by_cases hempty : w.healthy.card = 0
    · refine ⟨.ok false, w, (runs_randomDestroyWorker hhealthy).mpr ?_⟩
      rw [if_pos hempty]
      exact ⟨rfl, rfl⟩
    · obtain ⟨l, hl⟩ : ∃ l, IsSample w.healthy 1 l := exists_isSample (by omega)
      refine ⟨.ok true, w.destroyed l, (runs_randomDestroyWorker hhealthy).mpr ?_⟩
      rw [if_neg hempty, if_pos (by omega)]
      exact ⟨l, hl, rfl, rfl⟩
  · rw [runs_randomDestroyWorker hhealthy] at hr
    split at hr
    · cases he.symm.trans hr.1
    · rw [if_pos (by omega)] at hr
      obtain ⟨_, _, hok, _⟩ := hr
      cases he.symm.trans hok
  · split <;> exact .pure

theorem turnOn_answers (hrows : w.table.rows.length ≤ 1) (hpolicy : w.policy ≠ none) :
    RaisesOnly (services noFaults) (fun _ _ => False) turnOn w := by
  cases hr : w.table.rows with
  | nil => simp [Account.policy, hr] at hpolicy
  | cons row rest =>
    rw [hr, List.length_cons] at hrows
    obtain rfl : rest = [] := List.length_eq_zero_iff.mp (by omega)
    exact (does_turnOn hr).raisesOnly

theorem does_destroyEveryWorker : Does (services noFaults) destroyEveryWorker w ()
    (w.destroyed ((w.listed ⟨none, "worker"⟩).map Instance.id)) := by
  refine (yields_describeInstances _).bind ?_
  rw [← each_map]
  refine does_each_destroy _ fun id hid => ?_
  obtain ⟨i, hi, rfl⟩ := List.mem_map.mp hid
  exact known_of_listed hi

/-- Every instance that is tagged as a manager can be stopped. -/
def Account.ManagersStoppable (w : Account) : Prop :=
  ∀ i ∈ w.instances, i.name = some "Manager" → w.Stoppable i.id

theorem stoppable_iff {i : Instance} (hi : i ∈ w.instances) :
    w.Stoppable i.id ↔ i.state ≠ .pending ∧ i.state ≠ .shuttingDown ∧ i.state ≠ .terminated := by
  have hstate : w.InState i.id i.state := ⟨i.name, hi⟩
  constructor
  · rintro ⟨s, hs, hok⟩
    rw [hstate.unique hs]
    exact hok
  · exact fun h => ⟨i.state, hstate, h⟩

/-- To stop an instance does not change whether an instance can be stopped. -/
theorem stoppable_stop {j id : InstanceId} :
    (w.modify j InstanceState.stop).Stoppable id ↔ w.Stoppable id := by
  constructor
  · rintro ⟨s, ⟨name, hs⟩, hok⟩
    obtain ⟨_, hold⟩ | ⟨_, s₀, hold, rfl⟩ := Account.mem_modify_cases hs
    · exact ⟨s, ⟨name, hold⟩, hok⟩
    · refine ⟨s₀, ⟨name, hold⟩, ?_⟩
      cases s₀ <;> simp_all [InstanceState.stop]
  · rintro ⟨s, hs, hok⟩
    by_cases hid : id = j
    · subst hid
      refine ⟨_, hs.modify_self, ?_⟩
      cases s <;> simp_all [InstanceState.stop]
    · exact ⟨s, hs.modify_ne hid, hok⟩

/-- The stops go through, or one of the instances refuses. -/
theorem stops_end (l : List Instance) :
    Ensures (services noFaults) (each l fun manager => ask (.stop manager.id)) w fun res _ =>
      (res = .ok () ∧ ∀ i ∈ l, w.Stoppable i.id) ∨
        res = .error .clientError ∧ ∃ i ∈ l, ¬ w.Stoppable i.id := by
  induction l generalizing w with
  | nil => exact ⟨⟨_, _, rfl, rfl⟩, fun res w' h => .inl ⟨h.1, by simp⟩⟩
  | cons i l ih =>
    by_cases hi : w.Stoppable i.id
    · have hstop : Does (services noFaults) (ask (.stop i.id)) w () (w.modify i.id InstanceState.stop) :=
        does_ask (fun _ _ => by simp [Serves, hi]) fun _ hr => hr.1 hi
      obtain ⟨⟨res, w', hr⟩, hall⟩ := ih (w := w.modify i.id InstanceState.stop)
      refine ⟨⟨res, w', hstop.runs_bind.mpr hr⟩, fun res w' hr => ?_⟩
      simpa [stoppable_stop, hi] using hall res w' (hstop.runs_bind.mp hr)
    · refine ⟨⟨_, _, .inr ⟨.clientError, .inl ⟨hi, rfl⟩, rfl, rfl⟩⟩, fun res w' hr => .inr ?_⟩
      obtain ⟨_, _, ⟨hok, _⟩, _⟩ | ⟨e, hf | ⟨hf, _⟩, hres, _⟩ := hr
      · exact absurd hok hi
      · exact ⟨by rw [hres, hf.2], i, List.mem_cons_self, hi⟩
      · exact hf.elim

theorem managersStoppable_iff : w.ManagersStoppable ↔ ∀ i ∈ w.instances, i.name = some "Manager" →
    i.state ≠ .pending ∧ i.state ≠ .shuttingDown ∧ i.state ≠ .terminated :=
  forall₂_congr fun _ hi => imp_congr_right fun _ => stoppable_iff hi

/-- The destroy of every worker does not touch the managers. -/
theorem managersStoppable_destroyed :
    (w.destroyed ((w.listed ⟨none, "worker"⟩).map Instance.id)).ManagersStoppable ↔ w.ManagersStoppable := by
  rw [managersStoppable_iff, managersStoppable_iff, destroyed_instances, List.forall_mem_map]
  refine forall₂_congr fun i hi => ?_
  by_cases hname : i.name = some "Manager"
  · have hnot : i.id ∉ (w.listed ⟨none, "worker"⟩).map Instance.id := by
      intro hmem
      obtain ⟨j, hj, hid⟩ := List.mem_map.mp hmem
      obtain ⟨hj, hworker⟩ := Account.mem_listed_tag.mp hj
      rw [Account.record_unique hj hi hid, hname] at hworker
      exact absurd hworker (by decide)
    rw [if_neg hnot]
  · split <;> simp [hname]

/-- Without further faults the managers are stopped unless one of them refuses, and the workers are
ended in any case. -/
theorem stopManager_ends : Ensures (services noFaults) stopManager w fun res w' => w'.NoneLive ∧
    ((res = .ok () ∧ w.ManagersStoppable) ∨ res = .error .clientError ∧ ¬ w.ManagersStoppable) := by
  have hnone : (w.destroyed ((w.listed ⟨none, "worker"⟩).map Instance.id)).NoneLive :=
    noneLive_of_destroyEveryWorker does_destroyEveryWorker.runs
  rw [← managersStoppable_destroyed]
  generalize hw : w.destroyed ((w.listed ⟨none, "worker"⟩).map Instance.id) = w₁ at hnone
  have hruns : ∀ res w', Runs (services noFaults) stopManager w res w' ↔
      Runs (services noFaults) (each (w₁.listed ⟨none, "Manager"⟩) fun manager => ask (.stop manager.id))
        w₁ res w' := by
    intro res w'
    rw [stopManager, does_destroyEveryWorker.runs_bind, hw]
    exact (yields_describeInstances _).runs_bind
  obtain ⟨⟨res, w', hr⟩, hall⟩ := stops_end (w := w₁) (w₁.listed ⟨none, "Manager"⟩)
  refine ⟨⟨res, w', (hruns res w').mpr hr⟩, fun res w' hr => ?_⟩
  rw [hruns] at hr
  have hstops : (each (w₁.listed ⟨none, "Manager"⟩) fun manager => ask (.stop manager.id)).Uses
      fun c => ∃ id, c = .stop id :=
    Uses.each _ fun manager _ => Uses.request ⟨_, rfl⟩
  refine ⟨?_, (hall res w' hr).imp (fun h => ⟨h.1, ?_⟩) fun h => ⟨h.1, ?_⟩⟩
  · refine hr.visits.respects (fun w w' : Account => w.NoneLive → w'.NoneLive) hstops (fun _ h => h)
      (fun _ _ _ h₁ h₂ h => h₂ (h₁ h)) ?_ hnone
    rintro c w r w' ⟨j, rfl⟩ hs hw id hl
    have hstop : ¬ Creation (.stop j) := by simp [Creation]
    exact hw id (serves_live (r := r) hstop hs hl)
  · exact fun i hi hname => h.2 i (Account.mem_listed_tag.mpr ⟨hi, hname⟩)
  · obtain ⟨_, i, hi, hrefuses⟩ := h
    obtain ⟨hi, hname⟩ := Account.mem_listed_tag.mp hi
    exact fun hstoppable => hrefuses (hstoppable i hi hname)

end

/- The views, as long as no call of them raises. -/

/-- The errors in which a view can end while the services work, and the account it then leaves:
CloudWatch or the database of the user application fails, or the view that stops the manager has
nothing to answer with, if it has not been refused a stop before. -/
def Endpoint.FailsWith (e : Endpoint) (err : WebError) (w w' : Account) : Prop :=
  match e with
  | .listWorkers | .workerView _ => err = .py .clientError
  | .deleteData => ∃ d, err = .data d
  | .stopManager => (∀ id, ¬ w'.Live id) ∧
    (err = .py .typeError ∧ w.ManagersStoppable ∨ err = .py .clientError ∧ ¬ w.ManagersStoppable)
  | _ => False

section
variable {H : DataHost} {w : Account × Backstage} {E : WebError → Account × Backstage → Prop}

theorem onCloud_answers {α : Type} {p : Op α}
    (hp : RaisesOnly (services noFaults) (fun _ _ => False) p w.1) :
    RaisesOnly (webServices H noFaults) E (onCloud p) w :=
  hp.embed (extends_cloud H noFaults) fun _ _ h => h.elim

theorem onCloud_yields {α : Type} {p : Op α} {a : α} {w₁ : Account}
    (hp : Does (services noFaults) p w.1 a w₁) : RaisesOnly (webServices H noFaults) E (onCloud p) w :=
  onCloud_answers hp.raisesOnly

theorem chart_fails {query : StatisticsQuery} (hE : ∀ w', E (.py .clientError) w') :
    RaisesOnly (webServices H noFaults) E (onChart (chartOf query)) w := by
  refine ⟨⟨_, w, .inl ⟨[], w, rfl, rfl, rfl⟩⟩, fun res w' h err herr => ?_⟩
  obtain ⟨_, _, _, hok, _⟩ | ⟨e, rfl, hok, _⟩ := h
  · cases herr.symm.trans hok
  · cases herr.symm.trans hok
    exact hE w'

theorem onData_fails (hE : ∀ d w', E (.data d) w') :
    RaisesOnly (webServices H noFaults) E (onData deleteData) w := by
  have huses : (onData deleteData).Uses fun c => ∃ d, c = .data d :=
    Uses.embed (f := WebCall.data) (uses_any deleteData) fun d _ => ⟨d, rfl⟩
  refine ⟨exists_runs huses (fun c w hc => .inl ?_) w, fun res w' h err herr => ?_⟩
  · obtain ⟨d, rfl⟩ := hc
    obtain ⟨r, store, hs⟩ := H.answers d w.2.store
    exact ⟨r, (w.1, { w.2 with store := store }), rfl, rfl, hs⟩
  · obtain ⟨res₀, rfl, _⟩ := runs_onData h
    cases res₀ with
    | ok _ => cases herr
    | error d =>
      cases herr
      exact hE d w'

/-- A view ends in an answer or in one of its errors, if it finds what it is asked for. -/
theorem handler_fails {e : Endpoint} (form : Form) (hrows : w.1.table.rows.length ≤ 1)
    (htargets : w.1.TargetsKnown) (hpolicy : e = .turnOn → w.1.policy ≠ none)
    (hid : ∀ id, e = .workerView id ∨ e = .detailDestroyWorker id → w.1.Known id) :
    RaisesOnly (webServices H noFaults) (fun err w' => e.FailsWith err w.1 w'.1) (e.handler form) w := by
  cases e with
  | gotoAutoscaling | gotoManualscaling => exact .pure
  | autoscalingIndex => exact (onCloud_yields yields_queryFirst).bind fun _ _ _ => .pure
  | panelIndex =>
    refine (onCloud_yields yields_serving).bind fun _ w₁ _ => ?_
    exact (onCloud_yields yields_getAvgCpuUtilization2).bind fun _ _ _ => .pure
  | manualscalingIndex =>
    refine (onCloud_yields yields_running).bind fun _ w₁ _ => ?_
    refine (onCloud_yields yields_serving).bind fun _ w₂ _ => ?_
    exact (onCloud_yields yields_queryFirst).bind fun _ _ _ => .pure
  | listWorkers =>
    refine (onCloud_yields yields_serving).bind fun _ w₁ _ => ?_
    refine (onCloud_yields (yields_describeInstances _)).bind fun _ w₂ _ => ?_
    refine (chart_fails fun _ => rfl).bind fun _ w₃ _ => ?_
    exact (chart_fails fun _ => rfl).bind fun _ _ _ => .pure
  | workerView id =>
    refine (chart_fails fun _ => rfl).bind fun _ w₁ hcpu => ?_
    refine (chart_fails fun _ => rfl).bind fun _ w₂ hhttp => ?_
    have hknown : w₂.1.Known id := by
      rw [onChart_unmoved hhttp, onChart_unmoved hcpu]
      exact hid id (.inl rfl)
    refine (onCloud_yields (yields_describeInstance hknown)).bind fun found w₃ hfound => ?_
    obtain ⟨hok, _⟩ := (yields_describeInstance hknown _ _).mp (onCloud_returned hfound)
    obtain ⟨i, l, hl, _⟩ := filter_id_of_known hknown
    rw [hl] at hok
    cases hok
    exact .pure
  | detailDestroyWorker id =>
    exact (onCloud_yields (does_destroyAWorker (hid id (.inr rfl)))).bind fun _ _ _ => .pure
  | destroyAll => exact (onCloud_yields does_destroyEveryWorker).bind fun _ _ _ => .pure
  | apply => exact (onCloud_yields (does_apply form hrows)).bind fun _ _ _ => .pure
  | createWorker => exact (onCloud_answers createWorker_answers).bind fun _ _ _ => .pure
  | destroyWorker => exact (onCloud_answers (destroyWorker_answers htargets)).bind fun _ _ _ => .pure
  | turnOn => exact (onCloud_answers (turnOn_answers hrows (hpolicy rfl))).bind fun _ _ _ => .pure
  | deleteData => exact (onData_fails fun d _ => ⟨d, rfl⟩).bind fun _ _ _ => .pure
  | stopManager =>
    have hends : RaisesOnly (services noFaults)
        (fun err w' => w'.NoneLive ∧ err = .clientError ∧ ¬ w.1.ManagersStoppable) stopManager w.1 := by
      refine stopManager_ends.mono fun res w' h err herr => ?_
      obtain ⟨hnone, ⟨hok, _⟩ | ⟨hres, hrefused⟩⟩ := h
      · cases herr.symm.trans hok
      · cases herr.symm.trans hres
        exact ⟨hnone, rfl, hrefused⟩
    refine (hends.embed (extends_cloud H noFaults) ?_).bind fun _ w₁ hstop => .raise ?_
    · rintro _ w' ⟨hnone, rfl, hrefused⟩
      exact ⟨hnone, .inr ⟨rfl, hrefused⟩⟩
    · obtain ⟨hnone, ⟨_, hstoppable⟩ | ⟨hres, _⟩⟩ := stopManager_ends.2 _ _ (onCloud_returned hstop)
      · exact ⟨hnone, .inl ⟨rfl, hstoppable⟩⟩
      · cases hres

end

/-- As long as there is one operator, the process is not started again and EC2 keeps its records,
whatever has raised before: once the services work, every button of the window is answered, unless
CloudWatch or the database of the user application fails. Only the one that stops the manager
always ends in an error, a TypeError or, where a manager refuses, the refusal, and then no worker is
left. -/
theorem buttons_answered {R : Router routes} {H : DataHost} {faults : Call → Account → Prop} {s s' : Session}
    (hrows : s.world.1.table.rows.length ≤ 1) (htargets : s.world.1.TargetsKnown)
    (hblank : s.screen = .failed) (hr : Session.Run R H faults s s') {page : Page} {messages : List Message}
    (hshown : s'.screen = .showing page messages) {b : Button} (hb : b ∈ page.buttons) (form : Form) :
    Ensures (webServices H noFaults) (b.target.handler form) s'.world fun res w =>
      (∀ err, res = .error err → b.target.FailsWith err s'.world.1 w.1) ∧
      (b.target = .stopManager → ∀ reply, res ≠ .ok reply) := by
  have hnone : ∀ page, page ∉ s.pages := fun page hpage => by simp [Session.pages, hblank] at hpage
  have hstart : s.Known := ⟨⟨hrows, fun page hpage => absurd hpage (hnone page)⟩, htargets,
    fun page hpage => absurd hpage (hnone page)⟩
  have hknown := hstart.run hr
  have hpage : page ∈ s'.pages := by simp [Session.pages, hshown]
  have hpolicy : b.target = .turnOn → s'.world.1.policy ≠ none := by
    intro ht
    obtain ⟨row, hrow, _⟩ := (buttons_of_current (hknown.current.page page hpage) hb).2 ht
    rw [Account.policy, hrow]
    simp
  obtain ⟨hruns, hfails⟩ := handler_fails form hknown.current.rows hknown.targets hpolicy
    fun id hid => hknown.page page hpage b hb id hid
  refine ⟨hruns, fun res w h => ⟨hfails res w h, ?_⟩⟩
  rintro hstop reply rfl
  rw [hstop] at h
  obtain ⟨_, _, _, hok, _⟩ := runs_bind_ok h
  cases hok

/-- The operator opens the list and deletes the one worker on it. -/
theorem buttons_answered_lone : ∃ s' res w,
    Session.Run flatRouter cleanHost noFaults ⟨(loneServing, ⟨⟨[], fun _ => [], [], 0⟩, []⟩), .failed, []⟩ s' ∧
    Runs (webServices cleanHost noFaults) (Endpoint.detailDestroyWorker "i-1" |>.handler firstForm) s'.world res w ∧
    ∀ err, res ≠ .error err := by
  have hpage : Runs (webServices cleanHost noFaults) (Endpoint.listWorkers.handler firstForm)
      (loneServing, ⟨⟨[], fun _ => [], [], 0⟩, []⟩)
      (.ok (.render (.list [⟨"i-1", .running, true⟩] 1
        (returnLabelValues [] .average) (returnLabelValues [] .average))))
      (loneServing, ⟨⟨[], fun _ => [], [], 0⟩, []⟩) :=
    .inl ⟨_, _, ⟨⟨rfl, rfl⟩, rfl⟩, .inl ⟨_, _, ⟨⟨rfl, rfl⟩, rfl⟩,
      .inl ⟨[], _, rfl, .inl ⟨[], _, rfl, rfl, rfl⟩⟩⟩⟩
  have hget : flatRouter.resolve .get (urlFor .listWorkers) = some .listWorkers := by decide
  have hr : Session.Run flatRouter cleanHost noFaults ⟨(loneServing, ⟨⟨[], fun _ => [], [], 0⟩, []⟩), .failed, []⟩ _ :=
    .single (.request (.inl rfl) hget hpage)
  have hrows : loneServing.table.rows.length ≤ 1 := by decide
  have htargets : loneServing.TargetsKnown := by
    intro t ht
    fin_cases ht
    exact List.mem_cons_self
  obtain ⟨⟨res, w, hrun⟩, hall⟩ := buttons_answered hrows htargets rfl hr rfl
    (b := ⟨.post, .detailDestroyWorker "i-1"⟩) (by decide) firstForm
  exact ⟨_, res, w, hr, hrun, fun err herr => (hall res w hrun).1 err herr⟩

/- Taking workers away by hand. -/

section
variable {R : Router routes} {H : DataHost} {w : Account} {s : Session} {id : InstanceId}

theorem astray_of_destroyed {l : List InstanceId} (h : (w.destroyed l).Astray id) :
    w.Astray id ∧ id ∉ l := by
  obtain ⟨hl, hnot⟩ := live_of_destroyed h.1
  refine ⟨⟨hl, fun hk => h.2 (hk.imp ?_ ?_)⟩, hnot⟩
  · rintro ⟨t, ht, rfl, hs⟩
    refine ⟨t, ?_, rfl, hs⟩
    rw [destroyed_targets]
    exact List.mem_map.mpr ⟨t, ht, if_neg hnot⟩
  · rw [(destroyed_rest l).1]
    exact fun hq => hq

/-- The list as it is sent while the services work and CloudWatch has no points. -/
def Account.listPage (w : Account) : Page :=
  .list ((w.listed ⟨none, "worker"⟩).map fun i => ⟨i.id, i.state, i.id ∈ w.healthy⟩) w.healthy.card
    (returnLabelValues [] .average) (returnLabelValues [] .average)

theorem runs_listWorkers (w : Account × Backstage) :
    Runs (webServices H noFaults) listWorkers w (.ok (.render w.1.listPage)) w := by
  have hserving : Runs (webServices H noFaults) (onCloud getServingInstances) w
      (.ok (w.1.healthy, w.1.healthy.card)) w :=
    (extends_cloud H noFaults).runs.mpr ⟨.ok _, rfl, yields_serving.runs, rfl⟩
  have hlist : Runs (webServices H noFaults) (onCloud (ask (.describeInstances ⟨none, "worker"⟩))) w
      (.ok (w.1.listed ⟨none, "worker"⟩)) w :=
    (extends_cloud H noFaults).runs.mpr ⟨.ok _, rfl, (yields_describeInstances _).runs, rfl⟩
  exact hserving.bind (hlist.bind (.inl ⟨[], w, rfl, .inl ⟨[], w, rfl, rfl, rfl⟩⟩))

/-- The list has a delete button for every worker that is up. -/
theorem delete_offered (hl : w.Live id) : ⟨.post, .detailDestroyWorker id⟩ ∈ w.listPage.buttons := by
  obtain ⟨state, hworker, hstate⟩ : ∃ state, w.Worker id state ∧ (state = .pending ∨ state = .running) :=
    hl.elim (fun h => ⟨_, h, .inl rfl⟩) fun h => ⟨_, h, .inr rfl⟩
  refine List.mem_append_right _ (List.mem_flatMap.mpr ⟨⟨id, state, id ∈ w.healthy⟩, ?_, ?_⟩)
  · refine List.mem_filter.mpr ⟨List.mem_map.mpr ⟨_, List.mem_filter.mpr ⟨hworker, ?_⟩, rfl⟩, ?_⟩
    · simp [InstanceFilter.accepts]
    · obtain rfl | rfl := hstate <;> rfl
  · refine List.mem_append_right _ ?_
    obtain rfl | rfl := hstate <;> exact List.mem_singleton_self _

/-- Two requests destroy a worker and leave everything else alone. -/
theorem operator_removes (hl : s.world.1.Live id) (hplain : PlainId id) (hall : id ≠ "all") :
    ∃ s', Session.Run R H noFaults s s' ∧ s'.world.1 = s.world.1.destroy id := by
  have hget : R.resolve .get (urlFor .listWorkers) = some .listWorkers :=
    resolve_urlFor trivial (by simp) (by decide)
  have hlist : Runs (webServices H noFaults) (Endpoint.listWorkers.handler firstForm) s.world
      (.ok (.render s.world.1.listPage)) s.world := runs_listWorkers s.world
  have hopen : Session.Step R H noFaults s _ := .request (.inl rfl) hget hlist
  have hoffered : Offered (s.receive (.ok (.render s.world.1.listPage)) s.world).pages .post
      (urlFor (.detailDestroyWorker id)) :=
    .inr ⟨s.world.1.listPage, List.mem_singleton_self _, _, delete_offered hl, rfl, rfl⟩
  have hdestroy : Runs (webServices H noFaults) ((Endpoint.detailDestroyWorker id).handler firstForm) s.world
      (.ok (.redirect .listWorkers none)) (s.world.1.destroy id, s.world.2) := by
    have hknown : s.world.1.Known id := hl.known
    have hrun : Runs (webServices H noFaults) (onCloud (destroyAWorker id)) s.world (.ok ())
        (s.world.1.destroy id, s.world.2) :=
      (extends_cloud H noFaults).runs.mpr ⟨.ok (), rfl, (does_destroyAWorker hknown).runs, rfl⟩
    exact hrun.bind ⟨rfl, rfl⟩
  have hpress : Session.Step R H noFaults (s.receive (.ok (.render s.world.1.listPage)) s.world) _ :=
    .request hoffered (resolve_urlFor hplain (by simp [hall]) (.inl rfl)) hdestroy
  exact ⟨_, (Relation.ReflTransGen.single hopen).tail hpress, rfl⟩

theorem operator_removes_all (l : List InstanceId) (hl : ∀ id ∈ l, s.world.1.Live id)
    (hids : ∀ id ∈ l, PlainId id ∧ id ≠ "all") (hnodup : l.Nodup) :
    ∃ s', Session.Run R H noFaults s s' ∧ s'.world.1 = s.world.1.destroyed l := by
  induction l generalizing s with
  | nil => exact ⟨s, .refl, rfl⟩
  | cons id l ih =>
    obtain ⟨hid, hnodup⟩ := List.nodup_cons.mp hnodup
    obtain ⟨hplain, hall⟩ := hids id (by simp)
    obtain ⟨s₁, hr₁, hw₁⟩ := operator_removes (hl id (by simp)) hplain hall
    have hlive : ∀ j ∈ l, s₁.world.1.Live j := by
      intro j hj
      have hne : j ≠ id := fun h => hid (h ▸ hj)
      have hkept : (s.world.1.deregister id).Live j := hl j (List.mem_cons_of_mem id hj)
      rw [hw₁]
      exact hkept.modify_ne hne
    obtain ⟨s', hr, hw⟩ := ih hlive (fun j hj => hids j (List.mem_cons_of_mem id hj)) hnodup
    rw [hw₁] at hw
    exact ⟨s', hr₁.trans hr, hw⟩

/-- Whatever the window shows and whatever state the fleet is in, the operator can take away any
workers that are up by the buttons of the list, and nothing else; the strays that are left are the
strays that were not taken away. -/
theorem operator_can_remove (l : List InstanceId) (hl : ∀ id ∈ l, s.world.1.Live id)
    (hids : ∀ id ∈ l, PlainId id ∧ id ≠ "all") (hnodup : l.Nodup) :
    ∃ s', Session.Run R H noFaults s s' ∧ s'.world.1 = s.world.1.destroyed l ∧
      ∀ id, s'.world.1.Astray id ↔ s.world.1.Astray id ∧ id ∉ l := by
  obtain ⟨s', hr, hw⟩ := operator_removes_all l hl hids hnodup
  refine ⟨s', hr, hw, fun id => ?_⟩
  rw [hw]
  exact ⟨astray_of_destroyed, fun ⟨hs, hid⟩ => hs.destroyed l hid⟩

end

/-- The worker that was created and not queued is taken away. -/
theorem operator_can_remove_unqueued : ∃ s', Session.Run flatRouter cleanHost noFaults
    ⟨(loneServing.launch "i-2" "worker" loneServing_fresh, ⟨⟨[], fun _ => [], [], 0⟩, []⟩), .failed, []⟩ s' ∧
    ¬ s'.world.1.Astray "i-2" := by
  have hlive : (loneServing.launch "i-2" "worker" loneServing_fresh).Live "i-2" :=
    .inl (Account.mem_launch.mpr (.inr rfl))
  have hplain : PlainId "i-2" := by simp [PlainId, Unquoted]
  obtain ⟨s', hr, _, hastray⟩ := operator_can_remove
    (s := ⟨(loneServing.launch "i-2" "worker" loneServing_fresh, ⟨⟨[], fun _ => [], [], 0⟩, []⟩), .failed, []⟩)
    ["i-2"] (fun id hid => List.mem_singleton.mp hid ▸ hlive)
    (fun id hid => List.mem_singleton.mp hid ▸ ⟨hplain, by decide⟩) (by simp)
  exact ⟨s', hr, fun hs => ((hastray "i-2").mp hs).2 (by simp)⟩

end OdwaManager
