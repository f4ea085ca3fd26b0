import OdwaManager.Actions
import OdwaManager.PolicyForm
import OdwaManager.Effect.Interference

/-! The tick among changes of the target health and destroy requests. Which of its parts go
through whatever happens between their calls. -/
namespace OdwaManager
open Effect Program

/-- What may happen between two calls of the tick: any change of the reported health, and
whole requests to destroy a worker. -/
inductive Disturbance : Account → Account → Prop
  | health {w : Account} (f : Target → TargetState) :
    Disturbance w { w with targets := w.targets.map fun t => ⟨t.id, f t⟩ }
  | destroyWorker {w w' : Account} {res : Except PyError Flash}
    (h : Runs (services noFaults) destroyWorker w res w') : Disturbance w w'
  | detailDestroyWorker {w w' : Account} {id : InstanceId} {res : Except PyError Unit}
    (h : Runs (services noFaults) (destroyAWorker id) w res w') : Disturbance w w'

/-- What the tick is told that matters here: the healthy ids of each health read, and the
ids that random.sample selects. -/
inductive Notice where
  | read (healthy : Finset InstanceId)
  | sampled (selected : List InstanceId)

def note : (c : Call) → Answer c → List Notice
  | .describeTargetHealth, ts => [.read (inserviceIds ts)]
  | .sample _ _, l => [.sampled l]
  | _, _ => []

/-- The services that a disturbed tick runs against. -/
def disturbed : Services Call Answer PyError (Account × List Notice) :=
  ((services noFaults).under (Relation.ReflTransGen Disturbance)).noting note

/-- Every target and every id of `l` has a record. -/
structure Recorded (l : List InstanceId) (w : Account) : Prop where
  targets : ∀ t ∈ w.targets, w.Known t.id
  ids : ∀ id ∈ l, w.Known id

section
variable {w w' : Account} {id : InstanceId} {l : List InstanceId}

theorem Recorded.deregister (h : Recorded l w) : Recorded l (w.deregister id) := by
  refine ⟨fun t ht => ?_, h.ids⟩
  obtain ⟨t₀, ht₀, hid⟩ := Account.exists_target_of_mem_deregister ht
  rw [← hid]
  exact h.targets t₀ ht₀

theorem Recorded.modify {f : InstanceState → InstanceState} (h : Recorded l w) :
    Recorded l (w.modify id f) :=
  ⟨fun t ht => Account.modify_known.mpr (h.targets t ht),
    fun j hj => Account.modify_known.mpr (h.ids j hj)⟩

/-- The calls that a disturbed tick makes, and those of a destroy request. -/
def Call.Ticks (c : Call) : Prop := c = .queryFirst ∨ c.Lists ∨ c.Scales

theorem serves_recorded {c : Call} {r : Answer c} (hc : c.Ticks) (hs : Serves c w r w')
    (h : Recorded l w) : Recorded l w' := by
  cases c with
  | createInstances name =>
    obtain ⟨hf, rfl⟩ := hs
    exact ⟨fun t ht => (h.targets t ht).launch, fun j hj => (h.ids j hj).launch⟩
  | applyAsync j => rw [show w' = w.enqueue j from hs]; exact ⟨h.targets, h.ids⟩
  | deregisterTargets j => rw [show w' = w.deregister j from hs]; exact h.deregister
  | terminate j => rw [hs.2]; exact h.modify
  | describeInstances _ | describeInstance _ | describeTargetHealth | getMetricStatistics _ _
  | queryFirst | iterate _ | sample _ _ => rw [serves_readOnly (by trivial) hs]; exact h
  | _ => simp [Call.Ticks, Call.Lists, Call.Scales, Call.Observes, Call.Creates, Call.Destroys] at hc

theorem destroyWorker_ticks : destroyWorker.Uses Call.Ticks := by
  refine Uses.bind ((randomDestroyWorker_uses 1).mono fun c h => .inr (.inr ?_)) fun b => ?_
  · exact h.imp_right .inr
  · split <;> exact Uses.pure _

theorem destroyAWorker_ticks (id : InstanceId) : (destroyAWorker id).Uses Call.Ticks :=
  (destroyAWorker_uses id).mono fun _ h => .inr (.inr (.inr (.inr h)))

theorem ticks_keepsTable {c : Call} (h : c.Ticks) : ¬ c.Rewrites := by
  obtain rfl | h | h := h
  · exact False.elim
  · exact h.keepsTable
  · exact h.keepsTable

theorem disturbance_recorded (h : Disturbance w w') (hw : Recorded l w) : Recorded l w' := by
  cases h with
  | health f =>
    refine ⟨fun t ht => ?_, hw.ids⟩
    obtain ⟨t₀, ht₀, hid⟩ := Account.exists_target_of_mem_map (g := fun t => ⟨t.id, f t⟩) (fun _ => rfl) ht
    exact hid ▸ hw.targets t₀ ht₀
  | destroyWorker h =>
    exact Keeps.of_uses destroyWorker_ticks (fun _ _ _ _ => serves_recorded) w _ w' hw h
  | detailDestroyWorker h =>
    exact Keeps.of_uses (destroyAWorker_ticks _) (fun _ _ _ _ => serves_recorded) w _ w' hw h

theorem disturbance_table (h : Disturbance w w') : w'.table = w.table := by
  cases h with
  | health f => rfl
  | destroyWorker h =>
    exact h.visits.preserves Account.table destroyWorker_ticks fun _ _ _ _ hc hs =>
      serves_table (ticks_keepsTable hc) hs
  | detailDestroyWorker h =>
    exact h.visits.preserves Account.table (destroyAWorker_ticks _) fun _ _ _ _ hc hs =>
      serves_table (ticks_keepsTable hc) hs

/-- Between two calls the records and the policy stay. -/
theorem disturbances_keep (h : Relation.ReflTransGen Disturbance w w') (hw : Recorded l w) :
    Recorded l w' ∧ w'.table = w.table := by
  induction h with
  | refl => exact ⟨hw, rfl⟩
  | tail _ hd ih => exact ⟨disturbance_recorded hd ih.1, (disturbance_table hd).trans ih.2⟩

end

/- Parts of the tick that are told nothing of note and cannot raise. -/

structure Calm {α : Type} (l : List InstanceId) (p : Op α) : Prop where
  succeeds : Succeeds disturbed (fun s => Recorded l s.1) p
  quiet : p.Uses fun c => ∀ r, note c r = []

section
variable {α β : Type} {l : List InstanceId} {p : Op α} {f : α → Op β}

theorem Calm.pure (a : α) : Calm l (pure a : Op α) := ⟨.pure a, Uses.pure a⟩

theorem Calm.bind (hp : Calm l p) (hf : ∀ a, Calm l (f a)) : Calm l (p >>= f) :=
  ⟨hp.succeeds.bind fun a => (hf a).succeeds, Uses.bind hp.quiet fun a => (hf a).quiet⟩

theorem succeeds_ask {c : Call} (hc : c.Ticks) (hr : ∀ w e, Recorded l w → ¬ Rejects c w e) :
    Succeeds disturbed (fun s => Recorded l s.1) (ask c) := by
  refine Succeeds.request (fun s r s' hs hserve => ?_) fun s e hs hfail => ?_
  · obtain ⟨⟨w₁, hd, hserve⟩, _⟩ := hserve
    exact serves_recorded hc hserve (disturbances_keep hd hs).1
  · obtain ⟨w₁, hd, hrej | ⟨hn, _⟩⟩ := hfail
    · exact hr w₁ e (disturbances_keep hd hs).1 hrej
    · exact hn

/-- A call that recorded accounts do not reject is served after some disturbances, and the
log notes its answer. -/
theorem runs_disturbed_ask {c : Call} {f : Answer c → Op β} {w : Account} {es : List Notice}
    {res : Except PyError β} {s' : Account × List Notice} (hw : Recorded l w)
    (hr : ∀ w e, Recorded l w → ¬ Rejects c w e)
    (h : Runs disturbed (ask c >>= f) (w, es) res s') :
    ∃ r w₁ w₂, Recorded l w₁ ∧ w₁.table = w.table ∧ Serves c w₁ r w₂ ∧
      Runs disturbed (f r) (w₂, note c r ++ es) res s' := by
  obtain ⟨r, s₁, ⟨⟨w₁, hd, hserve⟩, hes⟩, h⟩ | ⟨e, ⟨w₁, hd, hrej | ⟨hfault, _⟩⟩, _⟩ := h
  · obtain ⟨hw₁, htable⟩ := disturbances_keep hd hw
    have hs₁ : s₁ = (s₁.1, note c r ++ es) := Prod.ext rfl hes
    exact ⟨r, w₁, s₁.1, hw₁, htable, hserve, hs₁ ▸ h⟩
  · exact absurd hrej (hr w₁ e (disturbances_keep hd hw).1)
  · exact False.elim hfault

theorem Calm.request {c : Call} (hc : c.Ticks) (hn : ∀ r, note c r = [])
    (hr : ∀ w e, Recorded l w → ¬ Rejects c w e) : Calm l (ask c) :=
  ⟨succeeds_ask hc hr, Uses.request hn⟩

theorem Calm.each {g : β → Op Unit} (bs : List β) (h : ∀ b ∈ bs, Calm l (g b)) :
    Calm l (Program.each bs g) :=
  ⟨Succeeds.each bs fun b hb => (h b hb).succeeds, Uses.each bs fun b hb => (h b hb).quiet⟩

theorem Calm.times {q : Op Unit} (n : Nat) (h : Calm l q) : Calm l (Program.times n q) :=
  ⟨Succeeds.times n h.succeeds, Uses.times n h.quiet⟩

theorem Calm.runs {s s' : Account × List Notice} {res : Except PyError α} (hp : Calm l p)
    (hs : Recorded l s.1) (h : Runs disturbed p s res s') :
    Recorded l s'.1 ∧ s'.2 = s.2 ∧ ∃ a, res = .ok a := by
  obtain ⟨hs', hok⟩ := hp.succeeds s res s' hs h
  exact ⟨hs', noting_quiet hp.quiet h, hok⟩

/-- The run goes on after a calm part with the same log. -/
theorem Calm.runs_bind {w : Account} {es : List Notice} {res : Except PyError β}
    {s' : Account × List Notice} (hp : Calm l p) (hw : Recorded l w)
    (h : Runs disturbed (p >>= f) (w, es) res s') :
    ∃ a w₁, Recorded l w₁ ∧ Runs disturbed (f a) (w₁, es) res s' := by
  obtain ⟨a, s₁, ha, hr⟩ | ⟨e, he, _⟩ := Effect.runs_bind.mp h
  · obtain ⟨hs₁, rfl, _⟩ := hp.runs hw ha
    exact ⟨a, s₁.1, hs₁, hr⟩
  · obtain ⟨_, _, _, hok⟩ := hp.runs hw he
    cases hok

theorem calm_lists (filter : InstanceFilter) : Calm l (ask (.describeInstances filter)) :=
  Calm.request (.inr (.inl trivial)) (fun _ => rfl) fun _ _ _ h => h

theorem calm_hasPending : Calm l hasPendingInstances := by
  refine (calm_lists _).bind fun r => ?_
  split <;> exact Calm.pure _

theorem calm_running : Calm l getRunningInstances := (calm_lists _).bind fun _ => Calm.pure _

theorem calm_nonTerminated : Calm l getNonTerminatedInstances :=
  (calm_lists _).bind fun _ => Calm.pure _

theorem calm_reportIdle : Calm l reportIdle := by
  refine calm_hasPending.bind fun b => ?_
  split <;> exact Calm.pure _

theorem calm_gather (order : List InstanceId) (stats : List Num) :
    Calm l (gatherCpuStats order stats) := by
  induction order generalizing stats with
  | nil => exact Calm.pure _
  | cons id rest ih =>
    have hread : Calm l (getSingleInstanceCpuUtil id 120) :=
      Calm.request (.inr (.inr (.inl trivial))) (fun _ => rfl) fun _ _ _ h => h
    refine hread.bind fun r => ?_
    split
    · exact Calm.pure _
    · exact ih _

theorem calm_create : Calm l celeryCreateWorker := by
  have hask : ∀ c : Call, c.Creates → (∀ r, note c r = []) → (∀ w e, ¬ Rejects c w e) →
      Calm l (ask c) := by
    intro c hc hn hr
    exact Calm.request (.inr (.inr (.inr (.inl hc)))) hn fun w e _ => hr w e
  exact (hask (.createInstances "worker") trivial (fun _ => rfl) fun _ _ h => h).bind fun id =>
    hask (.applyAsync id) trivial (fun _ => rfl) fun _ _ h => h

theorem calm_expandFleet {config : AutoScalingConfig} (h : config.expandRatio ≠ none)
    (n m : Nat) : Calm l (expandFleet config n m) := by
  obtain ⟨er, her⟩ := Option.ne_none_iff_exists'.mp h
  unfold expandFleet
  split
  · exact Calm.pure _
  · rw [her]
    exact (calm_create.times _).bind fun _ => Calm.pure _

theorem calm_terminate {id : InstanceId} (h : id ∈ l) : Calm l (ask (.terminate id)) :=
  Calm.request (.inr (.inr (.inr (.inr trivial)))) (fun _ => rfl) fun _ _ hw hr => hr.1 (hw.ids id h)

/-- A recorded instance can be destroyed, whatever happens on the way. -/
theorem calm_destroy {id : InstanceId} (h : id ∈ l) : Calm l (destroyAWorker id) := by
  have hderegister : Calm l (deregisterFromElb id) :=
    Calm.request (.inr (.inr (.inr (.inr trivial)))) (fun _ => rfl) fun _ _ _ hr => hr
  refine hderegister.bind fun _ => ⟨?_, ?_⟩
  · intro s res s' hs hr
    obtain ⟨r, w₁, w₂, hw₁, _, ⟨rfl, rfl⟩, hr⟩ :=
      runs_disturbed_ask (c := .describeInstance id) hs (fun w e hw hrej => hrej.1 (hw.ids id h)) hr
    obtain ⟨i, rest, hlist, hi⟩ := filter_id_of_known (hw₁.ids id h)
    rw [hlist] at hr
    exact (calm_terminate (hi ▸ h)).succeeds _ res s' hw₁ hr
  · refine Uses.bind (Uses.request fun _ => rfl) fun r => ?_
    cases r with
    | nil => trivial
    | cons i r => exact Uses.request fun _ => rfl

end

end OdwaManager
