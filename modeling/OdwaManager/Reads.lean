import OdwaManager.Footprint

/-! What the reading functions of the manager answer in an account, and that they change
nothing. The average does not depend on the order in which Python walks the id set. -/
namespace OdwaManager
open Effect Program

/-- The mean of a nonempty list of datapoints. -/
def mean (l : List ℚ) : ℚ := l.sum / l.length

def Account.datapoints (w : Account) (id : InstanceId) : List ℚ := w.cpu id 120

/-- The mean over the healthy workers of the mean of their datapoints; NaN for none. -/
def Account.fleetMean (w : Account) : Num :=
  if w.healthy = ∅ then .nan
  else .val ((∑ id ∈ w.healthy, mean (w.datapoints id)) / w.healthy.card)

/-- The mean of the means, where there is one. -/
def Account.meanCpu (w : Account) : ℚ :=
  (∑ id ∈ w.healthy, mean (w.datapoints id)) / w.healthy.card

theorem Account.fleetMean_eq {w : Account} (h : w.healthy.Nonempty) :
    w.fleetMean = .val w.meanCpu :=
  if_neg h.ne_empty

def Account.AllMeasured (w : Account) : Prop := ∀ id ∈ w.healthy, w.datapoints id ≠ []

instance (w : Account) : Decidable w.AllMeasured :=
  inferInstanceAs (Decidable (∀ id ∈ w.healthy, w.datapoints id ≠ []))

theorem values_map_val (l : List ℚ) : Num.values (l.map .val) = some l := by
  induction l with
  | nil => rfl
  | cons q l ih => simp [Num.values, ih]

theorem npMean_map_val (l : List ℚ) : npMean (l.map .val) = if l = [] then .nan else .val (mean l) := by
  unfold npMean
  rw [values_map_val]
  cases l with
  | nil => rfl
  | cons q l => simp [mean]

/-- Calls that leave the account as it is. -/
def Call.ReadOnly : Call → Prop
  | .describeInstances _ | .describeInstance _ | .waitRunning _ | .associateProfile _
  | .describeTargetHealth | .getMetricStatistics _ _ | .putMetricData _ _ | .queryFirst
  | .iterate _ | .sample _ _ => True
  | _ => False

theorem Call.Observes.readOnly {c : Call} (h : c.Observes) : c.ReadOnly := by
  cases c <;> trivial

theorem Call.Lists.readOnly {c : Call} (h : c.Lists) : c.ReadOnly := by
  cases c <;> trivial

theorem serves_readOnly {c : Call} {w w' : Account} {r : Answer c} (hc : c.ReadOnly)
    (h : Serves c w r w') : w' = w := by
  cases c with
  | putMetricData metric value => exact h
  | describeInstances _ | describeInstance _ | waitRunning _ | associateProfile _
  | describeTargetHealth | getMetricStatistics _ _ | queryFirst | iterate _ | sample _ _ => exact h.2
  | createInstances _ | terminate _ | stop _ | registerTargets _ | deregisterTargets _
  | applyAsync _ | insertConfig _ | updateConfig _ _ | recreateTable => exact absurd hc id

/-- What a call can do to the records: launch one, or terminate or stop one. -/
theorem serves_instances {c : Call} {w w' : Account} {r : Answer c} (h : Serves c w r w') :
    w'.instances = w.instances ∨
    (∃ (j : InstanceId) (name : String) (hj : w.Fresh j),
      c = .createInstances name ∧ w'.instances = (w.launch j name hj).instances) ∨
    ∃ (j : InstanceId) (f : InstanceState → InstanceState),
      (f = InstanceState.terminate ∨ f = InstanceState.stop) ∧
        w'.instances = (w.modify j f).instances := by
  cases c with
  | createInstances name =>
    obtain ⟨hj, rfl⟩ := h
    exact .inr (.inl ⟨r, name, hj, rfl, rfl⟩)
  | terminate j => exact .inr (.inr ⟨j, _, .inl rfl, by rw [h.2]⟩)
  | stop j => exact .inr (.inr ⟨j, _, .inr rfl, by rw [h.2]⟩)
  | registerTargets j => exact .inl (by rw [h.2, Account.register_instances])
  | deregisterTargets j => exact .inl (by rw [show w' = w.deregister j from h]; rfl)
  | applyAsync j => exact .inl (by rw [show w' = w.enqueue j from h]; rfl)
  | insertConfig row =>
    obtain ⟨_, rfl⟩ := h
    exact .inl rfl
  | updateConfig key changes =>
    obtain ⟨_, _, rfl⟩ := h
    exact .inl rfl
  | recreateTable => exact .inl (by rw [h])
  | describeInstances _ | describeInstance _ | waitRunning _ | associateProfile _
  | describeTargetHealth | getMetricStatistics _ _ | putMetricData _ _ | queryFirst
  | iterate _ | sample _ _ => exact .inl (congrArg Account.instances (serves_readOnly (by trivial) h))

section
variable {faults : Call → Account → Prop} {w w' : Account} {α β : Type} {p : Op α}
  {f : α → Op β} {a : α}

theorem runs_readOnly (hp : p.Uses Call.ReadOnly) {res : Except PyError α}
    (h : Runs (services faults) p w res w') : w' = w :=
  h.visits.preserves id hp fun _ _ _ _ hc hs => serves_readOnly hc hs

/-- A run that returns met no fault. -/
theorem runs_ok_noFaults (h : Runs (services faults) p w (.ok a) w') :
    Runs (services noFaults) p w (.ok a) w' := by
  induction p generalizing w with
  | ret a => exact h
  | raise e => exact h
  | call c k ih =>
    obtain ⟨r, w₁, hs, hr⟩ | ⟨e, _, he, _⟩ := h
    · exact .inl ⟨r, w₁, hs, ih r hr⟩
    · cases he

/-- A read either raises, and then nothing has changed, or the run goes on with its answer. -/
theorem runs_bind_read (hy : Yields (services noFaults) p w a) (hp : p.Uses Call.ReadOnly)
    {res : Except PyError β} (h : Runs (services faults) (p >>= f) w res w') :
    w' = w ∨ Runs (services faults) (f a) w res w' := by
  obtain ⟨a', w₁, ha, hf⟩ | ⟨e, he, _⟩ := runs_bind.mp h
  · obtain ⟨hok, rfl⟩ := (hy _ _).mp (runs_ok_noFaults ha)
    cases hok
    exact .inr hf
  · exact .inl (runs_readOnly hp he)

end

section
variable {w : Account}

/-- A call that the services do not reject is served. -/
theorem runs_ask {c : Call} {w' : Account} {res : Except PyError (Answer c)}
    (hr : ∀ e, ¬ Rejects c w e) :
    Runs (services noFaults) (ask c) w res w' ↔ ∃ r, Serves c w r w' ∧ res = .ok r := by
  rw [runs_request]
  constructor
  · intro h
    obtain h | ⟨e, h | ⟨h, _⟩, _⟩ := h
    · exact h
    · exact absurd h (hr e)
    · exact False.elim h
  · intro h
    exact .inl h

/-- A call that is always answered, and with one effect. -/
theorem does_ask {c : Call} {a : Answer c} {w₁ : Account}
    (hs : ∀ r w', Serves c w r w' ↔ r = a ∧ w' = w₁) (hr : ∀ e, ¬ Rejects c w e) :
    Does (services noFaults) (ask c) w a w₁ := by
  intro res w'
  rw [runs_ask hr]
  constructor
  · intro h
    obtain ⟨r, h, rfl⟩ := h
    obtain ⟨rfl, rfl⟩ := (hs r w').mp h
    exact ⟨rfl, rfl⟩
  · intro h
    obtain ⟨rfl, rfl⟩ := h
    exact ⟨a, (hs a w').mpr ⟨rfl, rfl⟩, rfl⟩

theorem yields_describeInstances (filter : InstanceFilter) :
    Yields (services noFaults) (ask (.describeInstances filter)) w (w.listed filter) :=
  does_ask (fun _ _ => Iff.rfl) fun _ h => h

theorem yields_queryFirst :
    Yields (services noFaults) (ask .queryFirst) w w.table.rows.head? :=
  does_ask (fun _ _ => Iff.rfl) fun _ h => h

theorem yields_cpuUtil (id : InstanceId) (seconds : Nat) :
    Yields (services noFaults) (getSingleInstanceCpuUtil id seconds) w (w.cpu id seconds) :=
  does_ask (fun _ _ => Iff.rfl) fun _ h => h

theorem yields_running :
    Yields (services noFaults) getRunningInstances w
      (w.listed ⟨some runningStates, "worker"⟩, (w.workers runningStates).card) :=
  (yields_describeInstances _).bind Does.pure

theorem yields_nonTerminated :
    Yields (services noFaults) getNonTerminatedInstances w
      (w.listed ⟨some nonTerminatedStates, "worker"⟩, (w.workers nonTerminatedStates).card) :=
  (yields_describeInstances _).bind Does.pure

theorem yields_hasPending :
    Yields (services noFaults) hasPendingInstances w (decide (w.workers pendingStates ≠ ∅)) := by
  refine (yields_describeInstances _).bind ?_
  have he : (w.listed ⟨some pendingStates, "worker"⟩).length = 0 ↔ w.workers pendingStates = ∅ := by
    simp [Account.workers, ids]
  split
  next h =>
    have hb : decide (w.workers pendingStates ≠ ∅) = false := by simp [he.mp h]
    rw [hb]
    exact Does.pure
  next h =>
    have hb : decide (w.workers pendingStates ≠ ∅) = true := by simp [← he, h]
    rw [hb]
    exact Does.pure

theorem mem_foldl_addHealthy (l : List Target) (s : Finset InstanceId) (id : InstanceId) :
    id ∈ l.foldl addHealthy s ↔ id ∈ s ∨ (⟨id, .healthy⟩ : Target) ∈ l := by
  induction l generalizing s with
  | nil => simp
  | cons t l ih =>
    obtain ⟨j, st⟩ := t
    rw [List.foldl_cons, ih, List.mem_cons]
    by_cases hst : st = .healthy
    · simp [addHealthy, hst, Finset.mem_insert, or_assoc, or_left_comm]
    · simp [addHealthy, hst, Ne.symm hst]

theorem inserviceIds_targets : inserviceIds w.targets = w.healthy := by
  ext id
  rw [inserviceIds, mem_foldl_addHealthy, Account.mem_healthy]
  simp

theorem yields_healthCheck : Yields (services noFaults) healthCheck w w.targets :=
  does_ask (fun _ _ => Iff.rfl) fun _ h => h

theorem yields_serving :
    Yields (services noFaults) getServingInstances w (w.healthy, w.healthy.card) := by
  rw [← inserviceIds_targets]
  exact yields_healthCheck.bind Does.pure

/-- The loop answers from the metrics of the ids it walks, in their order. -/
theorem yields_gather (order : List InstanceId) (stats : List Num) :
    Yields (services noFaults) (gatherCpuStats order stats) w
      (if ∀ id ∈ order, w.datapoints id ≠ [] then
        (true, npMean (stats ++ order.map fun id => npMean ((w.datapoints id).map .val)))
      else (false, .val 0)) := by
  induction order generalizing stats with
  | nil => simpa [gatherCpuStats] using Does.pure
  | cons id rest ih =>
    refine (yields_cpuUtil id 120).bind ?_
    split
    next h =>
      have hid : w.datapoints id = [] := List.length_eq_zero_iff.mp h
      rw [if_neg fun hall => hall id (by simp) hid]
      exact Does.pure
    next h =>
      have hid : w.datapoints id ≠ [] := fun hn => h (List.length_eq_zero_iff.mpr hn)
      have hiff : (∀ j ∈ id :: rest, w.datapoints j ≠ []) ↔ ∀ j ∈ rest, w.datapoints j ≠ [] := by
        simp [hid]
      simp only [hiff, List.map_cons]
      have hrest := ih (stats ++ [npMean ((w.datapoints id).map .val)])
      rw [List.append_assoc] at hrest
      exact hrest

/-- The mean of the means does not depend on the order in which the ids are walked. -/
theorem npMean_means {order : List InstanceId} {s : Finset InstanceId} (hn : order.Nodup)
    (hs : order.toFinset = s) (hd : ∀ id ∈ s, w.datapoints id ≠ []) :
    npMean (order.map fun id => npMean ((w.datapoints id).map .val)) =
      if s = ∅ then .nan else .val ((∑ id ∈ s, mean (w.datapoints id)) / s.card) := by
  have hvals : order.map (fun id => npMean ((w.datapoints id).map .val)) =
      (order.map fun id => mean (w.datapoints id)).map .val := by
    rw [List.map_map]
    refine List.map_congr_left fun id hid => ?_
    have hne : w.datapoints id ≠ [] := hd id (hs ▸ List.mem_toFinset.mpr hid)
    simp [npMean_map_val, hne]
  have hempty : order = [] ↔ s = ∅ := by
    rw [← hs, List.toFinset_eq_empty_iff]
  have hsum : (order.map fun id => mean (w.datapoints id)).sum =
      ∑ id ∈ s, mean (w.datapoints id) := by
    rw [← hs, List.sum_toFinset _ hn]
  have hlen : order.length = s.card := by
    rw [← hs, List.toFinset_card_of_nodup hn]
  rw [hvals, npMean_map_val]
  by_cases he : s = ∅
  · simp [he, hempty.mpr he]
  · have hne : order.map (fun id => mean (w.datapoints id)) ≠ [] := by simpa [hempty] using he
    rw [if_neg hne, if_neg he, mean, hsum, List.length_map, hlen]

/-- A walk over an id set that gives one answer for every order of it. -/
theorem yields_iterate {α : Type} {s : Finset InstanceId} {f : List InstanceId → Op α} {a : α}
    (hf : ∀ order : List InstanceId, order.Nodup → order.toFinset = s →
      Yields (services noFaults) (f order) w a) :
    Yields (services noFaults) (ask (.iterate s) >>= f) w a := by
  intro res w'
  rw [runs_bind]
  constructor
  · intro h
    obtain ⟨order, w₁, hi, hg⟩ | ⟨e, he, _⟩ := h
    · obtain ⟨order', ⟨⟨hn, hs⟩, rfl⟩, hok⟩ := (runs_ask (c := .iterate s) fun _ h => h).mp hi
      cases hok
      exact (hf order hn hs res w').mp hg
    · obtain ⟨_, _, hok⟩ := (runs_ask (c := .iterate s) fun _ h => h).mp he
      cases hok
  · intro h
    have hn := s.nodup_toList
    have hs := s.toList_toFinset
    have hi : Runs (services noFaults) (ask (.iterate s)) w (.ok s.toList) w :=
      (runs_ask (c := .iterate s) fun _ h => h).mpr ⟨_, ⟨⟨hn, hs⟩, rfl⟩, rfl⟩
    exact .inl ⟨s.toList, w, hi, (hf _ hn hs res w').mpr h⟩

theorem yields_allValid :
    Yields (services noFaults) allInstanceHasValidCpuUtil w
      (if w.AllMeasured then (true, w.fleetMean) else (false, .val 0)) := by
  refine yields_serving.bind (yields_iterate fun order hn hs => ?_)
  have hy := yields_gather (w := w) order []
  have hiff : (∀ id ∈ order, w.datapoints id ≠ []) ↔ w.AllMeasured := by
    simp only [Account.AllMeasured, ← hs, List.mem_toFinset]
  by_cases hd : w.AllMeasured
  · rw [if_pos (hiff.mpr hd), List.nil_append, npMean_means hn hs hd] at hy
    rw [if_pos hd]
    exact hy
  · rw [if_neg fun h => hd (hiff.mp h)] at hy
    rw [if_neg hd]
    exact hy

end
end OdwaManager
