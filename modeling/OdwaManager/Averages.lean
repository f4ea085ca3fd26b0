import OdwaManager.Effect.Interference
import OdwaManager.TickSpec

/-! The average is computed three times over: for the panel, for the published metric and for
the scaling decision. The three agree wherever they are defined. -/
namespace OdwaManager
open Effect Program

/-- The healthy ids with at least one datapoint. -/
def Account.measured (w : Account) : Finset InstanceId :=
  w.healthy.filter fun id => w.datapoints id ≠ []

/-- The mean over the measured ids of the mean of their datapoints. -/
def Account.measuredMean (w : Account) : ℚ :=
  (∑ id ∈ w.measured, mean (w.datapoints id)) / w.measured.card

/-- What goes to CloudWatch. -/
def published : (c : Call) → Answer c → List (Metric × ℚ)
  | .putMetricData metric value, _ => [(metric, value)]
  | _, _ => []

section
variable {w : Account}

theorem mem_measured {id : InstanceId} :
    id ∈ w.measured ↔ id ∈ w.healthy ∧ w.datapoints id ≠ [] := by
  simp [Account.measured]

theorem measured_eq (h : w.AllMeasured) : w.measured = w.healthy :=
  Finset.filter_true_of_mem h

theorem allMeasured_iff : w.AllMeasured ↔ ¬ ∃ id ∈ w.healthy, id ∉ w.measured := by
  simp only [mem_measured, Account.AllMeasured, not_exists, not_and, not_not]
  constructor
  · intro h id hid hne
    exact absurd (hne hid) (h id hid)
  · intro h id hid hnil
    exact h id hid fun _ => hnil

/-- The loops that skip a worker without data. -/
theorem yields_collect (order : List InstanceId) (stats : List Num) :
    Yields (services noFaults) (collectCpuStats order stats) w
      (stats ++ (order.filter fun id => w.datapoints id ≠ []).map fun id =>
        npMean ((w.datapoints id).map .val)) := by
  induction order generalizing stats with
  | nil => simpa [collectCpuStats] using Does.pure
  | cons id rest ih =>
    refine (yields_cpuUtil id 120).bind ?_
    change Yields _ (if (w.datapoints id).length ≠ 0 then _ else _) w _
    by_cases hid : w.datapoints id = []
    · rw [if_neg (by simp [hid]), List.filter_cons_of_neg (by simp [hid])]
      exact ih stats
    · rw [if_pos (by simpa using hid), List.filter_cons_of_pos (by simpa using hid)]
      have hrest := ih (stats ++ [npMean ((w.datapoints id).map .val)])
      rw [List.append_assoc] at hrest
      exact hrest

/-- The average of a whole walk, and what there is to average. -/
theorem npMean_measured {order : List InstanceId} (hn : order.Nodup)
    (hs : order.toFinset = w.healthy) :
    npMean ((order.filter fun id => w.datapoints id ≠ []).map fun id =>
        npMean ((w.datapoints id).map .val)) =
      if w.measured = ∅ then .nan else .val w.measuredMean := by
  have hmeasured : (order.filter fun id => w.datapoints id ≠ []).toFinset = w.measured := by
    ext id
    simp [mem_measured, ← hs]
  exact npMean_means (hn.filter _) hmeasured fun id hid => (mem_measured.mp hid).2

theorem length_measured {order : List InstanceId} (hs : order.toFinset = w.healthy) :
    ((order.filter fun id => w.datapoints id ≠ []).map fun id =>
      npMean ((w.datapoints id).map .val)).length ≠ 0 ↔ w.measured.Nonempty := by
  rw [List.length_map, Ne, List.length_eq_zero_iff, List.filter_eq_nil_iff]
  simp [Finset.Nonempty, mem_measured, ← hs]

/-- The walk that the panel and the published metric share: `found` of the average, or
`missing` when no healthy worker has data. -/
theorem yields_walk {α : Type} (found : Num → α) (missing : α) :
    Yields (services noFaults) (do
        let order ← ask (.iterate w.healthy)
        let cpuStatsList ← collectCpuStats order []
        if cpuStatsList.length ≠ 0 then return found (npMean cpuStatsList)
        return missing) w
      (if w.measured = ∅ then missing else found (.val w.measuredMean)) := by
  refine yields_iterate fun order hn hs => (yields_collect order []).bind ?_
  rw [List.nil_append]
  by_cases hm : w.measured = ∅
  · rw [if_neg (by rw [length_measured hs, hm]; simp), if_pos hm]
    exact Does.pure
  · rw [if_pos ((length_measured hs).mpr (Finset.nonempty_iff_ne_empty.mpr hm)),
      npMean_measured hn hs, if_neg hm, if_neg hm]
    exact Does.pure

theorem measured_of_card (h : w.healthy.card = 0) : w.measured = ∅ := by
  rw [Account.measured, Finset.card_eq_zero.mp h, Finset.filter_empty]

theorem yields_getAvgCpuUtilization2 :
    Yields (services noFaults) getAvgCpuUtilization2 w
      (if w.measured = ∅ then none else some (.val w.measuredMean)) := by
  refine yields_serving.bind ?_
  dsimp only
  by_cases hc : w.healthy.card = 0
  · rw [if_pos hc, if_pos (measured_of_card hc)]
    exact Does.pure
  · rw [if_neg hc]
    exact yields_walk some none

theorem yields_averageOf :
    Yields (services noFaults)
      (recordServingInstancesAvgCpuUtil.averageOf w.healthy w.healthy.card) w
      (.val (if w.measured = ∅ then 0 else w.measuredMean)) := by
  rw [apply_ite Num.val]
  unfold recordServingInstancesAvgCpuUtil.averageOf
  by_cases hc : w.healthy.card = 0
  · rw [if_neg (not_not.mpr hc), if_pos (measured_of_card hc)]
    exact Does.pure
  · rw [if_pos hc]
    exact yields_walk id (.val 0)

/- The published metrics. -/

theorem Call.Observes.unpublished {c : Call} (h : c.Observes) (r : Answer c) :
    published c r = [] := by
  cases c with
  | describeTargetHealth | getMetricStatistics _ _ | iterate _ | sample _ _ => rfl
  | _ => exact False.elim h

theorem collectCpuStats_uses (order : List InstanceId) (stats : List Num) :
    (collectCpuStats order stats).Uses Call.Observes := by
  induction order generalizing stats with
  | nil => exact Uses.pure _
  | cons id rest ih =>
    refine Uses.bind (Uses.request trivial) fun r => ?_
    split
    · exact ih _
    · exact ih _

theorem averageOf_uses (s : Finset InstanceId) (n : Nat) :
    (recordServingInstancesAvgCpuUtil.averageOf s n).Uses Call.Observes := by
  unfold recordServingInstancesAvgCpuUtil.averageOf
  split
  · refine Uses.bind (Uses.request trivial) fun order => ?_
    refine Uses.bind (collectCpuStats_uses order []) fun l => ?_
    split <;> exact Uses.pure _
  · exact Uses.pure _

theorem does_putMetricData (metric : Metric) (value : ℚ) (log : List (Metric × ℚ)) :
    Does ((services noFaults).noting published) (ask (.putMetricData metric value)) (w, log) ()
      (w, (metric, value) :: log) := by
  intro res w'
  rw [runs_request]
  constructor
  · intro h
    obtain ⟨_, ⟨hw, hlog⟩, rfl⟩ | ⟨e, h | ⟨h, _⟩, _⟩ := h
    · exact ⟨rfl, Prod.ext hw hlog⟩
    · exact False.elim h
    · exact False.elim h
  · intro h
    obtain ⟨rfl, rfl⟩ := h
    exact .inl ⟨(), ⟨rfl, rfl⟩, rfl⟩

/-- The record publishes the number of healthy workers, then the average or 0. -/
theorem does_record (log : List (Metric × ℚ)) :
    Does ((services noFaults).noting published) recordServingInstancesAvgCpuUtil (w, log) ()
      (w, (.avgCpuUtil, if w.measured = ∅ then 0 else w.measuredMean) ::
        (.numWorkersAverage, (w.healthy.card : ℚ)) :: log) := by
  refine (yields_serving.noting log (getServingInstances_uses.mono fun c h => h.unpublished)).bind ?_
  refine (does_putMetricData .numWorkersAverage _ log).bind ?_
  refine (yields_averageOf.noting _ ((averageOf_uses _ _).mono fun c h => h.unpublished)).bind ?_
  exact does_putMetricData .avgCpuUtil _ _

/- The average is between the least and the greatest datapoint. -/

theorem exists_le_mean {l : List ℚ} (h : l ≠ []) : ∃ x ∈ l, x ≤ mean l := by
  have hpos : (0 : ℚ) < l.length := by exact_mod_cast List.length_pos_of_ne_nil h
  refine List.exists_le_of_sum_le h (f := fun x => x) (g := fun _ => mean l) ?_
  simp [mean, mul_div_cancel₀ _ hpos.ne']

theorem exists_mean_le {l : List ℚ} (h : l ≠ []) : ∃ x ∈ l, mean l ≤ x := by
  have hpos : (0 : ℚ) < l.length := by exact_mod_cast List.length_pos_of_ne_nil h
  refine List.exists_le_of_sum_le h (f := fun _ => mean l) (g := fun x => x) ?_
  simp [mean, mul_div_cancel₀ _ hpos.ne']

theorem measuredMean_bounds (h : w.measured.Nonempty) :
    (∃ id ∈ w.measured, ∃ x ∈ w.datapoints id, x ≤ w.measuredMean) ∧
      ∃ id ∈ w.measured, ∃ x ∈ w.datapoints id, w.measuredMean ≤ x := by
  have hpos : (0 : ℚ) < w.measured.card := by exact_mod_cast h.card_pos
  have hsum : ∑ _id ∈ w.measured, w.measuredMean = ∑ id ∈ w.measured, mean (w.datapoints id) := by
    rw [Finset.sum_const, nsmul_eq_mul, Account.measuredMean, mul_div_cancel₀ _ hpos.ne']
  constructor
  · obtain ⟨id, hid, hle⟩ := Finset.exists_le_of_sum_le h hsum.ge
    obtain ⟨x, hx, hxle⟩ := exists_le_mean (mem_measured.mp hid).2
    exact ⟨id, hid, x, hx, hxle.trans hle⟩
  · obtain ⟨id, hid, hle⟩ := Finset.exists_le_of_sum_le h hsum.le
    obtain ⟨x, hx, hxle⟩ := exists_mean_le (mem_measured.mp hid).2
    exact ⟨id, hid, x, hx, hle.trans hxle⟩

theorem fleetMean_eq_measuredMean (h : w.AllMeasured) (hne : w.healthy.Nonempty) :
    w.fleetMean = .val w.measuredMean := by
  rw [Account.fleetMean_eq hne, Account.meanCpu, Account.measuredMean, measured_eq h]

end

/-- The panel returns and the metric publishes the same value, in whatever order Python walks
the ids; the decision is made on that value too, if every healthy worker has data. -/
theorem averages_agree (w : Account) (log : List (Metric × ℚ)) :
    (w.measured.Nonempty →
      Yields (services noFaults) getAvgCpuUtilization2 w (some (.val w.measuredMean)) ∧
      Does ((services noFaults).noting published) recordServingInstancesAvgCpuUtil (w, log) ()
        (w, (.avgCpuUtil, w.measuredMean) :: (.numWorkersAverage, (w.healthy.card : ℚ)) :: log) ∧
      (∃ id ∈ w.measured, ∃ x ∈ w.datapoints id, x ≤ w.measuredMean) ∧
      ∃ id ∈ w.measured, ∃ x ∈ w.datapoints id, w.measuredMean ≤ x) ∧
    (w.measured = ∅ →
      Yields (services noFaults) getAvgCpuUtilization2 w none ∧
      Does ((services noFaults).noting published) recordServingInstancesAvgCpuUtil (w, log) ()
        (w, (.avgCpuUtil, 0) :: (.numWorkersAverage, (w.healthy.card : ℚ)) :: log)) ∧
    (w.healthy.Nonempty → (∀ id ∈ w.healthy, id ∈ w.measured) →
      Yields (services noFaults) allInstanceHasValidCpuUtil w (true, .val w.measuredMean)) ∧
    (Yields (services noFaults) allInstanceHasValidCpuUtil w (false, .val 0) ↔
      ∃ id ∈ w.healthy, id ∉ w.measured) ∧
    (w.healthy = ∅ → ∃ avg, Yields (services noFaults) allInstanceHasValidCpuUtil w (true, avg) ∧
      ∀ (config : AutoScalingConfig) (et st : ℚ) (n m : Nat), config.expandThreshold = some et →
        config.shrinkThreshold = some st → actOn config n m avg = pure .withinRange) := by
  have hpanel := yields_getAvgCpuUtilization2 (w := w)
  have hrecord := does_record (w := w) log
  have hvalid := yields_allValid (w := w)
  refine ⟨fun hne => ?_, fun hempty => ?_, fun hne hall => ?_, ?_, fun hempty => ?_⟩
  · rw [if_neg hne.ne_empty] at hpanel hrecord
    exact ⟨hpanel, hrecord, measuredMean_bounds hne⟩
  · rw [if_pos hempty] at hpanel hrecord
    exact ⟨hpanel, hrecord⟩
  · have hm : w.AllMeasured := fun id hid => (mem_measured.mp (hall id hid)).2
    rw [if_pos hm, fleetMean_eq_measuredMean hm hne] at hvalid
    exact hvalid
  · rw [← not_iff_not, ← allMeasured_iff]
    constructor
    · intro h
      by_contra hm
      rw [if_neg hm] at hvalid
      exact h hvalid
    · intro hm h
      rw [if_pos hm] at hvalid
      have hok := ((h _ _).mp hvalid.runs).1
      simp at hok
  · have hm : w.AllMeasured := by
      intro id hid
      rw [hempty] at hid
      exact absurd hid (Finset.notMem_empty id)
    rw [if_pos hm, Account.fleetMean, if_pos hempty] at hvalid
    exact ⟨.nan, hvalid, fun config et st n m het hst => actOn_within het rfl hst rfl⟩

end OdwaManager
