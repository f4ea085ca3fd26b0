import OdwaManager.Decision

/-! More load never gives a smaller pool: two ticks from one fleet under two metric
assignments, the second above the first. -/
namespace OdwaManager
open Effect Program

def Account.withMetrics (w : Account) (cpu : InstanceId → Nat → List ℚ) : Account :=
  { w with cpu := cpu }

theorem mean_le_mean {l l' : List ℚ} (h : List.Forall₂ (· ≤ ·) l l') : mean l ≤ mean l' := by
  rw [mean, mean, h.length_eq]
  exact div_le_div_of_nonneg_right h.sum_le_sum (Nat.cast_nonneg _)

section
variable {w : Account} {cpu cpu' : InstanceId → Nat → List ℚ} {policy : Option Policy}

theorem meanCpu_le_meanCpu
    (hload : ∀ id ∈ w.healthy, List.Forall₂ (· ≤ ·) (cpu id 120) (cpu' id 120)) :
    (w.withMetrics cpu).meanCpu ≤ (w.withMetrics cpu').meanCpu := by
  have hsum : ∑ id ∈ w.healthy, mean (cpu id 120) ≤ ∑ id ∈ w.healthy, mean (cpu' id 120) :=
    Finset.sum_le_sum fun id hid => mean_le_mean (hload id hid)
  exact div_le_div_of_nonneg_right hsum (Nat.cast_nonneg _)

/-- As many datapoints are as good a measurement. -/
theorem steady_withMetrics_iff
    (hload : ∀ id ∈ w.healthy, List.Forall₂ (· ≤ ·) (cpu id 120) (cpu' id 120)) :
    (w.withMetrics cpu).Steady ↔ (w.withMetrics cpu').Steady := by
  have hmeasured : (w.withMetrics cpu).AllMeasured ↔ (w.withMetrics cpu').AllMeasured := by
    refine forall₂_congr fun id hid => not_congr ?_
    rw [← List.length_eq_zero_iff, ← List.length_eq_zero_iff]
    exact (hload id hid).length_eq ▸ Iff.rfl
  exact and_congr_right' (and_congr_right' (and_congr_right' hmeasured))

theorem decision_change_le
    (hload : ∀ id ∈ w.healthy, List.Forall₂ (· ≤ ·) (cpu id 120) (cpu' id 120)) :
    ((w.withMetrics cpu).decision policy).change ≤ ((w.withMetrics cpu').decision policy).change := by
  by_cases hs : (w.withMetrics cpu).Steady
  · have hs' := (steady_withMetrics_iff hload).mp hs
    cases policy with
    | none => exact le_rfl
    | some p =>
      by_cases hon : p.isOn = true
      · rw [decision_of_steady hon hs, decision_of_steady hon hs']
        exact p.decide_change_mono _ _ (meanCpu_le_meanCpu hload)
      · rw [Account.decision, Account.decision, if_neg fun h => hon h.1, if_neg fun h => hon h.1]
  · have hs' := fun h => hs ((steady_withMetrics_iff hload).mpr h)
    rw [decision_of_not_steady hs, decision_of_not_steady hs']

/-- The pool after the tick that finds more load is no smaller, whatever the two ticks sample. -/
theorem more_load_no_smaller {res res' : Except PyError TickReport} {w₁ w₂ : Account}
    (hworkers : ∀ id ∈ w.healthy, w.Worker id .running)
    (hpolicy : w.table.rows.head? = policy.map Policy.row)
    (hratio : ∀ p ∈ policy, p.shrinkRatio ≤ 1)
    (hload : ∀ id ∈ w.healthy, List.Forall₂ (· ≤ ·) (cpu id 120) (cpu' id 120))
    (h : Runs (services noFaults) autoCheckAvgCpuUtilization (w.withMetrics cpu) res w₁)
    (h' : Runs (services noFaults) autoCheckAvgCpuUtilization (w.withMetrics cpu') res' w₂) :
    w₁.poolSize ≤ w₂.poolSize := by
  have hsize : ∀ {cpu res w'}, Runs (services noFaults) autoCheckAvgCpuUtilization
      (w.withMetrics cpu) res w' →
      (w'.poolSize : ℤ) = w.poolSize+((w.withMetrics cpu).decision policy).change := by
    intro cpu res w' hr
    have hrun : Truthful (w.withMetrics cpu) := fun id hid => (hworkers id hid).inState
    have hworkers' : ∀ id ∈ (w.withMetrics cpu).healthy, (w.withMetrics cpu).Worker id .running :=
      hworkers
    have hpool := ((tickDoes_decision hrun hpolicy hratio).2 res w' hr).2.poolSize hworkers'
    exact hpool
  have hfirst := hsize h
  have hsecond := hsize h'
  have hchange : ((w.withMetrics cpu).decision policy).change ≤
      ((w.withMetrics cpu').decision policy).change := decision_change_le hload
  omega

end

theorem loneServing_worker : ∀ id ∈ loneServing.healthy, loneServing.Worker id .running := by
  intro id hid
  rw [show loneServing.healthy = {"i-1"} from rfl, Finset.mem_singleton] at hid
  rw [hid]
  exact List.mem_cons_self

/-- The one worker idle and busy. -/
theorem more_load_no_smaller_lone : ∃ res res' w₁ w₂,
    Runs (services noFaults) autoCheckAvgCpuUtilization
      (loneServing.withMetrics fun _ _ => [0, 1/2]) res w₁ ∧
    Runs (services noFaults) autoCheckAvgCpuUtilization
      (loneServing.withMetrics fun _ _ => [1/4, 90]) res' w₂ ∧ w₁.poolSize ≤ w₂.poolSize := by
  have hstored : loneServing.table.rows.head? =
      (some ⟨true, 1/10, 2, 1/10, 4/5⟩ : Option Policy).map Policy.row := rfl
  have hratio : ∀ p ∈ (some ⟨true, 1/10, 2, 1/10, 4/5⟩ : Option Policy), p.shrinkRatio ≤ 1 := by
    rintro p ⟨⟩
    norm_num
  have hruns : ∀ cpu, ∃ res w', Runs (services noFaults) autoCheckAvgCpuUtilization
      (loneServing.withMetrics cpu) res w' := by
    intro cpu
    have hrun : Truthful (loneServing.withMetrics cpu) := loneServing_truthful
    exact (tickDoes_decision hrun hstored hratio).1
  obtain ⟨res, w₁, h⟩ := hruns fun _ _ => [0, 1/2]
  obtain ⟨res', w₂, h'⟩ := hruns fun _ _ => [1/4, 90]
  refine ⟨res, res', w₁, w₂, h, h', ?_⟩
  refine more_load_no_smaller loneServing_worker hstored hratio (fun id _ => ?_) h h'
  norm_num
end OdwaManager
