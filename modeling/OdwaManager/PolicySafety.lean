import OdwaManager.Cooldown
import OdwaManager.PolicyForm

/-! Nothing checks the policy form. Which stored policies let the next tick through without
an error and with a healthy worker left, in every account that a serial run can reach. -/
namespace OdwaManager
open Effect Program

/-- A tick from `w` does not raise and leaves a healthy worker. -/
def TickSafe (w : Account) : Prop :=
  Ensures (services noFaults) autoCheckAvgCpuUtilization w fun res w' =>
    (∃ report, res = .ok report) ∧ w'.healthy.Nonempty

/-- The columns that a tick reads at the mean `a` and with `m` workers are not null, and
a shrink keeps part of the pool. -/
def AutoScalingConfig.SafeAt (config : AutoScalingConfig) (a : ℚ) (m : Nat) : Prop :=
  ∃ et, config.expandThreshold = some et ∧
    (a > et → 8 ≤ m ∨ config.expandRatio ≠ none) ∧
    (a ≤ et → ∃ st, config.shrinkThreshold = some st ∧
      (a < st → ∃ ratio, config.shrinkRatio = some ratio ∧ ratio < 1))

section
variable {w : Account} {config : AutoScalingConfig} {ratio : ℚ}

theorem toDestroy_lt_iff {n : Nat} (hn : 0 < n) : toDestroy ratio n < n ↔ ratio < 1 := by
  have hn' : (0 : ℚ) < n := Nat.cast_pos.mpr hn
  have hfloor : ⌊ratio*n⌋ < (n : ℤ) ↔ ratio < 1 := by
    rw [Int.floor_lt, Int.cast_natCast]
    exact mul_lt_iff_lt_one_left hn'
  have hnat := pyInt_toNat (ratio*n)
  rw [← hfloor, toDestroy]
  omega

theorem healthy_destroyed_nonempty {k : ℤ} {l : List InstanceId} (hl : IsSample w.healthy k l)
    (hne : w.healthy.Nonempty) : (w.destroyed l).healthy.Nonempty ↔ k < w.healthy.card := by
  rw [Account.healthy_destroyed, ← hl.spares_iff hne]
  simp [Finset.Nonempty]

theorem ensures_shrink_safe (hk : ∀ id ∈ w.healthy, w.Known id) (hne : w.healthy.Nonempty)
    (hr : config.shrinkRatio = some ratio) :
    Ensures (services noFaults) (shrinkFleet config w.healthy.card) w
      (fun res w' => (∃ report, res = .ok report) ∧ w'.healthy.Nonempty) ↔ ratio < 1 := by
  rw [← toDestroy_lt_iff hne.card_pos]
  simp only [Ensures, runs_shrinkFleet hr hk]
  by_cases hle : toDestroy ratio w.healthy.card ≤ w.healthy.card
  · simp only [if_pos hle]
    obtain ⟨l, hl⟩ := exists_isSample hle
    constructor
    · intro h
      exact (healthy_destroyed_nonempty hl hne).mp (h.2 _ _ ⟨l, hl, rfl, rfl⟩).2
    · intro h
      refine ⟨⟨_, _, l, hl, rfl, rfl⟩, fun res w' hrun => ?_⟩
      obtain ⟨l', hl', rfl, rfl⟩ := hrun
      exact ⟨⟨_, rfl⟩, (healthy_destroyed_nonempty hl' hne).mpr h⟩
  · simp only [if_neg hle]
    constructor
    · intro h
      obtain ⟨⟨report, hok⟩, _⟩ := h.2 _ _ ⟨rfl, rfl⟩
      cases hok
    · intro h
      omega

theorem ensures_expand_safe (hne : w.healthy.Nonempty) (n : Nat) :
    Ensures (services noFaults) (expandFleet config n w.fleetSize) w
      (fun res w' => (∃ report, res = .ok report) ∧ w'.healthy.Nonempty) ↔
    8 ≤ w.fleetSize ∨ config.expandRatio ≠ none := by
  by_cases hm : 8 ≤ w.fleetSize
  · rw [expandFleet, if_pos hm]
    simp [hm, hne]
  · cases hr : config.expandRatio with
    | none =>
      rw [expandFleet, if_neg hm, hr]
      change Ensures _ (.raise PyError.typeError) w _ ↔ _
      simp [hm]
    | some ratio =>
      simp only [Ensures, runs_expandFleet (not_le.mp hm) hr]
      obtain ⟨w', hw'⟩ := w.exists_grows (toCreate ratio n w.fleetSize).toNat
      refine iff_of_true ⟨⟨_, w', rfl, hw'⟩, fun res w' hrun => ?_⟩
        (.inr (Option.some_ne_none ratio))
      refine ⟨⟨_, hrun.1⟩, ?_⟩
      rw [Account.healthy, hrun.2.targets]
      exact hne

/-- A tick that acts is safe exactly if its policy is safe at the mean it finds. -/
theorem tickSafe_iff (hready : w.Ready config) (hk : ∀ id ∈ w.healthy, w.Known id)
    (hne : w.healthy.Nonempty) : TickSafe w ↔ config.SafeAt w.meanCpu w.fleetSize := by
  have hmean := Account.fleetMean_eq hne
  rw [TickSafe, ensures_tick hready, Account.action, AutoScalingConfig.SafeAt]
  cases het : config.expandThreshold with
  | none =>
    rw [actOn, het]
    change Ensures _ (.raise PyError.typeError) w _ ↔ _
    simp
  | some et =>
    by_cases hgt : w.meanCpu > et
    · have hgt' : w.fleetMean.gt et = true := by simpa [hmean, Num.gt] using hgt
      rw [actOn_expand het hgt', ensures_expand_safe hne]
      simp [hgt]
    · have hgt' : w.fleetMean.gt et = false := by simpa [hmean, Num.gt] using hgt
      cases hst : config.shrinkThreshold with
      | none =>
        rw [actOn_below het hgt', hst]
        change Ensures _ (.raise PyError.typeError) w _ ↔ _
        simp [hgt]
      | some st =>
        by_cases hlt : w.meanCpu < st
        · have hlt' : w.fleetMean.lt st = true := by simpa [hmean, Num.lt] using hlt
          rw [actOn_shrink het hgt' hst hlt']
          cases hr : config.shrinkRatio with
          | none =>
            rw [shrinkFleet, hr]
            change Ensures _ (.raise PyError.typeError) w _ ↔ _
            simp [hlt, not_lt.mp hgt]
          | some ratio =>
            rw [ensures_shrink_safe hk hne hr]
            simp [hlt, hgt, not_lt.mp hgt]
        · have hlt' : w.fleetMean.lt st = false := by simpa [hmean, Num.lt] using hlt
          rw [actOn_within het hgt' hst hlt']
          simp [hlt, hgt, hne]

end

/-- A tick that no policy lets act is safe. -/
theorem tickSafe_of_gates {w : Account} (hne : w.healthy.Nonempty) (h : ∀ config, ¬ w.Ready config) :
    TickSafe w := by
  simp only [TickSafe, Ensures, runs_tick]
  cases hg : w.gate with
  | inl report =>
    refine ⟨⟨_, w, rfl, rfl⟩, fun res w' hrun => ?_⟩
    rw [hrun.1, hrun.2]
    exact ⟨⟨report, rfl⟩, hne⟩
  | inr config => exact absurd (ready_of_gate hg) (h config)

/-- After a form was accepted in a reachable account its thresholds and its expand ratio
are stored, and a tick that finds a healthy worker is safe exactly if it does not act or
the stored policy is safe at the mean it finds. -/
theorem scaler_safe_iff {faults : Call → Account → Prop} {w₀ w₁ w₂ w : Account} {form : Form}
    {before after : List Move} (h₀ : w₀.targets = []) (hq : ∀ id ∈ w₀.queue, w₀.IsWorker id)
    (ht : w₀.table.rows.length ≤ 1) (hbefore : SerialRun faults Truthful w₀ before w₁)
    (happly : Runs (services faults) (apply form) w₁ (.ok .policyApplied) w₂)
    (hlater : ∀ m ∈ after, ¬ m.SetsPolicy) (hafter : SerialRun faults Truthful w₂ after w)
    (hne : w.healthy.Nonempty) :
    ∃ config, w.table.rows.head? = some config ∧ config.isOn = true ∧
      config.expandThreshold = form.expandThreshold ∧
      config.shrinkThreshold = form.shrinkThreshold ∧ config.expandRatio = form.expandRatio ∧
      (TickSafe w ↔ (w.Ready config → config.SafeAt w.meanCpu w.fleetSize)) := by
  have hi₁ := run_inclusion (inclusion_of_no_targets h₀ hq) hbefore
  have hi := run_inclusion (inclusion_stores (apply_uses form) w₁ _ w₂ hi₁ happly) hafter
  have hrows : w₁.table.rows.length ≤ 1 := run_rows ht hbefore
  have htable := (Applied.intro hrows happly hlater hafter).table
  have hstored : w.table.rows.head? = some form.row := by rw [htable]; rfl
  refine ⟨form.row, hstored, rfl, rfl, rfl, rfl, ?_⟩
  by_cases hready : w.Ready form.row
  · rw [tickSafe_iff hready (fun id hid => (hi.healthy_worker id hid).inState.known) hne]
    simp [hready]
  · refine iff_of_true (tickSafe_of_gates hne fun config hr => hready ?_) fun h => absurd h hready
    have hrow : form.row = config := Option.some.inj (hstored.symm.trans hr.stored)
    exact hrow ▸ hr

/-- The worker of `lone` in service, under the policy of a form. -/
def loneUnder (form : Form) : Account := { loneServing with table := .single form.row }

section
variable (form : Form)

theorem loneUnder_applied :
    Runs (services noFaults) (apply form) loneServing (.ok .policyApplied) (loneUnder form) :=
  (does_apply form (by decide)).runs

theorem loneUnder_ready : (loneUnder form).Ready form.row where
  stored := rfl
  isOn := rfl
  settled := rfl
  inService := rfl
  measured := fun _ _ => List.cons_ne_nil _ _

theorem loneUnder_meanCpu : (loneUnder form).meanCpu = 90 := by
  rw [Account.meanCpu, show (loneUnder form).healthy = {"i-1"} from rfl]
  norm_num [Account.datapoints, loneUnder, loneServing, lone, mean]

end

theorem scaler_safe_iff_defaults :
    TickSafe (loneUnder ⟨some (4/5), some (1/10), some 2, some (4/5)⟩) := by
  obtain ⟨config, hstored, _, het, _, her, hiff⟩ := scaler_safe_iff rfl lone_queue (by decide)
    loneServing_reached (loneUnder_applied ⟨some (4/5), some (1/10), some 2, some (4/5)⟩)
    (fun m hm => absurd hm List.not_mem_nil) .nil ⟨"i-1", by decide⟩
  refine hiff.mpr fun _ => ⟨4/5, het, fun _ => .inr (by rw [her]; nofun), fun hle => ?_⟩
  rw [loneUnder_meanCpu] at hle
  norm_num at hle

/-- A form without its fields is accepted, and then the tick compares with None. -/
theorem scaler_unsafe_missing :
    ¬ ∀ (w₀ w₁ w₂ w : Account) (form : Form) (before after : List Move), w₀.targets = [] →
      (∀ id ∈ w₀.queue, w₀.IsWorker id) → w₀.table.rows.length ≤ 1 →
      SerialRun noFaults Truthful w₀ before w₁ →
      Runs (services noFaults) (apply form) w₁ (.ok .policyApplied) w₂ →
      (∀ m ∈ after, ¬ m.SetsPolicy) → SerialRun noFaults Truthful w₂ after w →
      w.healthy.Nonempty → TickSafe w := by
  intro h
  have hsafe := h _ _ _ _ ⟨none, none, none, none⟩ _ _ rfl lone_queue (by decide)
    loneServing_reached (loneUnder_applied _) (fun m hm => absurd hm List.not_mem_nil) .nil
    ⟨"i-1", by decide⟩
  have hknown : ∀ id ∈ (loneUnder ⟨none, none, none, none⟩).healthy,
      (loneUnder ⟨none, none, none, none⟩).Known id := by decide
  rw [tickSafe_iff (loneUnder_ready _) hknown ⟨"i-1", by decide⟩] at hsafe
  obtain ⟨et, het, _⟩ := hsafe
  cases het

end OdwaManager
