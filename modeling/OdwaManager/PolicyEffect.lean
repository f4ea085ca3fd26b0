import OdwaManager.PolicyForm
import OdwaManager.TickSpec

/-! From the policy form to the tick: which number of workers a shrinking tick ends, and
what the percentages of the form mean to the thresholds. -/
namespace OdwaManager
open Effect Program

section
variable {faults : Call → Account → Prop} {elb : Account → Prop} {form : Form} {w₀ w : Account}

/-- An applied policy is acted on once the fleet is settled and measured. -/
theorem Applied.ready (h : Applied faults elb form w₀ w) (hp : w.workers pendingStates = ∅)
    (hn : w.healthy.card = (w.workers runningStates).card) (hm : w.AllMeasured) :
    w.Ready form.row where
  stored := by rw [h.table]; rfl
  isOn := rfl
  settled := hp
  inService := hn
  measured := hm

end

/- The shrink ratio. -/

/-- Whatever a tick from `w` samples, it does not raise and ends exactly `k` workers. -/
def EndsExactly (w : Account) (k : ℤ) : Prop :=
  Ensures (services noFaults) autoCheckAvgCpuUtilization w fun res w' =>
    (∃ report, res = .ok report) ∧ ((ended w w').card : ℤ) = k

theorem endsExactly_iff {w : Account} {config : AutoScalingConfig} {et st ratio : ℚ} {k : ℤ}
    (hr : w.Ready config) (hh : ∀ id ∈ w.healthy, w.Worker id .running) (hne : w.healthy.Nonempty)
    (het : config.expandThreshold = some et) (hst : config.shrinkThreshold = some st)
    (hratio : config.shrinkRatio = some ratio) (hle : w.meanCpu ≤ et) (hlt : w.meanCpu < st)
    (hk : 0 ≤ k) (hkn : k ≤ w.healthy.card) :
    EndsExactly w k ↔ max ⌊ratio*w.healthy.card⌋ 0 = k := by
  have hgt : w.fleetMean.gt et = false := by
    rw [Account.fleetMean_eq hne]
    simpa [Num.gt] using hle
  have hlt' : w.fleetMean.lt st = true := by
    rw [Account.fleetMean_eq hne]
    simpa [Num.lt] using hlt
  obtain ⟨n, rfl⟩ := Int.eq_ofNat_of_zero_le hk
  have hiff := ensures_shrink_iff hratio hh (k := n) (by omega)
  rw [EndsExactly, ensures_tick hr, Account.action, actOn_shrink het hgt hst hlt']
  simp only [Nat.cast_inj]
  rw [hiff]
  omega

/-- The tick follows the submitted shrink-ratio exactly when the shrink-threshold, which
apply stores in its place, rounds to the same number of workers. -/
theorem shrink_choice {faults : Call → Account → Prop} {elb : Account → Prop} {w₀ w : Account}
    {et st er sr : ℚ} (hsr : 0 ≤ sr) (hsr' : sr < 1)
    (happ : Applied faults elb ⟨some et, some st, some er, some sr⟩ w₀ w)
    (hp : w.workers pendingStates = ∅) (hh : ∀ id ∈ w.healthy, w.Worker id .running)
    (hn : w.healthy.card = (w.workers runningStates).card) (hne : w.healthy.Nonempty)
    (hm : w.AllMeasured) (hle : w.meanCpu ≤ et) (hlt : w.meanCpu < st) :
    EndsExactly w ⌊sr*w.healthy.card⌋ ↔
      max ⌊st*w.healthy.card⌋ 0 = ⌊sr*w.healthy.card⌋ := by
  have hcard : (0 : ℚ) ≤ w.healthy.card := Nat.cast_nonneg _
  have hnonneg : 0 ≤ ⌊sr*w.healthy.card⌋ := Int.floor_nonneg.mpr (mul_nonneg hsr hcard)
  have hbound : ⌊sr*w.healthy.card⌋ ≤ (w.healthy.card : ℤ) := by
    have hmul : sr*w.healthy.card ≤ w.healthy.card := mul_le_of_le_one_left hcard hsr'.le
    have hfloor := (Int.floor_le (sr*w.healthy.card)).trans hmul
    exact_mod_cast hfloor
  exact endsExactly_iff (happ.ready hp hn hm) hh hne rfl rfl rfl hle hlt hnonneg hbound

/-- Two workers in service, both at `load` percent, under the policy of a form. -/
def pair (load : ℚ) (table : ConfigTable) : Account :=
  { Account.vacant with
    instances := [⟨"i-1", some "worker", .running⟩, ⟨"i-2", some "worker", .running⟩]
    ids_nodup := by decide
    targets := [⟨"i-1", .healthy⟩, ⟨"i-2", .healthy⟩]
    cpu := fun _ _ => [load]
    table := table }

section
variable {load : ℚ} {table : ConfigTable}

theorem pair_applied (load : ℚ) (form : Form) :
    Applied noFaults (fun _ => True) form (pair load .empty) (pair load (.single form.row)) := by
  have hrows : (pair load .empty).table.rows.length ≤ 1 := Nat.zero_le 1
  exact .intro hrows (does_apply form hrows).runs (fun m hm => absurd hm List.not_mem_nil) .nil

theorem pair_healthy : (pair load table).healthy = {"i-1", "i-2"} := rfl

theorem pair_pending : (pair load table).workers pendingStates = ∅ := rfl

theorem pair_card : (pair load table).healthy.card = 2 := rfl

theorem pair_worker : ∀ id ∈ (pair load table).healthy, (pair load table).Worker id .running := by
  intro id hid
  rw [pair_healthy] at hid
  simp only [Finset.mem_insert, Finset.mem_singleton] at hid
  obtain rfl | rfl := hid
  · exact List.mem_cons_self
  · exact List.mem_cons_of_mem _ List.mem_cons_self

theorem pair_measured : (pair load table).AllMeasured := fun _ _ => List.cons_ne_nil _ _

theorem pair_meanCpu : (pair load table).meanCpu = load := by
  rw [Account.meanCpu, pair_card, pair_healthy]
  simp [Account.datapoints, pair, mean]

end

theorem shrink_choice_same_fraction :
    EndsExactly (pair (1/20) (.single (Form.row ⟨some (4/5), some (1/2), some 2, some (1/2)⟩)))
      ⌊(1/2 : ℚ)*2⌋ := by
  have hiff := shrink_choice (by norm_num) (by norm_num)
    (pair_applied (1/20) ⟨some (4/5), some (1/2), some 2, some (1/2)⟩) pair_pending
    pair_worker rfl ⟨"i-1", by decide⟩ pair_measured (by rw [pair_meanCpu]; norm_num)
    (by rw [pair_meanCpu]; norm_num)
  rw [pair_card] at hiff
  exact hiff.mpr (by norm_num)

/-- The form's own defaults: 0.8 of two workers is one, but a tenth of two is none. -/
theorem shrink_choice_defaults :
    ¬ ∀ (w₀ w : Account) (et st er sr : ℚ), 0 ≤ sr → sr < 1 →
      Applied noFaults (fun _ => True) ⟨some et, some st, some er, some sr⟩ w₀ w →
      w.workers pendingStates = ∅ → (∀ id ∈ w.healthy, w.Worker id .running) →
      w.healthy.card = (w.workers runningStates).card → w.healthy.Nonempty → w.AllMeasured →
      w.meanCpu ≤ et → w.meanCpu < st → EndsExactly w ⌊sr*w.healthy.card⌋ := by
  intro h
  have hends := h _ _ _ _ _ _ (by norm_num) (by norm_num)
    (pair_applied (1/20) ⟨some (4/5), some (1/10), some 2, some (4/5)⟩) pair_pending
    pair_worker rfl ⟨"i-1", by decide⟩ pair_measured (by rw [pair_meanCpu]; norm_num)
    (by rw [pair_meanCpu]; norm_num)
  have hready := (pair_applied (1/20) ⟨some (4/5), some (1/10), some 2, some (4/5)⟩).ready
    pair_pending rfl pair_measured
  have hiff := endsExactly_iff (k := 1) hready pair_worker ⟨"i-1", by decide⟩ rfl rfl rfl
    (by rw [pair_meanCpu]; norm_num) (by rw [pair_meanCpu]; norm_num) (by norm_num)
    (by rw [pair_card]; norm_num)
  rw [pair_card] at hends hiff
  norm_num at hends hiff
  exact hiff hends

/- The thresholds. -/

/-- An option of a threshold select: the value it submits and the percentage it shows. -/
structure ThresholdOption where
  value : ℚ
  percent : ℚ

/-- The select expand-threshold of autoscaling.html. -/
def expandThresholds : List ThresholdOption :=
  [⟨0.8, 80⟩, ⟨0.6, 60⟩, ⟨0.5, 50⟩, ⟨0.4, 40⟩, ⟨0.3, 30⟩]

/-- The select shrink-threshold of autoscaling.html. -/
def shrinkThresholds : List ThresholdOption :=
  [⟨0.1, 10⟩, ⟨0.2, 20⟩, ⟨0.3, 30⟩, ⟨0.4, 40⟩, ⟨0.5, 50⟩]

theorem expandThresholds_bounds {p : ThresholdOption} (h : p ∈ expandThresholds) :
    p.value = p.percent/100 ∧ p.percent ≤ 80 := by
  simp only [expandThresholds, List.mem_cons, List.not_mem_nil, or_false] at h
  obtain rfl | rfl | rfl | rfl | rfl := h <;> norm_num

theorem shrinkThresholds_bounds {q : ThresholdOption} (h : q ∈ shrinkThresholds) :
    q.value = q.percent/100 ∧ 10 ≤ q.percent ∧ q.percent ≤ 50 := by
  simp only [shrinkThresholds, List.mem_cons, List.not_mem_nil, or_false] at h
  obtain rfl | rfl | rfl | rfl | rfl := h <;> norm_num

/-- The report of a tick that went into its expand branch, at the cap or not. -/
def TickReport.Expands : TickReport → Prop
  | .expand _ | .reachesLimit => True
  | _ => False

def TickReport.Shrinks : TickReport → Prop
  | .shrink _ => True
  | _ => False

/-- A tick from `w` does not raise, expands for a mean above `p` and shrinks for a mean
below `q`, and not otherwise. -/
def BranchesAt (w : Account) (p q : ℚ) : Prop :=
  Ensures (services noFaults) autoCheckAvgCpuUtilization w fun res _ =>
    ∃ report, res = .ok report ∧ (report.Expands ↔ w.meanCpu > p) ∧ (report.Shrinks ↔ w.meanCpu < q)

section
variable {w : Account} {config : AutoScalingConfig} {p q et st er ratio : ℚ}

theorem ensures_expandFleet (hr : config.expandRatio = some er) (n m : Nat) :
    Ensures (services noFaults) (expandFleet config n m) w fun res _ =>
      ∃ report : TickReport, res = .ok report ∧ report.Expands ∧ ¬ report.Shrinks := by
  by_cases hm : m < 8
  · simp only [Ensures, runs_expandFleet hm hr]
    obtain ⟨w', hw'⟩ := w.exists_grows (toCreate er n m).toNat
    refine ⟨⟨_, w', rfl, hw'⟩, fun res w' h => ?_⟩
    exact ⟨_, h.1, trivial, id⟩
  · rw [expandFleet, if_pos (by omega)]
    refine ⟨⟨_, w, rfl, rfl⟩, fun res w' h => ?_⟩
    exact ⟨_, h.1, trivial, id⟩

theorem ensures_shrinkFleet (hr : config.shrinkRatio = some ratio) (hratio : ratio ≤ 1)
    (hk : ∀ id ∈ w.healthy, w.Known id) :
    Ensures (services noFaults) (shrinkFleet config w.healthy.card) w fun res _ =>
      ∃ report : TickReport, res = .ok report ∧ ¬ report.Expands ∧ report.Shrinks := by
  have hle := toDestroy_le hratio w.healthy.card
  simp only [Ensures, runs_shrinkFleet hr hk, if_pos hle]
  obtain ⟨l, hl⟩ := exists_isSample hle
  refine ⟨⟨_, _, l, hl, rfl, rfl⟩, fun res w' h => ?_⟩
  obtain ⟨l, hl, rfl, rfl⟩ := h
  exact ⟨_, rfl, id, trivial⟩

/-- The branch of the tick is the one that the stored thresholds give for the mean. -/
theorem branchesAt_stored (hr : w.Ready config) (hk : ∀ id ∈ w.healthy, w.Known id)
    (hne : w.healthy.Nonempty) (het : config.expandThreshold = some et)
    (hst : config.shrinkThreshold = some st) (her : config.expandRatio = some er)
    (hsr : config.shrinkRatio = some ratio) (hratio : ratio ≤ 1) :
    Ensures (services noFaults) autoCheckAvgCpuUtilization w fun res _ =>
      ∃ report : TickReport, res = .ok report ∧ (report.Expands ↔ w.meanCpu > et) ∧
        (report.Shrinks ↔ w.meanCpu ≤ et ∧ w.meanCpu < st) := by
  have hmean := Account.fleetMean_eq hne
  rw [ensures_tick hr, Account.action]
  by_cases hgt : w.meanCpu > et
  · have hgt' : w.fleetMean.gt et = true := by simpa [hmean, Num.gt] using hgt
    rw [actOn_expand het hgt']
    refine (ensures_expandFleet her _ _).mono fun res w' h => ?_
    obtain ⟨report, hok, he, hs⟩ := h
    exact ⟨report, hok, iff_of_true he hgt, iff_of_false hs fun h => h.1.not_gt hgt⟩
  · have hgt' : w.fleetMean.gt et = false := by simpa [hmean, Num.gt] using hgt
    by_cases hlt : w.meanCpu < st
    · have hlt' : w.fleetMean.lt st = true := by simpa [hmean, Num.lt] using hlt
      rw [actOn_shrink het hgt' hst hlt']
      refine (ensures_shrinkFleet hsr hratio hk).mono fun res w' h => ?_
      obtain ⟨report, hok, he, hs⟩ := h
      exact ⟨report, hok, iff_of_false he hgt, iff_of_true hs ⟨not_lt.mp hgt, hlt⟩⟩
    · have hlt' : w.fleetMean.lt st = false := by simpa [hmean, Num.lt] using hlt
      rw [actOn_within het hgt' hst hlt']
      refine ⟨⟨_, w, rfl, rfl⟩, fun res w' h => ?_⟩
      exact ⟨.withinRange, h.1, iff_of_false id hgt, iff_of_false id fun h => hlt h.2⟩

theorem branchesAt_iff (hr : w.Ready config) (hk : ∀ id ∈ w.healthy, w.Known id)
    (hne : w.healthy.Nonempty) (het : config.expandThreshold = some et)
    (hst : config.shrinkThreshold = some st) (her : config.expandRatio = some er)
    (hsr : config.shrinkRatio = some ratio) (hratio : ratio ≤ 1) :
    BranchesAt w p q ↔ (w.meanCpu > et ↔ w.meanCpu > p) ∧
      (w.meanCpu ≤ et ∧ w.meanCpu < st ↔ w.meanCpu < q) := by
  have hstored := branchesAt_stored hr hk hne het hst her hsr hratio
  constructor
  · intro h
    obtain ⟨res, w', hrun⟩ := h.1
    obtain ⟨report, rfl, he, hs⟩ := h.2 res w' hrun
    obtain ⟨report', hok, he', hs'⟩ := hstored.2 _ w' hrun
    cases hok
    exact ⟨he'.symm.trans he, hs'.symm.trans hs⟩
  · intro h
    refine hstored.mono fun res w' hpost => ?_
    obtain ⟨report, hok, he, hs⟩ := hpost
    exact ⟨report, hok, he.trans h.1, hs.trans h.2⟩

end

/-- The thresholds of the form are stored as fractions and compared with percentages, so
the tick takes the branch of the labels exactly for a mean below `q`/100 or above `p`. -/
theorem threshold_units {faults : Call → Account → Prop} {elb : Account → Prop} {w₀ w : Account}
    {p q : ThresholdOption} {er sr : ℚ} (hp : p ∈ expandThresholds) (hq : q ∈ shrinkThresholds)
    (hqp : q.percent ≤ p.percent)
    (happ : Applied faults elb ⟨some p.value, some q.value, some er, some sr⟩ w₀ w)
    (hpending : w.workers pendingStates = ∅) (hrunning : w.healthy = w.workers runningStates)
    (hne : w.healthy.Nonempty) (hm : w.AllMeasured) :
    BranchesAt w p.percent q.percent ↔
      w.meanCpu < q.percent/100 ∨ p.percent < w.meanCpu := by
  obtain ⟨hpv, hple⟩ := expandThresholds_bounds hp
  obtain ⟨hqv, hqge, hqle⟩ := shrinkThresholds_bounds hq
  have hknown : ∀ id ∈ w.healthy, w.Known id := by
    intro id hid
    rw [hrunning] at hid
    obtain ⟨s, _, hw⟩ := Account.mem_workers.mp hid
    exact hw.inState.known
  have hratio : q.value ≤ 1 := by rw [hqv]; linarith
  rw [branchesAt_iff (happ.ready hpending (congrArg Finset.card hrunning) hm) hknown hne rfl rfl rfl
    rfl hratio, hpv, hqv]
  constructor
  · intro h
    by_contra hout
    obtain ⟨hlow, hhigh⟩ := not_or.mp hout
    have hmid := h.2.not.mp fun hs => hlow hs.2
    have hexp := h.1.not.mpr hhigh
    linarith
  · intro h
    cases h with
    | inl hlow =>
      have hexp : ¬ w.meanCpu > p.percent/100 := by linarith
      exact ⟨iff_of_false hexp (by linarith), iff_of_true ⟨not_lt.mp hexp, hlow⟩ (by linarith)⟩
    | inr hhigh =>
      exact ⟨iff_of_true (by linarith) hhigh, iff_of_false (fun h => by linarith [h.1]) (by linarith)⟩

theorem threshold_units_busy :
    BranchesAt (pair 90 (.single (Form.row ⟨some 0.8, some 0.1, some 2, some 0.8⟩))) 80 10 := by
  have hiff := threshold_units (p := ⟨0.8, 80⟩) (q := ⟨0.1, 10⟩) List.mem_cons_self
    List.mem_cons_self (by norm_num) (pair_applied 90 ⟨some 0.8, some 0.1, some 2, some 0.8⟩)
    pair_pending rfl ⟨"i-1", by decide⟩ pair_measured
  rw [pair_meanCpu] at hiff
  exact hiff.mpr (by norm_num)

/-- Under the form's own defaults two workers at 5% make the tick expand. -/
theorem threshold_units_idle :
    ¬ ∀ (w₀ w : Account) (p q : ThresholdOption) (er sr : ℚ), p ∈ expandThresholds →
      q ∈ shrinkThresholds → q.percent ≤ p.percent →
      Applied noFaults (fun _ => True) ⟨some p.value, some q.value, some er, some sr⟩ w₀ w →
      w.workers pendingStates = ∅ → w.healthy = w.workers runningStates → w.healthy.Nonempty →
      w.AllMeasured → (∀ id, ∀ x ∈ w.datapoints id, 0 ≤ x ∧ x ≤ 100) →
      BranchesAt w p.percent q.percent := by
  intro h
  have hpercent : ∀ x ∈ [(5 : ℚ)], 0 ≤ x ∧ x ≤ 100 := by
    intro x hx
    rw [List.mem_singleton] at hx
    subst hx
    norm_num
  have happ := pair_applied 5 ⟨some 0.8, some 0.1, some 2, some 0.8⟩
  have hbranch := h _ _ ⟨0.8, 80⟩ ⟨0.1, 10⟩ 2 0.8 List.mem_cons_self List.mem_cons_self
    (by norm_num) happ pair_pending rfl ⟨"i-1", by decide⟩ pair_measured fun _ => hpercent
  rw [branchesAt_iff (happ.ready pair_pending rfl pair_measured)
    (fun id hid => (pair_worker id hid).inState.known) ⟨"i-1", by decide⟩ rfl rfl rfl rfl (by norm_num),
    pair_meanCpu] at hbranch
  norm_num at hbranch

end OdwaManager
