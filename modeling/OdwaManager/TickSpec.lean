import OdwaManager.Actions

/-! What one tick does from a given account: the gates it passes before it may act, and
what its two actions do to the fleet and the target group. -/
namespace OdwaManager
open Effect Program

/-- The gates before the thresholds: a report when one of them stops the tick, else the
policy that it goes on with. -/
def Account.gate (w : Account) : TickReport ⊕ AutoScalingConfig :=
  match w.table.rows.head? with
  | none => .inl .noConfig
  | some config =>
    if config.isOn then
      if w.workers pendingStates ≠ ∅ then .inl .pendingInstances
      else if w.healthy.card ≠ (w.workers runningStates).card then .inl .notInService
      else if w.AllMeasured then .inr config
      else .inl .noCpuUtilYet
    else if w.workers pendingStates ≠ ∅ then .inl .pendingInstances
    else .inl .configOff

/-- What the tick does once it is past the gates. -/
def Account.action (w : Account) (config : AutoScalingConfig) : Op TickReport :=
  actOn config w.healthy.card w.fleetSize w.fleetMean

/-- The account in which a tick acts on `config`. -/
structure Account.Ready (w : Account) (config : AutoScalingConfig) : Prop where
  stored : w.table.rows.head? = some config
  isOn : config.isOn = true
  settled : w.workers pendingStates = ∅
  inService : w.healthy.card = (w.workers runningStates).card
  measured : w.AllMeasured

section
variable {w w' : Account} {config : AutoScalingConfig} {res : Except PyError TickReport}

theorem gate_of_ready (h : w.Ready config) : w.gate = .inr config := by
  simp [Account.gate, h.stored, h.isOn, h.settled, h.inService, h.measured]

theorem ready_of_gate (h : w.gate = .inr config) : w.Ready config := by
  unfold Account.gate at h
  split at h
  · cases h
  next stored hs =>
    split_ifs at h with hon hp hn hm
    cases h
    exact ⟨hs, hon, not_not.mp hp, not_not.mp hn, hm⟩

theorem yields_reportIdle :
    Yields (services noFaults) reportIdle w
      (if w.workers pendingStates ≠ ∅ then .pendingInstances else .configOff) := by
  refine yields_hasPending.bind ?_
  by_cases hp : w.workers pendingStates = ∅
  · simpa [hp] using Does.pure
  · simpa [hp] using Does.pure

theorem runs_scaleFleet (hn : w.healthy.card = (w.workers runningStates).card) :
    Runs (services noFaults) (scaleFleet config) w res w' ↔
      Runs (services noFaults) (checkCpuUtil config w.healthy.card w.fleetSize) w res w' := by
  rw [scaleFleet, yields_serving.runs_bind, yields_running.runs_bind]
  dsimp only
  rw [if_neg (not_not.mpr hn), yields_nonTerminated.runs_bind]
  rfl

theorem runs_checkCpuUtil (hm : w.AllMeasured) :
    Runs (services noFaults) (checkCpuUtil config w.healthy.card w.fleetSize) w res w' ↔
      Runs (services noFaults) (w.action config) w res w' := by
  have hy := yields_allValid (w := w)
  rw [if_pos hm] at hy
  rw [checkCpuUtil, hy.runs_bind]
  rfl

/-- A tick that meets no fault is its gates, then its action. -/
theorem runs_tick :
    Runs (services noFaults) autoCheckAvgCpuUtilization w res w' ↔
      match w.gate with
      | .inl report => res = .ok report ∧ w' = w
      | .inr config => Runs (services noFaults) (w.action config) w res w' := by
  rw [autoCheckAvgCpuUtilization, yields_queryFirst.runs_bind, Account.gate]
  cases w.table.rows.head? with
  | none => exact Iff.rfl
  | some config =>
    dsimp only
    by_cases hon : config.isOn
    · rw [if_pos hon, if_pos hon, yields_hasPending.runs_bind]
      by_cases hp : w.workers pendingStates = ∅
      · rw [if_neg (by simp [hp]), if_neg (by simp [hp])]
        by_cases hn : w.healthy.card = (w.workers runningStates).card
        · rw [if_neg (not_not.mpr hn), runs_scaleFleet hn]
          by_cases hm : w.AllMeasured
          · rw [if_pos hm]
            exact runs_checkCpuUtil hm
          · have hy := yields_allValid (w := w)
            rw [if_neg hm] at hy ⊢
            rw [checkCpuUtil, hy.runs_bind]
            exact Iff.rfl
        · rw [if_pos hn, scaleFleet, yields_serving.runs_bind, yields_running.runs_bind]
          dsimp only
          rw [if_pos hn]
          exact Iff.rfl
      · rw [if_pos (by simp [hp]), if_pos hp, yields_reportIdle res w', if_pos hp]
    · rw [if_neg hon, if_neg hon, yields_reportIdle res w']
      by_cases hp : w.workers pendingStates = ∅
      · rw [if_neg (not_not.mpr hp), if_neg (not_not.mpr hp)]
      · rw [if_pos hp, if_pos hp]

theorem scaleFleet_acts {faults : Call → Account → Prop}
    (h : Runs (services faults) (scaleFleet config) w res w') :
    w' = w ∨ w.healthy.card = (w.workers runningStates).card ∧ w.AllMeasured ∧
      Runs (services faults) (w.action config) w res w' := by
  obtain hw | h := runs_bind_read yields_serving (getServingInstances_uses.mono fun c hc => hc.readOnly) h
  · exact .inl hw
  obtain hw | h := runs_bind_read yields_running
    (getRunningInstances_uses.mono fun c hc => hc ▸ trivial) h
  · exact .inl hw
  dsimp only at h
  by_cases hn : w.healthy.card = (w.workers runningStates).card
  · rw [if_neg (not_not.mpr hn)] at h
    obtain hw | h := runs_bind_read yields_nonTerminated
      (getNonTerminatedInstances_uses.mono fun c hc => hc ▸ trivial) h
    · exact .inl hw
    obtain hw | h := runs_bind_read yields_allValid
      (allInstanceHasValidCpuUtil_uses.mono fun c hc => hc.readOnly) h
    · exact .inl hw
    by_cases hm : w.AllMeasured
    · rw [if_pos hm] at h
      exact .inr ⟨hn, hm, h⟩
    · rw [if_neg hm] at h
      exact .inl h.2
  · rw [if_pos hn] at h
    exact .inl h.2

/-- With faults too, a tick that changes anything is past its gates. -/
theorem tick_acts {faults : Call → Account → Prop}
    (h : Runs (services faults) autoCheckAvgCpuUtilization w res w') :
    w' = w ∨ ∃ config, w.Ready config ∧ Runs (services faults) (w.action config) w res w' := by
  obtain hw | h := runs_bind_read yields_queryFirst (Uses.request trivial) h
  · exact .inl hw
  cases hs : w.table.rows.head? with
  | none =>
    rw [hs] at h
    exact .inl h.2
  | some config =>
    rw [hs] at h
    dsimp only at h
    have hidle := reportIdle_uses.mono fun c hc => hc.readOnly
    by_cases hon : config.isOn
    · rw [if_pos hon] at h
      obtain hw | h := runs_bind_read yields_hasPending
        (hasPendingInstances_uses.mono fun c hc => hc ▸ trivial) h
      · exact .inl hw
      by_cases hp : w.workers pendingStates = ∅
      · rw [if_neg (by simp [hp])] at h
        obtain hw | ⟨hn, hm, h⟩ := scaleFleet_acts h
        · exact .inl hw
        · exact .inr ⟨config, ⟨hs, hon, hp, hn, hm⟩, h⟩
      · rw [if_pos (by simp [hp])] at h
        exact .inl (runs_readOnly hidle h)
    · rw [if_neg hon] at h
      exact .inl (runs_readOnly hidle h)

theorem ensures_tick (h : w.Ready config) {post : Except PyError TickReport → Account → Prop} :
    Ensures (services noFaults) autoCheckAvgCpuUtilization w post ↔
      Ensures (services noFaults) (w.action config) w post := by
  simp only [Ensures, runs_tick, gate_of_ready h]

end

/- The two thresholds pick the branch. -/

section
variable {config : AutoScalingConfig} {n m : Nat} {avg : Num} {et st : ℚ}

theorem actOn_expand (het : config.expandThreshold = some et) (h : avg.gt et = true) :
    actOn config n m avg = expandFleet config n m := by
  rw [actOn, het]
  exact if_pos h

theorem actOn_below (het : config.expandThreshold = some et) (h : avg.gt et = false) :
    actOn config n m avg = numeric config.shrinkThreshold >>= fun t =>
      if avg.lt t then shrinkFleet config n else pure .withinRange := by
  rw [actOn, het]
  exact if_neg (by simp [h])

theorem actOn_shrink (het : config.expandThreshold = some et) (h : avg.gt et = false)
    (hst : config.shrinkThreshold = some st) (hlt : avg.lt st = true) :
    actOn config n m avg = shrinkFleet config n := by
  rw [actOn_below het h, hst]
  exact if_pos hlt

theorem actOn_within (het : config.expandThreshold = some et) (h : avg.gt et = false)
    (hst : config.shrinkThreshold = some st) (hlt : avg.lt st = false) :
    actOn config n m avg = pure .withinRange := by
  rw [actOn_below het h, hst]
  exact if_neg (by simp [hlt])

end

section
variable {w w' : Account} {config : AutoScalingConfig} {ratio : ℚ} {n m : Nat}
  {res : Except PyError TickReport}

theorem pyInt_toNat (q : ℚ) : (pyInt q).toNat = ⌊q⌋.toNat := by
  unfold pyInt
  split
  next => rfl
  next h =>
    have hceil : ⌈q⌉ ≤ 0 := Int.ceil_le.mpr (by push_cast; linarith)
    have hfloor : ⌊q⌋ ≤ 0 := (Int.floor_le_ceil q).trans hceil
    rw [Int.toNat_eq_zero.mpr hceil, Int.toNat_eq_zero.mpr hfloor]

theorem toDestroy_le (h : ratio ≤ 1) (n : Nat) : toDestroy ratio n ≤ n := by
  have hn : (0 : ℚ) ≤ n := Nat.cast_nonneg n
  have hfloor : ⌊ratio*n⌋ ≤ (n : ℤ) := by
    have hle := (Int.floor_le (ratio*n)).trans (mul_le_of_le_one_left hn h)
    exact_mod_cast hle
  have hnat := pyInt_toNat (ratio*n)
  rw [toDestroy]
  omega

theorem runs_expandFleet (hm : m < 8) (hr : config.expandRatio = some ratio) :
    Runs (services noFaults) (expandFleet config n m) w res w' ↔
      res = .ok (.expand (toCreate ratio n m)) ∧ w.Grows (toCreate ratio n m).toNat w' := by
  rw [expandFleet, if_neg (by omega), hr]
  change Runs _ (times _ _ >>= fun _ => pure _) w res w' ↔ _
  rw [runs_map]
  simp only [runs_times_create]
  constructor
  · intro h
    obtain ⟨r, ⟨rfl, hg⟩, rfl⟩ := h
    exact ⟨rfl, hg⟩
  · intro h
    exact ⟨.ok (), ⟨rfl, h.2⟩, h.1⟩

theorem IsSample.eq_nil {s : Finset InstanceId} {k : ℤ} {l : List InstanceId} (h : IsSample s k l)
    (hk : k ≤ 0) : l = [] := by
  have hlen := h.2.2
  rw [Int.toNat_eq_zero.mpr hk] at hlen
  exact List.length_eq_zero_iff.mp hlen

theorem exists_isSample {s : Finset InstanceId} {k : ℤ} (h : k ≤ s.card) : ∃ l, IsSample s k l := by
  refine ⟨s.toList.take k.toNat, s.nodup_toList.sublist (List.take_sublist _ _), ?_, ?_⟩
  · intro id hid
    exact Finset.mem_toList.mp (List.mem_of_mem_take hid)
  · rw [List.length_take, Finset.length_toList]
    omega

/-- A sample leaves somebody exactly if it is smaller than its pool. -/
theorem IsSample.spares_iff {s : Finset InstanceId} {k : ℤ} {l : List InstanceId}
    (h : IsSample s k l) (hne : s.Nonempty) : (∃ id ∈ s, id ∉ l) ↔ k < s.card := by
  have hsub : l.toFinset ⊆ s := by
    intro id hid
    exact h.2.1 id (List.mem_toFinset.mp hid)
  have hcard : (s \ l.toFinset).card = s.card-k.toNat := by
    rw [Finset.card_sdiff_of_subset hsub, List.toFinset_card_of_nodup h.1, h.2.2]
  have hrest : (∃ id ∈ s, id ∉ l) ↔ (s \ l.toFinset).Nonempty := by
    simp [Finset.Nonempty]
  have hpos := hne.card_pos
  rw [hrest, ← Finset.card_pos, hcard]
  omega

/-- A shrinking tick destroys a sample of its size, or raises when the healthy workers are
fewer than that. -/
theorem runs_shrinkFleet (hr : config.shrinkRatio = some ratio) (hk : ∀ id ∈ w.healthy, w.Known id) :
    Runs (services noFaults) (shrinkFleet config w.healthy.card) w res w' ↔
      if toDestroy ratio w.healthy.card ≤ w.healthy.card then
        ∃ l, IsSample w.healthy (toDestroy ratio w.healthy.card) l ∧
          res = .ok (.shrink (toDestroy ratio w.healthy.card)) ∧ w' = w.destroyed l
      else res = .error .valueError ∧ w' = w := by
  rw [shrinkFleet, hr]
  change Runs _ (if toDestroy ratio w.healthy.card > 0 then _ else _) w res w' ↔ _
  generalize hk' : toDestroy ratio w.healthy.card = k
  have hempty : w.healthy.card = 0 → k = 0 := by
    intro h
    rw [← hk', h]
    simp [toDestroy, pyInt]
  by_cases hpos : k > 0
  · have hcard : w.healthy.card ≠ 0 := fun h => by have := hempty h; omega
    rw [if_pos hpos, runs_map]
    simp only [runs_randomDestroyWorker hk, if_neg hcard]
    by_cases hle : k ≤ w.healthy.card
    · simp only [if_pos hle, if_pos (And.intro hpos.le hle)]
      constructor
      · intro h
        obtain ⟨r, ⟨l, hl, rfl, rfl⟩, rfl⟩ := h
        exact ⟨l, hl, rfl, rfl⟩
      · intro h
        obtain ⟨l, hl, rfl, rfl⟩ := h
        exact ⟨.ok true, ⟨l, hl, rfl, rfl⟩, rfl⟩
    · have hneg : ¬ (0 ≤ k ∧ k ≤ w.healthy.card) := fun h => hle h.2
      simp only [if_neg hle, if_neg hneg]
      constructor
      · intro h
        obtain ⟨r, ⟨rfl, rfl⟩, rfl⟩ := h
        exact ⟨rfl, rfl⟩
      · intro h
        exact ⟨.error .valueError, ⟨rfl, h.2⟩, h.1⟩
  · rw [if_neg hpos, if_pos (by omega)]
    constructor
    · intro h
      exact ⟨[], ⟨List.nodup_nil, nofun, by rw [Int.toNat_eq_zero.mpr (by omega)]; rfl⟩, h⟩
    · intro h
      obtain ⟨l, hl, h⟩ := h
      rw [hl.eq_nil (by omega)] at h
      exact h

end

/- What a shrinking tick ends. -/

/-- The running workers of `w` that are shutting down in `w'`. -/
def ended (w w' : Account) : Finset InstanceId :=
  w.workers runningStates ∩ w'.workers [.shuttingDown]

section
variable {w : Account} {config : AutoScalingConfig} {ratio : ℚ}

theorem ended_destroyed {l : List InstanceId} (h : ∀ id ∈ l, w.Worker id .running) :
    ended w (w.destroyed l) = l.toFinset := by
  ext id
  rw [ended, Finset.mem_inter, Account.mem_workers, Account.mem_workers, List.mem_toFinset]
  constructor
  · intro hmem
    obtain ⟨⟨s, hs, hw⟩, s', hs', hw'⟩ := hmem
    rw [runningStates, List.mem_singleton] at hs
    rw [List.mem_singleton] at hs'
    subst hs hs'
    by_contra hl
    have hstay := (Account.mem_destroyed l).mp hw'
    rw [if_neg hl] at hstay
    cases hw.inState.unique (Account.Worker.inState hstay)
  · intro hl
    refine ⟨⟨.running, by simp [runningStates], h id hl⟩, .shuttingDown, by simp, ?_⟩
    exact (Account.mem_destroyed l).mpr (by rw [if_pos hl]; exact ⟨.running, h id hl, rfl⟩)

/-- A shrinking tick ends `k` workers, whatever it samples, exactly when its truncated
product is `k`. -/
theorem ensures_shrink_iff (hr : config.shrinkRatio = some ratio)
    (hh : ∀ id ∈ w.healthy, w.Worker id .running) {k : Nat} (hk : k ≤ w.healthy.card) :
    Ensures (services noFaults) (shrinkFleet config w.healthy.card) w
      (fun res w' => (∃ report, res = .ok report) ∧ (ended w w').card = k) ↔
    ⌊ratio*w.healthy.card⌋.toNat = k := by
  have hknown : ∀ id ∈ w.healthy, w.Known id := fun id hid => (hh id hid).inState.known
  have hsize : (toDestroy ratio w.healthy.card).toNat = ⌊ratio*w.healthy.card⌋.toNat := pyInt_toNat _
  simp only [Ensures, runs_shrinkFleet hr hknown]
  by_cases hle : toDestroy ratio w.healthy.card ≤ w.healthy.card
  · simp only [if_pos hle]
    have hended : ∀ l, IsSample w.healthy (toDestroy ratio w.healthy.card) l →
        (ended w (w.destroyed l)).card = ⌊ratio*w.healthy.card⌋.toNat := by
      intro l hl
      rw [ended_destroyed fun id hid => hh id (hl.2.1 id hid), List.toFinset_card_of_nodup hl.1,
        hl.2.2, hsize]
    obtain ⟨l, hl⟩ := exists_isSample hle
    constructor
    · intro h
      rw [← hended l hl]
      exact (h.2 _ _ ⟨l, hl, rfl, rfl⟩).2
    · intro h
      refine ⟨⟨_, _, l, hl, rfl, rfl⟩, fun res w' hrun => ?_⟩
      obtain ⟨l', hl', rfl, rfl⟩ := hrun
      exact ⟨⟨_, rfl⟩, (hended l' hl').trans h⟩
  · simp only [if_neg hle]
    constructor
    · intro h
      obtain ⟨⟨report, hreport⟩, _⟩ := h.2 _ _ ⟨rfl, rfl⟩
      cases hreport
    · intro h
      omega

end
end OdwaManager
