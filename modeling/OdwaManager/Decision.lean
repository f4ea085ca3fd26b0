import OdwaManager.Cooldown
import OdwaManager.Management

/-! The tick as a decision. What it computes in many steps is one closed formula of the counts,
the average and the policy; what it then does to the account is growing or shrinking the fleet
by that number and nothing else. -/
namespace OdwaManager
open Effect Program

/-- A policy with all its columns set. -/
structure Policy where
  isOn : Bool
  shrinkRatio : ℚ
  expandRatio : ℚ
  shrinkThreshold : ℚ
  expandThreshold : ℚ
  deriving DecidableEq

def Policy.row (p : Policy) : AutoScalingConfig :=
  ⟨p.isOn, some p.shrinkRatio, some p.expandRatio, some p.shrinkThreshold, some p.expandThreshold⟩

inductive Decision where
  | hold
  | grow (k : ℤ)
  | shrink (k : ℤ)
  deriving DecidableEq

/-- The two thresholds against the average `a`, with `n` healthy and `m` non-terminated workers. -/
def Policy.decide (p : Policy) (n m : Nat) (a : ℚ) : Decision :=
  if a > p.expandThreshold then .grow (max 0 (min (⌈p.expandRatio*n⌉-n) (8-m)))
  else if a < p.shrinkThreshold then .shrink (max 0 ⌊p.shrinkRatio*n⌋)
  else .hold

/-- The account in which a tick compares its average. -/
def Account.Steady (w : Account) : Prop :=
  w.workers pendingStates = ∅ ∧ w.healthy.card = (w.workers runningStates).card ∧
    w.healthy.card ≠ 0 ∧ w.AllMeasured

instance (w : Account) : Decidable w.Steady := inferInstanceAs (Decidable (_ ∧ _ ∧ _ ∧ _))

/-- What a tick decides, the stored policy being `policy`. -/
def Account.decision (w : Account) : Option Policy → Decision
  | none => .hold
  | some p => if p.isOn = true ∧ w.Steady then p.decide w.healthy.card w.fleetSize w.meanCpu else .hold

/-- `k` new pending workers, each with one registration task, and no other change. -/
def Enlarged (k : ℤ) (w w' : Account) : Prop :=
  ∃ new : List InstanceId, (new.length : ℤ) = k ∧ new.Nodup ∧ (∀ id ∈ new, w.Fresh id) ∧
    w'.instances = w.instances ++ new.map (fun id => ⟨id, some "worker", .pending⟩) ∧
    w'.queue = w.queue ++ new ∧ w'.targets = w.targets ∧ w'.cpu = w.cpu ∧ w'.table = w.table

/-- `k` healthy instances deregistered and shutting down, and no other change. -/
def Reduced (k : ℤ) (w w' : Account) : Prop :=
  ∃ gone : List InstanceId, (gone.length : ℤ) = k ∧ gone.Nodup ∧ (∀ id ∈ gone, id ∈ w.healthy) ∧
    w'.instances = w.instances.map (fun i =>
      if i.id ∈ gone then { i with state := .shuttingDown } else i) ∧
    w'.targets = w.targets.map (fun t => if t.id ∈ gone then ⟨t.id, .draining⟩ else t) ∧
    w'.queue = w.queue ∧ w'.cpu = w.cpu ∧ w'.table = w.table

/-- What a decision does to the account. -/
def Decision.Effect : Decision → Account → Account → Prop
  | .hold, w, w' => w' = w
  | .grow k, w, w' => Enlarged k w w'
  | .shrink k, w, w' => Reduced k w w'

/- The two numbers. -/

theorem toCreate_toNat (er : ℚ) (n m : Nat) :
    ((toCreate er n m).toNat : ℤ) = max 0 (min (⌈er*n⌉-n) (8-m)) := by
  have hceil : ⌈(er-1)*n⌉ = ⌈er*n⌉-n := by
    rw [sub_mul, one_mul, Int.ceil_sub_natCast]
  rw [toCreate, hceil]
  split <;> omega

theorem toDestroy_toNat (sr : ℚ) (n : Nat) :
    ((toDestroy sr n).toNat : ℤ) = max 0 ⌊sr*n⌋ := by
  rw [toDestroy, pyInt_toNat]
  omega

/- The two effects. -/

section
variable {w w' : Account}

theorem enlarged_zero : Enlarged 0 w w :=
  ⟨[], rfl, List.nodup_nil, by simp, by simp, by simp, rfl, rfl, rfl⟩

/-- A loop of creations only appends. -/
theorem Account.Grows.enlarged {n : Nat} (h : w.Grows n w') : Enlarged n w w' := by
  induction n generalizing w with
  | zero =>
    rw [show w' = w from h]
    exact enlarged_zero
  | succ n ih =>
    obtain ⟨id, hid, h⟩ := h
    obtain ⟨new, hlen, hnodup, hfresh, hinst, hqueue, htargets, hcpu, htable⟩ := ih h
    have hnot : id ∉ new := by
      intro hmem
      refine (hfresh id hmem).1 ?_
      rw [Account.Known]
      simp [Account.enqueue, Account.launch]
    refine ⟨id :: new, by simp [hlen], List.nodup_cons.mpr ⟨hnot, hnodup⟩, ?_, ?_, ?_, htargets,
      hcpu, htable⟩
    · intro j hj
      obtain rfl | hj := List.mem_cons.mp hj
      · exact hid
      · obtain ⟨hknown, htarget, hq⟩ := hfresh j hj
        have hkeep : w.Known j → (w.launch id "worker" hid).Known j := Account.Known.launch
        exact ⟨fun hk => hknown (hkeep hk), htarget, fun hq' => hq (List.mem_append_left _ hq')⟩
    · rw [hinst]
      simp [Account.enqueue, Account.launch]
    · rw [hqueue]
      simp [Account.enqueue, Account.launch]

theorem destroyed_instances (l : List InstanceId) : (w.destroyed l).instances =
    w.instances.map fun i => if i.id ∈ l then { i with state := i.state.terminate } else i := by
  induction l generalizing w with
  | nil => simp [Account.destroyed]
  | cons id l ih =>
    change ((w.destroy id).destroyed l).instances = _
    rw [ih]
    simp only [Account.destroy, Account.modify, Account.deregister, List.map_map]
    refine List.map_congr_left fun i _ => ?_
    by_cases hi : i.id = id
    · simp [Instance.update, hi, Account.terminate_terminate]
    · simp [Instance.update, hi]

theorem destroyed_targets (l : List InstanceId) : (w.destroyed l).targets =
    w.targets.map fun t => if t.id ∈ l then ⟨t.id, .draining⟩ else t := by
  induction l generalizing w with
  | nil => simp [Account.destroyed]
  | cons id l ih =>
    change ((w.destroy id).destroyed l).targets = _
    rw [ih]
    simp only [Account.destroy, Account.modify, Account.deregister, List.map_map]
    refine List.map_congr_left fun t _ => ?_
    by_cases ht : t.id = id
    · simp [ht]
    · simp [ht]

theorem destroyed_rest (l : List InstanceId) : (w.destroyed l).queue = w.queue ∧
    (w.destroyed l).cpu = w.cpu ∧ (w.destroyed l).table = w.table := by
  induction l generalizing w with
  | nil => exact ⟨rfl, rfl, rfl⟩
  | cons id l ih => exact ih

/-- A loop of destroys over a sample of running instances. -/
theorem reduced_destroyed {k : ℤ} {l : List InstanceId} (hrun : Truthful w)
    (hl : IsSample w.healthy k l) : Reduced k.toNat w (w.destroyed l) := by
  obtain ⟨hqueue, hcpu, htable⟩ := destroyed_rest (w := w) l
  refine ⟨l, by rw [hl.2.2], hl.1, hl.2.1, ?_, destroyed_targets l, hqueue, hcpu, htable⟩
  rw [destroyed_instances]
  refine List.map_congr_left fun i hi => ?_
  by_cases hmem : i.id ∈ l
  · have hstate : i.state = .running :=
      Account.InState.unique ⟨i.name, hi⟩ (hrun i.id (hl.2.1 _ hmem))
    rw [if_pos hmem, if_pos hmem, hstate]
    rfl
  · rw [if_neg hmem, if_neg hmem]

end

/- The size of the pool. -/

/-- The workers that are pending or running. -/
def Account.poolSize (w : Account) : Nat := (w.workers [.pending, .running]).card

/-- By how much a decision changes the size of the pool. -/
def Decision.change : Decision → ℤ
  | .hold => 0
  | .grow k => k
  | .shrink k => -k

section
variable {w w' : Account} {k : ℤ}

theorem mem_pool {id : InstanceId} : id ∈ w.workers [.pending, .running] ↔ w.Live id := by
  simp [Account.mem_workers, Account.Live]

theorem Enlarged.poolSize (h : Enlarged k w w') : (w'.poolSize : ℤ) = w.poolSize+k := by
  obtain ⟨new, rfl, hnodup, hfresh, hinst, _⟩ := h
  have hpool : w'.workers [.pending, .running] = w.workers [.pending, .running] ∪ new.toFinset := by
    ext id
    rw [mem_pool, Finset.mem_union, mem_pool]
    simp [Account.Live, Account.Worker, hinst, or_right_comm]
  have hdisjoint : Disjoint (w.workers [.pending, .running]) new.toFinset := by
    refine Finset.disjoint_left.mpr fun id hid hnew => ?_
    exact (hfresh id (List.mem_toFinset.mp hnew)).1 (mem_pool.mp hid).known
  rw [Account.poolSize, hpool, Finset.card_union_of_disjoint hdisjoint,
    List.toFinset_card_of_nodup hnodup]
  rfl

theorem Reduced.poolSize (hworkers : ∀ id ∈ w.healthy, w.Worker id .running) (h : Reduced k w w') :
    (w'.poolSize : ℤ) = w.poolSize-k := by
  obtain ⟨gone, rfl, hnodup, hhealthy, hinst, _⟩ := h
  have hstate : ∀ id s, s ≠ .shuttingDown → (w'.Worker id s ↔ id ∉ gone ∧ w.Worker id s) := by
    intro id s hs
    rw [Account.Worker, hinst, List.mem_map]
    constructor
    · rintro ⟨i, hi, he⟩
      split at he
      next => exact absurd (congrArg Instance.state he).symm hs
      next hgone =>
        subst he
        exact ⟨hgone, hi⟩
    · rintro ⟨hgone, hi⟩
      exact ⟨_, hi, if_neg hgone⟩
  have hpool : w'.workers [.pending, .running] = w.workers [.pending, .running] \ gone.toFinset := by
    ext id
    rw [mem_pool, Finset.mem_sdiff, mem_pool, List.mem_toFinset, Account.Live, Account.Live,
      hstate id _ (by decide), hstate id _ (by decide)]
    tauto
  have hsubset : gone.toFinset ⊆ w.workers [.pending, .running] := by
    intro id hid
    exact mem_pool.mpr (.inr (hworkers id (hhealthy id (List.mem_toFinset.mp hid))))
  have hcard := Finset.card_sdiff_add_card_eq_card hsubset
  rw [List.toFinset_card_of_nodup hnodup, ← hpool] at hcard
  rw [Account.poolSize, Account.poolSize]
  omega

theorem Decision.Effect.poolSize {d : Decision} (hworkers : ∀ id ∈ w.healthy, w.Worker id .running)
    (h : d.Effect w w') : (w'.poolSize : ℤ) = w.poolSize+d.change := by
  cases d with
  | hold => rw [show w' = w from h]; simp [Decision.change]
  | grow k => exact Enlarged.poolSize h
  | shrink k => exact Reduced.poolSize hworkers h

/-- A higher average never decides for less. -/
theorem Policy.decide_change_mono (p : Policy) (n m : Nat) {a b : ℚ} (hab : a ≤ b) :
    (p.decide n m a).change ≤ (p.decide n m b).change := by
  have hgrow : 0 ≤ max 0 (min (⌈p.expandRatio*n⌉-n) (8-(m : ℤ))) := le_max_left _ _
  unfold Policy.decide
  by_cases ha : a > p.expandThreshold
  · rw [if_pos ha, if_pos (ha.trans_le hab)]
  · rw [if_neg ha]
    have hle : (if a < p.shrinkThreshold then Decision.shrink (max 0 ⌊p.shrinkRatio*n⌋)
        else .hold).change ≤ 0 := by
      split <;> simp [Decision.change]
    by_cases hb : b > p.expandThreshold
    · rw [if_pos hb]
      exact hle.trans hgrow
    · rw [if_neg hb]
      by_cases hlt : b < p.shrinkThreshold
      · rw [if_pos hlt, if_pos (hab.trans_lt hlt)]
      · rw [if_neg hlt]
        exact hle

end

/- The tick. -/

/-- The tick can run, and however it runs it returns and has the effect of `d`. -/
def TickDoes (w : Account) (d : Decision) : Prop :=
  Ensures (services noFaults) autoCheckAvgCpuUtilization w fun res w' =>
    (∃ report, res = .ok report) ∧ d.Effect w w'

section
variable {w : Account} {p : Policy}

theorem tickDoes_of_gate {report : TickReport} (h : w.gate = .inl report) : TickDoes w .hold := by
  have hruns : ∀ res w', Runs (services noFaults) autoCheckAvgCpuUtilization w res w' ↔
      res = .ok report ∧ w' = w := by
    intro res w'
    rw [runs_tick, h]
  refine ⟨⟨_, _, (hruns _ _).mpr ⟨rfl, rfl⟩⟩, fun res w' hr => ?_⟩
  obtain ⟨hres, hw⟩ := (hruns res w').mp hr
  exact ⟨⟨report, hres⟩, hw⟩

theorem tickDoes_within {config : AutoScalingConfig} (h : w.Ready config)
    (ha : w.action config = pure .withinRange) : TickDoes w .hold := by
  rw [TickDoes, ensures_tick h, ha, ensures_pure]
  exact ⟨⟨_, rfl⟩, rfl⟩

/-- A policy that is absent or off, or an account that is not steady, keeps the tick still. -/
theorem tickDoes_hold {policy : Option Policy}
    (hpolicy : w.table.rows.head? = policy.map Policy.row)
    (h : ∀ p ∈ policy, p.isOn = true → ¬ w.Steady) : TickDoes w .hold := by
  cases hg : w.gate with
  | inl report => exact tickDoes_of_gate hg
  | inr config =>
    have hready := ready_of_gate hg
    cases policy with
    | none =>
      rw [hready.stored] at hpolicy
      cases hpolicy
    | some p =>
      rw [hready.stored] at hpolicy
      obtain rfl : config = p.row := Option.some.inj hpolicy
      have hempty : w.healthy.card = 0 := by
        by_contra hne
        exact h p rfl hready.isOn ⟨hready.settled, hready.inService, hne, hready.measured⟩
      refine tickDoes_within hready ?_
      rw [Account.action, Account.fleetMean, if_pos (Finset.card_eq_zero.mp hempty)]
      exact actOn_within rfl rfl rfl rfl

theorem tickDoes_grow (h : w.Ready p.row) (hne : w.healthy.Nonempty)
    (ha : w.meanCpu > p.expandThreshold) :
    TickDoes w (.grow (max 0 (min (⌈p.expandRatio*w.healthy.card⌉-w.healthy.card) (8-w.fleetSize)))) := by
  have hgt : w.fleetMean.gt p.expandThreshold = true := by
    rw [Account.fleetMean_eq hne]
    exact decide_eq_true ha
  have haction : w.action p.row = expandFleet p.row w.healthy.card w.fleetSize := actOn_expand rfl hgt
  by_cases hm : w.fleetSize < 8
  · rw [TickDoes, ensures_tick h, haction, ← toCreate_toNat]
    obtain ⟨w', hw'⟩ := w.exists_grows (toCreate p.expandRatio w.healthy.card w.fleetSize).toNat
    refine ⟨⟨_, w', (runs_expandFleet hm rfl).mpr ⟨rfl, hw'⟩⟩, fun res w' hr => ?_⟩
    obtain ⟨rfl, hgrows⟩ := (runs_expandFleet hm rfl).mp hr
    exact ⟨⟨_, rfl⟩, hgrows.enlarged⟩
  · have hzero : max 0 (min (⌈p.expandRatio*w.healthy.card⌉-w.healthy.card) (8-(w.fleetSize : ℤ))) = 0 := by
      omega
    have hlimit : expandFleet p.row w.healthy.card w.fleetSize = pure .reachesLimit := by
      rw [expandFleet, if_pos (not_lt.mp hm)]
    rw [hzero, TickDoes, ensures_tick h, haction, hlimit, ensures_pure]
    exact ⟨⟨_, rfl⟩, enlarged_zero⟩

theorem tickDoes_shrink (hrun : Truthful w) (h : w.Ready p.row) (hne : w.healthy.Nonempty)
    (hratio : p.shrinkRatio ≤ 1) (ha : ¬ w.meanCpu > p.expandThreshold)
    (hlt : w.meanCpu < p.shrinkThreshold) :
    TickDoes w (.shrink (max 0 ⌊p.shrinkRatio*w.healthy.card⌋)) := by
  have hknown : ∀ id ∈ w.healthy, w.Known id := fun id hid => (hrun id hid).known
  have hmean := Account.fleetMean_eq hne
  have haction : w.action p.row = shrinkFleet p.row w.healthy.card := by
    refine actOn_shrink rfl ?_ rfl ?_
    · rw [hmean]
      exact decide_eq_false ha
    · rw [hmean]
      exact decide_eq_true hlt
  have hle := toDestroy_le hratio w.healthy.card
  obtain ⟨l, hl⟩ := exists_isSample hle
  rw [TickDoes, ensures_tick h, haction, ← toDestroy_toNat]
  have hruns : ∀ res w', Runs (services noFaults) (shrinkFleet p.row w.healthy.card) w res w' ↔
      ∃ l, IsSample w.healthy (toDestroy p.shrinkRatio w.healthy.card) l ∧
        res = .ok (.shrink (toDestroy p.shrinkRatio w.healthy.card)) ∧ w' = w.destroyed l := by
    intro res w'
    rw [runs_shrinkFleet rfl hknown, if_pos hle]
  refine ⟨⟨_, _, (hruns _ _).mpr ⟨l, hl, rfl, rfl⟩⟩, fun res w' hr => ?_⟩
  obtain ⟨l', hl', rfl, rfl⟩ := (hruns _ _).mp hr
  exact ⟨⟨_, rfl⟩, reduced_destroyed hrun hl'⟩

end

section
variable {w : Account} {policy : Option Policy}

/-- A tick without call failures decides by the closed formula, whatever it samples. -/
theorem tickDoes_decision (hrun : Truthful w) (hpolicy : w.table.rows.head? = policy.map Policy.row)
    (hratio : ∀ p ∈ policy, p.shrinkRatio ≤ 1) : TickDoes w (w.decision policy) := by
  cases policy with
  | none => exact tickDoes_hold hpolicy fun _ h => absurd h (Option.not_mem_none _)
  | some p =>
    rw [Account.decision]
    by_cases hon : p.isOn = true ∧ w.Steady
    · obtain ⟨hon, hpending, hcount, hne, hmeasured⟩ := hon
      have hready : w.Ready p.row := ⟨hpolicy, hon, hpending, hcount, hmeasured⟩
      have hhealthy := Finset.card_ne_zero.mp hne
      rw [if_pos ⟨hon, hpending, hcount, hne, hmeasured⟩, Policy.decide]
      split_ifs with ha hlt
      · exact tickDoes_grow hready hhealthy ha
      · exact tickDoes_shrink hrun hready hhealthy (hratio p rfl) ha hlt
      · refine tickDoes_within hready ?_
        rw [Account.action, Account.fleetMean_eq hhealthy]
        exact actOn_within rfl (decide_eq_false ha) rfl (decide_eq_false hlt)
    · rw [if_neg hon]
      refine tickDoes_hold hpolicy fun q hq hon' hs => ?_
      cases hq
      exact hon ⟨hon', hs⟩

theorem decision_of_steady {p : Policy} (hon : p.isOn = true) (hs : w.Steady) :
    w.decision (some p) = p.decide w.healthy.card w.fleetSize w.meanCpu :=
  if_pos ⟨hon, hs⟩

theorem decision_of_not_steady (hs : ¬ w.Steady) : w.decision policy = .hold := by
  cases policy with
  | none => rfl
  | some p => exact if_neg fun h => hs h.2

/-- One tick. It leaves the account alone if the policy is absent or off, if the fleet is not
settled, in service and measured, and if the average is in neither range. Else it grows the
fleet up to the ceiling of the ratio and the cap, or ends the floor of the other ratio. -/
theorem tick_spec (hrun : Truthful w) (hpolicy : w.table.rows.head? = policy.map Policy.row)
    (hratio : ∀ p ∈ policy, p.shrinkRatio ≤ 1) :
    (policy = none ∨ (∃ p ∈ policy, p.isOn = false) ∨ w.workers pendingStates ≠ ∅ ∨
        w.healthy.card ≠ (w.workers runningStates).card ∨ w.healthy.card = 0 ∨
        (∃ id ∈ w.healthy, w.datapoints id = []) ∨
        (∃ p ∈ policy, ¬ w.meanCpu > p.expandThreshold ∧ ¬ w.meanCpu < p.shrinkThreshold) →
      TickDoes w .hold) ∧
    ∀ p ∈ policy, p.isOn = true → w.Steady →
      (w.meanCpu > p.expandThreshold → TickDoes w (.grow
        (max 0 (min (⌈p.expandRatio*w.healthy.card⌉-w.healthy.card) (8-w.fleetSize))))) ∧
      (¬ w.meanCpu > p.expandThreshold → w.meanCpu < p.shrinkThreshold →
        TickDoes w (.shrink (max 0 ⌊p.shrinkRatio*w.healthy.card⌋))) := by
  have hdoes := tickDoes_decision hrun hpolicy hratio
  constructor
  · intro h
    have hhold : w.decision policy = .hold := by
      cases policy with
      | none => rfl
      | some p =>
        by_cases hon : p.isOn = true ∧ w.Steady
        · rw [decision_of_steady hon.1 hon.2]
          obtain ⟨hon, hpending, hcount, hne, hmeasured⟩ := hon
          obtain h | ⟨q, hq, h⟩ | h | h | h | ⟨id, hid, h⟩ | ⟨q, hq, hexp, hshr⟩ := h
          · cases h
          · cases hq
            rw [hon] at h
            cases h
          · exact absurd hpending h
          · exact absurd hcount h
          · exact absurd h hne
          · exact absurd h (hmeasured id hid)
          · cases hq
            rw [Policy.decide, if_neg hexp, if_neg hshr]
        · exact if_neg hon
    rw [← hhold]
    exact hdoes
  · intro p hp hon hs
    cases hp
    rw [decision_of_steady hon hs, Policy.decide] at hdoes
    constructor
    · intro ha
      rw [if_pos ha] at hdoes
      exact hdoes
    · intro ha hlt
      rw [if_neg ha, if_pos hlt] at hdoes
      exact hdoes

end

/-- The busy worker of `loneServing` gets a second one. -/
theorem tick_spec_lone : TickDoes loneServing (.grow 1) := by
  have hmean : loneServing.meanCpu = 90 := by
    rw [Account.meanCpu, show loneServing.healthy = {"i-1"} from rfl]
    norm_num [Account.datapoints, loneServing, lone, mean]
  have hsteady : loneServing.Steady := ⟨rfl, rfl, one_ne_zero, loneServing_ready.measured⟩
  have hstored : loneServing.table.rows.head? =
      (some ⟨true, 1/10, 2, 1/10, 4/5⟩ : Option Policy).map Policy.row := rfl
  have hspec := tick_spec loneServing_truthful hstored (by rintro p ⟨⟩; norm_num)
  have hgrow := ((hspec.2 _ rfl rfl hsteady).1 (by rw [hmean]; norm_num))
  have hnumber : max 0 (min (⌈(2 : ℚ)*loneServing.healthy.card⌉-loneServing.healthy.card)
      (8-(loneServing.fleetSize : ℤ))) = 1 := by
    rw [show loneServing.healthy.card = 1 from rfl, show loneServing.fleetSize = 1 from rfl]
    norm_num
  rw [hnumber] at hgrow
  exact hgrow

end OdwaManager
