import OdwaManager.FleetCap
import OdwaManager.Interrupted
import OdwaManager.PolicyEffect

/-! The policies that the page can submit. Under them no tick raises by itself or ends more than
half of the workers in service, and the shrink threshold that is selected first ends none. -/
namespace OdwaManager
open Effect Program

/-- The select expand-ratio of autoscaling.html. -/
def expandRatios : List ℚ := [2, 2.5, 3]

/-- The select shrink-ratio of autoscaling.html, which apply does not read. -/
def shrinkRatios : List ℚ := [0.8, 0.5, 0.2]

/-- A form that the page can submit. -/
structure Form.OnPage (form : Form) : Prop where
  expandThreshold : ∃ o ∈ expandThresholds, form.expandThreshold = some o.value
  shrinkThreshold : ∃ o ∈ shrinkThresholds, form.shrinkThreshold = some o.value
  expandRatio : ∃ r ∈ expandRatios, form.expandRatio = some r
  shrinkRatio : ∃ r ∈ shrinkRatios, form.shrinkRatio = some r

/-- A policy that comes from the page. -/
structure Policy.OfPage (p : Policy) : Prop where
  expandThreshold : ∃ o ∈ expandThresholds, p.expandThreshold = o.value
  shrinkThreshold : ∃ o ∈ shrinkThresholds, p.shrinkThreshold = o.value
  expandRatio : p.expandRatio ∈ expandRatios
  shrinkRatio : p.shrinkRatio = p.shrinkThreshold

/-- The stored policy, if there is one, comes from the page. -/
def Account.PagePolicy (w : Account) (policy : Option Policy) : Prop :=
  w.policy = policy.map Policy.row ∧ ∀ p ∈ policy, p.OfPage

theorem Form.OnPage.policy {form : Form} (h : form.OnPage) : ∃ p : Policy, form.row = p.row ∧ p.OfPage := by
  obtain ⟨et, het, hform_et⟩ := h.expandThreshold
  obtain ⟨st, hst, hform_st⟩ := h.shrinkThreshold
  obtain ⟨er, her, hform_er⟩ := h.expandRatio
  refine ⟨⟨true, st.value, er, st.value, et.value⟩, ?_, ⟨et, het, rfl⟩, ⟨st, hst, rfl⟩, her, rfl⟩
  simp [Form.row, Policy.row, hform_et, hform_st, hform_er]

theorem Policy.OfPage.shrinkRatio_bounds {p : Policy} (h : p.OfPage) :
    1/10 ≤ p.shrinkRatio ∧ p.shrinkRatio ≤ 1/2 := by
  obtain ⟨o, ho, hst⟩ := h.shrinkThreshold
  obtain ⟨hvalue, hlow, hhigh⟩ := shrinkThresholds_bounds ho
  rw [h.shrinkRatio, hst, hvalue]
  constructor <;> linarith

section
variable {faults : Call → Account → Prop} {elb : Account → Prop} {w w' : Account}

theorem registerStep_ofPage {o : Operation} {res : Except PyError Unit}
    (ho : ∀ form, o = .apply form → form.OnPage)
    (hs : RegisterStep (o, res) w.policy w'.policy) {policy : Option Policy} (h : w.PagePolicy policy) :
    ∃ policy', w'.PagePolicy policy' := by
  generalize hbefore : w.policy = before at hs
  generalize hafter : w'.policy = after at hs
  cases hs with
  | applied form =>
    obtain ⟨p, hrow, hp⟩ := (ho form rfl).policy
    exact ⟨some p, by rw [hafter, hrow]; rfl, by rintro q ⟨⟩; exact hp⟩
  | turnedOff row =>
    cases policy with
    | none =>
      have hnone := h.1
      rw [hbefore] at hnone
      cases hnone
    | some p =>
      have hrow : row = p.row := Option.some.inj (hbefore.symm.trans h.1)
      refine ⟨some { p with isOn := false }, by rw [hafter, hrow]; rfl, ?_⟩
      rintro q ⟨⟩
      obtain ⟨het, hst, her, hsr⟩ := h.2 p rfl
      exact ⟨het, hst, her, hsr⟩
  | restarted => exact ⟨none, hafter, fun p hp => by cases hp⟩
  | raised | other => exact ⟨policy, by rw [hafter, ← hbefore]; exact h.1, h.2⟩

theorem step_ofPage {m : Move} (hm : ∀ form, m = .op (.apply form) → form.OnPage)
    (hrows : w.table.rows.length ≤ 1) {policy : Option Policy} (h : w.PagePolicy policy)
    (hs : SerialStep faults elb w m w') : ∃ policy', w'.PagePolicy policy' := by
  cases hs with
  | env he => exact ⟨policy, by rw [policy_of_table (env_table he)]; exact h.1, h.2⟩
  | @op w₁ _ o res hb hr =>
    have hbegin : w₁.PagePolicy policy := ⟨by rw [policy_of_table hb.table]; exact h.1, h.2⟩
    rw [← hb.table] at hrows
    exact registerStep_ofPage (fun form ho => hm form (by rw [ho])) (program_register hrows hr) hbegin

/-- As long as the policies come from the page, the stored one does. -/
theorem run_ofPage {w₀ : Account} {ms : List Move} (hempty : w₀.table.rows = [])
    (hr : SerialRun faults elb w₀ ms w) (hms : ∀ form, .op (.apply form) ∈ ms → form.OnPage) :
    ∃ policy, w.PagePolicy policy := by
  have hboth : w.table.rows.length ≤ 1 ∧ ∃ policy, w.PagePolicy policy := by
    refine hr.invariant (I := fun ms w => (∀ form, .op (.apply form) ∈ ms → form.OnPage) →
      w.table.rows.length ≤ 1 ∧ ∃ policy, w.PagePolicy policy) ?_ ?_ hms
    · intro _
      refine ⟨by simp [hempty], none, ?_, fun p hp => by cases hp⟩
      simp [Account.policy, hempty]
    · intro ms w₁ m w₂ ih hs hms
      obtain ⟨hrows, policy, hpolicy⟩ := ih fun form hform => hms form (List.mem_cons_of_mem m hform)
      refine ⟨step_rows hs hrows, step_ofPage (fun form hm => hms form ?_) hrows hpolicy hs⟩
      rw [hm]
      exact List.mem_cons_self
  exact hboth.2

end

/- What is left in service. -/

section
variable {w w' : Account} {k : ℤ}

theorem Enlarged.healthy (h : Enlarged k w w') : w'.healthy = w.healthy := by
  obtain ⟨_, _, _, _, _, _, htargets, _, _⟩ := h
  rw [Account.healthy, Account.healthy, htargets]

theorem Reduced.healthy_card (h : Reduced k w w') : (w'.healthy.card : ℤ)+k = w.healthy.card := by
  obtain ⟨gone, hlen, hnodup, hmem, _, htargets, _, _, _⟩ := h
  have hhealthy : w'.healthy = w.healthy \ gone.toFinset := by
    ext id
    rw [Account.mem_healthy, htargets, List.mem_map, Finset.mem_sdiff, Account.mem_healthy,
      List.mem_toFinset]
    constructor
    · rintro ⟨t, ht, heq⟩
      split at heq
      · simp at heq
      · subst heq
        exact ⟨ht, by assumption⟩
    · rintro ⟨ht, hnot⟩
      exact ⟨_, ht, if_neg hnot⟩
  have hsub : gone.toFinset ⊆ w.healthy := fun id hid => hmem id (List.mem_toFinset.mp hid)
  have hcard := Finset.card_sdiff_add_card_eq_card hsub
  rw [← hhealthy, List.toFinset_card_of_nodup hnodup] at hcard
  omega

/-- A part of a decision takes no more workers out of service than the decision. -/
theorem Decision.Part.healthy_card {d : Decision} (h : d.Part w w') :
    (w.healthy.card : ℤ)+min 0 d.change ≤ w'.healthy.card := by
  cases d with
  | hold =>
    rw [show w' = w from h, Decision.change]
    omega
  | grow k =>
    obtain ⟨j, w₁, _, hlarge, rfl | ⟨_, id, hid, rfl⟩⟩ := h
    · rw [hlarge.healthy]
      omega
    · rw [show (w₁.launch id "worker" hid).healthy = w₁.healthy from rfl, hlarge.healthy]
      omega
  | shrink k =>
    obtain ⟨j, w₁, hle, hred, rfl | ⟨hlt, id, hid, rfl⟩⟩ := h
    · have hcard := hred.healthy_card
      rw [Decision.change]
      omega
    · have hcard := hred.healthy_card
      have herase := Finset.card_erase_add_one hid
      rw [← Account.healthy_deregister] at herase
      rw [Decision.change]
      omega

theorem half_le_change {policy : Option Policy} (hp : ∀ p ∈ policy, p.shrinkRatio ≤ 1/2) :
    -(w.healthy.card : ℤ) ≤ 2*(w.decision policy).change := by
  have hdecide : ∀ p ∈ policy, ∀ m a, -(w.healthy.card : ℤ) ≤ 2*(p.decide w.healthy.card m a).change := by
    intro p hmem m a
    have hfloor : 2*⌊p.shrinkRatio*w.healthy.card⌋ ≤ (w.healthy.card : ℤ) := by
      have hle := Int.floor_le (p.shrinkRatio*w.healthy.card)
      have hhalf : p.shrinkRatio*w.healthy.card ≤ 1/2*w.healthy.card :=
        mul_le_mul_of_nonneg_right (hp p hmem) (Nat.cast_nonneg _)
      have hcast : (2*⌊p.shrinkRatio*w.healthy.card⌋ : ℚ) ≤ (w.healthy.card : ℚ) := by linarith
      exact_mod_cast hcast
    rw [Policy.decide]
    split_ifs <;> rw [Decision.change] <;> omega
  cases policy with
  | none => simp [Account.decision, Decision.change]
  | some p =>
    rw [Account.decision]
    split_ifs
    · exact hdecide p rfl _ _
    · simp [Decision.change]

end

section
variable {faults : Call → Account → Prop} {w₀ w : Account} {ms : List Move}

/-- As long as the policies come from the page, a tick ends at most half of the workers in
service, whichever calls raise and wherever they cut it, and it does not raise unless a call
does. -/
theorem page_policies_safe (h₀ : Inclusion w₀) (hempty : w₀.table.rows = [])
    (hr : SerialRun faults Truthful w₀ ms w) (hms : ∀ form, .op (.apply form) ∈ ms → form.OnPage) :
    (∀ res w', Runs (services faults) autoCheckAvgCpuUtilization w res w' →
      w.healthy.card ≤ 2*w'.healthy.card) ∧
    ∀ res w', Runs (services noFaults) autoCheckAvgCpuUtilization w res w' → ∃ report, res = .ok report := by
  have hrun := (run_inclusion h₀ hr).truthful
  obtain ⟨policy, hstored, hpage⟩ := run_ofPage hempty hr hms
  constructor
  · intro res w' h
    have hpart := (tick_part hrun hstored h).healthy_card
    have hhalf : -(w.healthy.card : ℤ) ≤ 2*(w.decision policy).change :=
      half_le_change fun p hp => (hpage p hp).shrinkRatio_bounds.2
    omega
  · intro res w' h
    have hratio : ∀ p ∈ policy, p.shrinkRatio ≤ 1 := by
      intro p hp
      have hbound := (hpage p hp).shrinkRatio_bounds.2
      linarith
    exact ((tickDoes_decision hrun hstored hratio).2 res w' h).1

end

theorem pair_inclusion {load : ℚ} {table : ConfigTable} : Inclusion (pair load table) := by
  refine ⟨fun t ht => ?_, fun id hid => absurd hid List.not_mem_nil, fun id hid => ?_⟩
  · have hhealthy : t.id ∈ (pair load table).healthy := by
      obtain rfl | rfl : t = ⟨"i-1", .healthy⟩ ∨ t = ⟨"i-2", .healthy⟩ := by simpa [pair] using ht
      · simp [pair_healthy]
      · simp [pair_healthy]
    exact ⟨.running, pair_worker _ hhealthy⟩
  · exact (pair_worker id hid).inState

theorem pair_run (load : ℚ) (form : Form) : SerialRun noFaults Truthful (pair load .empty)
    [.op (.apply form)] (pair load (.single form.row)) := by
  have hrows : (pair load .empty).table.rows.length ≤ 1 := Nat.zero_le 1
  have happlied : Runs (services noFaults) (Operation.apply form).program (pair load .empty) (.ok ())
      (pair load (.single form.row)) :=
    runs_map.mpr ⟨_, (does_apply form hrows _ _).mpr ⟨rfl, rfl⟩, rfl⟩
  exact .cons .nil (.op rfl happlied)

theorem pair_onPage {form : Form} (h : form.OnPage) :
    ∀ form', .op (.apply form') ∈ [Move.op (.apply form)] → form'.OnPage := by
  intro form' hform
  obtain rfl : form' = form := by simpa using hform
  exact h

theorem pair_ticks (load : ℚ) {form : Form} (h : form.OnPage) :
    ∃ res w', Runs (services noFaults) autoCheckAvgCpuUtilization (pair load (.single form.row)) res w' := by
  obtain ⟨p, hrow, hp⟩ := h.policy
  have hstored : (pair load (.single form.row)).table.rows.head? = (some p : Option Policy).map Policy.row :=
    congrArg some hrow
  have hratio : ∀ q ∈ some p, q.shrinkRatio ≤ 1 := by
    rintro q ⟨⟩
    have hbound := hp.shrinkRatio_bounds.2
    linarith
  exact (tickDoes_decision pair_inclusion.truthful hstored hratio).1

theorem halfForm_onPage : Form.OnPage ⟨some 0.8, some 0.5, some 2, some 0.5⟩ where
  expandThreshold := ⟨⟨0.8, 80⟩, by simp [expandThresholds], rfl⟩
  shrinkThreshold := ⟨⟨0.5, 50⟩, by simp [shrinkThresholds], rfl⟩
  expandRatio := ⟨2, by simp [expandRatios], rfl⟩
  shrinkRatio := ⟨0.5, by simp [shrinkRatios], rfl⟩

/-- Two idle workers under a shrink threshold of 50 percent: one of them stays. -/
theorem page_policies_safe_idle : ∃ res w', Runs (services noFaults) autoCheckAvgCpuUtilization
    (pair (1/20) (.single (Form.row ⟨some 0.8, some 0.5, some 2, some 0.5⟩))) res w' ∧
      2 ≤ 2*w'.healthy.card := by
  obtain ⟨res, w', h⟩ := pair_ticks (1/20) halfForm_onPage
  exact ⟨res, w', h, (page_policies_safe pair_inclusion rfl (pair_run (1/20) _)
    (pair_onPage halfForm_onPage)).1 res w' h⟩

/- The shrink threshold that is selected first. -/

section
variable {faults : Call → Account → Prop} {elb : Account → Prop} {w₀ w w' : Account} {ms : List Move}

theorem run_fleetSize (h₀ : w₀.fleetSize ≤ 8) (hr : SerialRun faults elb w₀ ms w) :
    w.fleetSize ≤ 8+ms.count (.op .processStart) := by
  refine hr.invariant (I := fun ms w => w.fleetSize ≤ 8+ms.count (.op .processStart)) h₀ ?_
  intro ms w₁ m w₂ ih hs
  by_cases hm : m = .op .processStart
  · subst hm
    rw [List.count_cons_self]
    cases hs with
    | op hb hr =>
      have hstart := processStart_fleetSize hr.visits
      have hbegin := fleetSize_congr hb.instances
      omega
  · have hstep := step_fleetSize hm hs
    rw [List.count_cons_of_ne hm]
    omega

theorem Inclusion.healthy_le (h : Inclusion w) : w.healthy.card ≤ w.fleetSize := by
  refine Finset.card_le_card fun id hid => ?_
  exact Account.mem_workers.mpr ⟨.running, by simp [nonTerminatedStates], h.healthy_worker id hid⟩

/-- The account still has every instance as it was, and the same targets. -/
def EndsNobody (w w' : Account) : Prop := (∀ i ∈ w.instances, i ∈ w'.instances) ∧ w'.targets = w.targets

theorem Enlarged.endsNobody {k : ℤ} (h : Enlarged k w w') : EndsNobody w w' := by
  obtain ⟨new, _, _, _, hinst, _, htargets, _, _⟩ := h
  exact ⟨fun i hi => by rw [hinst]; exact List.mem_append_left _ hi, htargets⟩

theorem Decision.Part.endsNobody {d : Decision} (hd : 0 ≤ d.change) (h : d.Part w w') : EndsNobody w w' := by
  cases d with
  | hold =>
    rw [show w' = w from h]
    exact ⟨fun i hi => hi, rfl⟩
  | grow k =>
    obtain ⟨j, w₁, _, hlarge, rfl | ⟨_, id, hid, rfl⟩⟩ := h
    · exact hlarge.endsNobody
    · obtain ⟨hinst, htargets⟩ := hlarge.endsNobody
      exact ⟨fun i hi => Account.mem_launch.mpr (.inl (hinst i hi)), htargets⟩
  | shrink k =>
    obtain ⟨j, w₁, hle, ⟨gone, hlen, _, _, hinst, htargets, _⟩, hleft⟩ := h
    rw [Decision.change] at hd
    obtain rfl : gone = [] := List.length_eq_zero_iff.mp (by omega)
    obtain rfl | ⟨hlt, _⟩ := hleft
    · exact ⟨fun i hi => by simpa [hinst] using hi, by simpa using htargets⟩
    · simp only [List.length_nil] at hlen
      omega

/-- Ten percent of fewer than ten workers are none. -/
theorem decide_tenth {p : Policy} (hp : p.shrinkRatio = 1/10) {n : Nat} (hn : n < 10) (m : Nat) (a : ℚ) :
    0 ≤ (p.decide n m a).change := by
  have hfloor : ⌊p.shrinkRatio*n⌋ < 1 := by
    have hlt : (n : ℚ) < 10 := by exact_mod_cast hn
    rw [Int.floor_lt, hp]
    push_cast
    linarith
  rw [Policy.decide]
  split_ifs <;> rw [Decision.change] <;> omega

/-- The page has 10 percent selected as the shrink threshold, and apply stores it as the ratio too.
Under it no tick ends a worker, whatever the load, as the fleet is never as large as ten. -/
theorem first_threshold_never_shrinks (h₀ : Inclusion w₀) (hempty : w₀.table.rows = [])
    (hsize : w₀.fleetSize ≤ 8) (hr : SerialRun faults Truthful w₀ ms w)
    (hms : ∀ form, .op (.apply form) ∈ ms → form.OnPage) (hstarts : ms.count (.op .processStart) ≤ 1)
    {row : AutoScalingConfig} (hrow : w.policy = some row) (hst : row.shrinkThreshold = some (1/10))
    {res : Except PyError TickReport} (h : Runs (services faults) autoCheckAvgCpuUtilization w res w') :
    (∀ i ∈ w.instances, i ∈ w'.instances) ∧ w'.targets = w.targets := by
  have hinclusion := run_inclusion h₀ hr
  obtain ⟨policy, hstored, hpage⟩ := run_ofPage hempty hr hms
  have hten : w.healthy.card < 10 := by
    have hfleet := run_fleetSize hsize hr
    have hle := hinclusion.healthy_le
    omega
  refine (tick_part hinclusion.truthful hstored h).endsNobody ?_
  cases policy with
  | none => simp [Account.decision, Decision.change]
  | some p =>
    have hratio : p.shrinkRatio = 1/10 := by
      obtain rfl : row = p.row := Option.some.inj (hrow.symm.trans hstored)
      rw [(hpage p rfl).shrinkRatio]
      exact Option.some.inj hst
    rw [Account.decision]
    split_ifs
    · exact decide_tenth hratio hten _ _
    · simp [Decision.change]

end

theorem firstForm_onPage : firstForm.OnPage where
  expandThreshold := ⟨⟨0.8, 80⟩, by simp [expandThresholds], by norm_num [firstForm]⟩
  shrinkThreshold := ⟨⟨0.1, 10⟩, by simp [shrinkThresholds], by norm_num [firstForm]⟩
  expandRatio := ⟨2, by simp [expandRatios], rfl⟩
  shrinkRatio := ⟨0.8, by simp [shrinkRatios], by norm_num [firstForm]⟩

/-- Two idle workers under the form as it is selected first: both stay. -/
theorem first_threshold_never_shrinks_idle : ∃ res w',
    Runs (services noFaults) autoCheckAvgCpuUtilization (pair (1/20) (.single firstForm.row)) res w' ∧
      w'.targets = [⟨"i-1", .healthy⟩, ⟨"i-2", .healthy⟩] := by
  obtain ⟨res, w', h⟩ := pair_ticks (1/20) firstForm_onPage
  have hstays := first_threshold_never_shrinks pair_inclusion rfl (by decide) (pair_run (1/20) firstForm)
    (pair_onPage firstForm_onPage) (by decide) rfl rfl h
  exact ⟨res, w', h, hstays.2⟩

end OdwaManager
