import OdwaManager.Decision
import OdwaManager.FleetCap
import OdwaManager.PolicyForm

/-! The empty pool is a trap: without a pending or running worker the average is NaN, both
comparisons with it are false, and nothing but a create request or a new process gets out. -/
namespace OdwaManager
open Effect Program

/-- No worker is pending or running. -/
def Account.NoneLive (w : Account) : Prop := ∀ id, ¬ w.Live id

/-- The two ways out. -/
def Move.Creates : Move → Prop
  | .op .createWorker | .op .processStart => True
  | _ => False

section
variable {c : Call} {w w' : Account} {r : Answer c} {id : InstanceId}

theorem serves_live (hc : ¬ Creation c) (h : Serves c w r w') (hl : w'.Live id) : w.Live id := by
  obtain hi | ⟨j, name, hj, hcreate, _⟩ | ⟨j, f, hf, hi⟩ := serves_instances h
  · rw [Account.Live, Account.Worker, Account.Worker, hi] at hl
    exact hl
  · exact absurd ⟨name, hcreate⟩ hc
  · have hl : (w.modify j f).Live id := by
      rw [Account.Live, Account.Worker, Account.Worker, hi] at hl
      exact hl
    obtain rfl | rfl := hf
    · obtain ⟨_, hl⟩ | ⟨rfl, _⟩ := Account.live_modify hl
      · exact hl
      · exact (not_live_terminate hl).elim
    · exact live_stop hl

/-- Apart from the two ways out only the tick can create. -/
theorem program_uncreating (o : Operation) (ho : o ≠ .tick) (hm : ¬ (Move.op o).Creates) :
    o.program.Uses fun c => ¬ Creation c := by
  cases o with
  | tick => exact absurd rfl ho
  | createWorker | processStart => exact absurd trivial hm
  | destroyWorker =>
    refine Uses.forget (Uses.bind ((randomDestroyWorker_uncharged 1).mono fun c h => h.1) fun b => ?_)
    split <;> exact Uses.pure _
  | detailDestroyWorker id => exact (destroyAWorker_uses id).mono fun c h => h.uncharged.1
  | destroyAll => exact destroyEveryWorker_uncharged.mono fun c h => h.1
  | apply form => exact ((apply_uses form).mono fun c h => h.uncharged.1).forget
  | turnOn => exact turnOn_uses.mono fun c h => h.uncharged.1
  | registerInstance id => exact (registerInstanceToElb_uses id).mono fun c h => h.uncharged.1
  | stopManager =>
    refine stopManager_uses.mono fun c h => ?_
    obtain (h | h) | ⟨id, rfl⟩ := h
    · cases c <;> simp_all [Call.Lists, Creation]
    · exact h.uncharged.1
    · simp [Creation]

end

section
variable {faults : Call → Account → Prop} {w w' : Account}

theorem Account.NoneLive.healthy (h : w.NoneLive) (hi : Inclusion w) : w.healthy = ∅ := by
  rw [Finset.eq_empty_iff_forall_notMem]
  intro id hid
  exact h id (.inr (hi.healthy_worker id hid))

/-- NaN is compared with the thresholds and found in neither range: no further call. -/
theorem actOn_nan_uses (config : AutoScalingConfig) (n m : Nat) :
    (actOn config n m .nan).Uses fun _ => False := by
  refine Uses.bind (numeric_uses _ _) fun et => ?_
  rw [if_neg (by simp [Num.gt])]
  refine Uses.bind (numeric_uses _ _) fun st => ?_
  rw [if_neg (by simp [Num.lt])]
  exact Uses.pure _

theorem tick_still {res : Except PyError TickReport} (h : w.healthy = ∅)
    (hr : Runs (services faults) autoCheckAvgCpuUtilization w res w') : w' = w := by
  obtain hw | ⟨config, _, hr⟩ := tick_acts hr
  · exact hw
  · rw [Account.action, Account.fleetMean, if_pos h] at hr
    exact runs_readOnly ((actOn_nan_uses config _ _).mono fun _ hc => hc.elim) hr

theorem operation_noneLive {o : Operation} {w₁ : Account} {res : Except PyError Unit}
    (ho : ¬ (Move.op o).Creates) (hb : o.Begins w w₁) (hr : Runs (services faults) o.program w₁ res w')
    (hi : Inclusion w) (h : w.NoneLive) : w'.NoneLive := by
  by_cases htick : o = .tick
  · subst htick
    obtain ⟨_, hr, _⟩ := runs_map.mp hr
    rw [hb.eq (by simp)] at hr
    rw [tick_still (h.healthy hi) hr]
    exact h
  · have hbegun : w₁.NoneLive := by
      intro id hl
      rw [Account.Live, Account.Worker, Account.Worker, hb.instances] at hl
      exact h id hl
    refine Keeps.of_uses (program_uncreating o htick ho) ?_ w₁ res w' hbegun hr
    exact fun c w r w' hc hs hw id hl => hw id (serves_live hc hs hl)

theorem step_noneLive {m : Move} (hm : ¬ m.Creates) (hs : SerialStep faults Truthful w m w')
    (hi : Inclusion w) (h : w.NoneLive) : w'.NoneLive := by
  cases hs with
  | env he => exact fun id hl => h id (env_live he hl)
  | op hb hr => exact operation_noneLive hm hb hr hi h

theorem run_noneLive {ms : List Move} {w₀ : Account} (h₀ : w₀.NoneLive) (hi : Inclusion w₀)
    (hms : ∀ m ∈ ms, ¬ m.Creates) (hr : SerialRun faults Truthful w₀ ms w) : w.NoneLive := by
  refine (hr.invariant (I := fun ms w => Inclusion w ∧ ((∀ m ∈ ms, ¬ m.Creates) → w.NoneLive))
    ⟨hi, fun _ => h₀⟩ ?_).2 hms
  intro ms w₁ m w₂ h hs
  refine ⟨step_inclusion hs h.1, fun hms => ?_⟩
  refine step_noneLive (hms m (by simp)) hs h.1 (h.2 fun m' hm' => ?_)
  exact hms m' (List.mem_cons_of_mem m hm')

end

/- The stored policy keeps its columns. -/

/-- Every stored row has all its columns set. -/
def Account.PolicySet (w : Account) : Prop := ∀ row ∈ w.table.rows, ∃ p : Policy, row = p.row

/-- A form with its four fields filled in. -/
def Form.Filled (form : Form) : Prop :=
  ∃ et st er sr, form = ⟨some et, some st, some er, some sr⟩

/-- No column of the SET clause becomes null. -/
def Changes.Filled (c : Changes) : Prop :=
  c.shrinkRatio ≠ some .none ∧ c.expandRatio ≠ some .none ∧ c.shrinkThreshold ≠ some .none ∧
    c.expandThreshold ≠ some .none

/-- A call that leaves no column null. -/
def Call.KeepsColumns : Call → Prop
  | .insertConfig row => ∃ p : Policy, row = p.row
  | .updateConfig _ changes => changes.Filled
  | _ => True

theorem getD_eq_some (q : ℚ) {o : Option (Option ℚ)} (h : o ≠ some none) :
    ∃ q', o.getD (some q) = some q' := by
  cases o with
  | none => exact ⟨q, rfl⟩
  | some o =>
    cases o with
    | none => exact absurd rfl h
    | some q' => exact ⟨q', rfl⟩

theorem Changes.Filled.apply {c : Changes} (h : c.Filled) (p : Policy) :
    ∃ p' : Policy, c.apply p.row = p'.row := by
  obtain ⟨sr, hsr⟩ := getD_eq_some p.shrinkRatio h.1
  obtain ⟨er, her⟩ := getD_eq_some p.expandRatio h.2.1
  obtain ⟨st, hst⟩ := getD_eq_some p.shrinkThreshold h.2.2.1
  obtain ⟨et, het⟩ := getD_eq_some p.expandThreshold h.2.2.2
  refine ⟨⟨c.isOn.getD p.isOn, sr, er, st, et⟩, ?_⟩
  simp only [Changes.apply, Policy.row, hsr, her, hst, het]

theorem setColumn_filled (old : Option ℚ) (q : ℚ) : setColumn old (some q) ≠ some none := by
  simp [setColumn]

section
variable {faults : Call → Account → Prop} {w w' : Account}

theorem serves_policySet {c : Call} {r : Answer c} (hc : c.KeepsColumns) (hs : Serves c w r w')
    (h : w.PolicySet) : w'.PolicySet := by
  by_cases hrw : c.Rewrites
  · cases c with
    | insertConfig row =>
      obtain ⟨_, rfl⟩ := hs
      intro row' hrow'
      obtain hrow' | hrow' := List.mem_append.mp hrow'
      · exact h row' hrow'
      · rw [List.mem_singleton.mp hrow']
        exact hc
    | updateConfig key changes =>
      obtain ⟨_, _, rfl⟩ := hs
      intro row' hrow'
      obtain ⟨row, hrow, rfl⟩ := List.mem_map.mp hrow'
      obtain ⟨p, rfl⟩ := h row hrow
      unfold ConfigTable.updateRow
      split
      · exact hc.apply p
      · exact ⟨p, rfl⟩
    | recreateTable =>
      rw [hs]
      intro row hrow
      cases hrow
    | _ => exact False.elim hrw
  · rw [Account.PolicySet, serves_table hrw hs]
    exact h

theorem commitChanges_columns {read : AutoScalingConfig} {changes : Changes} (h : changes.Filled) :
    (commitChanges read changes).Uses Call.KeepsColumns := by
  unfold commitChanges
  split
  · exact Uses.pure _
  · exact Uses.request h

theorem apply_columns {form : Form} (h : form.Filled) : (apply form).Uses Call.KeepsColumns := by
  obtain ⟨et, st, er, sr, rfl⟩ := h
  refine Uses.bind (Uses.request trivial) fun r => ?_
  cases r with
  | none =>
    have hrow : ∃ p : Policy, (⟨true, some st, some er, some st, some et⟩ : AutoScalingConfig) = p.row :=
      ⟨⟨true, st, er, st, et⟩, rfl⟩
    exact Uses.bind (Uses.request hrow) fun _ => Uses.pure _
  | some config =>
    refine Uses.bind (commitChanges_columns ?_) fun _ => Uses.pure _
    exact ⟨setColumn_filled _ _, setColumn_filled _ _, setColumn_filled _ _, setColumn_filled _ _⟩

theorem turnOn_columns : turnOn.Uses Call.KeepsColumns := by
  refine Uses.bind (Uses.request trivial) fun r => ?_
  cases r with
  | none => trivial
  | some config => exact commitChanges_columns (by simp [Changes.Filled, Changes.none])

theorem program_columns (o : Operation) (ho : ∀ form, o = .apply form → form.Filled) :
    o.program.Uses Call.KeepsColumns := by
  by_cases hset : o.SetsPolicy
  · cases o with
    | apply form => exact (apply_columns (ho form rfl)).forget
    | turnOn => exact turnOn_columns
    | processStart =>
      refine Uses.bind (Uses.request trivial) fun _ => celeryCreateWorker_uses.mono fun c hc => ?_
      cases c <;> trivial
    | _ => exact False.elim hset
  · refine (program_keepsTable o hset).mono fun c hc => ?_
    cases c <;> first | trivial | exact absurd trivial hc

theorem step_policySet {m : Move} (hm : ∀ form, m = .op (.apply form) → form.Filled)
    (hs : SerialStep faults Truthful w m w') (h : w.PolicySet) : w'.PolicySet := by
  cases hs with
  | env he =>
    rw [Account.PolicySet, env_table he]
    exact h
  | op hb hr =>
    have huses := program_columns _ fun form ho => hm form (congrArg Move.op ho)
    have hkeeps : Keeps (services faults) Account.PolicySet _ :=
      Keeps.of_uses huses fun c w r w' hc hs hw => serves_policySet hc hs hw
    refine hkeeps _ _ w' ?_ hr
    rw [Account.PolicySet, hb.table]
    exact h

theorem run_policySet {ms : List Move} {w₀ : Account} (h₀ : w₀.PolicySet)
    (hms : ∀ form, .op (.apply form) ∈ ms → form.Filled) (hr : SerialRun faults Truthful w₀ ms w) :
    w.PolicySet := by
  refine hr.invariant (I := fun ms w => (∀ form, .op (.apply form) ∈ ms → form.Filled) → w.PolicySet)
    (fun _ => h₀) ?_ hms
  intro ms w₁ m w₂ h hs hms
  refine step_policySet (fun form he => hms form (by simp [he])) hs (h fun form hmem => ?_)
  exact hms form (List.mem_cons_of_mem m hmem)

/-- The stored policy is absent or has all its columns. -/
theorem Account.PolicySet.head (h : w.PolicySet) :
    ∃ policy : Option Policy, w.table.rows.head? = policy.map Policy.row := by
  cases hrows : w.table.rows.head? with
  | none => exact ⟨none, rfl⟩
  | some row =>
    obtain ⟨p, rfl⟩ := h row (List.mem_of_mem_head? hrows)
    exact ⟨some p, rfl⟩

/-- Once no worker is pending or running, none ever is again in a run without create requests
and process starts. A tick never changes anything then, and it does not raise as long as the
policies have all their columns. -/
theorem empty_pool_trap {w₀ : Account} {ms : List Move} (h₀ : w₀.NoneLive) (hi : Inclusion w₀)
    (hms : ∀ m ∈ ms, ¬ m.Creates) (hr : SerialRun faults Truthful w₀ ms w) :
    w.NoneLive ∧
    (∀ res w', Runs (services faults) autoCheckAvgCpuUtilization w res w' → w' = w) ∧
    (w₀.PolicySet → (∀ form, .op (.apply form) ∈ ms → form.Filled) → TickDoes w .hold) := by
  have hnone := run_noneLive h₀ hi hms hr
  have hempty := hnone.healthy (run_inclusion hi hr)
  refine ⟨hnone, fun res w' hrun => tick_still hempty hrun, fun hset hforms => ?_⟩
  obtain ⟨policy, hpolicy⟩ := (run_policySet hset hforms hr).head
  refine tickDoes_hold hpolicy fun p _ _ hsteady => hsteady.2.2.1 ?_
  rw [hempty, Finset.card_empty]

end

/-- A terminated worker whose registration is still queued, under a policy that is on. -/
def deserted : Account :=
  { lone with
    instances := [⟨"i-1", some "worker", .terminated⟩]
    ids_nodup := by decide }

/-- The queued registration raises, and the pool stays empty. -/
theorem empty_pool_trap_deserted : TickDoes (deserted.dequeue "i-1") .hold := by
  have hnone : deserted.NoneLive := by
    intro id hl
    simp [Account.Live, Account.Worker, deserted] at hl
  have hworker : deserted.IsWorker "i-1" := ⟨.terminated, List.mem_cons_self⟩
  have hqueue : ∀ id ∈ deserted.queue, deserted.IsWorker id := by
    intro id hid
    rw [List.mem_singleton.mp hid]
    exact hworker
  have hraises : Runs (services noFaults) (registerInstanceToElb "i-1") (deserted.dequeue "i-1")
      (.error .waiterError) (deserted.dequeue "i-1") := by
    refine .inr ⟨.waiterError, .inl ⟨⟨?_, ?_⟩, rfl⟩, rfl, rfl⟩
    · simp [Account.InState, Account.dequeue, deserted]
    · simp [Account.InState, Account.dequeue, deserted]
  have hrun : SerialRun noFaults Truthful deserted [.op (.registerInstance "i-1")]
      (deserted.dequeue "i-1") := .cons .nil (.op ⟨List.mem_cons_self, rfl⟩ hraises)
  have htrap := empty_pool_trap hnone (inclusion_of_no_targets rfl hqueue)
    (by simp [Move.Creates]) hrun
  refine htrap.2.2 (fun row hrow => ?_) (by simp)
  rw [List.mem_singleton.mp hrow]
  exact ⟨⟨true, 1/10, 2, 1/10, 4/5⟩, rfl⟩

end OdwaManager
