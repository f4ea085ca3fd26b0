import OdwaManager.Reads
import OdwaManager.SerialRun

/-! What applying the policy form leaves in the table, and how long it stays there. -/
namespace OdwaManager
open Effect Program

/-- The row that apply stores. Its shrink ratio is read from the field shrink-threshold. -/
def Form.row (form : Form) : AutoScalingConfig where
  isOn := true
  shrinkRatio := form.shrinkThreshold
  expandRatio := form.expandRatio
  shrinkThreshold := form.shrinkThreshold
  expandThreshold := form.expandThreshold

/-- The SET clause of an apply over the row that it read. -/
def Form.changes (form : Form) (old : AutoScalingConfig) : Changes where
  isOn := setIsOn old.isOn true
  shrinkRatio := setColumn old.shrinkRatio form.shrinkThreshold
  expandRatio := setColumn old.expandRatio form.expandRatio
  shrinkThreshold := setColumn old.shrinkThreshold form.shrinkThreshold
  expandThreshold := setColumn old.expandThreshold form.expandThreshold

theorem setColumn_getD (old new : Option ℚ) : (setColumn old new).getD old = new := by
  unfold setColumn
  split
  next h => rw [h.1, h.2]; rfl
  next => rfl

theorem setIsOn_getD (old new : Bool) : (setIsOn old new).getD old = new := by
  unfold setIsOn
  split
  next h => exact h
  next => rfl

theorem changes_apply (form : Form) (old : AutoScalingConfig) :
    (form.changes old).apply old = form.row := by
  simp only [Changes.apply, Form.changes, setColumn_getD, setIsOn_getD, Form.row]

theorem changes_none_apply (row : AutoScalingConfig) : Changes.none.apply row = row := rfl

theorem not_clashes_single (t : ConfigTable) (old : AutoScalingConfig) (h : t.rows = [old])
    (c : Changes) : ¬ t.Clashes old.isOn c := by
  intro hc
  have hk := hc.2
  rw [ConfigTable.HasKey, h, List.map_singleton, List.mem_singleton] at hk
  exact hc.1 hk

theorem does_insertConfig {w : Account} {row : AutoScalingConfig} (h : w.table.rows = []) :
    Does (services noFaults) (ask (.insertConfig row)) w () { w with table := .single row } := by
  have hk : ¬ w.table.HasKey row.isOn := by simp [ConfigTable.HasKey, h]
  have ht : w.table.insert row hk = .single row :=
    ConfigTable.eq_of_rows (by simp [ConfigTable.insert, ConfigTable.single, h])
  refine does_ask (fun r w' => ?_) fun e hr => hk hr.1
  constructor
  · intro hs
    obtain ⟨_, rfl⟩ := hs
    exact ⟨rfl, by rw [ht]⟩
  · intro hs
    exact ⟨hk, by rw [ht, hs.2]⟩

theorem does_commitChanges {w : Account} {old : AutoScalingConfig} (changes : Changes)
    (h : w.table.rows = [old]) :
    Does (services noFaults) (commitChanges old changes) w ()
      { w with table := .single (changes.apply old) } := by
  have hc := not_clashes_single w.table old h changes
  have hk : w.table.HasKey old.isOn := by simp [ConfigTable.HasKey, h]
  have ht : w.table.update old.isOn changes hc = .single (changes.apply old) :=
    ConfigTable.eq_of_rows (by simp [ConfigTable.update, ConfigTable.single, ConfigTable.updateRow, h])
  unfold commitChanges
  split
  next hnone =>
    have hw : w = { w with table := .single (changes.apply old) } := by
      have htable : w.table = .single (changes.apply old) :=
        ConfigTable.eq_of_rows (by rw [h, hnone, changes_none_apply]; rfl)
      rw [← htable]
    rw [← hw]
    exact Does.pure
  next =>
    refine does_ask (fun r w' => ?_) fun e hr => ?_
    · constructor
      · intro hs
        obtain ⟨_, _, rfl⟩ := hs
        exact ⟨rfl, by rw [ht]⟩
      · intro hs
        exact ⟨hk, hc, by rw [ht, hs.2]⟩
    · obtain ⟨hr, _⟩ | ⟨_, hr, _⟩ := hr
      · exact hr hk
      · exact hc hr

/-- Over at most one row, apply always commits and leaves exactly its own row. -/
theorem does_apply {w : Account} (form : Form) (h : w.table.rows.length ≤ 1) :
    Does (services noFaults) (apply form) w .policyApplied
      { w with table := .single form.row } := by
  refine yields_queryFirst.bind ?_
  cases hrows : w.table.rows with
  | nil => exact (does_insertConfig hrows).bind Does.pure
  | cons old rest =>
    rw [hrows, List.length_cons] at h
    obtain rfl : rest = [] := List.length_eq_zero_iff.mp (by omega)
    have hd := does_commitChanges (form.changes old) hrows
    rw [changes_apply] at hd
    exact hd.bind Does.pure

/- Nothing else writes the table. -/

def Call.Rewrites : Call → Prop
  | .insertConfig _ | .updateConfig _ _ | .recreateTable => True
  | _ => False

theorem Call.Lists.keepsTable {c : Call} (h : c.Lists) : ¬ c.Rewrites := by
  cases c <;> simp_all [Call.Lists, Call.Rewrites]

theorem Call.Destroys.keepsTable {c : Call} (h : c.Destroys) : ¬ c.Rewrites := by
  cases c <;> simp_all [Call.Destroys, Call.Rewrites]

theorem Call.Scales.keepsTable {c : Call} (h : c.Scales) : ¬ c.Rewrites := by
  cases c <;> simp_all [Call.Scales, Call.Observes, Call.Creates, Call.Destroys, Call.Rewrites]

theorem serves_table {c : Call} {w w' : Account} {r : Answer c} (hc : ¬ c.Rewrites)
    (h : Serves c w r w') : w'.table = w.table := by
  cases c with
  | createInstances name =>
    obtain ⟨_, rfl⟩ := h
    rfl
  | terminate id | stop id => rw [h.2]; rfl
  | registerTargets id => rw [h.2, Account.register_table]
  | deregisterTargets id | applyAsync id => rw [h]; rfl
  | insertConfig _ | updateConfig _ _ | recreateTable => exact absurd trivial hc
  | describeInstances _ | describeInstance _ | waitRunning _ | associateProfile _
  | describeTargetHealth | getMetricStatistics _ _ | putMetricData _ _ | queryFirst
  | iterate _ | sample _ _ => exact congrArg Account.table (serves_readOnly (by trivial) h)

def Operation.SetsPolicy : Operation → Prop
  | .apply _ | .turnOn | .processStart => True
  | _ => False

def Move.SetsPolicy : Move → Prop
  | .op o => o.SetsPolicy
  | .env => False

theorem program_keepsTable (o : Operation) (ho : ¬ o.SetsPolicy) :
    o.program.Uses fun c => ¬ c.Rewrites := by
  cases o with
  | tick =>
    refine (tick_uses.mono fun c h => ?_).forget
    obtain rfl | h | h := h
    · exact id
    · exact h.keepsTable
    · exact h.keepsTable
  | createWorker =>
    refine Uses.forget (Uses.bind (getNonTerminatedInstances_uses.mono fun c h => h ▸ id) fun a => ?_)
    dsimp only
    split
    · exact Uses.pure _
    · refine Uses.bind (celeryCreateWorker_uses.mono fun c h => ?_) fun _ => Uses.pure _
      exact Call.Scales.keepsTable (.inr (.inl h))
  | destroyWorker =>
    refine Uses.forget (Uses.bind ((randomDestroyWorker_uses 1).mono fun c h => ?_) fun b => ?_)
    · exact Call.Scales.keepsTable (h.imp_right .inr)
    · split <;> exact Uses.pure _
  | detailDestroyWorker id => exact (destroyAWorker_uses id).mono fun c h => h.keepsTable
  | destroyAll => exact destroyEveryWorker_uses.mono fun c h => h.elim (·.keepsTable) (·.keepsTable)
  | registerInstance id =>
    refine (registerInstanceToElb_uses id).mono fun c h => ?_
    cases c <;> simp_all [Call.Registers, Call.Rewrites]
  | stopManager =>
    refine stopManager_uses.mono fun c h => ?_
    obtain (h | h) | ⟨id, rfl⟩ := h
    · exact h.keepsTable
    · exact h.keepsTable
    · exact False.elim
  | apply _ | turnOn | processStart => exact absurd trivial ho

section
variable {faults : Call → Account → Prop} {elb : Account → Prop} {w w' : Account} {m : Move}

theorem Operation.Begins.table {o : Operation} (h : o.Begins w w') : w'.table = w.table := by
  cases o with
  | registerInstance id => rw [h.2]; rfl
  | tick | createWorker | destroyWorker | detailDestroyWorker | destroyAll | apply | turnOn
  | processStart | stopManager => rw [show w' = w from h]

theorem env_table (h : Env elb w w') : w'.table = w.table := by
  cases h <;> rfl

theorem program_table {o : Operation} {res : Except PyError Unit} (ho : ¬ o.SetsPolicy)
    (hr : Runs (services faults) o.program w res w') : w'.table = w.table :=
  hr.visits.preserves Account.table (program_keepsTable o ho) fun _ _ _ _ hc hs => serves_table hc hs

theorem step_table (hm : ¬ m.SetsPolicy) (h : SerialStep faults elb w m w') :
    w'.table = w.table := by
  cases h with
  | op hb hr => rw [program_table hm hr, hb.table]
  | env h => exact env_table h

/- Serial runs never make a second row. -/

theorem commitChanges_rows {read : AutoScalingConfig} {changes : Changes} {res : Except PyError Unit}
    (h : Runs (services faults) (commitChanges read changes) w res w') :
    w'.table.rows.length = w.table.rows.length := by
  unfold commitChanges at h
  split at h
  · rw [h.2]
  · obtain hw | ⟨_, _, _, rfl⟩ := runs_request_cases h
    · rw [hw]
    · simp [ConfigTable.update]

theorem apply_rows {form : Form} {res : Except PyError Flash} (hw : w.table.rows.length ≤ 1)
    (h : Runs (services faults) (apply form) w res w') : w'.table.rows.length ≤ 1 := by
  obtain rfl | ⟨r, w₁, ⟨rfl, rfl⟩, h⟩ := runs_request_bind h
  · exact hw
  · cases hrows : w₁.table.rows with
    | nil =>
      rw [hrows] at h
      obtain rfl | ⟨_, w₂, ⟨_, rfl⟩, _, rfl⟩ := runs_request_bind h
      · exact hw
      · simp [ConfigTable.insert, hrows]
    | cons row rest =>
      rw [hrows] at h
      obtain ⟨_, hr, _⟩ := runs_map.mp h
      rw [commitChanges_rows hr]
      exact hw

theorem turnOn_rows {res : Except PyError Unit} (hw : w.table.rows.length ≤ 1)
    (h : Runs (services faults) turnOn w res w') : w'.table.rows.length ≤ 1 := by
  obtain rfl | ⟨r, w₁, ⟨rfl, rfl⟩, h⟩ := runs_request_bind h
  · exact hw
  · cases hrows : w₁.table.rows with
    | nil =>
      rw [hrows] at h
      rw [h.2]
      exact hw
    | cons row rest =>
      rw [hrows] at h
      rw [commitChanges_rows h]
      exact hw

theorem processStart_rows {res : Except PyError Unit} (hw : w.table.rows.length ≤ 1)
    (h : Runs (services faults) processStart w res w') : w'.table.rows.length ≤ 1 := by
  obtain rfl | ⟨_, w₁, rfl, h⟩ := runs_request_bind h
  · exact hw
  · have htable := h.visits.preserves Account.table (celeryCreateWorker_uses.mono fun c hc =>
      Call.Scales.keepsTable (.inr (.inl hc))) fun _ _ _ _ hc hs => serves_table hc hs
    simp [htable, ConfigTable.empty]

theorem operation_rows {o : Operation} {w₀ : Account} {res : Except PyError Unit}
    (hb : o.Begins w w₀) (hr : Runs (services faults) o.program w₀ res w')
    (hw : w.table.rows.length ≤ 1) : w'.table.rows.length ≤ 1 := by
  rw [← hb.table] at hw
  by_cases ho : o.SetsPolicy
  · cases o with
    | apply form =>
      obtain ⟨_, hr, _⟩ := runs_map.mp hr
      exact apply_rows hw hr
    | turnOn => exact turnOn_rows hw hr
    | processStart => exact processStart_rows hw hr
    | _ => exact False.elim ho
  · rw [program_table ho hr]
    exact hw

theorem step_rows (h : SerialStep faults elb w m w') (hw : w.table.rows.length ≤ 1) :
    w'.table.rows.length ≤ 1 := by
  cases h with
  | env he => rw [env_table he]; exact hw
  | op hb hr => exact operation_rows hb hr hw

theorem run_rows {w₀ : Account} {ms : List Move} (hw : w₀.table.rows.length ≤ 1)
    (hr : SerialRun faults elb w₀ ms w) : w.table.rows.length ≤ 1 :=
  hr.invariant (I := fun _ w => w.table.rows.length ≤ 1) hw fun _ _ _ _ hi hs => step_rows hs hi

variable (faults elb) in
/-- The form was applied in `w₀`, where the table has at most one row, and what happened
between that and `w` left the policy alone. -/
inductive Applied (form : Form) (w₀ w : Account) : Prop
  | intro {w₁ : Account} {ms : List Move} (before : w₀.table.rows.length ≤ 1)
    (applied : Runs (services faults) (apply form) w₀ (.ok .policyApplied) w₁)
    (later : ∀ m ∈ ms, ¬ m.SetsPolicy) (run : SerialRun faults elb w₁ ms w)

/-- The policy of the form is still the stored one. -/
theorem Applied.table {form : Form} {w₀ : Account} (h : Applied faults elb form w₀ w) :
    w.table = .single form.row := by
  obtain ⟨before, applied, later, run⟩ := h
  obtain ⟨_, rfl⟩ := (does_apply form before _ _).mp (runs_ok_noFaults applied)
  refine run.invariant (I := fun ms w => (∀ m ∈ ms, ¬ m.SetsPolicy) → w.table = .single form.row)
    (fun _ => rfl) ?_ later
  intro ms w₁ m w₂ ih hs hms
  rw [step_table (hms m (by simp)) hs]
  exact ih fun m' hm' => hms m' (List.mem_cons_of_mem m hm')

end
end OdwaManager
