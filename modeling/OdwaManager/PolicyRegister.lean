import OdwaManager.PolicyForm

/-! The policy store as a register. Among whole operations, whichever calls raise, what a tick
or a page reads is what the last request that was answered has written. -/
namespace OdwaManager
open Effect Program

/-- What query.first returns. -/
def Account.policy (w : Account) : Option AutoScalingConfig := w.table.rows.head?

/-- An operation and how it ended. -/
abbrev Attempt := Operation × Except PyError Unit

/-- A register for one policy: what an attempt may do to it. A process start that raises after it
has recreated the table has cleared it. -/
inductive RegisterStep : Attempt → Option AutoScalingConfig → Option AutoScalingConfig → Prop
  | applied (form : Form) (row : Option AutoScalingConfig) :
    RegisterStep (.apply form, .ok ()) row (some form.row)
  | turnedOff (row : AutoScalingConfig) :
    RegisterStep (.turnOn, .ok ()) (some row) (some { row with isOn := false })
  | restarted (res : Except PyError Unit) (row : Option AutoScalingConfig) :
    RegisterStep (.processStart, res) row none
  | raised (o : Operation) (e : PyError) (row : Option AutoScalingConfig) :
    RegisterStep (o, .error e) row row
  | other {o : Operation} (ho : ¬ o.SetsPolicy) (res : Except PyError Unit)
    (row : Option AutoScalingConfig) : RegisterStep (o, res) row row

/-- The attempts of a run, latest first. -/
inductive RegisterRun (row : Option AutoScalingConfig) : List Attempt → Option AutoScalingConfig → Prop
  | nil : RegisterRun row [] row
  | cons {es : List Attempt} {e : Attempt} {row₁ row₂ : Option AutoScalingConfig}
    (hr : RegisterRun row es row₁) (hs : RegisterStep e row₁ row₂) : RegisterRun row (e :: es) row₂

section
variable (faults : Call → Account → Prop) (elb : Account → Prop)

/-- Whole operations with how they ended, and the outside in between. -/
inductive AttemptRun (w : Account) : List Attempt → Account → Prop
  | nil : AttemptRun w [] w
  | op {es : List Attempt} {w₁ w₂ w₃ : Account} {o : Operation} {res : Except PyError Unit}
    (hr : AttemptRun w es w₁) (hb : o.Begins w₁ w₂) (hs : Runs (services faults) o.program w₂ res w₃) :
    AttemptRun w ((o, res) :: es) w₃
  | env {es : List Attempt} {w₁ w₂ : Account} (hr : AttemptRun w es w₁) (he : Env elb w₁ w₂) :
    AttemptRun w es w₂

end

section
variable {faults : Call → Account → Prop} {elb : Account → Prop} {w w' : Account}

theorem policy_of_table (h : w'.table = w.table) : w'.policy = w.policy := by
  rw [Account.policy, Account.policy, h]

/-- A call that raises has changed nothing. -/
theorem request_raised {c : Call} {e : PyError}
    (h : Runs (services faults) (ask c) w (.error e) w') : w' = w := by
  obtain ⟨_, _, hok⟩ | ⟨_, _, _, hw⟩ := runs_request.mp h
  · cases hok
  · exact hw

theorem commitChanges_raised {read : AutoScalingConfig} {changes : Changes} {e : PyError}
    (h : Runs (services faults) (commitChanges read changes) w (.error e) w') : w' = w := by
  unfold commitChanges at h
  split at h
  · exact h.2
  · exact request_raised h

/-- An apply that raises has changed nothing: its commit is the last call. -/
theorem apply_raised {form : Form} {e : PyError}
    (h : Runs (services faults) (apply form) w (.error e) w') : w' = w := by
  obtain ⟨r, w₁, ⟨rfl, rfl⟩, h⟩ | ⟨_, _, _, rfl⟩ := h
  · cases hrows : w₁.table.rows.head? with
    | none =>
      rw [hrows] at h
      obtain ⟨res, hr, hres⟩ := runs_map.mp h
      cases res with
      | ok _ => cases hres
      | error _ => exact request_raised hr
    | some row =>
      rw [hrows] at h
      obtain ⟨res, hr, hres⟩ := runs_map.mp h
      cases res with
      | ok _ => cases hres
      | error _ => exact commitChanges_raised hr
  · rfl

theorem turnOn_raised {e : PyError} (h : Runs (services faults) turnOn w (.error e) w') : w' = w := by
  obtain ⟨r, w₁, ⟨rfl, rfl⟩, h⟩ | ⟨_, _, _, rfl⟩ := h
  · cases hrows : w₁.table.rows.head? with
    | none =>
      rw [hrows] at h
      exact h.2
    | some row =>
      rw [hrows] at h
      exact commitChanges_raised h
  · rfl

/-- Over one row, turn_on always commits. -/
theorem does_turnOn {row : AutoScalingConfig} (h : w.table.rows = [row]) :
    Does (services noFaults) turnOn w () { w with table := .single { row with isOn := false } } := by
  refine yields_queryFirst.bind ?_
  have hd := does_commitChanges { Changes.none with isOn := setIsOn row.isOn false } h
  have happly : ({ Changes.none with isOn := setIsOn row.isOn false } : Changes).apply row =
      { row with isOn := false } := by
    simp [Changes.apply, Changes.none, setIsOn_getD]
  rw [happly] at hd
  rw [h]
  exact hd

theorem turnOn_returned (hw : w.table.rows.length ≤ 1)
    (h : Runs (services faults) turnOn w (.ok ()) w') :
    ∃ row, w.policy = some row ∧ w'.policy = some { row with isOn := false } := by
  have hrun := runs_ok_noFaults h
  cases hrows : w.table.rows with
  | nil =>
    obtain ⟨r, w₁, ⟨rfl, rfl⟩, h⟩ | ⟨_, _, hok, _⟩ := h
    · rw [hrows] at h
      cases h.1
    · cases hok
  | cons row rest =>
    rw [hrows, List.length_cons] at hw
    obtain rfl : rest = [] := List.length_eq_zero_iff.mp (by omega)
    obtain ⟨_, rfl⟩ := (does_turnOn hrows _ _).mp hrun
    exact ⟨row, by rw [Account.policy, hrows]; rfl, rfl⟩

/-- The table is recreated by the first call, which may have been the one that raised. -/
theorem processStart_policy {res : Except PyError Unit}
    (h : Runs (services faults) processStart w res w') :
    w'.policy = none ∨ (∃ e, res = .error e) ∧ w'.policy = w.policy := by
  obtain ⟨_, w₁, rfl, h⟩ | ⟨e, _, rfl, rfl⟩ := h
  · have htable := h.visits.preserves Account.table (celeryCreateWorker_uses.mono fun c hc =>
      Call.Scales.keepsTable (.inr (.inl hc))) fun _ _ _ _ hc hs => serves_table hc hs
    exact .inl (by rw [Account.policy, htable]; rfl)
  · exact .inr ⟨⟨e, rfl⟩, rfl⟩

/-- An operation is one step of the register. -/
theorem program_register {o : Operation} {res : Except PyError Unit}
    (hw : w.table.rows.length ≤ 1) (h : Runs (services faults) o.program w res w') :
    RegisterStep (o, res) w.policy w'.policy := by
  by_cases ho : o.SetsPolicy
  · cases o with
    | apply form =>
      obtain ⟨r, hr, rfl⟩ := runs_map.mp h
      cases r with
      | error e =>
        rw [apply_raised hr]
        exact .raised _ e _
      | ok flash =>
        obtain ⟨_, rfl⟩ := (does_apply form hw _ _).mp (runs_ok_noFaults hr)
        exact .applied form _
    | turnOn =>
      cases res with
      | error e =>
        rw [turnOn_raised h]
        exact .raised _ e _
      | ok _ =>
        obtain ⟨row, hrow, hrow'⟩ := turnOn_returned hw h
        rw [hrow, hrow']
        exact .turnedOff row
    | processStart =>
      obtain hnone | ⟨⟨e, rfl⟩, hsame⟩ := processStart_policy h
      · rw [hnone]
        exact .restarted res _
      · rw [hsame]
        exact .raised _ e _
    | _ => exact False.elim ho
  · rw [policy_of_table (program_table ho h)]
    exact .other ho res _

/-- Over at most one row, every serial run is one of the register: the policy that is read is
that of the last apply that was answered, switched off by the turn_on answered since, and gone
after a process start. A request that raised has left it as it was. -/
theorem policy_register {es : List Attempt} (hw : w.table.rows.length ≤ 1)
    (hr : AttemptRun faults elb w es w') : RegisterRun w.policy es w'.policy := by
  have hboth : w'.table.rows.length ≤ 1 ∧ RegisterRun w.policy es w'.policy := by
    induction hr with
    | nil => exact ⟨hw, .nil⟩
    | op _ hb hs ih =>
      obtain ⟨hrows, hreg⟩ := ih
      have hrows₀ := hrows
      rw [← hb.table] at hrows₀
      rw [← policy_of_table hb.table] at hreg
      exact ⟨operation_rows hb hs hrows, .cons hreg (program_register hrows₀ hs)⟩
    | env _ he ih =>
      obtain ⟨hrows, hreg⟩ := ih
      rw [← env_table he] at hrows
      rw [← policy_of_table (env_table he)] at hreg
      exact ⟨hrows, hreg⟩
  exact hboth.2

end

/-- The form as the page offers it at first. -/
def firstForm : Form := ⟨some (4/5), some (1/10), some 2, some (4/5)⟩

theorem policy_register_switched : ∃ w',
    AttemptRun noFaults (fun _ => True) Account.vacant [(.turnOn, .ok ()), (.apply firstForm, .ok ())] w' ∧
    RegisterRun none [(.turnOn, .ok ()), (.apply firstForm, .ok ())] w'.policy := by
  have hrows : Account.vacant.table.rows.length ≤ 1 := by decide
  have happlied : Runs (services noFaults) (Operation.apply firstForm).program Account.vacant (.ok ())
      { Account.vacant with table := .single firstForm.row } :=
    runs_map.mpr ⟨_, (does_apply firstForm hrows _ _).mpr ⟨rfl, rfl⟩, rfl⟩
  have hswitched := (does_turnOn (w := { Account.vacant with table := .single firstForm.row }) rfl _ _).mpr
    ⟨rfl, rfl⟩
  have hr : AttemptRun noFaults (fun _ => True) Account.vacant
      [(.turnOn, .ok ()), (.apply firstForm, .ok ())] _ := .op (.op .nil rfl happlied) rfl hswitched
  exact ⟨_, hr, policy_register hrows hr⟩

end OdwaManager
