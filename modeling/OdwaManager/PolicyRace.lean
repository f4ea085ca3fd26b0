import OdwaManager.PolicyForm
import OdwaManager.Effect.Pool

/-! Overlapping policy requests. The primary key of the table is the mutable isOn, so an
INSERT that was decided on an empty table goes through once another request has switched
the stored row off. Short of that the table never has a second row. -/
namespace OdwaManager
open Effect Program

/-- Requests to apply a policy or to switch it off, as many as there are. -/
def policyRequests (faults : Call → Account → Prop) : System Call Answer PyError Account where
  services := services faults
  starts w p w' := ((∃ form, p = (apply form).forget) ∨ p = turnOn) ∧ w' = w
  env := Env fun _ => True

/-- No apply commits its INSERT while the stored policy is off. -/
def NoInsertOverOff (_ : List (Label Call)) (s : Effect.Config Call Answer PyError Account)
    (l : Label Call) : Prop :=
  ∀ i row, l = .served i (.insertConfig row) → ¬ s.world.table.HasKey false

/-- The calls of these requests; a new row is always on. -/
def Commits : Call → Prop
  | .queryFirst | .updateConfig _ _ => True
  | .insertConfig row => row.isOn = true
  | _ => False

theorem commitChanges_commits (read : AutoScalingConfig) (changes : Changes) :
    (commitChanges read changes).Uses Commits := by
  unfold commitChanges
  split
  · exact Uses.pure _
  · exact Uses.request trivial

theorem apply_commits (form : Form) : (apply form).Uses Commits := by
  refine Uses.bind (Uses.request trivial) fun r => ?_
  cases r with
  | none => exact Uses.bind (Uses.request rfl) fun _ => Uses.pure _
  | some config => exact Uses.bind (commitChanges_commits _ _) fun _ => Uses.pure _

theorem turnOn_commits : turnOn.Uses Commits := by
  refine Uses.bind (Uses.request trivial) fun r => ?_
  cases r with
  | none => trivial
  | some config => exact commitChanges_commits _ _

theorem rows_eq_nil {t : ConfigTable} (hon : ¬ t.HasKey true) (hoff : ¬ t.HasKey false) :
    t.rows = [] := by
  cases hrows : t.rows with
  | nil => rfl
  | cons row rest =>
    have hkey : t.HasKey row.isOn := by simp [ConfigTable.HasKey, hrows]
    cases hisOn : row.isOn with
    | true => exact absurd (hisOn ▸ hkey) hon
    | false => exact absurd (hisOn ▸ hkey) hoff

/-- One commit: an INSERT needs an empty table, an UPDATE keeps the number of rows. -/
theorem serves_single_row {c : Call} {w w' : Account} {r : Answer c} (hc : Commits c)
    (hs : Serves c w r w') (hoff : ∀ row, c = .insertConfig row → ¬ w.table.HasKey false)
    (h : w.table.rows.length ≤ 1) : w'.table.rows.length ≤ 1 := by
  cases c with
  | queryFirst => rw [hs.2]; exact h
  | insertConfig row =>
    obtain ⟨hkey, rfl⟩ := hs
    rw [show row.isOn = true from hc] at hkey
    simp [ConfigTable.insert, rows_eq_nil hkey (hoff row rfl)]
  | updateConfig key changes =>
    obtain ⟨_, _, rfl⟩ := hs
    simpa [ConfigTable.update] using h
  | _ => exact False.elim hc

structure SingleRow (s : Effect.Config Call Answer PyError Account) : Prop where
  rows : s.world.table.rows.length ≤ 1
  threads : ∀ p ∈ s.threads, p.Uses Commits

theorem SingleRow.step {faults : Call → Account → Prop} {tr : List (Label Call)}
    {s₁ s₂ : Effect.Config Call Answer PyError Account} {l : Label Call} (h : SingleRow s₁)
    (hg : NoInsertOverOff tr s₁ l) (hs : (policyRequests faults).Step s₁ l s₂) : SingleRow s₂ := by
  cases hs with
  | start hp =>
    obtain ⟨hp, rfl⟩ := hp
    refine ⟨h.rows, fun q hq => ?_⟩
    obtain hq | hq := List.mem_append.mp hq
    · exact h.threads q hq
    · rw [List.mem_singleton.mp hq]
      obtain ⟨form, rfl⟩ | rfl := hp
      · exact (apply_commits form).forget
      · exact turnOn_commits
  | served hi hs =>
    obtain ⟨hc, hk⟩ := h.threads _ (List.mem_of_getElem? hi)
    refine ⟨serves_single_row hc hs (fun row hrow => hg _ row (by rw [hrow])) h.rows, fun q hq => ?_⟩
    obtain hq | rfl := List.mem_or_eq_of_mem_set hq
    · exact h.threads q hq
    · exact hk _
  | failed hi hf =>
    refine ⟨h.rows, fun q hq => ?_⟩
    obtain hq | rfl := List.mem_or_eq_of_mem_set hq
    · exact h.threads q hq
    · trivial
  | env he =>
    refine ⟨?_, h.threads⟩
    simp only [env_table he]
    exact h.rows

/-- However policy requests overlap, as long as none inserts over a policy that is off the
table has at most one row, and an apply executed alone always leaves exactly its own. -/
theorem single_policy_row {faults : Call → Account → Prop} {w : Account}
    {s : Effect.Config Call Answer PyError Account} {tr : List (Label Call)}
    (hw : w.table.rows = []) (hr : (policyRequests faults).Run NoInsertOverOff ⟨[], w⟩ tr s) :
    s.world.table.rows.length ≤ 1 ∧
    ∀ form, Does (services noFaults) (apply form) s.world .policyApplied
      { s.world with table := .single form.row } := by
  have h₀ : SingleRow ⟨[], w⟩ := ⟨by simp [hw], fun p hp => absurd hp List.not_mem_nil⟩
  have hinv := hr.invariant (I := fun _ s => SingleRow s) h₀ fun _ _ _ _ h hg hs => h.step hg hs
  exact ⟨hinv.rows, fun form => does_apply form hinv.rows⟩

/-- The form with its default options. -/
def defaults : Form := ⟨some (4/5), some (1/10), some 2, some (4/5)⟩

theorem single_policy_row_applied :
    Does (services noFaults) (apply defaults)
      { Account.vacant with table := ConfigTable.empty.insert defaults.row nofun }
      .policyApplied { Account.vacant with table := .single defaults.row } := by
  have h₀ : (policyRequests noFaults).Run NoInsertOverOff ⟨[], .vacant⟩ [] ⟨[], .vacant⟩ := .nil
  have h₁ := h₀.start (apply defaults).forget ⟨.inl ⟨_, rfl⟩, rfl⟩ nofun
  have h₂ := h₁.serve 0 none rfl ⟨rfl, rfl⟩ nofun
  have h₃ := h₂.serve 0 () rfl ⟨nofun, rfl⟩ (fun _ _ _ => nofun)
  exact (single_policy_row rfl h₃).2 defaults

/-- Two applies read the empty table, the first inserts, turn_on switches its row off, and
then the second inserts too. -/
theorem single_policy_row_crossed :
    ¬ ∀ (w : Account) (s : Effect.Config Call Answer PyError Account) (tr : List (Label Call)),
      w.table.rows = [] → (policyRequests noFaults).Run unguarded ⟨[], w⟩ tr s →
      s.world.table.rows.length ≤ 1 := by
  intro h
  have h₀ : (policyRequests noFaults).Run unguarded ⟨[], .vacant⟩ [] ⟨[], .vacant⟩ := .nil
  have h₁ := h₀.start (apply defaults).forget ⟨.inl ⟨_, rfl⟩, rfl⟩ trivial
  have h₂ := h₁.start (apply defaults).forget ⟨.inl ⟨_, rfl⟩, rfl⟩ trivial
  have h₃ := h₂.start turnOn ⟨.inr rfl, rfl⟩ trivial
  have h₄ := h₃.serve 0 none rfl ⟨rfl, rfl⟩ trivial
  have h₅ := h₄.serve 1 none rfl ⟨rfl, rfl⟩ trivial
  have h₆ := h₅.serve 0 () rfl ⟨nofun, rfl⟩ trivial
  have h₇ := h₆.serve 2 (some defaults.row) rfl ⟨rfl, rfl⟩ trivial
  have h₈ := h₇.serve 2 () rfl ⟨by decide, by decide, rfl⟩ trivial
  have h₉ := h₈.serve 1 () rfl ⟨by decide, rfl⟩ trivial
  have hrows := h _ _ _ rfl h₉
  exact absurd hrows (by decide)

end OdwaManager
