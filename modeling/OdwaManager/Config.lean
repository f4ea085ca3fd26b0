import Mathlib

/-! The policy store: the table autoScalingConfig with its boolean primary key. -/
namespace OdwaManager

/-- A row of autoScalingConfig; the four Float columns are nullable. -/
structure AutoScalingConfig where
  isOn : Bool
  shrinkRatio : Option ℚ
  expandRatio : Option ℚ
  shrinkThreshold : Option ℚ
  expandThreshold : Option ℚ
  deriving DecidableEq

/-- The SET clause of an UPDATE: `none` leaves a column alone. -/
structure Changes where
  isOn : Option Bool
  shrinkRatio : Option (Option ℚ)
  expandRatio : Option (Option ℚ)
  shrinkThreshold : Option (Option ℚ)
  expandThreshold : Option (Option ℚ)
  deriving DecidableEq

def Changes.none : Changes := ⟨.none, .none, .none, .none, .none⟩

def Changes.apply (c : Changes) (row : AutoScalingConfig) : AutoScalingConfig where
  isOn := c.isOn.getD row.isOn
  shrinkRatio := c.shrinkRatio.getD row.shrinkRatio
  expandRatio := c.expandRatio.getD row.expandRatio
  shrinkThreshold := c.shrinkThreshold.getD row.shrinkThreshold
  expandThreshold := c.expandThreshold.getD row.expandThreshold

/-- The table in the order of its rows; isOn is the primary key. -/
structure ConfigTable where
  rows : List AutoScalingConfig
  keys_nodup : (rows.map AutoScalingConfig.isOn).Nodup

namespace ConfigTable

def empty : ConfigTable := ⟨[], List.nodup_nil⟩

def single (row : AutoScalingConfig) : ConfigTable := ⟨[row], List.nodup_singleton _⟩

theorem eq_of_rows {t t' : ConfigTable} (h : t.rows = t'.rows) : t = t' := by
  cases t
  cases t'
  cases h
  rfl

def HasKey (t : ConfigTable) (key : Bool) : Prop := key ∈ t.rows.map AutoScalingConfig.isOn

instance (t : ConfigTable) (key : Bool) : Decidable (t.HasKey key) :=
  inferInstanceAs (Decidable (key ∈ t.rows.map AutoScalingConfig.isOn))

def insert (t : ConfigTable) (row : AutoScalingConfig) (h : ¬ t.HasKey row.isOn) : ConfigTable where
  rows := t.rows ++ [row]
  keys_nodup := by
    rw [List.map_append, List.nodup_append]
    refine ⟨t.keys_nodup, by simp, ?_⟩
    intro a ha b hb hab
    rw [List.map_cons, List.map_nil, List.mem_singleton] at hb
    subst hb
    exact h (hab ▸ ha)

/-- The update would give its row a key that another row already has. -/
def Clashes (t : ConfigTable) (key : Bool) (c : Changes) : Prop :=
  c.isOn.getD key ≠ key ∧ t.HasKey (c.isOn.getD key)

instance (t : ConfigTable) (key : Bool) (c : Changes) : Decidable (t.Clashes key c) :=
  inferInstanceAs (Decidable (_ ∧ _))

def updateRow (key : Bool) (c : Changes) (row : AutoScalingConfig) : AutoScalingConfig :=
  if row.isOn = key then c.apply row else row

theorem updateRow_isOn (key : Bool) (c : Changes) (row : AutoScalingConfig) :
    (updateRow key c row).isOn = if row.isOn = key then c.isOn.getD key else row.isOn := by
  unfold updateRow
  split
  next h => rw [Changes.apply, h]
  next => rfl

def update (t : ConfigTable) (key : Bool) (c : Changes) (h : ¬ t.Clashes key c) : ConfigTable where
  rows := t.rows.map (updateRow key c)
  keys_nodup := by
    rw [List.map_map]
    refine (List.nodup_map_iff_inj_on (List.Nodup.of_map _ t.keys_nodup)).mpr ?_
    intro a ha b hb hab
    have hinj := List.inj_on_of_nodup_map t.keys_nodup
    simp only [Function.comp, updateRow_isOn] at hab
    have key_free : c.isOn.getD key ≠ key → ∀ row ∈ t.rows, row.isOn ≠ c.isOn.getD key := by
      intro hne row hrow he
      exact h ⟨hne, he ▸ List.mem_map_of_mem hrow⟩
    by_cases hk : c.isOn.getD key = key
    · rw [hk] at hab
      exact hinj ha hb (by split_ifs at hab <;> simp_all)
    · have hfa := key_free hk a ha
      have hfb := key_free hk b hb
      exact hinj ha hb (by split_ifs at hab <;> simp_all)

end ConfigTable
end OdwaManager
