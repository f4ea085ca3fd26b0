import OdwaManager.FleetCap

/-! The cap of 8 when ticks and create requests overlap: it holds as long as nobody creates
on a count that somebody else's creation has outdated, and fails otherwise. -/
namespace OdwaManager
open Effect Program

/-- The threads whose count of the fleet no creation of another thread has outdated. -/
def upToDate : List (Label Call) → Finset Nat
  | [] => ∅
  | .served i (.describeInstances f) :: tr =>
    if f = ⟨some nonTerminatedStates, "worker"⟩ then insert i (upToDate tr) else upToDate tr
  | .served i (.createInstances _) :: tr => upToDate tr ∩ {i}
  | _ :: tr => upToDate tr

/-- An instance is created only on a count that is up to date. -/
def CountCurrent (tr : List (Label Call)) (_ : Effect.Config Call Answer PyError Account)
    (l : Label Call) : Prop :=
  ∀ i name, l = .served i (.createInstances name) → i ∈ upToDate tr

/-- Ticks and create requests, as many as there are, and the outside. -/
def scalers (faults : Call → Account → Prop) : System Call Answer PyError Account where
  services := services faults
  starts w p w' := (p = Operation.tick.program ∨ p = Operation.createWorker.program) ∧ w' = w
  env := Env fun _ => True

theorem mem_upToDate_other {tr : List (Label Call)} {i j : Nat} {c : Call} (hij : j ≠ i)
    (h : j ∈ upToDate (.served i c :: tr)) : j ∈ upToDate tr := by
  cases c with
  | describeInstances f =>
    simp only [upToDate] at h
    split at h
    · exact (Finset.mem_insert.mp h).resolve_left hij
    · exact h
  | createInstances name => exact (Finset.mem_inter.mp h).1
  | _ => exact h

theorem mem_upToDate_self {tr : List (Label Call)} {i : Nat} {c : Call}
    (hc : ∀ r, room c r = none) (h : i ∈ upToDate (.served i c :: tr)) : i ∈ upToDate tr := by
  cases c with
  | describeInstances f =>
    simp only [upToDate] at h
    split at h
    next hf =>
      have hroom := hc []
      rw [hf, room_count] at hroom
      cases hroom
    next => exact h
  | createInstances name => exact (Finset.mem_inter.mp h).1
  | _ => exact h

/-- Every thread either has yet to count, or creates no more than the fleet has room for
as long as its count is up to date. -/
structure CapInvariant (tr : List (Label Call)) (s : Effect.Config Call Answer PyError Account) :
    Prop where
  size : s.world.fleetSize ≤ 8
  known : ∀ i ∈ upToDate tr, i < s.threads.length
  thread : ∀ i p, s.threads[i]? = some p → p.Licensed Creation room ∨
    p.Ungranted room ∧ (i ∈ upToDate tr → p.Bounded Creation (8-s.world.fleetSize))

theorem CapInvariant.served {tr : List (Label Call)} {ts : List (Op Unit)} {w w' : Account}
    {i : Nat} {c : Call} {k : Answer c → Op Unit} {r : Answer c}
    (h : CapInvariant tr ⟨ts, w⟩) (hi : ts[i]? = some (.call c k)) (hs : Serves c w r w')
    (hg : CountCurrent tr ⟨ts, w⟩ (.served i c)) :
    CapInvariant (.served i c :: tr) ⟨ts.set i (k r), w'⟩ := by
  have hlen : i < ts.length := (List.getElem?_eq_some_iff.mp hi).1
  have hknown : ∀ j ∈ upToDate (.served i c :: tr), j < (ts.set i (k r)).length := by
    intro j hj
    rw [List.length_set]
    by_cases hji : j = i
    · rw [hji]
      exact hlen
    · exact h.known j (mem_upToDate_other hji hj)
  by_cases hc : Creation c
  · obtain ⟨name, rfl⟩ := hc
    obtain hl | ⟨hu, hb⟩ := h.thread i _ hi
    · exact absurd ⟨name, rfl⟩ hl.1
    · obtain ⟨b, hb, hk⟩ := (hb (hg i name rfl)).1 ⟨name, rfl⟩
      have hsize := serves_creation_fleetSize ⟨name, rfl⟩ hs
      have hcap := h.size
      simp only at hb hcap
      refine ⟨by simp only; omega, hknown, fun j q hq => ?_⟩
      obtain ⟨rfl, rfl⟩ | ⟨hji, hq⟩ := getElem?_set_cases hq
      · exact .inr ⟨hu.2 r, fun _ => (hk r).mono (by simp only; omega)⟩
      · obtain hl | ⟨hu, _⟩ := h.thread j q hq
        · exact .inl hl
        · refine .inr ⟨hu, fun hj => absurd ?_ hji⟩
          exact Finset.mem_singleton.mp (Finset.mem_inter.mp hj).2
  · have hsize := serves_fleetSize hc hs
    have hcap := h.size
    simp only at hcap
    refine ⟨by simp only; omega, hknown, fun j q hq => ?_⟩
    obtain ⟨rfl, rfl⟩ | ⟨hji, hq⟩ := getElem?_set_cases hq
    · obtain hl | ⟨hu, hb⟩ := h.thread j _ hi
      · cases hroom : room c r with
        | none => exact .inl ((hl.2 r).2 hroom)
        | some n =>
          obtain ⟨hb, hu⟩ := (hl.2 r).1 n hroom
          exact .inr ⟨hu, fun _ => hb.mono (room_le hs hroom)⟩
      · refine .inr ⟨hu.2 r, fun hj => ?_⟩
        have hb := (hb (mem_upToDate_self hu.1 hj)).2 hc r
        exact hb.mono (by simp only; omega)
    · obtain hl | ⟨hu, hb⟩ := h.thread j q hq
      · exact .inl hl
      · refine .inr ⟨hu, fun hj => (hb (mem_upToDate_other hji hj)).mono ?_⟩
        simp only
        omega

theorem CapInvariant.step {faults : Call → Account → Prop} {tr : List (Label Call)}
    {s₁ s₂ : Effect.Config Call Answer PyError Account} {l : Label Call} (h : CapInvariant tr s₁)
    (hg : CountCurrent tr s₁ l) (hs : (scalers faults).Step s₁ l s₂) : CapInvariant (l :: tr) s₂ := by
  cases hs with
  | @start ts w w' p hp =>
    obtain ⟨hp, rfl⟩ := hp
    refine ⟨h.size, fun i hi => ?_, fun j q hq => ?_⟩
    · have hlt := h.known i hi
      simp only [List.length_append, List.length_singleton] at hlt ⊢
      omega
    · obtain ⟨hj, rfl⟩ | ⟨hj, hq⟩ := getElem?_append_cases hq
      · cases hp with
        | inl hp => exact .inl (hp ▸ program_licensed .tick nofun)
        | inr hp => exact .inl (hp ▸ program_licensed .createWorker nofun)
      · exact h.thread j q hq
  | served hi hs => exact h.served hi hs hg
  | @failed ts w i c k e hi hf =>
    refine ⟨h.size, fun j hj => ?_, fun j q hq => ?_⟩
    · rw [List.length_set]
      exact h.known j hj
    · obtain ⟨_, rfl⟩ | ⟨_, hq⟩ := getElem?_set_cases hq
      · exact .inl trivial
      · exact h.thread j q hq
  | @env ts w w' he =>
    have hsize := env_fleetSize he
    have hcap := h.size
    simp only at hcap
    refine ⟨by simp only; omega, h.known, fun j q hq => ?_⟩
    obtain hl | ⟨hu, hb⟩ := h.thread j q hq
    · exact .inl hl
    · exact .inr ⟨hu, fun hj => (hb hj).mono (by simp only; omega)⟩

/-- However ticks and create requests overlap, the fleet stays within 8 while every
creation rests on a count that no other creation has outdated. -/
theorem fleet_cap_interleaved {faults : Call → Account → Prop} {w : Account}
    {s : Effect.Config Call Answer PyError Account} {tr : List (Label Call)}
    (hw : w.fleetSize ≤ 8) (hr : (scalers faults).Run CountCurrent ⟨[], w⟩ tr s) :
    s.world.fleetSize ≤ 8 := by
  have h₀ : CapInvariant [] ⟨[], w⟩ := by
    refine ⟨hw, fun i hi => absurd hi (Finset.notMem_empty i), fun i p hp => ?_⟩
    cases hp
  exact (hr.invariant h₀ fun tr s₁ l s₂ h hg hs => h.step hg hs).size

/-- One place below the cap. -/
def crowd : Account :=
  { Account.vacant with
    instances := ["i-1", "i-2", "i-3", "i-4", "i-5", "i-6", "i-7"].map
      fun id => ⟨id, some "worker", .running⟩
    ids_nodup := by decide }

theorem crowd_fresh : crowd.Fresh "i-8" := by decide

theorem crowd_fresh_next : (crowd.launch "i-8" "worker" crowd_fresh).Fresh "i-9" := by decide

theorem fleet_cap_interleaved_crowd :
    crowd.fleetSize ≤ 8 ∧ (crowd.launch "i-8" "worker" crowd_fresh).fleetSize ≤ 8 := by
  have hw : crowd.fleetSize ≤ 8 := by decide
  have h₀ : (scalers noFaults).Run CountCurrent ⟨[], crowd⟩ [] ⟨[], crowd⟩ := .nil
  have h₁ := h₀.start Operation.createWorker.program ⟨.inr rfl, rfl⟩ nofun
  have h₂ := h₁.serve 0 (crowd.listed ⟨some nonTerminatedStates, "worker"⟩) rfl ⟨rfl, rfl⟩ nofun
  have h₃ := h₂.serve 0 "i-8" rfl ⟨crowd_fresh, rfl⟩ (by
    intro i name h
    cases h
    decide)
  exact ⟨hw, fleet_cap_interleaved hw h₃⟩

/-- Two requests that count seven workers each, one after the other, both create. -/
theorem fleet_cap_overtaken :
    ¬ ∀ (w : Account) (s : Effect.Config Call Answer PyError Account) (tr : List (Label Call)),
      w.fleetSize ≤ 8 → (scalers noFaults).Run unguarded ⟨[], w⟩ tr s → s.world.fleetSize ≤ 8 := by
  intro h
  have h₀ : (scalers noFaults).Run unguarded ⟨[], crowd⟩ [] ⟨[], crowd⟩ := .nil
  have h₁ := h₀.start Operation.createWorker.program ⟨.inr rfl, rfl⟩ trivial
  have h₂ := h₁.start Operation.createWorker.program ⟨.inr rfl, rfl⟩ trivial
  have h₃ := h₂.serve 0 (crowd.listed ⟨some nonTerminatedStates, "worker"⟩) rfl ⟨rfl, rfl⟩ trivial
  have h₄ := h₃.serve 1 (crowd.listed ⟨some nonTerminatedStates, "worker"⟩) rfl ⟨rfl, rfl⟩ trivial
  have h₅ := h₄.serve 0 "i-8" rfl ⟨crowd_fresh, rfl⟩ trivial
  have h₆ := h₅.serve 1 "i-9" rfl ⟨crowd_fresh_next, rfl⟩ trivial
  have hover := h crowd _ _ (by decide) h₆
  exact absurd hover (by decide)

end OdwaManager
