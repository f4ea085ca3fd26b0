import OdwaManager.Reads

/-! What creating and destroying workers does to the account, one worker and in a loop. -/
namespace OdwaManager
open Effect Program

/-- The account after `w` lost the instances of `l`, one whole destroy after the other. -/
def Account.destroyed (w : Account) (l : List InstanceId) : Account := l.foldl Account.destroy w

/-- `n` new workers, each with its registration queued. -/
def Account.Grows : Nat → Account → Account → Prop
  | 0, w, w' => w' = w
  | n+1, w, w' => ∃ (id : InstanceId) (h : w.Fresh id),
    Account.Grows n ((w.launch id "worker" h).enqueue id) w'

namespace Account
variable {w : Account} {id j : InstanceId} {s : InstanceState} {name : Option String}

theorem mem_destroy :
    (⟨j, name, s⟩ : Instance) ∈ (w.destroy id).instances ↔
      if j = id then ∃ s₀, (⟨j, name, s₀⟩ : Instance) ∈ w.instances ∧ s = s₀.terminate
      else (⟨j, name, s⟩ : Instance) ∈ w.instances :=
  mem_modify

theorem modify_known {f : InstanceState → InstanceState} : (w.modify id f).Known j ↔ w.Known j := by
  have hmap : (w.modify id f).instances.map Instance.id = w.instances.map Instance.id := by
    simp only [modify, List.map_map]
    exact List.map_congr_left fun i _ => Instance.update_id id f i
  simp only [Known, hmap]

theorem Known.launch {n : String} {hf : w.Fresh id} (h : w.Known j) : (w.launch id n hf).Known j := by
  rw [Known, Account.launch, List.map_append]
  exact List.mem_append_left _ h

theorem terminate_terminate : s.terminate.terminate = s.terminate := by
  cases s <;> rfl

/-- The loop ends the instances of its list and leaves every other record alone. -/
theorem mem_destroyed (l : List InstanceId) :
    (⟨j, name, s⟩ : Instance) ∈ (w.destroyed l).instances ↔
      if j ∈ l then ∃ s₀, (⟨j, name, s₀⟩ : Instance) ∈ w.instances ∧ s = s₀.terminate
      else (⟨j, name, s⟩ : Instance) ∈ w.instances := by
  induction l generalizing w with
  | nil => simp [destroyed]
  | cons id l ih =>
    change _ ∈ ((w.destroy id).destroyed l).instances ↔ _
    rw [ih]
    by_cases hj : j = id
    · subst hj
      simp only [mem_destroy, if_true, List.mem_cons, true_or]
      by_cases hl : j ∈ l
      · rw [if_pos hl]
        constructor
        · intro h
          obtain ⟨s₁, ⟨s₀, hs₀, rfl⟩, rfl⟩ := h
          exact ⟨s₀, hs₀, terminate_terminate⟩
        · intro h
          obtain ⟨s₀, hs₀, rfl⟩ := h
          exact ⟨s₀.terminate, ⟨s₀, hs₀, rfl⟩, terminate_terminate.symm⟩
      · rw [if_neg hl]
    · simp only [mem_destroy, List.mem_cons, hj, false_or, if_false]

theorem healthy_deregister : (w.deregister id).healthy = w.healthy.erase id := by
  ext j
  rw [Finset.mem_erase, mem_healthy, mem_healthy, mem_deregister]
  by_cases hj : j = id
  · simp [hj]
  · simp [hj]

theorem healthy_destroyed (l : List InstanceId) :
    (w.destroyed l).healthy = w.healthy \ l.toFinset := by
  induction l generalizing w with
  | nil => simp [destroyed]
  | cons id l ih =>
    change ((w.destroy id).destroyed l).healthy = _
    rw [ih, show (w.destroy id).healthy = w.healthy.erase id from healthy_deregister]
    ext j
    simp only [Finset.mem_sdiff, Finset.mem_erase, List.toFinset_cons, Finset.mem_insert, not_or]
    tauto

theorem Grows.targets {n : Nat} {w' : Account} (h : w.Grows n w') : w'.targets = w.targets := by
  induction n generalizing w with
  | zero => rw [show w' = w from h]
  | succ n ih =>
    obtain ⟨id, hf, h⟩ := h
    have ht := ih h
    exact ht

/-- EC2 never runs out of ids. -/
theorem exists_fresh (w : Account) : ∃ id, w.Fresh id := by
  obtain ⟨id, hid⟩ := Infinite.exists_notMem_finset
    (w.instances.map Instance.id ++ w.targets.map Target.id ++ w.queue).toFinset
  simp only [List.mem_toFinset, List.mem_append, not_or] at hid
  exact ⟨id, hid.1.1, hid.1.2, hid.2⟩

theorem exists_grows (w : Account) (n : Nat) : ∃ w', w.Grows n w' := by
  induction n generalizing w with
  | zero => exact ⟨w, rfl⟩
  | succ n ih =>
    obtain ⟨id, hid⟩ := w.exists_fresh
    obtain ⟨w', hw'⟩ := ih ((w.launch id "worker" hid).enqueue id)
    exact ⟨w', id, hid, hw'⟩

end Account

section
variable {w w' : Account} {id : InstanceId} {res : Except PyError Unit}

theorem does_deregister :
    Does (services noFaults) (deregisterFromElb id) w () (w.deregister id) :=
  does_ask (fun _ _ => by simp [Serves]) fun _ h => h

theorem does_terminate (h : w.Known id) :
    Does (services noFaults) (ask (.terminate id)) w () (w.modify id InstanceState.terminate) :=
  does_ask (fun _ _ => by simp [Serves, h]) fun _ hr => hr.1 h

theorem filter_id_of_known (h : w.Known id) :
    ∃ i l, w.instances.filter (fun i => i.id = id) = i :: l ∧ i.id = id := by
  obtain ⟨i, hi, hid⟩ := List.mem_map.mp h
  cases hl : w.instances.filter (fun i => i.id = id) with
  | nil =>
    have hmem : i ∈ w.instances.filter (fun i => i.id = id) := by simp [hi, hid]
    rw [hl] at hmem
    cases hmem
  | cons i' l =>
    have hmem : i' ∈ w.instances.filter (fun i => i.id = id) := by simp [hl]
    exact ⟨i', l, rfl, by simpa using (List.mem_filter.mp hmem).2⟩

theorem yields_describeInstance (h : w.Known id) :
    Yields (services noFaults) (ask (.describeInstance id)) w
      (w.instances.filter fun i => i.id = id) :=
  does_ask (fun _ _ => Iff.rfl) fun _ hr => hr.1 h

/-- Without faults a destroy of a known instance goes through. -/
theorem does_destroyAWorker (h : w.Known id) :
    Does (services noFaults) (destroyAWorker id) w () (w.destroy id) := by
  have hk : (w.deregister id).Known id := h
  obtain ⟨i, l, hl, hi⟩ := filter_id_of_known hk
  refine does_deregister.bind ((yields_describeInstance hk).bind ?_)
  rw [hl]
  dsimp only
  rw [hi]
  exact does_terminate hk

theorem does_each_destroy (l : List InstanceId) (h : ∀ id ∈ l, w.Known id) :
    Does (services noFaults) (each l destroyAWorker) w () (w.destroyed l) := by
  induction l generalizing w with
  | nil => exact Does.pure
  | cons id l ih =>
    have hl : ∀ j ∈ l, (w.destroy id).Known j := by
      intro j hj
      exact Account.modify_known.mpr (h j (List.mem_cons_of_mem id hj))
    exact (does_destroyAWorker (h id (by simp))).bind (ih hl)

/-- The ids that random.sample may pick. -/
def IsSample (s : Finset InstanceId) (k : ℤ) (l : List InstanceId) : Prop :=
  l.Nodup ∧ (∀ id ∈ l, id ∈ s) ∧ l.length = k.toNat

instance (s : Finset InstanceId) (k : ℤ) (l : List InstanceId) : Decidable (IsSample s k l) :=
  inferInstanceAs (Decidable (_ ∧ _ ∧ _))

theorem runs_randomSample {s : Finset InstanceId} {k : ℤ} {res : Except PyError (List InstanceId)} :
    Runs (services noFaults) (randomSample s k) w res w' ↔
      if 0 ≤ k ∧ k ≤ s.card then w' = w ∧ ∃ l, IsSample s k l ∧ res = .ok l
      else res = .error .valueError ∧ w' = w := by
  unfold randomSample
  split
  next =>
    rw [runs_ask (c := .sample s k.toNat) fun _ h => h]
    constructor
    · intro h
      obtain ⟨l, ⟨hl, hw⟩, rfl⟩ := h
      exact ⟨hw, l, hl, rfl⟩
    · intro h
      obtain ⟨hw, l, hl, rfl⟩ := h
      exact ⟨l, ⟨hl, hw⟩, rfl⟩
  next => exact Iff.rfl

/-- A destroy request reads the healthy ids again: none is a False, too few a ValueError. -/
theorem runs_randomDestroyWorker {k : ℤ} (hk : ∀ id ∈ w.healthy, w.Known id)
    {res : Except PyError Bool} :
    Runs (services noFaults) (randomDestroyWorker k) w res w' ↔
      if w.healthy.card = 0 then res = .ok false ∧ w' = w
      else if 0 ≤ k ∧ k ≤ w.healthy.card then
        ∃ l, IsSample w.healthy k l ∧ res = .ok true ∧ w' = w.destroyed l
      else res = .error .valueError ∧ w' = w := by
  rw [randomDestroyWorker, yields_serving.runs_bind]
  dsimp only
  by_cases hc : w.healthy.card = 0
  · rw [if_pos hc, if_pos hc]
    exact Iff.rfl
  · rw [if_neg hc, if_neg hc, runs_bind]
    have hloop : ∀ l, IsSample w.healthy k l →
        Does (services noFaults) (each l destroyAWorker >>= fun _ => pure true) w true (w.destroyed l) := by
      intro l hl
      exact (does_each_destroy l fun id hid => hk id (hl.2.1 id hid)).bind Does.pure
    by_cases hs : 0 ≤ k ∧ k ≤ w.healthy.card
    · simp only [runs_randomSample, if_pos hs]
      constructor
      · intro h
        obtain ⟨l, w₁, ⟨rfl, l', hl, hok⟩, hr⟩ | ⟨e, ⟨_, l', _, hok⟩, _⟩ := h
        · cases hok
          exact ⟨l, hl, (hloop l hl _ _).mp hr⟩
        · cases hok
      · intro h
        obtain ⟨l, hl, hr⟩ := h
        exact .inl ⟨l, w, ⟨rfl, l, hl, rfl⟩, (hloop l hl _ _).mpr hr⟩
    · simp only [runs_randomSample, if_neg hs]
      constructor
      · intro h
        obtain ⟨l, w₁, ⟨hok, _⟩, _⟩ | ⟨e, ⟨hok, rfl⟩, rfl⟩ := h
        · cases hok
        · cases hok
          exact ⟨rfl, rfl⟩
      · intro h
        exact .inr ⟨_, ⟨rfl, h.2⟩, h.1⟩

theorem does_applyAsync :
    Does (services noFaults) (ask (.applyAsync id)) w () (w.enqueue id) :=
  does_ask (fun _ _ => by simp [Serves]) fun _ h => h

theorem runs_createInstances {name : String} {res : Except PyError InstanceId} :
    Runs (services noFaults) (ask (.createInstances name)) w res w' ↔
      ∃ (id : InstanceId) (h : w.Fresh id), res = .ok id ∧ w' = w.launch id name h := by
  rw [runs_ask (c := .createInstances name) fun _ h => h]
  constructor
  · intro h
    obtain ⟨id, ⟨hf, hw⟩, rfl⟩ := h
    exact ⟨id, hf, rfl, hw⟩
  · intro h
    obtain ⟨id, hf, rfl, hw⟩ := h
    exact ⟨id, ⟨hf, hw⟩, rfl⟩

theorem runs_celeryCreateWorker :
    Runs (services noFaults) celeryCreateWorker w res w' ↔
      res = .ok () ∧ ∃ (id : InstanceId) (h : w.Fresh id),
        w' = (w.launch id "worker" h).enqueue id := by
  rw [celeryCreateWorker, runs_bind]
  constructor
  · intro h
    obtain ⟨id, w₁, ha, hr⟩ | ⟨e, he, _⟩ := h
    · obtain ⟨id', hf, hok, rfl⟩ := runs_createInstances.mp ha
      cases hok
      obtain ⟨rfl, rfl⟩ := (does_applyAsync _ _).mp hr
      exact ⟨rfl, id, hf, rfl⟩
    · obtain ⟨_, _, hok, _⟩ := runs_createInstances.mp he
      cases hok
  · intro h
    obtain ⟨rfl, id, hf, rfl⟩ := h
    exact .inl ⟨id, _, runs_createInstances.mpr ⟨id, hf, rfl, rfl⟩, does_applyAsync.runs⟩

theorem runs_times_create (n : Nat) :
    Runs (services noFaults) (times n celeryCreateWorker) w res w' ↔
      res = .ok () ∧ w.Grows n w' := by
  induction n generalizing w with
  | zero => exact Iff.rfl
  | succ n ih =>
    rw [times, runs_bind]
    simp only [runs_celeryCreateWorker, ih]
    constructor
    · intro h
      obtain ⟨a, w₁, ⟨_, id, hf, rfl⟩, hr⟩ | ⟨e, ⟨hok, _⟩, _⟩ := h
      · exact ⟨hr.1, id, hf, hr.2⟩
      · cases hok
    · intro h
      obtain ⟨rfl, id, hf, hr⟩ := h
      exact .inl ⟨(), _, ⟨trivial, id, hf, rfl⟩, rfl, hr⟩

/- What is left behind when any call may raise. -/

variable {faults : Call → Account → Prop}

theorem destroyAWorker_leaves (h : Runs (services faults) (destroyAWorker id) w res w') :
    w' = w ∨ w' = w.deregister id ∨ w' = w.destroy id := by
  obtain rfl | ⟨_, w₁, rfl, h⟩ := runs_request_bind h
  · exact .inl rfl
  · obtain rfl | ⟨r, w₂, ⟨rfl, rfl⟩, h⟩ := runs_request_bind h
    · exact .inr (.inl rfl)
    · cases hl : (w.deregister id).instances.filter (fun i => i.id = id) with
      | nil =>
        rw [hl] at h
        exact .inr (.inl h.2)
      | cons i l =>
        have hi : i ∈ (w.deregister id).instances.filter (fun i => i.id = id) := by simp [hl]
        have hid : i.id = id := by simpa using (List.mem_filter.mp hi).2
        rw [hl] at h
        obtain rfl | ⟨_, _, rfl⟩ := runs_request_cases h
        · exact .inr (.inl rfl)
        · exact .inr (.inr (by rw [hid]; rfl))

theorem celeryCreateWorker_leaves (h : Runs (services faults) celeryCreateWorker w res w') :
    w' = w ∨ ∃ (id : InstanceId) (hid : w.Fresh id), w' = w.launch id "worker" hid ∨
      w' = (w.launch id "worker" hid).enqueue id := by
  obtain rfl | ⟨id, w₁, ⟨hid, rfl⟩, h⟩ := runs_request_bind h
  · exact .inl rfl
  · obtain rfl | ⟨_, rfl⟩ := runs_request_cases h
    · exact .inr ⟨id, hid, .inl rfl⟩
    · exact .inr ⟨id, hid, .inr rfl⟩

theorem registerInstanceToElb_leaves (h : Runs (services faults) (registerInstanceToElb id) w res w') :
    w' = w ∨ w' = w.register id := by
  obtain hw | ⟨_, w₁, ⟨_, rfl⟩, h₁⟩ := runs_request_bind h
  · exact .inl hw
  · obtain hw | ⟨_, w₂, ⟨_, rfl⟩, h₂⟩ := runs_request_bind h₁
    · exact .inl hw
    · obtain hw | ⟨_, _, hw⟩ := runs_request_cases h₂
      · exact .inl hw
      · exact .inr hw

end
end OdwaManager
