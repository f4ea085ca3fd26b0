import OdwaManager.Effect.Interference
import OdwaManager.Management
import OdwaManager.OnlyWorkers

/-! Destroying every worker while the environment goes on: instances come up and go down, and
EC2 drops the record of a terminated one at a time of its own. The loop looks each instance up
again, so it survives exactly if no listed record is dropped before its turn, and the loop over the
managers only if none of them refuses to stop. -/
namespace OdwaManager
open Effect Program

/-- What the operation and EC2 have done so far. -/
inductive Event where
  | listed (ids : List InstanceId)
  | terminated (id : InstanceId)
  | stopped (id : InstanceId)
  | removed (id : InstanceId)
  deriving DecidableEq

def progress : (c : Call) → Answer c → List Event
  | .describeInstances _, r => [.listed (r.map Instance.id)]
  | .terminate id, _ => [.terminated id]
  | .stop id, _ => [.stopped id]
  | _, _ => []

/-- EC2 drops the record of an instance. -/
def Account.drop (w : Account) (id : InstanceId) : Account :=
  { w with
    instances := w.instances.filter fun i => i.id ≠ id
    ids_nodup := w.ids_nodup.sublist (List.filter_sublist.map Instance.id) }

/-- The account and the log, latest event first. -/
abbrev Watched := Account × List Event

inductive Upkeep : Watched → Watched → Prop
  | env {w w' : Account} {log : List Event} (h : Env (fun _ => True) w w') :
    Upkeep (w, log) (w', log)
  | removal {w : Account} {log : List Event} {id : InstanceId} (h : w.InState id .terminated) :
    Upkeep (w, log) (w.drop id, .removed id :: log)

/-- The services while any upkeep goes on between two calls. -/
def upkept : Services Call Answer PyError Watched :=
  ((services noFaults).noting progress).followed (Relation.ReflTransGen Upkeep)

def Listed (log : List Event) (id : InstanceId) : Prop := ∃ ids, .listed ids ∈ log ∧ id ∈ ids

/-- The operation has made its own last call for this instance. -/
def Handled (log : List Event) (id : InstanceId) : Prop :=
  .terminated id ∈ log ∨ .stopped id ∈ log

/-- No listed record was removed before the operation had handled it. -/
def Timely : List Event → Prop
  | [] => True
  | .removed id :: log => (Listed log id → Handled log id) ∧ Timely log
  | .listed _ :: log | .terminated _ :: log | .stopped _ :: log => Timely log

/-- No instance is asked to stop that refuses to. -/
def Askable : Call → Watched → Prop
  | .stop id, s => s.1.Stoppable id
  | _, _ => True

/-- The calls of the bulk operations. -/
def Call.Clears (c : Call) : Prop := (c.Lists ∨ c.Destroys) ∨ ∃ id, c = .stop id

/- What only ever goes one way. -/

/-- Records go and never come, keep their tag and stay ended; registrations go; the log grows. -/
structure Wanes (s s' : Watched) : Prop where
  records : ∀ i' ∈ s'.1.instances, ∃ i ∈ s.1.instances, i.id = i'.id ∧ i.name = i'.name ∧
    (i.state.Ending → i'.state.Ending)
  kept : ∀ i ∈ s.1.instances,
    (∃ i' ∈ s'.1.instances, i'.id = i.id ∧ i'.name = i.name) ∨ .removed i.id ∈ s'.2
  registered : ∀ id, s'.1.Registered id → s.1.Registered id
  log : s.2 ⊆ s'.2

section
variable {s s₁ s₂ s' : Watched} {w w' : Account} {log : List Event} {id : InstanceId}

theorem Wanes.trans (h₁ : Wanes s s₁) (h₂ : Wanes s₁ s₂) : Wanes s s₂ where
  records := by
    intro i₂ hi₂
    obtain ⟨i₁, hi₁, hid₁, hname₁, hend₁⟩ := h₂.records i₂ hi₂
    obtain ⟨i, hi, hid, hname, hend⟩ := h₁.records i₁ hi₁
    exact ⟨i, hi, hid.trans hid₁, hname.trans hname₁, fun h => hend₁ (hend h)⟩
  kept := by
    intro i hi
    obtain ⟨i₁, hi₁, hid₁, hname₁⟩ | hgone := h₁.kept i hi
    · obtain ⟨i₂, hi₂, hid₂, hname₂⟩ | hgone := h₂.kept i₁ hi₁
      · exact .inl ⟨i₂, hi₂, hid₂.trans hid₁, hname₂.trans hname₁⟩
      · exact .inr (hid₁ ▸ hgone)
    · exact .inr (h₂.log hgone)
  registered := fun id h => h₁.registered id (h₂.registered id h)
  log := fun e he => h₂.log (h₁.log he)

/-- A change of the registrations only. -/
theorem Wanes.of_instances (new : List Event) (hi : w'.instances = w.instances)
    (hr : ∀ id, w'.Registered id → w.Registered id) : Wanes (w, log) (w', new ++ log) where
  records := fun i h => ⟨i, hi ▸ h, rfl, rfl, fun he => he⟩
  kept := fun i h => .inl ⟨i, by rw [hi]; exact h, rfl, rfl⟩
  registered := hr
  log := List.subset_append_right new log

theorem Wanes.modify (new : List Event) {f : InstanceState → InstanceState}
    (hf : ∀ s, w.InState id s → s.Ending → (f s).Ending) :
    Wanes (w, log) (w.modify id f, new ++ log) where
  records := by
    rintro ⟨j, name, s⟩ hi
    obtain ⟨_, hold⟩ | ⟨rfl, s₀, hs₀, rfl⟩ := Account.mem_modify_cases hi
    · exact ⟨_, hold, rfl, rfl, fun he => he⟩
    · exact ⟨_, hs₀, rfl, rfl, hf s₀ ⟨name, hs₀⟩⟩
  kept := by
    rintro ⟨j, name, s⟩ hi
    have hstay : ∃ s', (⟨j, name, s'⟩ : Instance) ∈ (w.modify id f).instances :=
      Account.exists_mem_modify hi
    obtain ⟨s', hs'⟩ := hstay
    exact .inl ⟨_, hs', rfl, rfl⟩
  registered := fun _ h => h
  log := List.subset_append_right new log

theorem serves_wanes {c : Call} {r : Answer c} (hc : c.Clears) (hs : Serves c w r w') :
    Wanes (w, log) (w', progress c r ++ log) := by
  cases c with
  | describeInstances f =>
    rw [hs.2]
    exact .of_instances _ rfl fun _ h => h
  | describeInstance j =>
    rw [hs.2]
    exact .of_instances _ rfl fun _ h => h
  | deregisterTargets j =>
    obtain rfl : w' = w.deregister j := hs
    exact .of_instances _ rfl fun _ h => h.of_deregister
  | terminate j =>
    rw [hs.2]
    exact .modify _ fun s _ _ => s.ending_terminate
  | stop j =>
    rw [hs.2]
    exact .modify _ fun s _ he => s.ending_stop.mpr he
  | _ => simp [Call.Clears, Call.Lists, Call.Destroys] at hc

theorem known_drop {j : InstanceId} : (w.drop id).Known j ↔ w.Known j ∧ j ≠ id := by
  simp only [Account.Known, Account.drop, List.mem_map, List.mem_filter, decide_eq_true_eq]
  constructor
  · rintro ⟨i, ⟨hi, hne⟩, rfl⟩
    exact ⟨⟨i, hi, rfl⟩, hne⟩
  · rintro ⟨⟨i, hi, rfl⟩, hne⟩
    exact ⟨i, ⟨hi, hne⟩, rfl⟩

theorem env_wanes {elb : Account → Prop} (h : Env elb w w') : Wanes (w, log) (w', log) := by
  have hr : ∀ id, w'.Registered id → w.Registered id := fun id => (env_registered h).mp
  cases h with
  | boot hp =>
    refine Wanes.modify [] fun s hs he => ?_
    rw [hs.unique hp] at he
    simp [InstanceState.Ending] at he
  | halt hp => exact Wanes.modify [] fun s hs he => .inr rfl
  | health f hf ht => exact Wanes.of_instances [] rfl hr
  | drained id => exact Wanes.of_instances [] rfl hr
  | metrics cpu => exact Wanes.of_instances [] rfl hr

theorem upkeep_wanes (h : Upkeep s s') : Wanes s s' := by
  cases h with
  | env he => exact env_wanes he
  | @removal w log id h =>
    refine ⟨fun i hi => ?_, fun i hi => ?_, fun _ h => h, List.subset_cons_self _ _⟩
    · exact ⟨i, (List.mem_filter.mp hi).1, rfl, rfl, fun he => he⟩
    · by_cases hid : i.id = id
      · exact .inr (by simp [hid])
      · exact .inl ⟨i, by simp [Account.drop, hi, hid], rfl, rfl⟩

theorem Wanes.refl (s : Watched) : Wanes s s :=
  Wanes.of_instances [] rfl fun _ h => h

theorem upkeeps_wane (h : Relation.ReflTransGen Upkeep s s') : Wanes s s' := by
  induction h with
  | refl => exact .refl s
  | tail _ hu ih => exact ih.trans (upkeep_wanes hu)

/-- Whatever a bulk operation and the upkeep do, the account wanes. -/
theorem runs_wanes {α : Type} {p : Op α} {res : Except PyError α} (hp : p.Uses Call.Clears)
    (hr : Runs upkept p s res s') : Wanes s s' := by
  refine hr.visits.respects Wanes hp .refl (fun _ _ _ => .trans) ?_
  rintro c ⟨w, log⟩ r s₂ hc ⟨⟨w₁, log₁⟩, ⟨hs, hlog⟩, hu⟩
  obtain rfl : log₁ = progress c r ++ log := hlog
  exact (serves_wanes hc hs).trans (upkeeps_wane hu)

theorem Wanes.known (h : Wanes s s') (hk : s'.1.Known id) : s.1.Known id := by
  obtain ⟨i', hi', rfl⟩ := List.mem_map.mp hk
  obtain ⟨i, hi, hid, _⟩ := h.records i' hi'
  exact hid ▸ List.mem_map_of_mem hi

theorem Wanes.handled (h : Wanes s s') (hh : Handled s.2 id) : Handled s'.2 id :=
  hh.imp (fun he => h.log he) fun he => h.log he

/- The log tells what is missing. -/

/-- The log is timely exactly if every listed record is still there until it is handled. -/
def Consistent (s : Watched) : Prop :=
  Timely s.2 ↔ ∀ id, Listed s.2 id → ¬ Handled s.2 id → s.1.Known id

theorem Account.Stoppable.known (h : w.Stoppable id) : w.Known id := by
  obtain ⟨s, hs, _⟩ := h
  exact hs.known

theorem serves_known {c : Call} {r : Answer c} (hc : c.Clears) (hs : Serves c w r w') :
    w'.Known id ↔ w.Known id := by
  cases c with
  | describeInstances f => rw [hs.2]
  | describeInstance j => rw [hs.2]
  | deregisterTargets j => rw [show w' = w.deregister j from hs]; exact Iff.rfl
  | terminate j => rw [hs.2, Account.modify_known]
  | stop j => rw [hs.2, Account.modify_known]
  | _ => simp [Call.Clears, Call.Lists, Call.Destroys] at hc

section
variable {j : InstanceId} {ids : List InstanceId}

@[simp] theorem listed_listed : Listed (.listed ids :: log) id ↔ id ∈ ids ∨ Listed log id := by
  simp [Listed]

@[simp] theorem listed_terminated : Listed (.terminated j :: log) id ↔ Listed log id := by
  simp [Listed]

@[simp] theorem listed_stopped : Listed (.stopped j :: log) id ↔ Listed log id := by
  simp [Listed]

@[simp] theorem listed_removed : Listed (.removed j :: log) id ↔ Listed log id := by
  simp [Listed]

@[simp] theorem handled_listed : Handled (.listed ids :: log) id ↔ Handled log id := by
  simp [Handled]

@[simp] theorem handled_terminated :
    Handled (.terminated j :: log) id ↔ id = j ∨ Handled log id := by
  simp [Handled, or_assoc]

@[simp] theorem handled_stopped : Handled (.stopped j :: log) id ↔ id = j ∨ Handled log id := by
  simp [Handled, or_left_comm]

@[simp] theorem handled_removed : Handled (.removed j :: log) id ↔ Handled log id := by
  simp [Handled]

end

/-- Handling an instance that is there leaves nothing else missing. -/
theorem missing_handled {j : InstanceId} (hj : w.Known j) :
    (∀ id, Listed log id → ¬ Handled log id → w.Known id) ↔
      ∀ id, Listed log id → ¬ (id = j ∨ Handled log id) → w.Known id := by
  constructor
  · intro h id hl hn
    exact h id hl fun hh => hn (.inr hh)
  · intro h id hl hn
    by_cases hid : id = j
    · exact hid ▸ hj
    · exact h id hl fun hh => hh.elim hid hn

theorem serves_consistent {c : Call} {r : Answer c} (hc : c.Clears) (hs : Serves c w r w')
    (h : Consistent (w, log)) : Consistent (w', progress c r ++ log) := by
  have hknown : ∀ id, w'.Known id ↔ w.Known id := fun id => serves_known hc hs
  unfold Consistent at h ⊢
  simp only [hknown]
  cases c with
  | describeInstances f =>
    obtain ⟨rfl, rfl⟩ := hs
    simp only [progress, List.singleton_append, Timely, h, listed_listed, handled_listed]
    constructor
    · rintro h id (hid | hl) hn
      · exact (List.filter_sublist.map Instance.id).subset hid
      · exact h id hl hn
    · exact fun h id hl hn => h id (.inr hl) hn
  | terminate j =>
    simp only [progress, List.singleton_append, Timely, h, listed_terminated, handled_terminated]
    exact missing_handled hs.1
  | stop j =>
    simp only [progress, List.singleton_append, Timely, h, listed_stopped, handled_stopped]
    exact missing_handled hs.1.known
  | describeInstance j => exact h
  | deregisterTargets j => exact h
  | _ => simp [Call.Clears, Call.Lists, Call.Destroys] at hc

theorem upkeep_consistent (h : Upkeep s s') (hs : Consistent s) : Consistent s' := by
  cases h with
  | @env w w' log he =>
    have hknown : ∀ id, w'.Known id ↔ w.Known id := fun id => env_known he
    unfold Consistent at hs ⊢
    simp only [hknown]
    exact hs
  | @removal w log j h =>
    unfold Consistent at hs ⊢
    simp only [Timely, listed_removed, handled_removed, known_drop, hs]
    constructor
    · rintro ⟨hj, hs⟩ id hl hn
      exact ⟨hs id hl hn, fun hid => hn (hid ▸ hj (hid ▸ hl))⟩
    · intro hs
      refine ⟨fun hl => ?_, fun id hl hn => (hs id hl hn).1⟩
      by_contra hn
      exact (hs j hl hn).2 rfl

theorem runs_consistent {α : Type} {p : Op α} {res : Except PyError α} (hp : p.Uses Call.Clears)
    (hr : Runs upkept p s res s') (hs : Consistent s) : Consistent s' := by
  refine Keeps.of_uses hp ?_ s res s' hs hr
  rintro c ⟨w, log⟩ r s₂ hc ⟨⟨w₁, log₁⟩, ⟨hserve, hlog⟩, hu⟩ hs
  obtain rfl : log₁ = progress c r ++ log := hlog
  have h₁ := serves_consistent hc hserve hs
  clear hserve hs
  induction hu with
  | refl => exact h₁
  | tail _ hu ih => exact upkeep_consistent hu ih

/-- The upkeep lists and handles nothing, and leaves the registrations. -/
theorem upkeep_frame (h : Upkeep s s') : (Handled s'.2 id ↔ Handled s.2 id) ∧
    (Listed s'.2 id ↔ Listed s.2 id) ∧ (s'.1.Registered id ↔ s.1.Registered id) := by
  cases h with
  | env he => exact ⟨Iff.rfl, Iff.rfl, env_registered he⟩
  | removal _ => exact ⟨handled_removed, listed_removed, Iff.rfl⟩

theorem upkeeps_frame (h : Relation.ReflTransGen Upkeep s s') :
    (Handled s'.2 id ↔ Handled s.2 id) ∧ (Listed s'.2 id ↔ Listed s.2 id) ∧
      (s'.1.Registered id ↔ s.1.Registered id) := by
  induction h with
  | refl => exact ⟨Iff.rfl, Iff.rfl, Iff.rfl⟩
  | tail _ hu ih =>
    obtain ⟨hhandled, hlisted, hregistered⟩ := upkeep_frame hu
    exact ⟨hhandled.trans ih.1, hlisted.trans ih.2.1, hregistered.trans ih.2.2⟩

theorem upkeeps_handled (h : Relation.ReflTransGen Upkeep s s') :
    Handled s'.2 id ↔ Handled s.2 id :=
  (upkeeps_frame h).1

theorem upkeeps_listed (h : Relation.ReflTransGen Upkeep s s') :
    Listed s'.2 id ↔ Listed s.2 id :=
  (upkeeps_frame h).2.1

theorem upkeeps_registered (h : Relation.ReflTransGen Upkeep s s') :
    s'.1.Registered id ↔ s.1.Registered id :=
  (upkeeps_frame h).2.2

/- One destroy, one stop, and the loops over them. -/

/-- The operation is through with this instance, which has ended and is not registered. -/
structure Destroyed (id : InstanceId) (s : Watched) : Prop where
  handled : Handled s.2 id
  ended : ∀ i ∈ s.1.instances, i.id = id → i.state.Ending
  unregistered : ¬ s.1.Registered id

theorem destroyed_terminate (hr : ¬ w.Registered id) :
    Destroyed id (w.modify id InstanceState.terminate, .terminated id :: log) := by
  refine ⟨.inl List.mem_cons_self, fun i hi hid => ?_, hr⟩
  obtain ⟨j, name, s⟩ := i
  obtain ⟨hne, _⟩ | ⟨_, s₀, _, rfl⟩ := Account.mem_modify_cases hi
  · exact absurd hid hne
  · exact s₀.ending_terminate

theorem Destroyed.later (h : Destroyed id s) (hw : Wanes s s') : Destroyed id s' := by
  refine ⟨hw.handled h.handled, fun i hi hid => ?_, fun hr => h.unregistered (hw.registered id hr)⟩
  obtain ⟨i₀, hi₀, hid₀, _, hend⟩ := hw.records i hi
  exact hend (h.ended i₀ hi₀ (hid₀.trans hid))

/-- A body of a loop either is through with its instance or gets stuck with it. -/
def HandlesOne (done stuck : InstanceId → Watched → Prop) (p : Op Unit) (id : InstanceId) : Prop :=
  ∀ s res s', Runs upkept p s res s' →
    (res = .ok () ∧ done id s' ∧ ∀ j, Handled s'.2 j ↔ j = id ∨ Handled s.2 j) ∨
      ∃ e, res = .error e ∧ stuck id s' ∧ ∀ j, Handled s'.2 j ↔ Handled s.2 j

/-- A call is served, and then the upkeep goes on, or it is rejected. -/
theorem runs_upkept_call {α : Type} {c : Call} {k : Answer c → Op α} {res : Except PyError α}
    (h : Runs upkept (.call c k) (w, log) res s') :
    (∃ r w₁ s₁, Serves c w r w₁ ∧ Relation.ReflTransGen Upkeep (w₁, progress c r ++ log) s₁ ∧
      Runs upkept (k r) s₁ res s') ∨ ∃ e, Rejects c w e ∧ res = .error e ∧ s' = (w, log) := by
  obtain ⟨r, s₁, ⟨⟨w₁, log₁⟩, ⟨hs, hlog⟩, hu⟩, hr⟩ | ⟨e, hf | ⟨hf, _⟩, hres, hs'⟩ := h
  · obtain rfl : log₁ = progress c r ++ log := hlog
    exact .inl ⟨r, w₁, s₁, hs, hu, hr⟩
  · exact .inr ⟨e, hf, hres, hs'⟩
  · exact hf.elim

theorem stop_handlesOne (id : InstanceId) :
    HandlesOne (fun id s => .stopped id ∈ s.2) (fun id s => ¬ s.1.Stoppable id) (ask (.stop id)) id := by
  rintro ⟨w, log⟩ res s' h
  obtain ⟨_, w₁, s₁, _, hu, rfl, rfl⟩ | ⟨e, ⟨hrefused, _⟩, rfl, rfl⟩ := runs_upkept_call h
  · refine .inl ⟨rfl, (upkeeps_wane hu).log List.mem_cons_self, fun j => ?_⟩
    rw [upkeeps_handled hu]
    exact handled_stopped
  · exact .inr ⟨e, rfl, hrefused, fun j => Iff.rfl⟩

/-- Every exit of a destroy: the lookup or the terminate call finds no record, or all goes
through. -/
theorem destroy_handlesOne (id : InstanceId) :
    HandlesOne Destroyed (fun id s => ¬ s.1.Known id) (destroyAWorker id) id := by
  rintro ⟨w, log⟩ res s' h
  obtain ⟨_, _, ⟨w₁, log₁⟩, rfl, hu₁, h⟩ | ⟨e, hf, _⟩ := runs_upkept_call h
  · have hhandled₁ : ∀ j, Handled log₁ j ↔ Handled log j := fun j => upkeeps_handled hu₁
    have hregistered₁ : ¬ w₁.Registered id :=
      fun hr => not_registered_deregister ((upkeeps_wane hu₁).registered id hr)
    obtain ⟨_, _, ⟨w₂, log₂⟩, ⟨rfl, hw₁⟩, hu₂, h⟩ | ⟨e, ⟨hk, _⟩, rfl, rfl⟩ := runs_upkept_call h
    · rw [hw₁] at hu₂
      have hhandled₂ : ∀ j, Handled log₂ j ↔ Handled log₁ j := fun j => upkeeps_handled hu₂
      cases hl : w₁.instances.filter (fun i => i.id = id) with
      | nil =>
        rw [hl] at h
        obtain ⟨rfl, rfl⟩ := h
        have hgone : ¬ w₁.Known id := by
          intro hk
          obtain ⟨i, l, hcons, _⟩ := filter_id_of_known hk
          rw [hl] at hcons
          cases hcons
        exact .inr ⟨_, rfl, fun hk => hgone ((upkeeps_wane hu₂).known hk),
          fun j => (hhandled₂ j).trans (hhandled₁ j)⟩
      | cons i l =>
        have hi : i ∈ w₁.instances.filter (fun i => i.id = id) := by simp [hl]
        have hid : i.id = id := by simpa using (List.mem_filter.mp hi).2
        rw [hl] at h
        subst hid
        obtain ⟨_, _, s₃, ⟨_, rfl⟩, hu₃, rfl, rfl⟩ | ⟨e, ⟨hk, _⟩, rfl, rfl⟩ := runs_upkept_call h
        · have hregistered₂ : ¬ w₂.Registered i.id :=
            fun hr => hregistered₁ ((upkeeps_wane hu₂).registered _ hr)
          refine .inl ⟨rfl, (destroyed_terminate hregistered₂).later (upkeeps_wane hu₃), fun j => ?_⟩
          rw [upkeeps_handled hu₃, ← hhandled₁ j, ← hhandled₂ j]
          exact handled_terminated
        · exact .inr ⟨e, rfl, hk, fun j => (hhandled₂ j).trans (hhandled₁ j)⟩
    · exact .inr ⟨e, rfl, hk, hhandled₁⟩
  · exact hf.elim

/-- The body's outcome, one instance after the other: all are handled, or it is stuck with one. -/
theorem each_handles {done stuck : InstanceId → Watched → Prop} {g : Instance → Op Unit}
    (hg : ∀ i, HandlesOne done stuck (g i) i.id) (huses : ∀ i, (g i).Uses Call.Clears)
    (hdone : ∀ id s s', Wanes s s' → done id s → done id s') (l : List Instance)
    (hl : (l.map Instance.id).Nodup) (hnew : ∀ i ∈ l, ¬ Handled s.2 i.id)
    {res : Except PyError Unit} (hr : Runs upkept (each l g) s res s') :
    (res = .ok () ∧ (∀ i ∈ l, done i.id s') ∧
      ∀ j, Handled s'.2 j ↔ j ∈ l.map Instance.id ∨ Handled s.2 j) ∨
    ∃ e, res = .error e ∧ ∃ i ∈ l, stuck i.id s' ∧ ¬ Handled s'.2 i.id := by
  induction l generalizing s with
  | nil =>
    obtain ⟨rfl, rfl⟩ := hr
    exact .inl ⟨rfl, by simp, by simp⟩
  | cons i l ih =>
    rw [List.map_cons, List.nodup_cons] at hl
    obtain ⟨_, s₁, hi, hr⟩ | ⟨e, hi, rfl⟩ := runs_bind.mp hr
    · obtain ⟨_, hdone₁, hhandled₁⟩ | ⟨e, hok, _⟩ := hg i s _ s₁ hi
      · have hnew₁ : ∀ i' ∈ l, ¬ Handled s₁.2 i'.id := by
          intro i' hi' hh
          obtain he | hh := (hhandled₁ _).mp hh
          · exact hl.1 (he ▸ List.mem_map_of_mem hi')
          · exact hnew i' (List.mem_cons_of_mem i hi') hh
        obtain ⟨rfl, hrest, hhandled⟩ | ⟨e, rfl, i', hi', hstuck⟩ := ih hl.2 hnew₁ hr
        · have hwanes := runs_wanes (Uses.each l fun i _ => huses i) hr
          refine .inl ⟨rfl, fun i' hi' => ?_, fun j => ?_⟩
          · obtain rfl | hi' := List.mem_cons.mp hi'
            · exact hdone _ s₁ s' hwanes hdone₁
            · exact hrest i' hi'
          · rw [hhandled, hhandled₁, List.map_cons, List.mem_cons, or_left_comm, or_assoc]
        · exact .inr ⟨e, rfl, i', List.mem_cons_of_mem i hi', hstuck⟩
      · cases hok
    · obtain ⟨hok, _⟩ | ⟨_, _, hstuck, hhandled⟩ := hg i s _ s' hi
      · cases hok
      · refine .inr ⟨e, rfl, i, List.mem_cons_self, hstuck, fun hh => ?_⟩
        exact hnew i List.mem_cons_self ((hhandled _).mp hh)

/- What each part lists and deregisters. -/

theorem runs_listed {α : Type} {p : Op α} {res : Except PyError α} (hp : p.Uses fun c => ¬ c.Lists)
    (hr : Runs upkept p s res s') : Listed s'.2 id ↔ Listed s.2 id := by
  refine iff_of_eq (hr.visits.preserves (fun s => Listed s.2 id) hp ?_)
  rintro c ⟨w, log⟩ r s₂ hc ⟨⟨w₁, log₁⟩, ⟨_, hlog⟩, hu⟩
  obtain rfl : log₁ = progress c r ++ log := hlog
  refine propext ((upkeeps_listed hu).trans ?_)
  cases c with
  | describeInstances f => exact absurd trivial hc
  | terminate j => exact listed_terminated
  | stop j => exact listed_stopped
  | _ => exact Iff.rfl

theorem deregister_registered_ne {j : InstanceId} (hne : id ≠ j) :
    (w.deregister j).Registered id ↔ w.Registered id :=
  ⟨fun h => h.of_deregister, fun h => h.deregister hne⟩

/-- Only a deregistration of its own id unregisters a target. -/
theorem runs_registered {α : Type} {p : Op α} {res : Except PyError α}
    (hp : p.Uses fun c => c.Clears ∧ c ≠ .deregisterTargets id) (hr : Runs upkept p s res s') :
    s'.1.Registered id ↔ s.1.Registered id := by
  refine iff_of_eq (hr.visits.preserves (fun s => s.1.Registered id) hp ?_)
  rintro c ⟨w, log⟩ r s₂ ⟨hc, hne⟩ ⟨⟨w₁, log₁⟩, ⟨hs, _⟩, hu⟩
  refine propext ((upkeeps_registered hu).trans ?_)
  cases c with
  | deregisterTargets j =>
    obtain rfl : w₁ = w.deregister j := hs
    exact deregister_registered_ne fun he => hne (by rw [he])
  | describeInstances f | describeInstance j => rw [hs.2]
  | terminate j | stop j => rw [hs.2]; exact Iff.rfl
  | _ => simp [Call.Clears, Call.Lists, Call.Destroys] at hc

theorem destroyAWorker_spares {j : InstanceId} (hne : j ≠ id) :
    (destroyAWorker j).Uses fun c => c.Clears ∧ c ≠ .deregisterTargets id := by
  refine Uses.bind (Uses.request ⟨.inl (.inr trivial), by simpa using hne⟩) fun _ => ?_
  refine Uses.bind (Uses.request ⟨.inl (.inr trivial), by simp⟩) fun r => ?_
  cases r with
  | nil => trivial
  | cons i l => exact Uses.request ⟨.inl (.inr trivial), by simp⟩

/- The two operations. -/

theorem listed_nodup (f : InstanceFilter) : ((w.listed f).map Instance.id).Nodup :=
  w.ids_nodup.sublist (List.filter_sublist.map Instance.id)

/-- A listing, the upkeep behind it, and the loop over what it listed. -/
theorem runs_listing {tag : String} {g : Instance → Op Unit} {res : Except PyError Unit}
    (h : Runs upkept (ask (.describeInstances ⟨none, tag⟩) >>= fun l => each l g) (w, log) res s') :
    ∃ s₁, (∀ j, Listed s₁.2 j ↔ j ∈ (w.listed ⟨none, tag⟩).map Instance.id ∨ Listed log j) ∧
      (∀ j, Handled s₁.2 j ↔ Handled log j) ∧ (∀ j, s₁.1.Registered j ↔ w.Registered j) ∧
      Runs upkept (each (w.listed ⟨none, tag⟩) g) s₁ res s' := by
  obtain ⟨r, w₁, s₁, hs, hu, hr⟩ | ⟨e, hf, _⟩ := runs_upkept_call h
  · obtain ⟨rfl, rfl⟩ := hs
    refine ⟨s₁, fun j => ?_, fun j => ?_, fun j => upkeeps_registered hu, hr⟩
    · rw [upkeeps_listed hu]
      exact listed_listed
    · rw [upkeeps_handled hu]
      exact handled_listed
  · exact hf.elim

/-- Every listed record was handled, or the operation raised where it was stuck with one. -/
def Concluded (stuck : InstanceId → Watched → Prop) (res : Except PyError Unit) (s : Watched) : Prop :=
  (res = .ok () ∧ ∀ j, Listed s.2 j → Handled s.2 j) ∨
    ∃ e, res = .error e ∧ ∃ j, Listed s.2 j ∧ ¬ Handled s.2 j ∧ stuck j s

theorem Concluded.handled {stuck : InstanceId → Watched → Prop} (h : Concluded stuck (.ok ()) s) :
    ∀ j, Listed s.2 j → Handled s.2 j := by
  obtain ⟨_, hall⟩ | ⟨e, he, _⟩ := h
  · exact hall
  · cases he

theorem Consistent.timely (hs : Consistent s) (hall : ∀ j, Listed s.2 j → Handled s.2 j) :
    Timely s.2 :=
  hs.mpr fun id hl hn => absurd (hall id hl) hn

/-- An operation that is stuck only with what is gone is not stuck as long as all is in time. -/
theorem Concluded.ok_of_timely {res : Except PyError Unit}
    (h : Concluded (fun id s => ¬ s.1.Known id) res s) (hs : Consistent s) (ht : Timely s.2) :
    res = .ok () := by
  obtain ⟨rfl, _⟩ | ⟨e, _, j, hl, hn, hgone⟩ := h
  · rfl
  · exact absurd (hs.mp ht j hl hn) hgone

/-- What one listing and its loop come to. -/
theorem runs_sweep {done stuck : InstanceId → Watched → Prop} {tag : String} {g : Instance → Op Unit}
    (hg : ∀ i, HandlesOne done stuck (g i) i.id) (huses : ∀ i, (g i).Uses fun c => c.Clears ∧ ¬ c.Lists)
    (hdone : ∀ id s s', Wanes s s' → done id s → done id s')
    (hall : ∀ j, Listed log j → Handled log j)
    (hnew : ∀ i ∈ w.instances, i.name = some tag → ¬ Handled log i.id)
    {res : Except PyError Unit}
    (h : Runs upkept (ask (.describeInstances ⟨none, tag⟩) >>= fun l => each l g) (w, log) res s') :
    Concluded stuck res s' ∧ (res = .ok () → (∀ i ∈ w.instances, i.name = some tag → done i.id s') ∧
      ∀ j, Handled s'.2 j → Handled log j ∨ ∃ i ∈ w.instances, i.name = some tag ∧ i.id = j) := by
  obtain ⟨s₁, hlisted₁, hhandled₁, _, hr⟩ := runs_listing h
  have hlisted : ∀ j, Listed s'.2 j ↔ j ∈ (w.listed ⟨none, tag⟩).map Instance.id ∨ Listed log j :=
    fun j => (runs_listed (Uses.each _ fun i _ => (huses i).mono fun _ h => h.2) hr).trans
      (hlisted₁ j)
  have hnew₁ : ∀ i ∈ w.listed ⟨none, tag⟩, ¬ Handled s₁.2 i.id := by
    intro i hi
    rw [Account.mem_listed_tag] at hi
    rw [hhandled₁]
    exact hnew i hi.1 hi.2
  obtain ⟨rfl, hdone', hhandled⟩ | ⟨e, rfl, i, hi, hstuck, hn⟩ :=
    each_handles hg (fun i => (huses i).mono fun _ h => h.1) hdone _ (listed_nodup _) hnew₁ hr
  · refine ⟨.inl ⟨rfl, fun j hl => ?_⟩, fun _ => ⟨fun i hi htag => ?_, fun j hh => ?_⟩⟩
    · rw [hhandled, hhandled₁]
      exact ((hlisted j).mp hl).imp_right (hall j)
    · exact hdone' i (Account.mem_listed_tag.mpr ⟨hi, htag⟩)
    · obtain hj | hj := (hhandled j).mp hh
      · obtain ⟨i, hi, rfl⟩ := List.mem_map.mp hj
        rw [Account.mem_listed_tag] at hi
        exact .inr ⟨i, hi.1, hi.2, rfl⟩
      · exact .inl ((hhandled₁ j).mp hj)
  · refine ⟨.inr ⟨e, rfl, i.id, (hlisted _).mpr (.inl (List.mem_map_of_mem hi)), hn, hstuck⟩, ?_⟩
    intro he
    cases he

/-- The workers there at the start have ended, and only their targets are gone. -/
structure Cleared (w : Account) (s' : Watched) : Prop where
  workers : ∀ i ∈ w.instances, i.name = some "worker" →
    (∀ i' ∈ s'.1.instances, i'.id = i.id → i'.state.Ending) ∧ ¬ s'.1.Registered i.id
  others : ∀ id, (∀ i ∈ w.instances, i.id = id → i.name ≠ some "worker") →
    (s'.1.Registered id ↔ w.Registered id)

theorem destroyAWorker_sweeps (id : InstanceId) :
    (destroyAWorker id).Uses fun c => c.Clears ∧ ¬ c.Lists :=
  (destroyAWorker_uses id).mono fun c h =>
    ⟨.inl (.inr h), by cases c <;> simp_all [Call.Destroys, Call.Lists]⟩

theorem destroyEveryWorker_sweeps {res : Except PyError Unit}
    (h : Runs upkept destroyEveryWorker (w, []) res s') :
    Concluded (fun id s => ¬ s.1.Known id) res s' ∧ (res = .ok () →
      (∀ i ∈ w.instances, i.name = some "worker" → Destroyed i.id s') ∧
      ∀ j, Handled s'.2 j → ∃ i ∈ w.instances, i.name = some "worker" ∧ i.id = j) := by
  have hnone : ∀ j, ¬ Handled [] j := by simp [Handled]
  obtain ⟨hconcluded, hok⟩ := runs_sweep (fun i => destroy_handlesOne i.id)
    (fun i => destroyAWorker_sweeps i.id) (fun _ _ _ hw hd => hd.later hw) (by simp [Listed])
    (fun i _ _ => hnone i.id) h
  refine ⟨hconcluded, fun hres => ⟨(hok hres).1, fun j hj => ?_⟩⟩
  exact ((hok hres).2 j hj).resolve_left (hnone j)

theorem destroyEveryWorker_others {res : Except PyError Unit}
    (h : Runs upkept destroyEveryWorker (w, log) res s')
    (hid : ∀ i ∈ w.instances, i.id = id → i.name ≠ some "worker") :
    s'.1.Registered id ↔ w.Registered id := by
  obtain ⟨s₁, _, _, hregistered, hr⟩ := runs_listing h
  refine (runs_registered (Uses.each _ fun i hi => destroyAWorker_spares fun he => ?_) hr).trans
    (hregistered id)
  rw [Account.mem_listed_tag] at hi
  exact hid i hi.1 he hi.2

theorem cleared_later (h : Cleared w s) (hw : Wanes s s')
    (hr : ∀ id, s'.1.Registered id ↔ s.1.Registered id) : Cleared w s' where
  workers := by
    intro i hi htag
    obtain ⟨hended, hreg⟩ := h.workers i hi htag
    refine ⟨fun i' hi' hid => ?_, fun hreg' => hreg ((hr _).mp hreg')⟩
    obtain ⟨i₀, hi₀, hid₀, _, hend⟩ := hw.records i' hi'
    exact hend (hended i₀ hi₀ (hid₀.trans hid))
  others := fun id hid => (hr id).trans (h.others id hid)

theorem destroyEveryWorker_clears (h : Runs upkept destroyEveryWorker (w, []) (.ok ()) s') :
    Cleared w s' where
  workers := fun i hi htag =>
    have hdestroyed := ((destroyEveryWorker_sweeps h).2 rfl).1 i hi htag
    ⟨hdestroyed.ended, hdestroyed.unregistered⟩
  others := fun _ hid => destroyEveryWorker_others h hid

theorem consistent_start : Consistent (w, []) :=
  ⟨fun _ id hl => by simp [Listed] at hl, fun _ => trivial⟩

/-- Every manager there at the start was asked to stop, unless its record was gone by then. -/
def ManagersStopped (w : Account) (log : List Event) : Prop :=
  ∀ i ∈ w.instances, i.name = some "Manager" → .stopped i.id ∈ log ∨ .removed i.id ∈ log

theorem stop_sweeps (id : InstanceId) : (ask (.stop id)).Uses fun c => c.Clears ∧ ¬ c.Lists :=
  Uses.request ⟨.inr ⟨id, rfl⟩, fun h => h⟩

theorem stops_clear (tag : String) :
    (ask (.describeInstances ⟨none, tag⟩) >>= fun l => each l fun i => ask (.stop i.id)).Uses
      fun c => c.Clears ∧ ∀ id, c ≠ .deregisterTargets id := by
  refine Uses.bind (Uses.request ⟨.inl (.inl trivial), by simp⟩) fun l => ?_
  exact Uses.each l fun i _ => Uses.request ⟨.inr ⟨i.id, rfl⟩, by simp⟩

/-- A stop of the manager that returns has handled all that it has listed. -/
theorem stopManager_sweeps (h : Runs upkept stopManager (w, []) (.ok ()) s') :
    (∀ j, Listed s'.2 j → Handled s'.2 j) ∧ Cleared w s' ∧ ManagersStopped w s'.2 := by
  obtain ⟨_, ⟨w₁, log₁⟩, hdestroy, hr⟩ | ⟨e, _, he⟩ := runs_bind.mp h
  · obtain ⟨hconcluded, hok⟩ := destroyEveryWorker_sweeps hdestroy
    have hwanes : Wanes (w, []) (w₁, log₁) :=
      runs_wanes (destroyEveryWorker_uses.mono fun _ h => .inl h) hdestroy
    have hnew : ∀ i ∈ w₁.instances, i.name = some "Manager" → ¬ Handled log₁ i.id := by
      intro i hi htag hh
      obtain ⟨i₀, hi₀, hid₀, hname₀, _⟩ := hwanes.records i hi
      obtain ⟨i', hi', htag', hid'⟩ := (hok rfl).2 i.id hh
      obtain rfl := Account.record_unique hi' hi₀ (hid'.trans hid₀.symm)
      rw [hname₀, htag] at htag'
      exact absurd htag' (by decide)
    obtain ⟨hconcluded', hok'⟩ := runs_sweep (fun i => stop_handlesOne i.id)
      (fun i => stop_sweeps i.id) (fun _ _ _ hw hd => hw.log hd) hconcluded.handled hnew hr
    have hlater : Wanes (w₁, log₁) s' := runs_wanes ((stops_clear _).mono fun _ h => h.1) hr
    refine ⟨hconcluded'.handled, ?_, fun i hi htag => ?_⟩
    · refine cleared_later (destroyEveryWorker_clears hdestroy) hlater fun id => ?_
      exact runs_registered ((stops_clear _).mono fun _ h => ⟨h.1, h.2 id⟩) hr
    · obtain ⟨i₁, hi₁, hid₁, hname₁⟩ | hgone := hwanes.kept i hi
      · exact .inl (hid₁ ▸ (hok' rfl).1 i₁ hi₁ (hname₁.trans htag))
      · exact .inr (hlater.log hgone)
  · cases he

/-- The managers, as long as none is asked that refuses. -/
theorem stops_succeed (tag : String) : Succeeds (upkept.only Askable) (fun _ => True)
    (ask (.describeInstances ⟨none, tag⟩) >>= fun l => each l fun i => ask (.stop i.id)) := by
  refine Succeeds.bind (Succeeds.request (fun _ _ _ _ _ => trivial) ?_) fun l => ?_
  · rintro s e _ ⟨_, hf | ⟨hf, _⟩⟩
    · exact hf
    · exact hf
  · refine Succeeds.each l fun i _ => Succeeds.request (fun _ _ _ _ _ => trivial) ?_
    rintro s e _ ⟨hok, hf | ⟨hf, _⟩⟩
    · exact hf.1 hok
    · exact hf

/-- What is in time and refused by no manager returns. -/
theorem stopManager_returns {res : Except PyError Unit} (ht : Timely s'.2)
    (h : Runs (upkept.only Askable) stopManager (w, []) res s') : res = .ok () := by
  obtain ⟨_, s₁, _, hr⟩ | ⟨e, hdestroy, _⟩ := runs_bind.mp h
  · obtain ⟨_, _, hok⟩ := stops_succeed "Manager" s₁ res s' trivial hr
    exact hok
  · have hrun := hdestroy.of_only
    have hconsistent := runs_consistent (destroyEveryWorker_uses.mono fun _ h => .inl h) hrun
      consistent_start
    cases (destroyEveryWorker_sweeps hrun).1.ok_of_timely hconsistent ht

theorem served_askable {c : Call} {r : Answer c} (hs : upkept.serve c s r s') : Askable c s := by
  obtain ⟨_, ⟨hs, _⟩, _⟩ := hs
  cases c with
  | stop id => exact hs.1
  | _ => trivial

/-- No call of the bulk operations waits. -/
theorem noting_answers (c : Call) (s : Watched) (hc : c.Clears) :
    (∃ r s', ((services noFaults).noting progress).serve c s r s') ∨
      ∃ e, ((services noFaults).noting progress).fail c s e := by
  have hserve : ∀ r w', Serves c s.1 r w' →
      ∃ r s', ((services noFaults).noting progress).serve c s r s' :=
    fun r w' h => ⟨r, (w', progress c r ++ s.2), h, rfl⟩
  cases c with
  | describeInstances f => exact .inl (hserve _ _ ⟨rfl, rfl⟩)
  | describeInstance j => exact .inl (hserve _ _ ⟨rfl, rfl⟩)
  | deregisterTargets j => exact .inl (hserve () _ rfl)
  | terminate j =>
    by_cases hk : s.1.Known j
    · exact .inl (hserve () _ ⟨hk, rfl⟩)
    · exact .inr ⟨_, .inl ⟨hk, rfl⟩⟩
  | stop j =>
    by_cases hk : s.1.Stoppable j
    · exact .inl (hserve () _ ⟨hk, rfl⟩)
    · exact .inr ⟨_, .inl ⟨hk, rfl⟩⟩
  | _ => simp [Call.Clears, Call.Lists, Call.Destroys] at hc

theorem timely_progress {c : Call} {r : Answer c} (h : Timely log) :
    Timely (progress c r ++ log) := by
  cases c <;> exact h

/-- What runs while no record is removed is in time. -/
theorem noted_timely {α : Type} {p : Op α} {res : Except PyError α} (hp : p.Uses Call.Clears)
    (hr : Runs ((services noFaults).noting progress) p (w, []) res s') : Timely s'.2 := by
  have hkeeps : Keeps ((services noFaults).noting progress) (fun s => Timely s.2) p :=
    Keeps.of_uses hp fun c s r s' _ hs ht => by
      rw [hs.2]
      exact timely_progress ht
  exact hkeeps (w, []) res s' trivial hr

/-- The operation comes to an end, in time if no record is removed meanwhile. -/
theorem exists_timely_run {α : Type} {p : Op α} (hp : p.Uses Call.Clears) (w : Account) :
    ∃ res s', Runs upkept p (w, []) res s' ∧ Timely s'.2 := by
  obtain ⟨res, s', hr⟩ := exists_runs hp noting_answers (w, [])
  exact ⟨res, s', hr.followed fun _ => .refl, noted_timely hp hr⟩

theorem destroyAll_uses : destroyAll.Uses Call.Clears :=
  destroyEveryWorker_uses.mono fun _ h => .inl h

/-- Both operations come to an end, and they end as they should exactly if no record that
they have listed is removed before they have handled it and no manager refuses to stop. -/
theorem bulk_destroy_completes_iff (w : Account) :
    ((∃ res s', Runs upkept destroyAll (w, []) res s') ∧
      ∀ res s', Runs upkept destroyAll (w, []) res s' →
        (res = .ok () ∧ Cleared w s' ↔ Timely s'.2)) ∧
    (∃ res s', Runs upkept stopManager (w, []) res s') ∧
      ∀ res s', Runs upkept stopManager (w, []) res s' →
        (res = .ok () ∧ Cleared w s' ∧ ManagersStopped w s'.2 ↔
          Timely s'.2 ∧ Runs (upkept.only Askable) stopManager (w, []) res s') := by
  obtain ⟨res₁, s₁, hr₁, _⟩ := exists_timely_run destroyAll_uses w
  obtain ⟨res₂, s₂, hr₂, _⟩ := exists_timely_run stopManager_uses w
  refine ⟨⟨⟨res₁, s₁, hr₁⟩, fun res s' hr => ?_⟩, ⟨res₂, s₂, hr₂⟩, fun res s' hr => ?_⟩
  · have hconsistent := runs_consistent destroyAll_uses hr consistent_start
    obtain ⟨hconcluded, _⟩ := destroyEveryWorker_sweeps hr
    constructor
    · rintro ⟨rfl, _⟩
      exact hconsistent.timely hconcluded.handled
    · intro ht
      obtain rfl := hconcluded.ok_of_timely hconsistent ht
      exact ⟨rfl, destroyEveryWorker_clears hr⟩
  · constructor
    · rintro ⟨rfl, _⟩
      have hall := (stopManager_sweeps hr).1
      exact ⟨(runs_consistent stopManager_uses hr consistent_start).timely hall,
        hr.only fun _ _ _ _ => served_askable⟩
    · rintro ⟨ht, honly⟩
      obtain rfl := stopManager_returns ht honly
      exact ⟨rfl, (stopManager_sweeps hr).2⟩

end

/-- One worker is terminated already, the other serves. -/
def retiring : Account :=
  { Account.vacant with
    instances := [⟨"i-1", some "worker", .terminated⟩, ⟨"i-2", some "worker", .running⟩,
      ⟨"i-3", some "Manager", .running⟩]
    ids_nodup := by decide
    targets := [⟨"i-2", .healthy⟩] }

theorem bulk_destroy_completes_retiring :
    (∃ s', Runs upkept destroyAll (retiring, []) (.ok ()) s' ∧ Timely s'.2 ∧
      Cleared retiring s') ∧
    ∃ s', Runs upkept stopManager (retiring, []) (.ok ()) s' ∧ Timely s'.2 ∧
      Cleared retiring s' ∧ ManagersStopped retiring s'.2 := by
  obtain ⟨⟨_, hdestroy⟩, _, hstop⟩ := bulk_destroy_completes_iff retiring
  obtain ⟨res₁, s₁, hr₁, ht₁⟩ := exists_timely_run destroyAll_uses retiring
  obtain ⟨rfl, hcleared₁⟩ := (hdestroy res₁ s₁ hr₁).mpr ht₁
  have hrun : ∃ w', Runs (services noFaults) stopManager retiring (.ok ()) w' :=
    ⟨_, .inl ⟨_, _, ⟨rfl, rfl⟩,
      .inl ⟨(), _, rfl, .inl ⟨_, _, ⟨rfl, rfl⟩, .inl ⟨(), _, ⟨by decide, rfl⟩,
      .inl ⟨(), _, rfl, .inl ⟨_, _, ⟨rfl, rfl⟩, .inl ⟨(), _, ⟨by decide, rfl⟩,
      .inl ⟨_, _, ⟨rfl, rfl⟩, .inl ⟨(), _, ⟨⟨.running, ⟨some "Manager", by decide⟩, by decide⟩, rfl⟩, rfl, rfl⟩⟩⟩⟩⟩⟩⟩⟩⟩⟩
  obtain ⟨w', hrun⟩ := hrun
  obtain ⟨log, hnoted⟩ : ∃ log, Runs ((services noFaults).noting progress) stopManager (retiring, [])
      (.ok ()) (w', log) := hrun.noting []
  have hr₂ : Runs upkept stopManager (retiring, []) (.ok ()) (w', log) :=
    hnoted.followed fun _ => .refl
  have ht₂ : Timely log := noted_timely stopManager_uses hnoted
  obtain ⟨_, hcleared₂⟩ := (hstop (.ok ()) (w', log) hr₂).mpr
    ⟨ht₂, hr₂.only fun _ _ _ _ => served_askable⟩
  exact ⟨⟨s₁, hr₁, ht₁, hcleared₁⟩, (w', log), hr₂, ht₂, hcleared₂⟩

/-- EC2 drops the terminated worker after the listing: both operations raise, the other worker
still serves, and the manager is not stopped. -/
theorem bulk_destroy_stuck :
    ∃ s', Runs upkept destroyAll (retiring, []) (.error .clientError) s' ∧
      Runs upkept stopManager (retiring, []) (.error .clientError) s' ∧
      s'.1.Worker "i-2" .running ∧ s'.1.Registered "i-2" ∧ .stopped "i-3" ∉ s'.2 := by
  have hlisting : upkept.serve (.describeInstances ⟨none, "worker"⟩) (retiring, [])
      [⟨"i-1", some "worker", .terminated⟩, ⟨"i-2", some "worker", .running⟩]
      (retiring.drop "i-1", [.removed "i-1", .listed ["i-1", "i-2"]]) :=
    ⟨(retiring, [.listed ["i-1", "i-2"]]), ⟨⟨rfl, rfl⟩, rfl⟩,
      .single (.removal ⟨_, List.mem_cons_self⟩)⟩
  have hderegister : upkept.serve (.deregisterTargets "i-1")
      (retiring.drop "i-1", [.removed "i-1", .listed ["i-1", "i-2"]]) ()
      ((retiring.drop "i-1").deregister "i-1", [.removed "i-1", .listed ["i-1", "i-2"]]) :=
    ⟨(_, _), ⟨rfl, rfl⟩, .refl⟩
  have hlookup : upkept.fail (.describeInstance "i-1")
      ((retiring.drop "i-1").deregister "i-1", [.removed "i-1", .listed ["i-1", "i-2"]])
      .clientError := .inl ⟨by decide, rfl⟩
  refine ⟨((retiring.drop "i-1").deregister "i-1", [.removed "i-1", .listed ["i-1", "i-2"]]),
    ?_, ?_, ?_, ?_, ?_⟩
  · exact .inl ⟨_, _, hlisting, .inl ⟨_, _, hderegister, .inr ⟨_, hlookup, rfl, rfl⟩⟩⟩
  · exact .inl ⟨_, _, hlisting, .inl ⟨_, _, hderegister, .inr ⟨_, hlookup, rfl, rfl⟩⟩⟩
  · exact List.mem_cons_self
  · decide
  · decide

end OdwaManager
