import OdwaManager.Config

/-! The cloud account as the manager sees it: EC2 instances, the target group, the
registration tasks the broker holds, CPU metrics, and the stored policy. -/
namespace OdwaManager

abbrev InstanceId := String

inductive InstanceState where
  | pending | running | shuttingDown | terminated | stopping | stopped
  deriving DecidableEq, Repr

/-- Terminating again changes nothing, and a stopped instance has nothing to shut down. -/
def InstanceState.terminate : InstanceState → InstanceState
  | .pending | .running | .shuttingDown => .shuttingDown
  | .stopping | .stopped | .terminated => .terminated

def InstanceState.stop : InstanceState → InstanceState
  | .running => .stopping
  | s => s

/-- `name` is the value of the tag Name, the only tag the manager reads. -/
structure Instance where
  id : InstanceId
  name : Option String
  state : InstanceState
  deriving DecidableEq, Repr

def Instance.update (id : InstanceId) (f : InstanceState → InstanceState) (i : Instance) : Instance :=
  if i.id = id then { i with state := f i.state } else i

theorem Instance.update_id (id : InstanceId) (f : InstanceState → InstanceState) (i : Instance) :
    (i.update id f).id = i.id := by
  unfold Instance.update
  split <;> rfl

/-- The Filters argument of ec2.instances.filter, with no state filter when `states` is none. -/
structure InstanceFilter where
  states : Option (List InstanceState)
  name : String
  deriving DecidableEq

def InstanceFilter.accepts (f : InstanceFilter) (i : Instance) : Bool :=
  decide (i.name = some f.name) && match f.states with
    | none => true
    | some ss => decide (i.state ∈ ss)

/-- The distinct ids of a listing. -/
def ids (l : List Instance) : Finset InstanceId := (l.map Instance.id).toFinset

inductive TargetState where
  | initial | healthy | unhealthy | unused | draining | unavailable
  deriving DecidableEq, Repr

/-- One entry of the target group. Every call of the manager names port 5000, so an
entry is known by its id. -/
structure Target where
  id : InstanceId
  state : TargetState
  deriving DecidableEq, Repr

/-- `cpu id s` are the averages of the last `s` seconds; `queue` holds the ids of the
registration tasks that no Celery worker has taken yet. -/
structure Account where
  instances : List Instance
  ids_nodup : (instances.map Instance.id).Nodup
  targets : List Target
  queue : List InstanceId
  cpu : InstanceId → Nat → List ℚ
  table : ConfigTable

namespace Account

/-- An account in which nothing has happened yet. -/
def vacant : Account := ⟨[], List.nodup_nil, [], [], fun _ _ => [], .empty⟩

def Known (w : Account) (id : InstanceId) : Prop := id ∈ w.instances.map Instance.id

instance (w : Account) (id : InstanceId) : Decidable (w.Known id) :=
  inferInstanceAs (Decidable (id ∈ w.instances.map Instance.id))

def InState (w : Account) (id : InstanceId) (s : InstanceState) : Prop :=
  ∃ name, (⟨id, name, s⟩ : Instance) ∈ w.instances

def Worker (w : Account) (id : InstanceId) (s : InstanceState) : Prop :=
  (⟨id, some "worker", s⟩ : Instance) ∈ w.instances

def listed (w : Account) (f : InstanceFilter) : List Instance := w.instances.filter f.accepts

def workers (w : Account) (states : List InstanceState) : Finset InstanceId :=
  ids (w.listed ⟨some states, "worker"⟩)

def healthy (w : Account) : Finset InstanceId :=
  ((w.targets.filter fun t => t.state = .healthy).map Target.id).toFinset

/-- A target that was deregistered stays listed as draining for a while. -/
def Registered (w : Account) (id : InstanceId) : Prop :=
  ∃ t ∈ w.targets, t.id = id ∧ t.state ≠ .draining

instance (w : Account) (id : InstanceId) : Decidable (w.Registered id) :=
  inferInstanceAs (Decidable (∃ t ∈ w.targets, t.id = id ∧ t.state ≠ .draining))

/-- EC2 does not reissue ids, so a new one is mentioned nowhere. -/
def Fresh (w : Account) (id : InstanceId) : Prop :=
  ¬ w.Known id ∧ id ∉ w.targets.map Target.id ∧ id ∉ w.queue

instance (w : Account) (id : InstanceId) : Decidable (w.Fresh id) :=
  inferInstanceAs (Decidable (_ ∧ _ ∧ _))

def modify (w : Account) (id : InstanceId) (f : InstanceState → InstanceState) : Account :=
  { w with
    instances := w.instances.map (Instance.update id f)
    ids_nodup := by
      rw [List.map_map, show Instance.id ∘ Instance.update id f = Instance.id from
        funext (Instance.update_id id f)]
      exact w.ids_nodup }

def launch (w : Account) (id : InstanceId) (name : String) (h : w.Fresh id) : Account :=
  { w with
    instances := w.instances ++ [⟨id, some name, .pending⟩]
    ids_nodup := by
      rw [List.map_append, List.nodup_append]
      refine ⟨w.ids_nodup, by simp, ?_⟩
      intro a ha b hb hab
      rw [List.map_cons, List.map_nil, List.mem_singleton] at hb
      subst hb
      exact h.1 (hab ▸ ha) }

def register (w : Account) (id : InstanceId) : Account :=
  if w.Registered id then w
  else { w with targets := w.targets.filter (fun t => t.id ≠ id) ++ [⟨id, .initial⟩] }

def deregister (w : Account) (id : InstanceId) : Account :=
  { w with targets := w.targets.map fun t => if t.id = id then ⟨t.id, .draining⟩ else t }

def enqueue (w : Account) (id : InstanceId) : Account := { w with queue := w.queue ++ [id] }

def dequeue (w : Account) (id : InstanceId) : Account := { w with queue := w.queue.erase id }

/-- What a whole destroy of one instance does. -/
def destroy (w : Account) (id : InstanceId) : Account :=
  (w.deregister id).modify id InstanceState.terminate

section lemmas
variable {w : Account} {id j : InstanceId} {s s' : InstanceState} {name : Option String}

theorem mem_ids {l : List Instance} : id ∈ ids l ↔ ∃ i ∈ l, i.id = id := by
  simp [ids]

/-- An id has one record. -/
theorem record_unique {i i' : Instance} (h : i ∈ w.instances) (h' : i' ∈ w.instances)
    (he : i.id = i'.id) : i = i' :=
  List.inj_on_of_nodup_map w.ids_nodup h h' he

theorem InState.unique (h : w.InState id s) (h' : w.InState id s') : s = s' := by
  obtain ⟨n, hn⟩ := h
  obtain ⟨n', hn'⟩ := h'
  exact congrArg Instance.state (record_unique hn hn' rfl)

theorem Worker.inState (h : w.Worker id s) : w.InState id s := ⟨_, h⟩

theorem InState.known (h : w.InState id s) : w.Known id := by
  obtain ⟨n, hn⟩ := h
  exact List.mem_map_of_mem hn

theorem known_iff : w.Known id ↔ ∃ s, w.InState id s := by
  constructor
  · intro h
    obtain ⟨i, hi, rfl⟩ := List.mem_map.mp h
    exact ⟨i.state, i.name, hi⟩
  · rintro ⟨s, h⟩
    exact h.known

theorem mem_workers {ss : List InstanceState} :
    id ∈ w.workers ss ↔ ∃ s ∈ ss, w.Worker id s := by
  simp only [workers, mem_ids, listed, List.mem_filter, InstanceFilter.accepts, Bool.and_eq_true,
    decide_eq_true_eq, Worker]
  constructor
  · rintro ⟨⟨i, n, s⟩, ⟨hi, rfl, hs⟩, rfl⟩
    exact ⟨s, hs, hi⟩
  · rintro ⟨s, hs, hi⟩
    exact ⟨_, ⟨hi, rfl, hs⟩, rfl⟩

theorem mem_listed_tag {tag : String} {i : Instance} :
    i ∈ w.listed ⟨none, tag⟩ ↔ i ∈ w.instances ∧ i.name = some tag := by
  simp [listed, InstanceFilter.accepts]

theorem mem_healthy : id ∈ w.healthy ↔ (⟨id, .healthy⟩ : Target) ∈ w.targets := by
  simp only [healthy, List.mem_toFinset, List.mem_map, List.mem_filter, decide_eq_true_eq]
  constructor
  · rintro ⟨⟨i, s⟩, ⟨hi, rfl⟩, rfl⟩
    exact hi
  · intro h
    exact ⟨_, ⟨h, rfl⟩, rfl⟩

theorem mem_modify {f : InstanceState → InstanceState} :
    (⟨j, name, s⟩ : Instance) ∈ (w.modify id f).instances ↔
      if j = id then ∃ s₀, (⟨j, name, s₀⟩ : Instance) ∈ w.instances ∧ s = f s₀
      else (⟨j, name, s⟩ : Instance) ∈ w.instances := by
  simp only [modify, List.mem_map, Instance.update]
  constructor
  · rintro ⟨⟨i, n, t⟩, hi, he⟩
    split at he
    next hid =>
      cases he
      exact if_pos hid ▸ ⟨t, hi, rfl⟩
    next hid =>
      cases he
      rw [if_neg hid]
      exact hi
  · intro h
    split at h
    next hid =>
      obtain ⟨t, hi, rfl⟩ := h
      exact ⟨_, hi, by rw [if_pos hid]⟩
    next hid => exact ⟨_, h, by rw [if_neg hid]⟩

/-- A record after a change is an old one, or the changed one. -/
theorem mem_modify_cases {f : InstanceState → InstanceState}
    (h : (⟨j, name, s⟩ : Instance) ∈ (w.modify id f).instances) :
    j ≠ id ∧ (⟨j, name, s⟩ : Instance) ∈ w.instances ∨
      j = id ∧ ∃ s₀, (⟨j, name, s₀⟩ : Instance) ∈ w.instances ∧ s = f s₀ := by
  rw [mem_modify] at h
  by_cases hj : j = id
  · rw [if_pos hj] at h
    exact .inr ⟨hj, h⟩
  · rw [if_neg hj] at h
    exact .inl ⟨hj, h⟩

theorem exists_mem_modify {f : InstanceState → InstanceState}
    (h : (⟨j, name, s⟩ : Instance) ∈ w.instances) :
    ∃ s', (⟨j, name, s'⟩ : Instance) ∈ (w.modify id f).instances := by
  by_cases hj : j = id
  · exact ⟨f s, mem_modify.mpr (by rw [if_pos hj]; exact ⟨s, h, rfl⟩)⟩
  · exact ⟨s, mem_modify.mpr (by rw [if_neg hj]; exact h)⟩

theorem InState.modify_ne {f : InstanceState → InstanceState} (h : w.InState j s) (hne : j ≠ id) :
    (w.modify id f).InState j s := by
  obtain ⟨n, hn⟩ := h
  exact ⟨n, mem_modify.mpr (by rw [if_neg hne]; exact hn)⟩

theorem InState.modify_self {f : InstanceState → InstanceState} (h : w.InState id s) :
    (w.modify id f).InState id (f s) := by
  obtain ⟨n, hn⟩ := h
  exact ⟨n, mem_modify.mpr (by rw [if_pos rfl]; exact ⟨s, hn, rfl⟩)⟩

theorem mem_launch {h : w.Fresh id} {n : String} {i : Instance} :
    i ∈ (w.launch id n h).instances ↔ i ∈ w.instances ∨ i = ⟨id, some n, .pending⟩ := by
  simp [launch]

theorem mem_deregister {t : TargetState} :
    (⟨j, t⟩ : Target) ∈ (w.deregister id).targets ↔
      if j = id then t = .draining ∧ j ∈ w.targets.map Target.id
      else (⟨j, t⟩ : Target) ∈ w.targets := by
  simp only [deregister, List.mem_map]
  constructor
  · rintro ⟨⟨i, u⟩, hi, he⟩
    split at he
    next hid =>
      cases he
      exact if_pos hid ▸ ⟨rfl, _, hi, rfl⟩
    next hid =>
      cases he
      rw [if_neg hid]
      exact hi
  · intro h
    split at h
    next hid =>
      obtain ⟨rfl, i, hi, rfl⟩ := h
      exact ⟨i, hi, by rw [if_pos hid]⟩
    next hid => exact ⟨_, h, by rw [if_neg hid]⟩

theorem exists_target_of_mem_map {g : Target → Target} (hg : ∀ t, (g t).id = t.id)
    {ts : List Target} {t : Target} (h : t ∈ ts.map g) : ∃ t₀ ∈ ts, t₀.id = t.id := by
  obtain ⟨t₀, ht₀, rfl⟩ := List.mem_map.mp h
  exact ⟨t₀, ht₀, (hg t₀).symm⟩

theorem exists_target_of_mem_deregister {t : Target} (h : t ∈ (w.deregister id).targets) :
    ∃ t₀ ∈ w.targets, t₀.id = t.id := by
  refine exists_target_of_mem_map (fun t => ?_) h
  split <;> rfl

theorem register_instances : (w.register id).instances = w.instances := by
  unfold register
  split <;> rfl

theorem register_queue : (w.register id).queue = w.queue := by
  unfold register
  split <;> rfl

theorem register_table : (w.register id).table = w.table := by
  unfold register
  split <;> rfl

theorem mem_register {t : TargetState} (h : (⟨j, t⟩ : Target) ∈ (w.register id).targets) :
    (⟨j, t⟩ : Target) ∈ w.targets ∨ j = id ∧ t = .initial := by
  unfold register at h
  split at h
  next => exact .inl h
  next =>
    simp only [List.mem_append, List.mem_filter, List.mem_singleton, Target.mk.injEq] at h
    exact h.imp_left And.left

end lemmas
end Account
end OdwaManager
