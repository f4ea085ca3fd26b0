import OdwaManager.Actions
import OdwaManager.CallOrder
import OdwaManager.Effect.Pool

/-! No worker falls out of management: however creations, registrations and destroys
overlap, a worker that is up is registered, queued for it, or being worked on. A call that
raises in the middle of an operation breaks this, one that raises before it does not. -/
namespace OdwaManager
open Effect Program

namespace Account

/-- A worker that costs money and could serve. -/
def Live (w : Account) (id : InstanceId) : Prop := w.Worker id .pending ∨ w.Worker id .running

/-- Registered, or with a registration task queued. -/
def Kept (w : Account) (id : InstanceId) : Prop := w.Registered id ∨ id ∈ w.queue

variable {w : Account} {id j : InstanceId}

theorem Live.known (h : w.Live id) : w.Known id := by
  cases h with
  | inl h => exact h.inState.known
  | inr h => exact h.inState.known

theorem Registered.register (h : w.Registered j) : (w.register id).Registered j := by
  unfold Account.register
  split
  next => exact h
  next hid =>
    obtain ⟨t, ht, rfl, hs⟩ := h
    have hne : t.id ≠ id := fun he => hid ⟨t, ht, he, hs⟩
    exact ⟨t, by simp [ht, hne], rfl, hs⟩

theorem registered_register : (w.register id).Registered id := by
  unfold Account.register
  split
  next h => exact h
  next => exact ⟨⟨id, .initial⟩, by simp, rfl, by simp⟩

theorem Registered.deregister (h : w.Registered j) (hne : j ≠ id) : (w.deregister id).Registered j := by
  obtain ⟨t, ht, rfl, hs⟩ := h
  exact ⟨t, List.mem_map.mpr ⟨t, ht, if_neg hne⟩, rfl, hs⟩

theorem Registered.of_deregister (h : (w.deregister id).Registered j) : w.Registered j := by
  obtain ⟨⟨k, t⟩, ht, rfl, hs⟩ := h
  have hmem := mem_deregister.mp ht
  by_cases hk : k = id
  · rw [if_pos hk] at hmem
    exact absurd hmem.1 hs
  · rw [if_neg hk] at hmem
    exact ⟨_, hmem, rfl, hs⟩

theorem live_modify {f : InstanceState → InstanceState} (h : (w.modify id f).Live j) :
    j ≠ id ∧ w.Live j ∨ j = id ∧ ∃ s, w.Worker id s ∧ (f s = .pending ∨ f s = .running) := by
  cases h with
  | inl h =>
    obtain ⟨hj, h⟩ | ⟨rfl, s, hs, hf⟩ := mem_modify_cases h
    · exact .inl ⟨hj, .inl h⟩
    · exact .inr ⟨rfl, s, hs, .inl hf.symm⟩
  | inr h =>
    obtain ⟨hj, h⟩ | ⟨rfl, s, hs, hf⟩ := mem_modify_cases h
    · exact .inl ⟨hj, .inr h⟩
    · exact .inr ⟨rfl, s, hs, .inr hf.symm⟩

end Account

/- One call. -/

section
variable {c : Call} {w w' : Account} {r : Answer c} {h : Option Call} {id : InstanceId}

theorem live_launch {j : InstanceId} {name : String} {hj : w.Fresh j}
    (hl : (w.launch j name hj).Live id) : w.Live id ∨ id = j := by
  cases hl with
  | inl hl =>
    obtain hl | he := Account.mem_launch.mp hl
    · exact .inl (.inl hl)
    · cases he
      exact .inr rfl
  | inr hl =>
    obtain hl | he := Account.mem_launch.mp hl
    · exact .inl (.inr hl)
    · cases he

theorem not_live_terminate (hl : (w.modify id InstanceState.terminate).Live id) : False := by
  obtain ⟨hne, _⟩ | ⟨_, s, _, hs⟩ := Account.live_modify hl
  · exact hne rfl
  · cases s <;> simp [InstanceState.terminate] at hs

theorem live_stop {j : InstanceId} (hl : (w.modify j InstanceState.stop).Live id) : w.Live id := by
  obtain ⟨_, hl⟩ | ⟨rfl, s, hw, hs⟩ := Account.live_modify hl
  · exact hl
  · cases s with
    | pending => exact .inl hw
    | running => exact .inr hw
    | _ => simp [InstanceState.stop] at hs

/-- A call moves no worker out of management: the worker is kept, or the caller goes on
with it, or it is somebody else's concern already. -/
theorem serves_managed (hs : Serves c w r w') (hf : Follows c r h) (hl : w'.Live id) :
    w'.Kept id ∨ (∃ c', h = some c' ∧ c'.Concerns id) ∨
      w.Live id ∧ ¬ w.Kept id ∧ ¬ c.Concerns id := by
  have hframe : w.Live id → (w.Kept id → w'.Kept id) → ¬ c.Concerns id →
      w'.Kept id ∨ (∃ c', h = some c' ∧ c'.Concerns id) ∨
        w.Live id ∧ ¬ w.Kept id ∧ ¬ c.Concerns id := by
    intro hlive hkept hc
    by_cases hk : w.Kept id
    · exact .inl (hkept hk)
    · exact .inr (.inr ⟨hlive, hk, hc⟩)
  cases c with
  | createInstances name =>
    obtain ⟨hfresh, rfl⟩ := hs
    cases live_launch hl with
    | inl hlive => exact hframe hlive (fun hk => hk) False.elim
    | inr hid => exact .inr (.inl ⟨_, hf, hid.symm⟩)
  | applyAsync j =>
    rw [show w' = w.enqueue j from hs] at hl hframe ⊢
    by_cases hj : j = id
    · exact .inl (.inr (by simp [Account.enqueue, hj]))
    · exact hframe hl (fun hk => hk.imp_right (List.mem_append_left [j])) hj
  | waitRunning j =>
    rw [hs.2] at hl hframe ⊢
    by_cases hj : j = id
    · exact .inr (.inl ⟨_, hf, hj⟩)
    · exact hframe hl (fun hk => hk) hj
  | associateProfile j =>
    rw [hs.2] at hl hframe ⊢
    by_cases hj : j = id
    · exact .inr (.inl ⟨_, hf, hj⟩)
    · exact hframe hl (fun hk => hk) hj
  | registerTargets j =>
    rw [hs.2] at hl hframe ⊢
    by_cases hj : j = id
    · exact .inl (.inl (hj ▸ Account.registered_register))
    · rw [Account.Live, Account.Worker, Account.Worker, Account.register_instances] at hl
      refine hframe hl (fun hk => hk.imp (fun hr => hr.register) fun hq => ?_) hj
      rw [Account.register_queue]
      exact hq
  | deregisterTargets j =>
    rw [show w' = w.deregister j from hs] at hl hframe ⊢
    by_cases hj : j = id
    · exact .inr (.inl ⟨_, hf, hj⟩)
    · exact hframe hl (fun hk => hk.imp_left fun hr => hr.deregister (Ne.symm hj)) False.elim
  | describeInstance j =>
    obtain ⟨rfl, rfl⟩ := hs
    by_cases hj : j = id
    · subst hj
      obtain ⟨i, l, hfilter, hi⟩ := filter_id_of_known hl.known
      rw [Follows, Call.next, hfilter] at hf
      exact .inr (.inl ⟨_, hf, hi⟩)
    · exact hframe hl (fun hk => hk) hj
  | terminate j =>
    rw [hs.2] at hl hframe ⊢
    by_cases hj : j = id
    · subst hj
      exact (not_live_terminate hl).elim
    · obtain ⟨_, hlive⟩ | ⟨he, _⟩ := Account.live_modify hl
      · exact hframe hlive (fun hk => hk) hj
      · exact absurd he.symm hj
  | stop j =>
    rw [hs.2] at hl hframe ⊢
    exact hframe (live_stop hl) (fun hk => hk) False.elim
  | insertConfig row =>
    obtain ⟨_, rfl⟩ := hs
    exact hframe hl (fun hk => hk) False.elim
  | updateConfig key changes =>
    obtain ⟨_, _, rfl⟩ := hs
    exact hframe hl (fun hk => hk) False.elim
  | recreateTable =>
    rw [hs] at hl hframe ⊢
    exact hframe hl (fun hk => hk) False.elim
  | describeInstances _ | describeTargetHealth | getMetricStatistics _ _ | putMetricData _ _
  | queryFirst | iterate _ | sample _ _ =>
    rw [serves_readOnly (by trivial) hs] at hl hframe ⊢
    exact hframe hl (fun hk => hk) False.elim

/-- Past the pending state for good. -/
def Account.Awake (w : Account) (id : InstanceId) : Prop := w.Known id ∧ ¬ w.InState id .pending

theorem Account.Awake.modify {j : InstanceId} {f : InstanceState → InstanceState} (ha : w.Awake id)
    (hf : ∀ s, f s = .pending → s = .pending) : (w.modify j f).Awake id := by
  refine ⟨Account.modify_known.mpr ha.1, fun hp => ?_⟩
  obtain ⟨name, hname⟩ := hp
  obtain ⟨_, hold⟩ | ⟨_, s, hs, he⟩ := Account.mem_modify_cases hname
  · exact ha.2 ⟨name, hold⟩
  · exact ha.2 ⟨name, hf s he.symm ▸ hs⟩

theorem Account.Awake.congr (ha : w.Awake id) (hi : w'.instances = w.instances) : w'.Awake id := by
  rw [Account.Awake, Account.Known, Account.InState, hi]
  exact ha

theorem serves_awake (hs : Serves c w r w') (ha : w.Awake id) : w'.Awake id := by
  obtain hi | ⟨j, name, hj, _, hi⟩ | ⟨j, f, hf, hi⟩ := serves_instances hs
  · exact ha.congr hi
  · refine Account.Awake.congr ?_ hi
    refine ⟨ha.1.launch, fun hp => ?_⟩
    obtain ⟨n, hn⟩ := hp
    obtain hn | he := Account.mem_launch.mp hn
    · exact ha.2 ⟨n, hn⟩
    · cases he
      exact hj.1 ha.1
  · refine (ha.modify fun s => ?_).congr hi
    obtain rfl | rfl := hf <;> cases s <;> simp [InstanceState.terminate, InstanceState.stop]

end

/-- Any remote call may raise, except in the middle of an operation on a worker that is up. -/
def entryFaults : Call → Account → Prop :=
  fun c w => c.Remote ∧ ∀ id, c.Concerns id → ¬ w.Live id

theorem fails_managed {c : Call} {w : Account} {e : PyError} {id : InstanceId}
    (hf : (services entryFaults).fail c w e) (ha : c.AfterWait id → w.Awake id)
    (hc : c.Concerns id) : ¬ w.Live id := by
  intro hl
  obtain hr | ⟨⟨_, hf⟩, _⟩ := hf
  · cases c with
    | describeInstance j => exact hr.1 (hc ▸ hl.known)
    | terminate j => exact hr.1 (hc ▸ hl.known)
    | applyAsync j => exact hr
    | waitRunning j =>
      cases hc
      cases hl with
      | inl hl => exact hr.1.1 hl.inState
      | inr hl => exact hr.1.2 hl.inState
    | associateProfile j =>
      cases hc
      cases hl with
      | inl hl => exact hr.1 ⟨_, hl.inState, nofun, nofun⟩
      | inr hl => exact hr.1 ⟨_, hl.inState, nofun, nofun⟩
    | registerTargets j =>
      cases hc
      cases hl with
      | inl hl => exact (ha rfl).2 hl.inState
      | inr hl => exact hr.1 hl.inState
    | _ => exact hc
  · exact hf id hc hl

/- The whole pool. -/

/-- Creations, registration tasks and destroys, as many as there are, and the outside. -/
def keepers (faults : Call → Account → Prop) : System Call Answer PyError Account where
  services := services faults
  starts w p w' :=
    (∃ id ∈ w.queue, p = registerInstanceToElb id ∧ w' = w.dequeue id) ∨
    (p = celeryCreateWorker ∨ (∃ id, p = destroyAWorker id) ∨
      ∃ k, p = (randomDestroyWorker k).forget) ∧ w' = w
  env := Env fun _ => True

/-- Some thread is in the middle of an operation on the instance. -/
def InProgress (ts : List (Op Unit)) (id : InstanceId) : Prop :=
  ∃ (i : Nat) (p : Op Unit) (c : Call), ts[i]? = some p ∧ p.head = some c ∧ c.Concerns id

structure Managed (s : Effect.Config Call Answer PyError Account) : Prop where
  ordered : ∀ (i : Nat) p, s.threads[i]? = some p → p.Ordered Follows
  awake : ∀ (i : Nat) p c id, s.threads[i]? = some p → p.head = some c → c.AfterWait id →
    s.world.Awake id
  kept : ∀ id, s.world.Live id → s.world.Kept id ∨ InProgress s.threads id

theorem InProgress.set {ts : List (Op Unit)} {i : Nat} {q : Op Unit} {id : InstanceId}
    (h : InProgress ts id) (hi : ∀ p c, ts[i]? = some p → p.head = some c → ¬ c.Concerns id) :
    InProgress (ts.set i q) id := by
  obtain ⟨j, p, c, hp, hc, hid⟩ := h
  have hji : i ≠ j := by
    intro he
    subst he
    exact hi p c hp hc hid
  exact ⟨j, p, c, by rw [List.getElem?_set_ne hji]; exact hp, hc, hid⟩

theorem Managed.served {ts : List (Op Unit)} {w w' : Account} {i : Nat} {c : Call}
    {k : Answer c → Op Unit} {r : Answer c} (h : Managed ⟨ts, w⟩) (hi : ts[i]? = some (.call c k))
    (hs : Serves c w r w') : Managed ⟨ts.set i (k r), w'⟩ := by
  obtain ⟨hnext, hrest⟩ := h.ordered i _ hi r
  refine ⟨fun j p hp => ?_, fun j p c' id hp hc' ha => ?_, fun id hl => ?_⟩
  · obtain ⟨_, rfl⟩ | ⟨_, hp⟩ := getElem?_set_cases hp
    · exact hrest
    · exact h.ordered j p hp
  · obtain ⟨_, rfl⟩ | ⟨_, hp⟩ := getElem?_set_cases hp
    · rw [hc'] at hnext
      obtain rfl | rfl := follows_afterWait hnext ha
      · refine serves_awake hs ⟨hs.1.known, fun hpending => ?_⟩
        cases hs.1.unique hpending
      · exact serves_awake hs (h.awake i _ _ id hi rfl rfl)
    · exact serves_awake hs (h.awake j p c' id hp hc' ha)
  · obtain hkept | ⟨c', hc', hid⟩ | ⟨hlive, hnot, hc⟩ := serves_managed hs hnext hl
    · exact .inl hkept
    · have hlen : i < ts.length := (List.getElem?_eq_some_iff.mp hi).1
      exact .inr ⟨i, k r, c', List.getElem?_set_self hlen, hc', hid⟩
    · refine .inr (((h.kept id hlive).resolve_left hnot).set fun p c' hp hc' => ?_)
      rw [hi] at hp
      cases hp
      cases hc'
      exact hc

theorem Managed.failed {ts : List (Op Unit)} {w : Account} {i : Nat} {c : Call}
    {k : Answer c → Op Unit} {e : PyError} (h : Managed ⟨ts, w⟩) (hi : ts[i]? = some (.call c k))
    (hf : (services entryFaults).fail c w e) : Managed ⟨ts.set i (.raise e), w⟩ := by
  refine ⟨fun j p hp => ?_, fun j p c' id hp hc' ha => ?_, fun id hl => ?_⟩
  · obtain ⟨_, rfl⟩ | ⟨_, hp⟩ := getElem?_set_cases hp
    · trivial
    · exact h.ordered j p hp
  · obtain ⟨_, rfl⟩ | ⟨_, hp⟩ := getElem?_set_cases hp
    · cases hc'
    · exact h.awake j p c' id hp hc' ha
  · refine (h.kept id hl).imp_right fun hprog => hprog.set fun p c' hp hc' hid => ?_
    rw [hi] at hp
    cases hp
    cases hc'
    exact fails_managed hf (h.awake i _ _ id hi rfl) hid hl

section
variable {elb : Account → Prop} {w w' : Account} {id : InstanceId}

theorem env_live (he : Env elb w w') (hl : w'.Live id) : w.Live id := by
  cases he with
  | boot hp =>
    obtain ⟨_, hl⟩ | ⟨rfl, s, hs, _⟩ := Account.live_modify hl
    · exact hl
    · cases hp.unique hs.inState
      exact .inl hs
  | halt hp =>
    obtain ⟨_, hl⟩ | ⟨_, _, _, hs⟩ := Account.live_modify hl
    · exact hl
    · simp at hs
  | health | drained | metrics => exact hl

theorem env_known (he : Env elb w w') : w'.Known id ↔ w.Known id := by
  cases he with
  | boot | halt => exact Account.modify_known
  | health | drained | metrics => exact Iff.rfl

theorem not_registered_deregister : ¬ (w.deregister id).Registered id := by
  rintro ⟨⟨j, t⟩, ht, rfl, hs⟩
  have hmem := Account.mem_deregister.mp ht
  rw [if_pos rfl] at hmem
  exact hs hmem.1

/-- Only the manager registers and deregisters. -/
theorem env_registered (he : Env elb w w') : w'.Registered id ↔ w.Registered id := by
  cases he with
  | boot | halt | metrics => exact Iff.rfl
  | health f hf _ =>
    constructor
    · intro hr
      obtain ⟨t, ht, rfl, hs⟩ := hr
      obtain ⟨t₀, ht₀, rfl⟩ := List.mem_map.mp ht
      by_cases hd : t₀.state = .draining
      · rw [if_pos hd] at hs ⊢
        exact absurd hd hs
      · rw [if_neg hd]
        exact ⟨t₀, ht₀, rfl, hd⟩
    · intro hr
      obtain ⟨t, ht, rfl, hs⟩ := hr
      exact ⟨⟨t.id, f t.id⟩, List.mem_map.mpr ⟨t, ht, if_neg hs⟩, rfl, hf t.id⟩
  | drained j =>
    constructor
    · intro hr
      obtain ⟨t, ht, hid, hs⟩ := hr
      exact ⟨t, List.mem_of_mem_filter ht, hid, hs⟩
    · intro hr
      obtain ⟨t, ht, hid, hs⟩ := hr
      exact ⟨t, by simp [ht, hs], hid, hs⟩

theorem env_queue (he : Env elb w w') : w'.queue = w.queue := by
  cases he <;> rfl

theorem env_kept (he : Env elb w w') (hk : w.Kept id) : w'.Kept id := by
  rw [Account.Kept, env_registered he, env_queue he]
  exact hk

theorem env_awake (he : Env elb w w') (ha : w.Awake id) : w'.Awake id := by
  cases he with
  | boot | halt => exact ha.modify fun _ h => by cases h
  | health | drained | metrics => exact ha

end

theorem Managed.start {faults : Call → Account → Prop} {ts : List (Op Unit)} {w w' : Account}
    {p : Op Unit} (h : Managed ⟨ts, w⟩) (hp : (keepers faults).starts w p w') :
    Managed ⟨ts ++ [p], w'⟩ := by
  have hgrow : ∀ id, InProgress ts id → InProgress (ts ++ [p]) id := by
    intro id hprog
    obtain ⟨i, q, c, hq, hc, hid⟩ := hprog
    exact ⟨i, q, c, by rw [List.getElem?_append_left (List.getElem?_eq_some_iff.mp hq).1]; exact hq, hc, hid⟩
  have hnew : p.Ordered Follows ∧ ∀ c, p.head = some c → ∀ id, ¬ c.AfterWait id := by
    obtain ⟨id, _, rfl, _⟩ | ⟨rfl | ⟨id, rfl⟩ | ⟨k, rfl⟩, _⟩ := hp
    · exact ⟨registerInstanceToElb_ordered id, fun c hc j => by cases hc; exact False.elim⟩
    · exact ⟨celeryCreateWorker_ordered, fun c hc j => by cases hc; exact False.elim⟩
    · exact ⟨destroyAWorker_ordered id, fun c hc j => by cases hc; exact False.elim⟩
    · exact ⟨(randomDestroyWorker_ordered k).forget, fun c hc j => by cases hc; exact False.elim⟩
  have hworld : w'.instances = w.instances ∧ w'.targets = w.targets := by
    obtain ⟨id, _, _, rfl⟩ | ⟨_, rfl⟩ := hp
    · exact ⟨rfl, rfl⟩
    · exact ⟨rfl, rfl⟩
  refine ⟨fun j q hq => ?_, fun j q c id hq hc ha => ?_, fun id hl => ?_⟩
  · obtain ⟨_, rfl⟩ | ⟨_, hq⟩ := getElem?_append_cases hq
    · exact hnew.1
    · exact h.ordered j q hq
  · obtain ⟨_, rfl⟩ | ⟨_, hq⟩ := getElem?_append_cases hq
    · exact absurd ha (hnew.2 c hc id)
    · exact (h.awake j q c id hq hc ha).congr hworld.1
  · have hlive : w.Live id := by
      rw [Account.Live, Account.Worker, Account.Worker, ← hworld.1]
      exact hl
    obtain (hreg | hqueue) | hprog := h.kept id hlive
    · left
      left
      rw [Account.Registered, hworld.2]
      exact hreg
    · obtain ⟨j, _, rfl, rfl⟩ | ⟨_, rfl⟩ := hp
      · by_cases hj : id = j
        · right
          exact ⟨ts.length, registerInstanceToElb j, .waitRunning j, by simp, rfl, hj.symm⟩
        · exact .inl (.inr ((List.mem_erase_of_ne hj).mpr hqueue))
      · exact .inl (.inr hqueue)
    · exact .inr (hgrow id hprog)

theorem Managed.step {s₁ s₂ : Effect.Config Call Answer PyError Account} {l : Label Call}
    (h : Managed s₁) (hs : (keepers entryFaults).Step s₁ l s₂) : Managed s₂ := by
  cases hs with
  | start hp => exact h.start hp
  | served hi hs => exact h.served hi hs
  | failed hi hf => exact h.failed hi hf
  | env he =>
    refine ⟨h.ordered, fun i p c id hp hc ha => env_awake he (h.awake i p c id hp hc ha), ?_⟩
    intro id hl
    exact (h.kept id (env_live he hl)).imp_left (env_kept he)

theorem vacant_fresh : Account.vacant.Fresh "i-1" := by decide

/-- The account in which one worker has just been created. -/
def newborn : Account := Account.vacant.launch "i-1" "worker" vacant_fresh

end OdwaManager
