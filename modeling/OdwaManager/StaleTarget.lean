import OdwaManager.Management

/-! A registration task and a destroy of the same worker, call by call in every order. The
worker ends up terminated, and a stale target is left exactly when its registration
overtook the deregistration. -/
namespace OdwaManager
open Effect Program

/-- The two threads run without faults of their own, beside the outside. -/
def race : System Call Answer PyError Account where
  services := services noFaults
  starts _ _ _ := False
  env := Env fun _ => True

/-- Thread 0 registers, thread 1 destroys: some register_targets was served after the
deregister_targets. -/
def Overtaken (id : InstanceId) : List (Label Call) → Prop
  | [] => False
  | l :: tr => l = .served 0 (.registerTargets id) ∧ .served 1 (.deregisterTargets id) ∈ tr ∨
    Overtaken id tr

def Account.Gone (w : Account) (id : InstanceId) : Prop :=
  w.InState id .shuttingDown ∨ w.InState id .terminated

section
variable {w w' : Account} {id : InstanceId}

theorem gone_terminate (h : w.Known id) : (w.modify id InstanceState.terminate).Gone id := by
  obtain ⟨s, hs⟩ := Account.known_iff.mp h
  have hend := hs.modify_self (f := InstanceState.terminate)
  cases s with
  | pending | running | shuttingDown => exact .inl hend
  | stopping | stopped | terminated => exact .inr hend

theorem env_gone {elb : Account → Prop} (he : Env elb w w') (h : w.Gone id) : w'.Gone id := by
  cases he with
  | @boot j hp =>
    have hne : id ≠ j := by
      intro hj
      subst hj
      cases h with
      | inl h => cases h.unique hp
      | inr h => cases h.unique hp
    exact h.imp (·.modify_ne hne) (·.modify_ne hne)
  | @halt j hp =>
    by_cases hj : id = j
    · subst hj
      exact .inr hp.modify_self
    · exact h.imp (·.modify_ne hj) (·.modify_ne hj)
  | health | drained | metrics => exact h

end

/-- What is left of the destroy once it has deregistered. -/
def afterDeregister (id : InstanceId) : Op Unit := do
  match ← ask (.describeInstance id) with
  | [] => .raise .indexError
  | inst :: _ => ask (.terminate inst.id)

/-- The deregistration is done, and the target is back exactly if it was overtaken. -/
structure Deregistered (id : InstanceId) (tr : List (Label Call)) (w : Account) : Prop where
  served : .served 1 (.deregisterTargets id) ∈ tr
  registered : w.Registered id ↔ Overtaken id tr

/-- How far the destroying thread has come. -/
inductive Destroying (id : InstanceId) (tr : List (Label Call)) (w : Account) : Op Unit → Prop
  | before (h : .served 1 (.deregisterTargets id) ∉ tr) : Destroying id tr w (destroyAWorker id)
  | lookup (h : Deregistered id tr w) : Destroying id tr w (afterDeregister id)
  | ending (h : Deregistered id tr w) : Destroying id tr w (ask (.terminate id))
  | ended (h : Deregistered id tr w) (hg : w.Gone id) : Destroying id tr w (.ret ())

def Registering (id : InstanceId) (c : Call) : Prop :=
  c = .waitRunning id ∨ c = .associateProfile id ∨ c = .registerTargets id

section
variable {w w' : Account} {id : InstanceId} {tr : List (Label Call)} {l : Label Call} {q : Op Unit}

theorem Overtaken.served (h : Overtaken id tr) : .served 1 (.deregisterTargets id) ∈ tr := by
  induction tr with
  | nil => exact False.elim h
  | cons l tr ih =>
    cases h with
    | inl h => exact List.mem_cons_of_mem l h.2
    | inr h => exact List.mem_cons_of_mem l (ih h)

/-- A step that is neither of the two effects on the target group. -/
theorem Destroying.other (h : Destroying id tr w q) (hl : l ≠ .served 0 (.registerTargets id))
    (hl' : l ≠ .served 1 (.deregisterTargets id)) (hr : w'.Registered id ↔ w.Registered id)
    (hg : w.Gone id → w'.Gone id) : Destroying id (l :: tr) w' q := by
  have hd : Deregistered id tr w → Deregistered id (l :: tr) w' := by
    intro hd
    refine ⟨List.mem_cons_of_mem l hd.served, hr.trans (hd.registered.trans ?_)⟩
    simp [Overtaken, hl]
  cases h with
  | before h => exact .before (by simp [h, Ne.symm hl'])
  | lookup h => exact .lookup (hd h)
  | ending h => exact .ending (hd h)
  | ended h hgone => exact .ended (hd h) (hg hgone)

theorem Destroying.register (h : Destroying id tr w q) :
    Destroying id (.served 0 (.registerTargets id) :: tr) (w.register id) q := by
  have hd : Deregistered id tr w →
      Deregistered id (.served 0 (.registerTargets id) :: tr) (w.register id) := by
    intro hd
    refine ⟨List.mem_cons_of_mem _ hd.served, iff_of_true Account.registered_register ?_⟩
    exact .inl ⟨rfl, hd.served⟩
  cases h with
  | before h => exact .before (by simp [h])
  | lookup h => exact .lookup (hd h)
  | ending h => exact .ending (hd h)
  | ended h hg =>
    refine .ended (hd h) ?_
    rw [Account.Gone, Account.InState, Account.InState, Account.register_instances]
    exact hg

/-- The destroying thread takes its next call. -/
theorem Destroying.served {c : Call} {k : Answer c → Op Unit} {r : Answer c}
    (h : Destroying id tr w (.call c k)) (hk : w.Known id) (hs : Serves c w r w') :
    Destroying id (.served 1 c :: tr) w' (k r) ∧ w'.Known id := by
  generalize hq : (Program.call c k : Op Unit) = q at h
  cases h with
  | before h =>
    cases hq
    have hw : w' = w.deregister id := hs
    subst hw
    refine ⟨.lookup ⟨List.mem_cons_self, iff_of_false not_registered_deregister fun ho => ?_⟩, hk⟩
    cases ho with
    | inl ho => cases ho.1
    | inr ho => exact h ho.served
  | lookup h =>
    cases hq
    obtain ⟨rfl, rfl⟩ := hs
    obtain ⟨i, l, hl, hi⟩ := filter_id_of_known hk
    have hnext := (Destroying.ending h).other (l := .served 1 (.describeInstance id)) nofun nofun
      Iff.rfl fun hg => hg
    refine ⟨?_, hk⟩
    rw [hl]
    change Destroying id _ _ (ask (.terminate i.id))
    rw [hi]
    exact hnext
  | ending h =>
    cases hq
    obtain ⟨_, rfl⟩ := hs
    refine ⟨.ended ⟨List.mem_cons_of_mem _ h.served, ?_⟩ (gone_terminate hk), Account.modify_known.mpr hk⟩
    exact h.registered.trans (by simp [Overtaken])
  | ended h hg => cases hq

/-- Nothing the destroying thread asks for is refused. -/
theorem Destroying.not_failed {c : Call} {k : Answer c → Op Unit} {e : PyError}
    (h : Destroying id tr w (.call c k)) (hk : w.Known id) :
    ¬ (services noFaults).fail c w e := by
  intro hf
  generalize hq : (Program.call c k : Op Unit) = q at h
  cases h with
  | before h =>
    cases hq
    exact hf.elim (fun hr => hr) fun hn => hn.1
  | lookup h | ending h =>
    cases hq
    exact hf.elim (fun hr => hr.1 hk) fun hn => hn.1
  | ended h hg => cases hq

end

structure Racing (id : InstanceId) (tr : List (Label Call))
    (s : Effect.Config Call Answer PyError Account) : Prop where
  known : s.world.Known id
  threads : ∃ p q, s.threads = [p, q] ∧ p.Uses (Registering id) ∧ Destroying id tr s.world q

section
variable {w w' : Account} {id : InstanceId} {tr : List (Label Call)} {p q : Op Unit}
  {c : Call} {k : Answer c → Op Unit} {r : Answer c} {i : Nat}

/-- A call of one of the two threads. -/
theorem racing_thread (hi : [p, q][i]? = some (.call c k)) :
    (i = 0 ∧ p = .call c k) ∨ (i = 1 ∧ q = .call c k) := by
  match i with
  | 0 => exact .inl ⟨rfl, Option.some.inj hi⟩
  | 1 => exact .inr ⟨rfl, Option.some.inj hi⟩
  | i+2 => cases hi

theorem Racing.served {ts : List (Op Unit)} (h : Racing id tr ⟨ts, w⟩)
    (hi : ts[i]? = some (.call c k)) (hs : Serves c w r w') :
    Racing id (.served i c :: tr) ⟨ts.set i (k r), w'⟩ := by
  obtain ⟨p, q, rfl, hp, hq⟩ := h.threads
  obtain ⟨rfl, rfl⟩ | ⟨rfl, rfl⟩ := racing_thread hi
  · obtain rfl | rfl | rfl := hp.1
    · obtain ⟨_, rfl⟩ := hs
      exact ⟨h.known, _, _, rfl, hp.2 r, hq.other nofun nofun Iff.rfl fun hg => hg⟩
    · obtain ⟨_, rfl⟩ := hs
      exact ⟨h.known, _, _, rfl, hp.2 r, hq.other nofun nofun Iff.rfl fun hg => hg⟩
    · obtain ⟨_, rfl⟩ := hs
      refine ⟨?_, _, _, rfl, hp.2 r, hq.register⟩
      rw [Account.Known, Account.register_instances]
      exact h.known
  · obtain ⟨hq', hk⟩ := hq.served h.known hs
    exact ⟨hk, _, _, rfl, hp, hq'⟩

theorem Racing.step {s₁ s₂ : Effect.Config Call Answer PyError Account} {l : Label Call}
    (h : Racing id tr s₁) (hs : race.Step s₁ l s₂) : Racing id (l :: tr) s₂ := by
  cases hs with
  | start hp => exact False.elim hp
  | served hi hs => exact h.served hi hs
  | failed hi hf =>
    obtain ⟨p, q, rfl, hp, hq⟩ := h.threads
    obtain ⟨rfl, rfl⟩ | ⟨rfl, rfl⟩ := racing_thread hi
    · exact ⟨h.known, _, _, rfl, trivial, hq.other nofun nofun Iff.rfl fun hg => hg⟩
    · exact absurd hf (hq.not_failed h.known)
  | env he =>
    obtain ⟨p, q, rfl, hp, hq⟩ := h.threads
    refine ⟨(env_known he).mpr h.known, p, q, rfl, hp, ?_⟩
    exact hq.other nofun nofun (env_registered he) (env_gone he)

end

/-- The account in which the worker was created and its registration task taken. -/
def raceStart (w₀ : Account) (id : InstanceId) (hf : w₀.Fresh id) : Account :=
  ((w₀.launch id "worker" hf).enqueue id).dequeue id

theorem raceStart_racing {w₀ : Account} {id : InstanceId} (hf : w₀.Fresh id) :
    Racing id [] ⟨[registerInstanceToElb id, destroyAWorker id], raceStart w₀ id hf⟩ := by
  refine ⟨?_, _, _, rfl, ?_, .before List.not_mem_nil⟩
  · exact List.mem_map_of_mem ((Account.mem_launch (h := hf)).mpr (.inr rfl))
  · exact Uses.bind (Uses.request (.inl rfl)) fun _ =>
      Uses.bind (Uses.request (.inr (.inl rfl))) fun _ => Uses.request (.inr (.inr rfl))

/-- Once both threads have finished the worker is gone, and it is no registered target
exactly when its registration did not overtake the deregistration. -/
theorem stale_target_iff {w₀ : Account} {id : InstanceId} (hf : w₀.Fresh id)
    {s : Effect.Config Call Answer PyError Account} {tr : List (Label Call)}
    (hr : race.Run unguarded ⟨[registerInstanceToElb id, destroyAWorker id], raceStart w₀ id hf⟩ tr s)
    (hdone : ∀ p ∈ s.threads, p.head = none) :
    s.world.Gone id ∧ (¬ s.world.Registered id ↔ ¬ Overtaken id tr) := by
  have hinv := hr.invariant (I := Racing id) (raceStart_racing hf) fun _ _ _ _ h _ hs => h.step hs
  obtain ⟨p, q, hthreads, _, hq⟩ := hinv.threads
  have hend : q.head = none := hdone q (by simp [hthreads])
  cases hq with
  | before | lookup | ending => cases hend
  | ended hd hg => exact ⟨hg, not_congr hd.registered⟩

theorem stale_target_destroyed_first :
    ¬ ((raceStart .vacant "i-1" vacant_fresh).destroy "i-1").Registered "i-1" := by
  have h₀ : race.Run unguarded ⟨[registerInstanceToElb "i-1", destroyAWorker "i-1"],
    raceStart .vacant "i-1" vacant_fresh⟩ [] ⟨_, _⟩ := .nil
  have h₁ := h₀.serve 1 () rfl rfl trivial
  have h₂ := h₁.serve 1 [⟨"i-1", some "worker", .pending⟩] rfl ⟨rfl, rfl⟩ trivial
  have h₃ := h₂.serve 1 () rfl ⟨by decide, rfl⟩ trivial
  have hgone : ((raceStart .vacant "i-1" vacant_fresh).destroy "i-1").InState "i-1" .shuttingDown :=
    ⟨some "worker", List.mem_cons_self⟩
  have hwaiter : Rejects (.waitRunning "i-1")
      ((raceStart .vacant "i-1" vacant_fresh).destroy "i-1") .waiterError := by
    refine ⟨⟨fun h => ?_, fun h => ?_⟩, rfl⟩
    · cases h.unique hgone
    · cases h.unique hgone
  have h₄ := h₃.fail 0 PyError.waiterError rfl (.inl hwaiter) trivial
  refine (stale_target_iff vacant_fresh h₄ fun p hp => ?_).2.mpr (by simp [Overtaken])
  fin_cases hp <;> rfl

/-- The registration falls between the two effects of the destroy. -/
theorem stale_target_left :
    ¬ ∀ (w₀ : Account) (id : InstanceId) (hf : w₀.Fresh id)
      (s : Effect.Config Call Answer PyError Account) (tr : List (Label Call)),
      race.Run unguarded ⟨[registerInstanceToElb id, destroyAWorker id], raceStart w₀ id hf⟩ tr s →
      (∀ p ∈ s.threads, p.head = none) → ¬ s.world.Registered id := by
  intro h
  have h₀ : race.Run unguarded ⟨[registerInstanceToElb "i-1", destroyAWorker "i-1"],
    raceStart .vacant "i-1" vacant_fresh⟩ [] ⟨_, _⟩ := .nil
  have hpending : (raceStart .vacant "i-1" vacant_fresh).InState "i-1" .pending :=
    ⟨some "worker", List.mem_cons_self⟩
  have hrunning := hpending.modify_self (f := fun _ => .running)
  have h₁ := h₀.change (.boot hpending) trivial
  have h₂ := h₁.serve 0 () rfl ⟨hrunning, rfl⟩ trivial
  have h₃ := h₂.serve 0 () rfl ⟨⟨_, hrunning, nofun, nofun⟩, rfl⟩ trivial
  have h₄ := h₃.serve 1 () rfl rfl trivial
  have h₅ := h₄.serve 0 () rfl ⟨hrunning, rfl⟩ trivial
  have h₆ := h₅.serve 1 [⟨"i-1", some "worker", .running⟩] rfl ⟨rfl, rfl⟩ trivial
  have h₇ := h₆.serve 1 () rfl ⟨by decide, rfl⟩ trivial
  refine h _ _ vacant_fresh _ _ h₇ (fun p hp => ?_) (by decide)
  fin_cases hp <;> rfl

end OdwaManager
