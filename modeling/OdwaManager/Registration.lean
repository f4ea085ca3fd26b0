import OdwaManager.Management
import OdwaManager.OnlyWorkers
import OdwaManager.Effect.Conservation

/-! The books of the registration tasks. Every instance has one registration to get, from its
launch on: until it is made it is on the queue or in the hands of one program, unless a call
that raised has lost it. -/
namespace OdwaManager
open Effect Program

/-- The instance whose registration the call is a step of. -/
def Call.task : Call → Option InstanceId
  | .applyAsync id | .waitRunning id | .associateProfile id | .registerTargets id => some id
  | _ => none

def Call.launches : (c : Call) → Answer c → Option InstanceId
  | .createInstances _, id => some id
  | _, _ => none

/-- The instance whose registration the answer leaves in the hands of the program. -/
def Call.handsOn : (c : Call) → Answer c → Option InstanceId
  | .createInstances _, id => some id
  | .waitRunning id, _ | .associateProfile id, _ => some id
  | _, _ => none

/-- The next call is the next step of the registration in hand, or of none. -/
def CarriesOn (c : Call) (r : Answer c) (h : Option Call) : Prop := h.bind Call.task = c.handsOn r

/-- The call has nothing to do with registrations. -/
def Call.Taskless (c : Call) : Prop := c.task = none ∧ ∀ r, c.handsOn r = none

/-- A program that starts with empty hands and carries on with what it takes up. -/
def Accountable {α : Type} (p : Op α) : Prop := p.Ordered CarriesOn ∧ p.head.bind Call.task = none

section
variable {α β : Type} {p : Op α} {f : α → Op β}

theorem Accountable.bind (hp : Accountable p) (hf : ∀ a, Accountable (f a)) :
    Accountable (p >>= f) := by
  refine ⟨hp.1.bind (fun a => (hf a).1) fun c r a hn => ?_, ?_⟩
  · exact (hf a).2.trans hn
  · let emptyHanded : Option Call → Prop := fun h => h.bind Call.task = none
    have hhead : emptyHanded (p >>= f).head := head_bind hp.2 fun a _ => (hf a).2
    exact hhead

theorem Accountable.of_uses {allowed : Call → Prop} (hp : p.Uses allowed)
    (h : ∀ c, allowed c → c.Taskless) : Accountable p := by
  induction p with
  | ret a => exact ⟨trivial, rfl⟩
  | raise e => exact ⟨trivial, rfl⟩
  | call c k ih =>
    have hc := h c hp.1
    refine ⟨fun r => ?_, hc.1⟩
    obtain ⟨hordered, hhead⟩ := ih r (hp.2 r)
    exact ⟨hhead.trans (hc.2 r).symm, hordered⟩

theorem Accountable.pure (a : α) : Accountable (pure a : Op α) := ⟨trivial, rfl⟩

theorem Accountable.forget (hp : Accountable p) : Accountable p.forget :=
  hp.bind fun _ => .pure ()

theorem Accountable.times {q : Op Unit} (n : Nat) (h : Accountable q) :
    Accountable (Program.times n q) := by
  induction n with
  | zero => exact .pure ()
  | succ n ih => exact h.bind fun _ => ih

end

/- Every operation is accountable, except the task itself, which begins with its registration
in hand. -/

theorem Call.Lists.taskless {c : Call} (h : c.Lists) : c.Taskless := by
  cases c <;> simp_all [Call.Lists, Call.Taskless, Call.task, Call.handsOn]

theorem Call.Observes.taskless {c : Call} (h : c.Observes) : c.Taskless := by
  cases c <;> simp_all [Call.Observes, Call.Taskless, Call.task, Call.handsOn]

theorem Call.Destroys.taskless {c : Call} (h : c.Destroys) : c.Taskless := by
  cases c <;> simp_all [Call.Destroys, Call.Taskless, Call.task, Call.handsOn]

theorem Call.Stores.taskless {c : Call} (h : c.Stores) : c.Taskless := by
  cases c <;> simp_all [Call.Stores, Call.Taskless, Call.task, Call.handsOn]

theorem taskless_or {P Q : Call → Prop} (hP : ∀ c, P c → c.Taskless) (hQ : ∀ c, Q c → c.Taskless)
    (c : Call) (h : P c ∨ Q c) : c.Taskless :=
  h.elim (hP c) (hQ c)

theorem numeric_accountable (q : Option ℚ) : Accountable (numeric q) :=
  .of_uses (numeric_uses q fun _ => False) fun _ h => h.elim

theorem celeryCreateWorker_accountable : Accountable celeryCreateWorker :=
  ⟨fun _ => ⟨rfl, fun _ => ⟨rfl, trivial⟩⟩, rfl⟩

theorem expandFleet_accountable (config : AutoScalingConfig) (n m : Nat) :
    Accountable (expandFleet config n m) := by
  unfold expandFleet
  split
  · exact .pure _
  · refine (numeric_accountable _).bind fun ratio => ?_
    exact (celeryCreateWorker_accountable.times _).bind fun _ => .pure _

theorem shrinkFleet_accountable (config : AutoScalingConfig) (n : Nat) :
    Accountable (shrinkFleet config n) :=
  .of_uses (shrinkFleet_uses config n) (taskless_or (fun _ h => h.taskless) fun _ h => h.taskless)

theorem actOn_accountable (config : AutoScalingConfig) (n m : Nat) (avg : Num) :
    Accountable (actOn config n m avg) := by
  refine (numeric_accountable _).bind fun et => ?_
  split
  · exact expandFleet_accountable config n m
  · refine (numeric_accountable _).bind fun st => ?_
    split
    · exact shrinkFleet_accountable config n
    · exact .pure _

theorem scaleFleet_accountable (config : AutoScalingConfig) : Accountable (scaleFleet config) := by
  have hlists : ∀ f, (Call.describeInstances f).Taskless := fun f => ⟨rfl, fun _ => rfl⟩
  refine Accountable.bind (.of_uses getServingInstances_uses fun _ h => h.taskless) fun a => ?_
  refine Accountable.bind (.of_uses getRunningInstances_uses fun _ h => h ▸ hlists _) fun b => ?_
  dsimp only
  split
  · exact .pure _
  · refine Accountable.bind (.of_uses getNonTerminatedInstances_uses fun _ h => h ▸ hlists _)
      fun m => ?_
    refine Accountable.bind (.of_uses allInstanceHasValidCpuUtil_uses fun _ h => h.taskless)
      fun v => ?_
    dsimp only
    split
    · exact .pure _
    · exact actOn_accountable config _ _ _

theorem tick_accountable : Accountable autoCheckAvgCpuUtilization := by
  have hidle : Accountable reportIdle := .of_uses reportIdle_uses fun _ h => h.taskless
  have hquery : Accountable (ask .queryFirst) := ⟨fun _ => ⟨rfl, trivial⟩, rfl⟩
  refine hquery.bind fun r => ?_
  cases r with
  | none => exact .pure _
  | some config =>
    dsimp only
    split
    · refine Accountable.bind (.of_uses hasPendingInstances_uses fun _ h => h ▸ ?_) fun b => ?_
      · exact ⟨rfl, fun _ => rfl⟩
      · split
        · exact hidle
        · exact scaleFleet_accountable config
    · exact hidle

theorem createWorker_accountable : Accountable createWorker := by
  refine Accountable.bind (.of_uses getNonTerminatedInstances_uses fun _ h => h ▸ ?_) fun a => ?_
  · exact ⟨rfl, fun _ => rfl⟩
  · dsimp only
    split
    · exact .pure _
    · exact celeryCreateWorker_accountable.bind fun _ => .pure _

theorem processStart_accountable : Accountable processStart := by
  have htable : Accountable (ask .recreateTable) := ⟨fun _ => ⟨rfl, trivial⟩, rfl⟩
  exact htable.bind fun _ => celeryCreateWorker_accountable

theorem stopManager_accountable : Accountable stopManager := by
  refine .of_uses stopManager_uses (taskless_or
    (taskless_or (fun _ h => h.taskless) fun _ h => h.taskless) fun c h => ?_)
  obtain ⟨id, rfl⟩ := h
  exact ⟨rfl, fun _ => rfl⟩

def Operation.task : Operation → Option InstanceId
  | .registerInstance id => some id
  | _ => none

theorem program_carriesOn (o : Operation) :
    o.program.Ordered CarriesOn ∧ o.program.head.bind Call.task = o.task := by
  cases o with
  | registerInstance id =>
    exact ⟨fun _ => ⟨rfl, fun _ => ⟨rfl, fun _ => ⟨rfl, trivial⟩⟩⟩, rfl⟩
  | tick => exact tick_accountable.forget
  | createWorker => exact createWorker_accountable.forget
  | destroyWorker =>
    have h : Accountable (randomDestroyWorker 1) :=
      .of_uses (randomDestroyWorker_uses 1) (taskless_or (fun _ h => h.taskless) fun _ h => h.taskless)
    refine Accountable.forget (h.bind fun b => ?_)
    split <;> exact .pure _
  | detailDestroyWorker id => exact Accountable.of_uses (destroyAWorker_uses id) fun _ h => h.taskless
  | destroyAll =>
    exact Accountable.of_uses destroyEveryWorker_uses
      (taskless_or (fun _ h => h.taskless) fun _ h => h.taskless)
  | apply form => exact (Accountable.of_uses (apply_uses form) fun _ h => h.taskless).forget
  | turnOn => exact Accountable.of_uses turnOn_uses fun _ h => h.taskless
  | processStart => exact processStart_accountable
  | stopManager => exact stopManager_accountable

/- The books. -/

section
variable {w w' : Account} {id : InstanceId} {c : Call} {r : Answer c}

theorem serves_queue (id : InstanceId) (hs : Serves c w r w') :
    w'.queue.count id = w.queue.count id + if c = .applyAsync id then 1 else 0 := by
  cases c with
  | applyAsync j =>
    rw [show w' = w.enqueue j from hs, Account.enqueue, List.count_append, List.count_singleton]
    simp
  | createInstances name =>
    obtain ⟨hf, rfl⟩ := hs
    rfl
  | terminate j | stop j =>
    rw [hs.2]
    rfl
  | registerTargets j =>
    rw [hs.2, Account.register_queue]
    rfl
  | deregisterTargets j =>
    rw [show w' = w.deregister j from hs]
    rfl
  | insertConfig row =>
    obtain ⟨_, rfl⟩ := hs
    rfl
  | updateConfig key changes =>
    obtain ⟨_, _, rfl⟩ := hs
    rfl
  | recreateTable =>
    rw [hs]
    rfl
  | describeInstances _ | describeInstance _ | waitRunning _ | associateProfile _
  | describeTargetHealth | getMetricStatistics _ _ | putMetricData _ _ | queryFirst
  | iterate _ | sample _ _ =>
    rw [serves_readOnly (by trivial) hs]
    rfl

/-- A call makes an instance known by launching it, and an id is launched once. -/
theorem serves_launches (id : InstanceId) (hs : Serves c w r w') :
    (w'.Known id ↔ w.Known id ∨ c.launches r = some id) ∧ (c.launches r = some id → ¬ w.Known id) := by
  cases c with
  | createInstances name =>
    obtain ⟨hf, rfl⟩ := hs
    simp only [Call.launches, Option.some.injEq]
    constructor
    · simp [Account.Known, Account.launch, eq_comm]
    · rintro rfl
      exact hf.1
  | terminate j | stop j => simp [hs.2, Account.modify_known, Call.launches]
  | registerTargets j => simp [hs.2, Account.Known, Account.register_instances, Call.launches]
  | deregisterTargets j =>
    rw [show w' = w.deregister j from hs]
    simp [Account.Known, Account.deregister, Call.launches]
  | applyAsync j =>
    rw [show w' = w.enqueue j from hs]
    simp [Account.Known, Account.enqueue, Call.launches]
  | insertConfig row =>
    obtain ⟨_, rfl⟩ := hs
    simp [Account.Known, Call.launches]
  | updateConfig key changes =>
    obtain ⟨_, _, rfl⟩ := hs
    simp [Account.Known, Call.launches]
  | recreateTable =>
    rw [hs]
    simp [Account.Known, Call.launches]
  | describeInstances _ | describeInstance _ | waitRunning _ | associateProfile _
  | describeTargetHealth | getMetricStatistics _ _ | putMetricData _ _ | queryFirst
  | iterate _ | sample _ _ =>
    rw [serves_readOnly (by trivial) hs]
    simp [Call.launches]

end

/-- The step makes the registration of `id`. -/
def registers (id : InstanceId) : Label Call → Bool
  | .served _ (.registerTargets j) => j = id
  | _ => false

/-- The step loses the registration of `id`: nothing takes up what the call was about. -/
def loses (id : InstanceId) : Label Call → Bool
  | .failed _ c => c.task = some id
  | _ => false

def holdsTask (id : InstanceId) (p : Op Unit) : Bool := p.head.bind Call.task = some id

/-- What is taken up with an answer was in hand already, or comes with a launch. -/
theorem task_moves (id : InstanceId) (i : Nat) (c : Call) (r : Answer c) :
    (if c = .applyAsync id then (1 : ℤ) else 0) + (if c.handsOn r = some id then 1 else 0) +
      (if registers id (.served i c) then 1 else 0) =
    (if c.launches r = some id then 1 else 0) + if c.task = some id then 1 else 0 := by
  cases c <;> simp [Call.handsOn, Call.launches, Call.task, registers]

theorem known_indicator {w w' : Account} {id : InstanceId} {c : Call} {r : Answer c}
    (hs : Serves c w r w') :
    (if w'.Known id then (1 : ℤ) else 0) =
      (if w.Known id then 1 else 0) + if c.launches r = some id then 1 else 0 := by
  obtain ⟨hknown, hnew⟩ := serves_launches id hs
  by_cases hl : c.launches r = some id
  · rw [if_pos (hknown.mpr (.inr hl)), if_neg (hnew hl), if_pos hl, zero_add]
  · simp only [hknown, hl, or_false, if_false, add_zero]

/-- What is queued for `id`, less what the account owes it from the launch on. -/
def queuedTasks (id : InstanceId) (w : Account) : ℤ := w.queue.count id - if w.Known id then 1 else 0

def carriedTask (id : InstanceId) (c : Call) : ℤ := if c.task = some id then 1 else 0

theorem carried_head (id : InstanceId) (h : Option Call) :
    h.elim 0 (carriedTask id) = if h.bind Call.task = some id then (1 : ℤ) else 0 := by
  cases h <;> rfl

def settledTask (id : InstanceId) (l : Label Call) : ℤ :=
  (if registers id l then 1 else 0) + if loses id l then 1 else 0

theorem queuedTasks_begins {o : Operation} {w w' : Account} (id : InstanceId) (hb : o.Begins w w') :
    queuedTasks id w' + o.program.head.elim 0 (carriedTask id) = queuedTasks id w := by
  unfold queuedTasks
  rw [carried_head, (program_carriesOn o).2]
  cases o with
  | registerInstance j =>
    obtain ⟨hj, rfl⟩ := hb
    simp only [Account.dequeue, Account.Known, Operation.task, Option.some.injEq, List.count_erase]
    by_cases hid : j = id
    · subst hid
      have hpos := List.count_pos_iff.mpr hj
      simp
      omega
    · simp [hid]
  | _ => simp [show w' = w from hb, Operation.task]

theorem queuedTasks_served {c : Call} {w w' : Account} {r : Answer c} {h : Option Call}
    (id : InstanceId) (i : Nat) (hs : Serves c w r w') (hf : CarriesOn c r h) :
    queuedTasks id w' + h.elim 0 (carriedTask id) + settledTask id (.served i c) =
      queuedTasks id w + carriedTask id c := by
  have hqueue := serves_queue id hs
  have hmoves := task_moves id i c r
  rw [carried_head, show h.bind Call.task = c.handsOn r from hf, queuedTasks, queuedTasks, carriedTask,
    settledTask, known_indicator hs, hqueue]
  simp only [loses, Bool.false_eq_true, if_false]
  push_cast
  linarith

theorem queuedTasks_env {w w' : Account} {elb : Account → Prop} (id : InstanceId)
    (he : Env elb w w') : queuedTasks id w' = queuedTasks id w := by
  unfold queuedTasks
  rw [env_queue he]
  simp only [env_known he]

/-- The registration of one instance. -/
def registrationBooks (faults : Call → Account → Prop) (allowed : Operation → Account → Prop)
    (id : InstanceId) : Ledger (operations faults allowed) ℤ where
  held := queuedTasks id
  carried := carriedTask id
  spent := settledTask id
  follows := CarriesOn
  start := by
    rintro w p w' ⟨o, _, rfl, hb⟩
    exact ⟨(program_carriesOn o).1, queuedTasks_begins id hb⟩
  served i _ _ _ _ _ hs hf := queuedTasks_served id i hs hf
  failed i c := by simp [settledTask, carriedTask, registers, loses]
  env _ _ he := queuedTasks_env id he
  spent_start := by simp [settledTask, registers, loses]
  spent_env := by simp [settledTask, registers, loses]

section
variable {faults : Call → Account → Prop} {allowed : Operation → Account → Prop} {w : Account}
  {s : Effect.Config Call Answer PyError Account} {tr : List (Label Call)}

theorem Operation.Begins.known {o : Operation} {w' : Account} {id : InstanceId}
    (h : o.Begins w w') : w'.Known id ↔ w.Known id := by
  simp only [Account.Known, h.instances]

/-- EC2 keeps the record of an instance. -/
theorem run_known {id : InstanceId} (hr : (operations faults allowed).Run unguarded ⟨[], w⟩ tr s)
    (h : w.Known id) : s.world.Known id := by
  refine hr.invariant (I := fun _ s => s.world.Known id) h ?_
  intro tr s₁ l s₂ hk _ hs
  cases hs with
  | start hp =>
    obtain ⟨o, _, _, hb⟩ := hp
    exact hb.known.mpr hk
  | served _ hs => exact (serves_launches id hs).1.mpr (.inl hk)
  | failed _ _ => exact hk
  | env he => exact (env_known he).mpr hk

/-- The books in numbers. -/
theorem registration_books (id : InstanceId)
    (hr : (operations faults allowed).Run unguarded ⟨[], w⟩ tr s) :
    s.world.queue.count id + s.threads.countP (holdsTask id) + tr.countP (registers id) +
      tr.countP (loses id) =
    w.queue.count id + if s.world.Known id ∧ ¬ w.Known id then 1 else 0 := by
  have htotal := (registrationBooks faults allowed id).run_total hr
  have hhands : (registrationBooks faults allowed id).inHand =
      fun p => if holdsTask id p then 1 else 0 := by
    funext p
    simp only [Ledger.inHand, registrationBooks, carried_head, holdsTask, decide_eq_true_eq]
  have hspent : (tr.map (registrationBooks faults allowed id).spent).sum =
      (tr.countP (registers id) : ℤ) + tr.countP (loses id) := by
    rw [← sum_indicator, ← sum_indicator, ← List.sum_map_add]
    rfl
  rw [Ledger.total, hhands, sum_indicator, hspent] at htotal
  simp only [registrationBooks, queuedTasks] at htotal
  have hmono : w.Known id → s.world.Known id := run_known hr
  by_cases hw : w.Known id
  · have hs := hmono hw
    simp only [hw, hs, if_true, not_true_eq_false, and_false, if_false] at htotal ⊢
    omega
  · by_cases hs : s.world.Known id
    · simp only [hw, hs, if_true, not_false_eq_true, and_self, if_false] at htotal ⊢
      omega
    · simp only [hw, hs, if_false, false_and] at htotal ⊢
      omega

/-- However operations overlap and whichever calls raise, the registration of an instance that
was launched, or was waiting for its task at the start, is in one place: still queued, in the
hands of one program, made, or lost to a call that raised. So it is made at most once. -/
theorem registration_exactly_once (hq : w.queue.Nodup) (hk : ∀ id ∈ w.queue, w.Known id)
    (hr : (operations faults allowed).Run unguarded ⟨[], w⟩ tr s) (id : InstanceId) :
    s.world.queue.count id + s.threads.countP (holdsTask id) + tr.countP (registers id) +
      tr.countP (loses id) =
    if id ∈ w.queue ∨ s.world.Known id ∧ ¬ w.Known id then 1 else 0 := by
  rw [registration_books id hr, hq.count]
  by_cases hid : id ∈ w.queue
  · simp [hid, hk id hid]
  · simp [hid]

end

/-- A worker is created and registered, its task having been taken from the queue. -/
theorem registration_exactly_once_made :
    ∃ s tr, (operations noFaults fun _ _ => True).Run unguarded ⟨[], Account.vacant⟩ tr s ∧
      s.world.Registered "i-1" ∧ s.world.queue.count "i-1" + s.threads.countP (holdsTask "i-1") +
        tr.countP (registers "i-1") + tr.countP (loses "i-1") = 1 := by
  have h₀ : (operations noFaults fun _ _ => True).Run unguarded ⟨[], Account.vacant⟩ []
    ⟨[], Account.vacant⟩ := .nil
  have h₁ := h₀.start Operation.createWorker.program ⟨.createWorker, trivial, rfl, rfl⟩ trivial
  have h₂ := h₁.serve 0 [] rfl ⟨rfl, rfl⟩ trivial
  have h₃ := h₂.serve 0 "i-1" rfl ⟨vacant_fresh, rfl⟩ trivial
  have h₄ := h₃.serve 0 () rfl rfl trivial
  have h₅ := h₄.change (.boot ⟨_, List.mem_cons_self⟩) trivial
  have h₆ := h₅.start (Operation.registerInstance "i-1").program
    ⟨.registerInstance "i-1", trivial, rfl, List.mem_cons_self, rfl⟩ trivial
  have h₇ := h₆.serve 1 () rfl ⟨⟨_, List.mem_cons_self⟩, rfl⟩ trivial
  have h₈ := h₇.serve 1 () rfl ⟨⟨_, ⟨_, List.mem_cons_self⟩, by decide, by decide⟩, rfl⟩ trivial
  have h₉ := h₈.serve 1 () rfl ⟨⟨_, List.mem_cons_self⟩, rfl⟩ trivial
  refine ⟨_, _, h₉, by decide, ?_⟩
  rw [registration_exactly_once List.nodup_nil (fun _ h => absurd h List.not_mem_nil) h₉ "i-1"]
  rfl

end OdwaManager
