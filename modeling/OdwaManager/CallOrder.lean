import OdwaManager.Footprint
import OdwaManager.Effect.Order

/-! The order of the calls in a creation, a registration and a destroy, and in which of
them an operation is in the middle of its work on an instance. -/
namespace OdwaManager
open Effect Program

/-- The calls in the middle of an operation on an instance: it has been created, its task
has been taken from the queue, or it has been deregistered. -/
def Call.Concerns : Call → InstanceId → Prop
  | .applyAsync j, id | .waitRunning j, id | .associateProfile j, id | .registerTargets j, id
  | .describeInstance j, id | .terminate j, id => j = id
  | _, _ => False

/-- The calls that come only once the waiter has returned. -/
def Call.AfterWait : Call → InstanceId → Prop
  | .associateProfile j, id | .registerTargets j, id => j = id
  | _, _ => False

/-- The call that must come next in the four operations on the fleet, if there is one. -/
def Call.next : (c : Call) → Answer c → Option Call
  | .createInstances _, id => some (.applyAsync id)
  | .waitRunning id, _ => some (.associateProfile id)
  | .associateProfile id, _ => some (.registerTargets id)
  | .deregisterTargets id, _ => some (.describeInstance id)
  | .describeInstance _, r => r.head?.map fun i => .terminate i.id
  | _, _ => none

/-- The next call is the one that must come, or one that starts something new. -/
def Follows (c : Call) (r : Answer c) (h : Option Call) : Prop :=
  match c.next r with
  | some c' => h = some c'
  | none => ∀ c', h = some c' → ∀ id, ¬ c'.AfterWait id

theorem follows_end {c : Call} {r : Answer c} {h : Option Call} (hn : Follows c r none)
    (ho : ∀ c', h = some c' → ∀ id, ¬ c'.AfterWait id) : Follows c r h := by
  unfold Follows at hn ⊢
  cases hnext : c.next r with
  | none => exact ho
  | some c' =>
    rw [hnext] at hn
    cases hn

theorem follows_must {c c' : Call} {r : Answer c} (h : c.next r = some c') :
    Follows c r (some c') := by
  rw [Follows, h]

theorem follows_none {c : Call} {r : Answer c} (h : c.next r = none) : Follows c r none := by
  rw [Follows, h]
  intro c' hc'
  cases hc'

theorem celeryCreateWorker_ordered : celeryCreateWorker.Ordered Follows :=
  fun _ => ⟨follows_must rfl, fun _ => ⟨follows_none rfl, trivial⟩⟩

theorem registerInstanceToElb_ordered (id : InstanceId) :
    (registerInstanceToElb id).Ordered Follows :=
  fun _ => ⟨follows_must rfl, fun _ => ⟨follows_must rfl, fun _ => ⟨follows_none rfl, trivial⟩⟩⟩

theorem destroyAWorker_ordered (id : InstanceId) : (destroyAWorker id).Ordered Follows := by
  refine fun _ => ⟨follows_must rfl, fun r => ?_⟩
  cases r with
  | nil => exact ⟨follows_none rfl, trivial⟩
  | cons i l => exact ⟨follows_must rfl, fun _ => ⟨follows_none rfl, trivial⟩⟩

/-- A program that never registers can come after anything that has ended. -/
theorem follows_uses {α : Type} {p : Op α} {allowed : Call → Prop} {c : Call} {r : Answer c}
    (hp : p.Uses allowed) (h : ∀ c, allowed c → ∀ id, ¬ c.AfterWait id) (hn : Follows c r none) :
    Follows c r p.head :=
  follows_end hn fun c' hc' => h c' (hp.head hc')

theorem Call.not_afterWait {c : Call} (h : c.Observes ∨ c.Destroys) (id : InstanceId) :
    ¬ c.AfterWait id := by
  cases c <;> simp_all [Call.Observes, Call.Destroys, Call.AfterWait]

theorem randomDestroyWorker_ordered (k : ℤ) : (randomDestroyWorker k).Ordered Follows := by
  have hdestroy : ∀ id, (destroyAWorker id).Uses fun c => c.Observes ∨ c.Destroys :=
    fun id => (destroyAWorker_uses id).mono fun c h => .inr h
  have hloop : ∀ l, (each l destroyAWorker).Ordered Follows := by
    intro l
    refine Ordered.each l destroyAWorker_ordered fun c r id hn => ?_
    exact follows_uses (hdestroy id) (fun c h => Call.not_afterWait h) hn
  intro r
  refine ⟨follows_uses ((randomDestroyWorker_uses k).2 r) (fun c h => Call.not_afterWait h)
    (follows_none rfl), ?_⟩
  change (if (inserviceIds r).card = 0 then _ else _ : Op Bool).Ordered Follows
  split
  · trivial
  · refine Ordered.bind ?_ (fun l => (hloop l).bind (fun _ => trivial) fun _ _ _ hn => hn) ?_
    · unfold randomSample
      split
      · exact Ordered.request fun r => follows_none rfl
      · trivial
    · intro c r l hn
      refine head_bind (follows_uses (Uses.each l fun id _ => hdestroy id) ?_ hn) fun _ hn => hn
      exact fun c h => Call.not_afterWait h

theorem follows_afterWait {c c' : Call} {r : Answer c} {id : InstanceId}
    (hf : Follows c r (some c')) (ha : c'.AfterWait id) :
    c = .waitRunning id ∨ c = .associateProfile id := by
  have hnew : c.next r = none → c = .waitRunning id ∨ c = .associateProfile id := by
    intro hn
    rw [Follows, hn] at hf
    exact absurd ha (hf c' rfl id)
  cases c with
  | waitRunning j =>
    cases hf
    cases ha
    exact .inl rfl
  | associateProfile j =>
    cases hf
    cases ha
    exact .inr rfl
  | createInstances _ | deregisterTargets _ =>
    cases hf
    exact False.elim ha
  | describeInstance j =>
    cases r with
    | nil => exact hnew rfl
    | cons i l =>
      cases hf
      exact False.elim ha
  | _ => exact hnew rfl

end OdwaManager
