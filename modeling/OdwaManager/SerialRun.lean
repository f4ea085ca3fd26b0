import OdwaManager.Footprint

/-! Runs of whole operations, one after the other, with the outside changing in between. -/
namespace OdwaManager
open Effect Program

inductive Move where
  | op (o : Operation)
  | env
  deriving DecidableEq

section
variable (faults : Call → Account → Prop) (elb : Account → Prop)

inductive SerialStep : Account → Move → Account → Prop
  | op {w w₀ w' : Account} {o : Operation} {res : Except PyError Unit} (hb : o.Begins w w₀)
    (hr : Runs (services faults) o.program w₀ res w') : SerialStep w (.op o) w'
  | env {w w' : Account} (h : Env elb w w') : SerialStep w .env w'

/-- The moves of a run, latest first. -/
inductive SerialRun (w : Account) : List Move → Account → Prop
  | nil : SerialRun w [] w
  | cons {ms : List Move} {m : Move} {w₁ w₂ : Account} (hr : SerialRun w ms w₁)
    (hs : SerialStep faults elb w₁ m w₂) : SerialRun w (m :: ms) w₂

end

variable {faults : Call → Account → Prop} {elb : Account → Prop} {w w' : Account} {ms : List Move}

theorem SerialRun.invariant {I : List Move → Account → Prop} (h₀ : I [] w)
    (hstep : ∀ ms w₁ m w₂, I ms w₁ → SerialStep faults elb w₁ m w₂ → I (m :: ms) w₂)
    (hr : SerialRun faults elb w ms w') : I ms w' := by
  induction hr with
  | nil => exact h₀
  | cons _ hs ih => exact hstep _ _ _ _ ih hs

/-- Only a registration task changes something by being begun. -/
theorem Operation.Begins.eq {o : Operation} (h : o.Begins w w') (ho : ∀ id, o ≠ .registerInstance id) :
    w' = w := by
  cases o with
  | registerInstance id => exact absurd rfl (ho id)
  | tick | createWorker | destroyWorker | detailDestroyWorker | destroyAll | apply | turnOn
  | processStart | stopManager => exact h

theorem Operation.Begins.instances {o : Operation} (h : o.Begins w w') :
    w'.instances = w.instances := by
  cases o with
  | registerInstance id => rw [h.2]; rfl
  | tick | createWorker | destroyWorker | detailDestroyWorker | destroyAll | apply | turnOn
  | processStart | stopManager => rw [show w' = w from h]

theorem Operation.Begins.targets {o : Operation} (h : o.Begins w w') :
    w'.targets = w.targets := by
  cases o with
  | registerInstance id => rw [h.2]; rfl
  | tick | createWorker | destroyWorker | detailDestroyWorker | destroyAll | apply | turnOn
  | processStart | stopManager => rw [show w' = w from h]

end OdwaManager
