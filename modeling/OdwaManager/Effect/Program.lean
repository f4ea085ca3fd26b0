import Mathlib.Tactic.Common

/-! Programs over calls to outside services. A program is data: it names its next call
and what it does with the answer, so the same text can be run to its end, cut at any
call, or interleaved with other programs. -/
namespace OdwaManager.Effect

inductive Program (C : Type) (R : C → Type) (ε α : Type) where
  | ret (a : α)
  | raise (e : ε)
  | call (c : C) (k : R c → Program C R ε α)

namespace Program
variable {C : Type} {R : C → Type} {ε α β : Type}

def bind : Program C R ε α → (α → Program C R ε β) → Program C R ε β
  | .ret a, f => f a
  | .raise e, _ => .raise e
  | .call c k, f => .call c fun r => (k r).bind f

instance : Monad (Program C R ε) where
  pure := .ret
  bind := bind

def request (c : C) : Program C R ε (R c) := .call c .ret

/-- A for loop over a list that is already known. -/
def each : List β → (β → Program C R ε Unit) → Program C R ε Unit
  | [], _ => pure ()
  | b :: bs, f => f b >>= fun _ => each bs f

/-- A loop that runs its body a fixed number of times. -/
def times : Nat → Program C R ε Unit → Program C R ε Unit
  | 0, _ => pure ()
  | n+1, p => p >>= fun _ => times n p

/-- The program with its result thrown away, as a request handler or a task. -/
def forget (p : Program C R ε α) : Program C R ε Unit := p >>= fun _ => pure ()

/-- Every call the program can make, whatever answers it gets, is allowed. -/
def Uses (allowed : C → Prop) : Program C R ε α → Prop
  | .ret _ => True
  | .raise _ => True
  | .call c k => allowed c ∧ ∀ r, (k r).Uses allowed

section Uses
variable {allowed other : C → Prop} {p : Program C R ε α}

theorem Uses.bind {f : α → Program C R ε β} (hp : p.Uses allowed)
    (hf : ∀ a, (f a).Uses allowed) : (p >>= f).Uses allowed := by
  induction p with
  | ret a => exact hf a
  | raise e => trivial
  | call c k ih => exact ⟨hp.1, fun r => ih r (hp.2 r)⟩

theorem Uses.mono (hp : p.Uses allowed) (h : ∀ c, allowed c → other c) : p.Uses other := by
  induction p with
  | ret a => trivial
  | raise e => trivial
  | call c k ih => exact ⟨h c hp.1, fun r => ih r (hp.2 r)⟩

theorem Uses.pure (a : α) : (pure a : Program C R ε α).Uses allowed := trivial

theorem Uses.request {c : C} (h : allowed c) :
    (request c : Program C R ε (R c)).Uses allowed :=
  ⟨h, fun _ => trivial⟩

theorem Uses.each {f : β → Program C R ε Unit} (l : List β)
    (h : ∀ b ∈ l, (f b).Uses allowed) : (each l f).Uses allowed := by
  induction l with
  | nil => trivial
  | cons b bs ih =>
    refine Uses.bind (h b (by simp)) fun _ => ih ?_
    intro b' hb'
    exact h b' (List.mem_cons_of_mem b hb')

theorem Uses.times {q : Program C R ε Unit} (n : Nat) (h : q.Uses allowed) :
    (times n q).Uses allowed := by
  induction n with
  | zero => trivial
  | succ n ih => exact Uses.bind h fun _ => ih

theorem Uses.forget (h : p.Uses allowed) : p.forget.Uses allowed :=
  Uses.bind h fun _ => trivial

end Uses
end Program
end OdwaManager.Effect
