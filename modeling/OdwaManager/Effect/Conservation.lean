import OdwaManager.Effect.Pool
import OdwaManager.Effect.Order
import Mathlib.Algebra.BigOperators.Group.List.Basic
import Mathlib.Tactic.Abel

/-! Conservation. What the world holds, what the programs in progress carry and what has been
spent on the way add up to the same amount in every order of their steps. -/
namespace OdwaManager.Effect
variable {C : Type} {R : C → Type} {ε W : Type}

/-- Threads that keep an order go on keeping it, if those that start do. -/
theorem System.Step.ordered {M : System C R ε W} {s s' : Config C R ε W} {l : Label C}
    {follows : (c : C) → R c → Option C → Prop} (hs : M.Step s l s')
    (h : ∀ p ∈ s.threads, p.Ordered follows)
    (hstart : ∀ w p w', M.starts w p w' → p.Ordered follows) :
    ∀ p ∈ s'.threads, p.Ordered follows := by
  intro p hp
  cases hs with
  | start hq =>
    obtain hp | hp := List.mem_append.mp hp
    · exact h p hp
    · rw [List.mem_singleton.mp hp]
      exact hstart _ _ _ hq
  | served hi _ =>
    obtain hp | rfl := List.mem_or_eq_of_mem_set hp
    · exact h p hp
    · exact (h _ (List.mem_of_getElem? hi) _).2
  | failed _ _ =>
    obtain hp | rfl := List.mem_or_eq_of_mem_set hp
    · exact h p hp
    · trivial
  | env _ => exact h p hp

theorem sum_indicator {α : Type} (p : α → Bool) (l : List α) :
    (l.map fun a => if p a then (1 : ℤ) else 0).sum = l.countP p := by
  induction l with
  | nil => rfl
  | cons a l ih =>
    rw [List.map_cons, List.sum_cons, ih, List.countP_cons]
    split <;> simp [add_comm]

/-- The books of a system. A program carries what its next call is about: it takes it from
the world when it is started or answered, and a call that fails spends what it was about. -/
structure Ledger (M : System C R ε W) (G : Type) [AddCommGroup G] where
  held : W → G
  carried : C → G
  spent : Label C → G
  follows : (c : C) → R c → Option C → Prop
  start : ∀ w p w', M.starts w p w' →
    p.Ordered follows ∧ held w' + p.head.elim 0 carried = held w
  served : ∀ i c w r w' h, M.services.serve c w r w' → follows c r h →
    held w' + h.elim 0 carried + spent (.served i c) = held w + carried c
  failed : ∀ i c, spent (.failed i c) = carried c
  env : ∀ w w', M.env w w' → held w' = held w
  spent_start : spent .start = 0
  spent_env : spent .env = 0

namespace Ledger
variable {G : Type} [AddCommGroup G] {M : System C R ε W} (L : Ledger M G)

def inHand (p : Program C R ε Unit) : G := p.head.elim 0 L.carried

/-- What is held, in hand and spent. -/
def total (tr : List (Label C)) (s : Config C R ε W) : G :=
  L.held s.world + (s.threads.map L.inHand).sum + (tr.map L.spent).sum

/-- What the threads carry after thread `i` moved on to `q`. -/
theorem sum_set {ts : List (Program C R ε Unit)} {i : Nat} {p q : Program C R ε Unit}
    (hi : ts[i]? = some p) :
    ((ts.set i q).map L.inHand).sum + L.inHand p = (ts.map L.inHand).sum + L.inHand q := by
  obtain ⟨hlt, rfl⟩ := List.getElem?_eq_some_iff.mp hi
  rw [List.map_set, List.sum_set', dif_pos (by simpa using hlt), List.getElem_map]
  abel

theorem step_total {s s' : Config C R ε W} {l : Label C} {tr : List (Label C)}
    (hs : M.Step s l s') (ho : ∀ p ∈ s.threads, p.Ordered L.follows) :
    L.total (l :: tr) s' = L.total tr s := by
  simp only [total, List.map_cons, List.sum_cons]
  cases hs with
  | @start ts w w' p hp =>
    have hbalance := (L.start w p w' hp).2
    rw [List.map_append, List.sum_append, List.map_singleton, List.sum_singleton, L.spent_start,
      ← hbalance]
    change _ = L.held w' + L.inHand p + _ + _
    abel
  | @served ts w w' i c k r hi hserved =>
    have hbalance := L.served i c w r w' (k r).head hserved (ho _ (List.mem_of_getElem? hi) r).1
    have hsum := L.sum_set (q := k r) hi
    change L.held w' + L.inHand (k r) + _ = _ + L.inHand (.call c k) at hbalance
    have hset : ((ts.set i (k r)).map L.inHand).sum =
        (ts.map L.inHand).sum + L.inHand (k r) - L.inHand (.call c k) := eq_sub_of_add_eq hsum
    have hheld : L.held w' =
        L.held w + L.inHand (.call c k) - (L.inHand (k r) + L.spent (.served i c)) := by
      rw [← hbalance]
      abel
    rw [hset, hheld]
    abel
  | @failed ts w i c k e hi hf =>
    have hsum := L.sum_set (q := .raise e) hi
    rw [L.failed i c]
    change ((ts.set i (.raise e)).map L.inHand).sum + L.carried c = _ + 0 at hsum
    rw [add_zero] at hsum
    rw [← hsum]
    abel
  | @env ts w w' he => rw [L.env w w' he, L.spent_env, zero_add]

/-- Nothing is lost or made in any order of the steps. -/
theorem run_total {guard : List (Label C) → Config C R ε W → Label C → Prop} {w₀ : W}
    {tr : List (Label C)} {s : Config C R ε W} (hr : M.Run guard ⟨[], w₀⟩ tr s) :
    L.total tr s = L.held w₀ := by
  refine (hr.invariant (I := fun tr s =>
    (∀ p ∈ s.threads, p.Ordered L.follows) ∧ L.total tr s = L.held w₀) ⟨?_, ?_⟩ ?_).2
  · intro p hp
    exact absurd hp List.not_mem_nil
  · simp [total]
  · intro tr s₁ l s₂ h _ hs
    obtain ⟨ho, htotal⟩ := h
    refine ⟨?_, (L.step_total hs ho).trans htotal⟩
    exact hs.ordered ho fun w p w' hp => (L.start w p w' hp).1

end Ledger
end OdwaManager.Effect
