import OdwaManager.Effect.Serial

/-! Counting calls. A program is licensed when it makes no charged call before an answer
grants it a number of them, and at most that many afterwards. -/
namespace OdwaManager.Effect.Program
variable {C : Type} {R : C → Type} {ε α β : Type}

/-- At most `n` charged calls on every path through the program. -/
def Bounded (charged : C → Prop) : Nat → Program C R ε α → Prop
  | _, .ret _ => True
  | _, .raise _ => True
  | n, .call c k =>
    (charged c → ∃ m, n = m+1 ∧ ∀ r, (k r).Bounded charged m) ∧
      (¬ charged c → ∀ r, (k r).Bounded charged n)

/-- No call that could grant anything. -/
def Ungranted (grant : (c : C) → R c → Option Nat) (p : Program C R ε α) : Prop :=
  p.Uses fun c => ∀ r, grant c r = none

def Licensed (charged : C → Prop) (grant : (c : C) → R c → Option Nat) :
    Program C R ε α → Prop
  | .ret _ => True
  | .raise _ => True
  | .call c k => ¬ charged c ∧ ∀ r,
    (∀ n, grant c r = some n → (k r).Bounded charged n ∧ (k r).Ungranted grant) ∧
      (grant c r = none → (k r).Licensed charged grant)

variable {charged : C → Prop} {grant : (c : C) → R c → Option Nat}
variable {p : Program C R ε α} {f : α → Program C R ε β}

theorem Bounded.mono {m n : Nat} (h : p.Bounded charged m) (hmn : m ≤ n) :
    p.Bounded charged n := by
  induction p generalizing m n with
  | ret a => trivial
  | raise e => trivial
  | call c k ih =>
    constructor
    · intro hc
      obtain ⟨m', hm, hk⟩ := h.1 hc
      exact ⟨n-1, by omega, fun r => ih r (hk r) (by omega)⟩
    · intro hc r
      exact ih r (h.2 hc r) hmn

theorem Bounded.bind {m n : Nat} (hp : p.Bounded charged m)
    (hf : ∀ a, (f a).Bounded charged n) : (p >>= f).Bounded charged (m+n) := by
  induction p generalizing m with
  | ret a => exact (hf a).mono (by omega)
  | raise e => trivial
  | call c k ih =>
    constructor
    · intro hc
      obtain ⟨m', hm, hk⟩ := hp.1 hc
      exact ⟨m'+n, by omega, fun r => ih r (hk r)⟩
    · intro hc r
      exact ih r (hp.2 hc r)

theorem Bounded.of_uses (n : Nat) (hp : p.Uses fun c => ¬ charged c) : p.Bounded charged n := by
  induction p with
  | ret a => trivial
  | raise e => trivial
  | call c k ih => exact ⟨fun hc => absurd hc hp.1, fun _ r => ih r (hp.2 r)⟩

theorem Bounded.times {q : Program C R ε Unit} (n : Nat) (h : q.Bounded charged 1) :
    (Program.times n q).Bounded charged n := by
  induction n with
  | zero => trivial
  | succ n ih =>
    have hb : (Program.times (n+1) q).Bounded charged (1+n) := Bounded.bind h fun _ => ih
    exact hb.mono (by omega)

/-- A prefix that neither charges nor grants does not matter. -/
theorem Licensed.bind (hp : p.Uses fun c => ¬ charged c ∧ ∀ r, grant c r = none)
    (hf : ∀ a, (f a).Licensed charged grant) : (p >>= f).Licensed charged grant := by
  induction p with
  | ret a => exact hf a
  | raise e => trivial
  | call c k ih =>
    refine ⟨hp.1.1, fun r => ⟨?_, fun _ => ih r (hp.2 r)⟩⟩
    intro n hn
    rw [hp.1.2 r] at hn
    cases hn

theorem Licensed.of_uses (hp : p.Uses fun c => ¬ charged c ∧ ∀ r, grant c r = none) :
    p.Licensed charged grant := by
  induction p with
  | ret a => trivial
  | raise e => trivial
  | call c k ih =>
    refine ⟨hp.1.1, fun r => ⟨?_, fun _ => ih r (hp.2 r)⟩⟩
    intro n hn
    rw [hp.1.2 r] at hn
    cases hn

/-- A granting call, and a rest that stays within what it was granted. -/
theorem Licensed.request {c : C} {g : R c → Program C R ε β} (hc : ¬ charged c)
    (hg : ∀ r, ∃ n, grant c r = some n ∧ (g r).Bounded charged n ∧ (g r).Ungranted grant) :
    (Program.request c >>= g).Licensed charged grant := by
  refine ⟨hc, fun r => ?_⟩
  obtain ⟨n, hn, hb, hu⟩ := hg r
  constructor
  · intro n' hn'
    obtain rfl : n = n' := Option.some.inj (hn.symm.trans hn')
    exact ⟨hb, hu⟩
  · intro hnone
    rw [hn] at hnone
    cases hnone

/-- A rest that neither charges nor grants does not matter. -/
theorem Licensed.append (hp : p.Licensed charged grant)
    (hf : ∀ a, (f a).Uses fun c => ¬ charged c ∧ ∀ r, grant c r = none) :
    (p >>= f).Licensed charged grant := by
  induction p with
  | ret a => exact Licensed.of_uses (hf a)
  | raise e => trivial
  | call c k ih =>
    refine ⟨hp.1, fun r => ⟨?_, fun hn => ih r ((hp.2 r).2 hn)⟩⟩
    intro n hn
    obtain ⟨hb, hu⟩ := (hp.2 r).1 n hn
    refine ⟨?_, Uses.bind hu fun a => (hf a).mono fun c h => h.2⟩
    exact Bounded.bind hb fun a => Bounded.of_uses 0 ((hf a).mono fun c h => h.1)

end OdwaManager.Effect.Program

namespace OdwaManager.Effect
variable {C : Type} {R : C → Type} {ε α W : Type} {S : Services C R ε W}
variable {charged : C → Prop} {grant : (c : C) → R c → Option Nat} {size : W → Nat}
variable {p : Program C R ε α} {w w' : W}

/-- A size that each charged call raises by at most one and no other call raises grows by
no more than the charged calls. -/
theorem Visits.size_le {n : Nat} (hp : p.Bounded charged n)
    (hcharged : ∀ c w r w', charged c → S.serve c w r w' → size w' ≤ size w+1)
    (hfree : ∀ c w r w', ¬ charged c → S.serve c w r w' → size w' ≤ size w)
    (h : Visits S p w w') : size w' ≤ size w+n := by
  induction p generalizing w n with
  | ret a => rw [show w' = w from h]; omega
  | raise e => rw [show w' = w from h]; omega
  | call c k ih =>
    obtain rfl | ⟨r, w₁, hs, hv⟩ := h
    · omega
    · by_cases hc : charged c
      · obtain ⟨m, hm, hk⟩ := hp.1 hc
        have h₁ := hcharged c w r w₁ hc hs
        have h₂ := ih r (hk r) hv
        omega
      · have h₁ := hfree c w r w₁ hc hs
        have h₂ := ih r (hp.2 hc r) hv
        omega

/-- When a grant never exceeds the room left under `cap`, a licensed program does not
take the size past `cap`, at any point of its run. -/
theorem Visits.size_le_cap {cap : Nat} (hp : p.Licensed charged grant)
    (hcharged : ∀ c w r w', charged c → S.serve c w r w' → size w' ≤ size w+1)
    (hfree : ∀ c w r w', ¬ charged c → S.serve c w r w' → size w' ≤ size w)
    (hgrant : ∀ c w r w' n, S.serve c w r w' → grant c r = some n → n ≤ cap-size w')
    (h : Visits S p w w') : size w' ≤ max (size w) cap := by
  induction p generalizing w with
  | ret a => rw [show w' = w from h]; omega
  | raise e => rw [show w' = w from h]; omega
  | call c k ih =>
    obtain rfl | ⟨r, w₁, hs, hv⟩ := h
    · omega
    · have h₁ := hfree c w r w₁ hp.1 hs
      cases hg : grant c r with
      | none =>
        have h₂ := ih r ((hp.2 r).2 hg) hv
        omega
      | some n =>
        have h₂ := hv.size_le ((hp.2 r).1 n hg).1 hcharged hfree
        have h₃ := hgrant c w r w₁ n hs hg
        omega

end OdwaManager.Effect
