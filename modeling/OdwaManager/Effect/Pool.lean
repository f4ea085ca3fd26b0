import OdwaManager.Effect.Serial

/-! Any number of programs in progress at once, one call at a time, in every order, with
new ones starting and the outside changing in between. -/
namespace OdwaManager.Effect
variable {C : Type} {R : C → Type} {ε W : Type}

structure System (C : Type) (R : C → Type) (ε W : Type) where
  services : Services C R ε W
  starts : W → Program C R ε Unit → W → Prop
  env : W → W → Prop

structure Config (C : Type) (R : C → Type) (ε W : Type) where
  threads : List (Program C R ε Unit)
  world : W

inductive Label (C : Type) where
  | start
  | served (thread : Nat) (c : C)
  | failed (thread : Nat) (c : C)
  | env

inductive System.Step (M : System C R ε W) :
    Config C R ε W → Label C → Config C R ε W → Prop
  | start {ts : List (Program C R ε Unit)} {w w' : W} {p : Program C R ε Unit}
    (h : M.starts w p w') : M.Step ⟨ts, w⟩ .start ⟨ts ++ [p], w'⟩
  | served {ts : List (Program C R ε Unit)} {w w' : W} {i : Nat} {c : C}
    {k : R c → Program C R ε Unit} {r : R c}
    (hi : ts[i]? = some (.call c k)) (h : M.services.serve c w r w') :
    M.Step ⟨ts, w⟩ (.served i c) ⟨ts.set i (k r), w'⟩
  | failed {ts : List (Program C R ε Unit)} {w : W} {i : Nat} {c : C}
    {k : R c → Program C R ε Unit} {e : ε}
    (hi : ts[i]? = some (.call c k)) (h : M.services.fail c w e) :
    M.Step ⟨ts, w⟩ (.failed i c) ⟨ts.set i (.raise e), w⟩
  | env {ts : List (Program C R ε Unit)} {w w' : W} (h : M.env w w') :
    M.Step ⟨ts, w⟩ .env ⟨ts, w'⟩

/-- A run whose steps all meet `guard`, which may look at the steps before, latest first. -/
inductive System.Run (M : System C R ε W)
    (guard : List (Label C) → Config C R ε W → Label C → Prop) (s : Config C R ε W) :
    List (Label C) → Config C R ε W → Prop
  | nil : M.Run guard s [] s
  | cons {tr : List (Label C)} {s₁ s₂ : Config C R ε W} {l : Label C}
    (hr : M.Run guard s tr s₁) (hg : guard tr s₁ l) (hs : M.Step s₁ l s₂) :
    M.Run guard s (l :: tr) s₂

def unguarded : List (Label C) → Config C R ε W → Label C → Prop := fun _ _ _ => True

variable {M : System C R ε W} {guard : List (Label C) → Config C R ε W → Label C → Prop}
variable {s s' : Config C R ε W} {tr : List (Label C)}

theorem System.Run.invariant {I : List (Label C) → Config C R ε W → Prop} (h₀ : I [] s)
    (hstep : ∀ tr s₁ l s₂, I tr s₁ → guard tr s₁ l → M.Step s₁ l s₂ → I (l :: tr) s₂)
    (hr : M.Run guard s tr s') : I tr s' := by
  induction hr with
  | nil => exact h₀
  | cons _ hg hs ih => exact hstep _ _ _ _ ih hg hs

theorem System.Run.start {ts : List (Program C R ε Unit)} {w w' : W} (p : Program C R ε Unit)
    (hr : M.Run guard s tr ⟨ts, w⟩) (hp : M.starts w p w') (hg : guard tr ⟨ts, w⟩ .start) :
    M.Run guard s (.start :: tr) ⟨ts ++ [p], w'⟩ :=
  .cons hr hg (.start hp)

theorem System.Run.serve {ts : List (Program C R ε Unit)} {w w' : W} {c : C}
    {k : R c → Program C R ε Unit} (i : Nat) (r : R c) (hr : M.Run guard s tr ⟨ts, w⟩)
    (hi : ts[i]? = some (.call c k)) (h : M.services.serve c w r w')
    (hg : guard tr ⟨ts, w⟩ (.served i c)) :
    M.Run guard s (.served i c :: tr) ⟨ts.set i (k r), w'⟩ :=
  .cons hr hg (.served hi h)

theorem System.Run.fail {ts : List (Program C R ε Unit)} {w : W} {c : C}
    {k : R c → Program C R ε Unit} (i : Nat) (e : ε) (hr : M.Run guard s tr ⟨ts, w⟩)
    (hi : ts[i]? = some (.call c k)) (h : M.services.fail c w e)
    (hg : guard tr ⟨ts, w⟩ (.failed i c)) :
    M.Run guard s (.failed i c :: tr) ⟨ts.set i (.raise e), w⟩ :=
  .cons hr hg (.failed hi h)

theorem System.Run.change {ts : List (Program C R ε Unit)} {w w' : W}
    (hr : M.Run guard s tr ⟨ts, w⟩) (h : M.env w w') (hg : guard tr ⟨ts, w⟩ .env) :
    M.Run guard s (.env :: tr) ⟨ts, w'⟩ :=
  .cons hr hg (.env h)

/-- The thread at `j` after the thread at `i` moved on to `q`. -/
theorem getElem?_set_cases {ts : List (Program C R ε Unit)} {i j : Nat}
    {q q' : Program C R ε Unit} (h : (ts.set i q)[j]? = some q') :
    (j = i ∧ q' = q) ∨ (j ≠ i ∧ ts[j]? = some q') := by
  rw [List.getElem?_set] at h
  split at h
  next hij =>
    split at h
    · exact .inl ⟨hij.symm, (Option.some.inj h).symm⟩
    · cases h
  next hij => exact .inr ⟨Ne.symm hij, h⟩

/-- The thread at `j` after `p` started. -/
theorem getElem?_append_cases {ts : List (Program C R ε Unit)} {j : Nat}
    {p q' : Program C R ε Unit} (h : (ts ++ [p])[j]? = some q') :
    (j = ts.length ∧ q' = p) ∨ (j < ts.length ∧ ts[j]? = some q') := by
  rw [List.getElem?_append] at h
  split at h
  next hj => exact .inr ⟨hj, h⟩
  next hj =>
    obtain ⟨hlt, hq⟩ := List.getElem?_eq_some_iff.mp h
    rw [List.length_singleton] at hlt
    refine .inl ⟨by omega, ?_⟩
    rw [List.getElem_singleton] at hq
    exact hq.symm

end OdwaManager.Effect
