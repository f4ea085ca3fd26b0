import OdwaManager.Effect.Embed

/-! Which errors a program can raise, and in which worlds. -/
namespace OdwaManager.Effect
open Program
variable {C : Type} {R : C → Type} {ε α β W : Type}

/-- The program can run from `w`, and where it raises, error and world are as `E` says. -/
def RaisesOnly (S : Services C R ε W) (E : ε → W → Prop) (p : Program C R ε α) (w : W) : Prop :=
  Ensures S p w fun res w' => ∀ e, res = .error e → E e w'

section
variable {S : Services C R ε W} {E : ε → W → Prop} {p : Program C R ε α} {f : α → Program C R ε β}
  {w w₁ : W} {a : α}

theorem RaisesOnly.pure : RaisesOnly S E (pure a : Program C R ε α) w := by
  simp [RaisesOnly]

theorem RaisesOnly.raise {e : ε} (h : E e w) : RaisesOnly S E (.raise e : Program C R ε α) w := by
  simp [RaisesOnly, h]

theorem Does.raisesOnly (h : Does S p w a w₁) : RaisesOnly S E p w := by
  refine ⟨⟨_, _, h.runs⟩, fun res w' hr e he => ?_⟩
  cases he.symm.trans ((h res w').mp hr).1

theorem RaisesOnly.bind (hp : RaisesOnly S E p w)
    (hf : ∀ a w₁, Runs S p w (.ok a) w₁ → RaisesOnly S E (f a) w₁) : RaisesOnly S E (p >>= f) w := by
  obtain ⟨⟨res, w₁, hr⟩, hall⟩ := hp
  refine ⟨?_, fun res' w' hrun e he => ?_⟩
  · cases res with
    | error e => exact ⟨.error e, w₁, runs_bind.mpr (.inr ⟨e, hr, rfl⟩)⟩
    | ok a =>
      obtain ⟨res', w', hr'⟩ := (hf a w₁ hr).1
      exact ⟨res', w', hr.bind hr'⟩
  · obtain ⟨a, w₁, ha, hrest⟩ | ⟨e', he', rfl⟩ := runs_bind.mp hrun
    · exact (hf a w₁ ha).2 _ _ hrest e he
    · cases he
      exact hall _ _ he' e rfl

end

/-- Among larger services a program raises what it raises among its own. -/
theorem RaisesOnly.embed {C' : Type} {R' : C' → Type} {ε' D : Type} {f : C → C'} {g : ε → ε'}
    {p : Program C (fun c => R' (f c)) ε α} {S : Services C (fun c => R' (f c)) ε W}
    {S' : Services C' R' ε' (W × D)} {E : ε → W → Prop} {E' : ε' → W × D → Prop} {w : W × D}
    (hS : Extends S S' g) (hE : ∀ e w', E e w'.1 → E' (g e) w') (h : RaisesOnly S E p w.1) :
    RaisesOnly S' E' (p.embed f g) w := by
  obtain ⟨⟨res, w', hr⟩, hall⟩ := h
  refine ⟨⟨_, (w', w.2), hS.runs.mpr ⟨res, rfl, hr, rfl⟩⟩, fun res' w₁ hrun e he => ?_⟩
  obtain ⟨res₀, rfl, hr₀, _⟩ := hS.runs.mp hrun
  cases res₀ with
  | ok a => cases he
  | error e₀ =>
    cases he
    exact hE e₀ w₁ (hall _ _ hr₀ e₀ rfl)

end OdwaManager.Effect
