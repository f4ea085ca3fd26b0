import OdwaManager.Effect.Tagged

/-! One program on its own for a while: from here to some later point of it, and the same stretch
in a pool in which the others wait. -/
namespace OdwaManager.Effect
open Program
variable {C : Type} {R : C → Type} {ε α β W : Type}

/-- The program comes from `p` to `q` by calls that are answered. -/
inductive Advances (S : Services C R ε W) : Program C R ε α → W → Program C R ε α → W → Prop
  | refl {p : Program C R ε α} {w : W} : Advances S p w p w
  | step {c : C} {k : R c → Program C R ε α} {r : R c} {q : Program C R ε α} {w w₁ w₂ : W}
    (hs : S.serve c w r w₁) (h : Advances S (k r) w₁ q w₂) : Advances S (.call c k) w q w₂

variable {S : Services C R ε W} {p q q' : Program C R ε α} {f : α → Program C R ε β} {w w₁ w₂ : W}

theorem Advances.trans (h₁ : Advances S p w q w₁) (h₂ : Advances S q w₁ q' w₂) : Advances S p w q' w₂ := by
  induction h₁ with
  | refl => exact h₂
  | step hs _ ih => exact .step hs (ih h₂)

theorem Advances.bind (h : Advances S p w q w₁) : Advances S (p >>= f) w (q >>= f) w₁ := by
  induction h with
  | refl => exact .refl
  | step hs _ ih => exact .step hs ih

theorem Advances.of_runs {a : α} (h : Runs S p w (.ok a) w₁) : Advances S p w (.ret a) w₁ := by
  induction p generalizing w with
  | ret b =>
    obtain ⟨hok, rfl⟩ := h
    cases hok
    exact .refl
  | raise e => cases h.1
  | call c k ih =>
    obtain ⟨r, w₂, hs, h⟩ | ⟨_, _, hok, _⟩ := h
    · exact .step hs (ih r h)
    · cases hok

/-- A part that returns hands over to the next one. -/
theorem Runs.advances {a : α} (h : Runs S p w (.ok a) w₁) : Advances S (p >>= f) w (f a) w₁ :=
  (Advances.of_runs h).bind

/-- Whatever the program can do from where it has come to, it can do from the start. -/
theorem Advances.runs {res : Except ε α} (h : Advances S p w q w₁) (hr : Runs S q w₁ res w₂) :
    Runs S p w res w₂ := by
  induction h with
  | refl => exact hr
  | step hs _ ih => exact .inl ⟨_, _, hs, ih hr⟩

/-- In a pool, one program goes on and the others wait. -/
theorem System.Run.advance {M : System C R ε W} {s : Config C R ε W} {tr : List (Label C)}
    {guard : List (Label C) → Config C R ε W → Label C → Prop}
    {before after : List (Program C R ε Unit)} {p q : Program C R ε Unit}
    (hr : M.Run guard s tr ⟨before ++ p :: after, w⟩) (h : Advances M.services p w q w₁)
    (hg : ∀ q' w', Advances M.services p w q' w' → ∀ tr l, guard tr ⟨before ++ q' :: after, w'⟩ l) :
    ∃ tr', M.Run guard s tr' ⟨before ++ q :: after, w₁⟩ := by
  induction h generalizing tr with
  | refl => exact ⟨tr, hr⟩
  | @step c k r q w w₁ w₂ hs _ ih =>
    have hi : (before ++ .call c k :: after)[before.length]? = some (.call c k) := by simp
    have hrun := hr.serve before.length r hi hs (hg _ _ .refl _ _)
    rw [List.set_append_right _ _ (Nat.le_refl _), Nat.sub_self, List.set_cons_zero] at hrun
    exact ih hrun fun q' w' h' => hg q' w' (.step hs h')

theorem Advances.beside {T : Type} (t : T) (h : Advances S p w q w₁) :
    Advances (S.beside T) p (w, t) q (w₁, t) := by
  induction h with
  | refl => exact .refl
  | @step c k r q w w₁ w₂ hs _ ih =>
    have hserve : (S.beside T).serve c (w, t) r (w₁, t) := ⟨hs, rfl⟩
    exact .step hserve ih

theorem Advances.beside_eq {T : Type} {w w' : W × T} (h : Advances (S.beside T) p w q w') :
    w'.2 = w.2 := by
  induction h with
  | refl => rfl
  | step hs _ ih => exact ih.trans hs.2

end OdwaManager.Effect
