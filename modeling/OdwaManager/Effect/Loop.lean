import OdwaManager.Effect.Serial

/-! How far a loop gets that raises: some of its rounds have returned, one after the other, and
the next one is cut. -/
namespace OdwaManager.Effect
open Program
variable {C : Type} {R : C → Type} {ε β W : Type}

section
variable (S : Services C R ε W) (f : β → Program C R ε Unit)

/-- The rounds over the list have all returned. -/
inductive Through : W → List β → W → Prop
  | nil {w : W} : Through w [] w
  | cons {b : β} {bs : List β} {w w₁ w₂ : W} (hb : Runs S (f b) w (.ok ()) w₁)
    (hbs : Through w₁ bs w₂) : Through w (b :: bs) w₂

end

variable {S : Services C R ε W} {f : β → Program C R ε Unit} {p : Program C R ε Unit}
  {w w' : W} {res : Except ε Unit}

/-- A loop is through, or has raised in the round after those that it is through with. -/
theorem Runs.each_cut {l : List β} (h : Runs S (each l f) w res w') :
    res = .ok () ∧ Through S f w l w' ∨
      ∃ done b rest w₁ e, l = done ++ b :: rest ∧ Through S f w done w₁ ∧
        Runs S (f b) w₁ (.error e) w' ∧ res = .error e := by
  induction l generalizing w with
  | nil =>
    obtain ⟨rfl, rfl⟩ := h
    exact .inl ⟨rfl, .nil⟩
  | cons b bs ih =>
    obtain ⟨_, w₁, hb, h⟩ | ⟨e, hb, he⟩ := runs_bind.mp h
    · obtain ⟨hok, ht⟩ | ⟨done, b', rest, w₂, e, rfl, ht, he⟩ := ih h
      · exact .inl ⟨hok, .cons hb ht⟩
      · exact .inr ⟨b :: done, b', rest, w₂, e, rfl, .cons hb ht, he⟩
    · exact .inr ⟨[], b, bs, w, e, rfl, .nil, hb, he⟩

theorem times_eq_each (n : Nat) (p : Program C R ε Unit) :
    times n p = each (List.replicate n ()) fun _ => p := by
  induction n with
  | zero => rfl
  | succ n ih => rw [times, ih, List.replicate_succ, each]

theorem each_map {α : Type} (g : α → β) (l : List α) : each (l.map g) f = each l fun a => f (g a) := by
  induction l with
  | nil => rfl
  | cons a l ih => rw [List.map_cons, each, ih, each]

end OdwaManager.Effect
