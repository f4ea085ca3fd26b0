import OdwaManager.Effect.Rely

/-! A program of a smaller signature inside a larger one. The larger services treat the calls
it makes as the smaller ones do, beside a component that these calls leave alone. -/
namespace OdwaManager.Effect
variable {C C' : Type} {R' : C' → Type} {ε ε' α β W D : Type}

theorem Program.uses_any {R : C → Type} (p : Program C R ε α) : p.Uses fun _ => True := by
  induction p with
  | ret a => trivial
  | raise e => trivial
  | call c k ih => exact ⟨trivial, ih⟩

/-- The program with its calls and errors renamed. -/
def Program.embed (f : C → C') (g : ε → ε') :
    Program C (fun c => R' (f c)) ε α → Program C' R' ε' α
  | .ret a => .ret a
  | .raise e => .raise (g e)
  | .call c k => .call (f c) fun r => (k r).embed f g

variable {f : C → C'} {g : ε → ε'} {p : Program C (fun c => R' (f c)) ε α}

theorem Program.Uses.embed {allowed : C → Prop} {allowed' : C' → Prop} (hp : p.Uses allowed)
    (h : ∀ c, allowed c → allowed' (f c)) : (p.embed f g).Uses allowed' := by
  induction p with
  | ret a => trivial
  | raise e => trivial
  | call c k ih => exact ⟨h c hp.1, fun r => ih r (hp.2 r)⟩

/-- On the calls named by `f`, the services `S'` do what `S` does and leave the rest alone. -/
structure Extends (S : Services C (fun c => R' (f c)) ε W) (S' : Services C' R' ε' (W × D))
    (g : ε → ε') : Prop where
  serve : ∀ c w r w', S'.serve (f c) w r w' ↔ S.serve c w.1 r w'.1 ∧ w'.2 = w.2
  fail : ∀ c w e, S'.fail (f c) w e ↔ ∃ e₀, e = g e₀ ∧ S.fail c w.1 e₀

variable {S : Services C (fun c => R' (f c)) ε W} {S' : Services C' R' ε' (W × D)}

/-- The runs of the embedded program are those of the program. -/
theorem Extends.runs (h : Extends S S' g) {w w' : W × D} {res : Except ε' α} :
    Runs S' (p.embed f g) w res w' ↔
      ∃ res₀, res = res₀.mapError g ∧ Runs S p w.1 res₀ w'.1 ∧ w'.2 = w.2 := by
  induction p generalizing w with
  | ret a =>
    constructor
    · rintro ⟨rfl, rfl⟩
      exact ⟨.ok a, rfl, ⟨rfl, rfl⟩, rfl⟩
    · rintro ⟨_, rfl, ⟨rfl, hw⟩, hrest⟩
      exact ⟨rfl, Prod.ext hw hrest⟩
  | raise e =>
    constructor
    · rintro ⟨rfl, rfl⟩
      exact ⟨.error e, rfl, ⟨rfl, rfl⟩, rfl⟩
    · rintro ⟨_, rfl, ⟨rfl, hw⟩, hrest⟩
      exact ⟨rfl, Prod.ext hw hrest⟩
  | call c k ih =>
    constructor
    · rintro (⟨r, w₁, hs, hr⟩ | ⟨e, hf, rfl, rfl⟩)
      · obtain ⟨hs, hrest₁⟩ := (h.serve c w r w₁).mp hs
        obtain ⟨res₀, rfl, hr, hrest⟩ := (ih r).mp hr
        exact ⟨res₀, rfl, .inl ⟨r, w₁.1, hs, hr⟩, hrest.trans hrest₁⟩
      · obtain ⟨e₀, rfl, hf₀⟩ := (h.fail c w' e).mp hf
        exact ⟨.error e₀, rfl, .inr ⟨e₀, hf₀, rfl, rfl⟩, rfl⟩
    · rintro ⟨res₀, rfl, ⟨r, w₁, hs, hr⟩ | ⟨e₀, hf, rfl, hw⟩, hrest⟩
      · refine .inl ⟨r, (w₁, w.2), (h.serve c w r (w₁, w.2)).mpr ⟨hs, rfl⟩, ?_⟩
        exact (ih r).mpr ⟨res₀, rfl, hr, hrest⟩
      · exact .inr ⟨g e₀, (h.fail c w _).mpr ⟨e₀, rfl, hf⟩, rfl, Prod.ext hw hrest⟩

/-- What is guarded among the smaller services is guarded among the larger ones. -/
theorem Guards.embed {rely : W → W → Prop} {rely' : W × D → W × D → Prop} {ok : C → W → Prop}
    {ok' : C' → W × D → Prop} {post : α → W → Prop} {w : W × D} (hS : Extends S S' g)
    (hrely : ∀ w w', rely' w w' → rely w.1 w'.1) (hok : ∀ c w, ok c w.1 → ok' (f c) w)
    (h : Guards S rely ok post p w.1) :
    Guards S' rely' ok' (fun a w' => post a w'.1) (p.embed f g) w := by
  induction p generalizing w with
  | ret a => exact h
  | raise e => trivial
  | call c k ih =>
    intro w₁ hw
    obtain ⟨hc, hk⟩ := h w₁.1 (hrely w w₁ hw)
    refine ⟨hok c w₁ hc, fun r w₂ hs => ih r ?_⟩
    exact hk r w₂.1 ((hS.serve c w₁ r w₂).mp hs).1

end OdwaManager.Effect
