import OdwaManager.Effect.Pool

/-! Rely and guarantee. What one program does, whatever the others do as long as they keep
to a relation on worlds, and what a pool of such programs does together. -/
namespace OdwaManager.Effect
variable {C : Type} {R : C → Type} {ε α β W : Type}

section
variable (S : Services C R ε W) (rely : W → W → Prop) (ok : C → W → Prop)

/-- Wherever `rely` has taken the world, the next call is `ok` there, and so on after every
answer. A result meets `post`. -/
def Guards (post : α → W → Prop) : Program C R ε α → W → Prop
  | .ret a, w => post a w
  | .raise _, _ => True
  | .call c k, w => ∀ w₁, rely w w₁ →
    ok c w₁ ∧ ∀ r w₂, S.serve c w₁ r w₂ → Guards post (k r) w₂

end

variable {S : Services C R ε W} {rely : W → W → Prop} {ok : C → W → Prop}
variable {post : β → W → Prop} {p : Program C R ε α} {f : α → Program C R ε β} {w : W}

theorem Guards.bind (h : Guards S rely ok (fun a w₁ => Guards S rely ok post (f a) w₁) p w) :
    Guards S rely ok post (p >>= f) w := by
  change Guards S rely ok post (p.bind f) w
  induction p generalizing w with
  | ret a => exact h
  | raise e => trivial
  | call c k ih =>
    intro w₁ hw
    obtain ⟨hc, hk⟩ := h w₁ hw
    exact ⟨hc, fun r w₂ hs => ih r (hk r w₂ hs)⟩

theorem Guards.mono {post post' : α → W → Prop} (h : Guards S rely ok post p w)
    (hpost : ∀ a w₁, post a w₁ → post' a w₁) : Guards S rely ok post' p w := by
  induction p generalizing w with
  | ret a => exact hpost a w h
  | raise e => trivial
  | call c k ih =>
    intro w₁ hw
    obtain ⟨hc, hk⟩ := h w₁ hw
    exact ⟨hc, fun r w₂ hs => ih r (hk r w₂ hs)⟩

/-- What holds of a program now holds of it later, if the others keep to `rely`. -/
theorem Guards.later {post : α → W → Prop} {w' : W}
    (htrans : ∀ w₁ w₂ w₃, rely w₁ w₂ → rely w₂ w₃ → rely w₁ w₃)
    (hpost : ∀ a w₁ w₂, rely w₁ w₂ → post a w₁ → post a w₂)
    (h : Guards S rely ok post p w) (hw : rely w w') : Guards S rely ok post p w' := by
  cases p with
  | ret a => exact hpost a w w' hw h
  | raise e => trivial
  | call c k => exact fun w₁ hw₁ => h w₁ (htrans w w' w₁ hw hw₁)

theorem Guards.request {c : C} {post : R c → W → Prop}
    (h : ∀ w₁, rely w w₁ → ok c w₁ ∧ ∀ r w₂, S.serve c w₁ r w₂ → post r w₂) :
    Guards S rely ok post (Program.request c) w := h

theorem Guards.of_uses {allowed : C → Prop} (hp : p.Uses allowed)
    (hok : ∀ c w₁, allowed c → ok c w₁) : Guards S rely ok (fun _ _ => True) p w := by
  induction p generalizing w with
  | ret a => trivial
  | raise e => trivial
  | call c k ih => exact fun w₁ _ => ⟨hok c w₁ hp.1, fun r w₂ _ => ih r (hp.2 r)⟩

/-- An assertion that `rely` keeps outlives the program, which keeps to `rely` itself. -/
theorem Guards.frame {post : α → W → Prop} {Q : W → Prop}
    (hserve : ∀ c w₀ w r w', rely w₀ w → ok c w → S.serve c w r w' → rely w w')
    (hQ : ∀ w w', rely w w' → Q w → Q w') (h : Guards S rely ok post p w) (hw : Q w) :
    Guards S rely ok (fun a w' => post a w' ∧ Q w') p w := by
  induction p generalizing w with
  | ret a => exact ⟨h, hw⟩
  | raise e => trivial
  | call c k ih =>
    intro w₁ hw₁
    obtain ⟨hc, hk⟩ := h w₁ hw₁
    refine ⟨hc, fun r w₂ hs => ih r (hk r w₂ hs) ?_⟩
    exact hQ w₁ w₂ (hserve c w w₁ r w₂ hw₁ hc hs) (hQ w w₁ hw₁ hw)

/-- A loop whose body keeps `Q` and is guarded wherever `Q` holds. -/
theorem Guards.each {Q : W → Prop} {g : β → Program C R ε Unit} (l : List β)
    (hg : ∀ b ∈ l, ∀ w₁, Q w₁ → Guards S rely ok (fun _ => Q) (g b) w₁) (hw : Q w) :
    Guards S rely ok (fun _ => Q) (Program.each l g) w := by
  induction l generalizing w with
  | nil => exact hw
  | cons b bs ih =>
    refine Guards.bind ((hg b (by simp) w hw).mono fun _ w₁ hw₁ => ih ?_ hw₁)
    intro b' hb'
    exact hg b' (List.mem_cons_of_mem b hb')

theorem Guards.times {Q : W → Prop} {q : Program C R ε Unit} (n : Nat)
    (hq : ∀ w₁, Q w₁ → Guards S rely ok (fun _ => Q) q w₁) (hw : Q w) :
    Guards S rely ok (fun _ => Q) (Program.times n q) w := by
  induction n generalizing w with
  | zero => exact hw
  | succ n ih => exact Guards.bind ((hq w hw).mono fun _ w₁ hw₁ => ih hw₁)

theorem Guards.forget {post : α → W → Prop} (h : Guards S rely ok post p w) :
    Guards S rely ok (fun _ _ => True) p.forget w :=
  Guards.bind (h.mono fun _ _ _ => trivial)

/-- A pool of guarded programs keeps to what each of them relies on, along every run. -/
theorem System.Run.guards {M : System C R ε W} (rely : W → W → Prop) (ok : C → W → Prop)
    {guard : List (Label C) → Config C R ε W → Label C → Prop} {w₀ : W} {tr : List (Label C)}
    {s : Config C R ε W} (hrefl : ∀ w, rely w₀ w → rely w w) (h₀ : rely w₀ w₀)
    (htrans : ∀ w₁ w₂ w₃, rely w₁ w₂ → rely w₂ w₃ → rely w₁ w₃)
    (hstart : ∀ w p w', rely w₀ w → M.starts w p w' →
      rely w w' ∧ Guards M.services rely ok (fun _ _ => True) p w')
    (hserve : ∀ c w r w', rely w₀ w → ok c w → M.services.serve c w r w' → rely w w')
    (henv : ∀ w w', rely w₀ w → M.env w w' → rely w w')
    (hr : M.Run guard ⟨[], w₀⟩ tr s) :
    rely w₀ s.world ∧
      ∀ p ∈ s.threads, Guards M.services rely ok (fun _ _ => True) p s.world := by
  have hlater : ∀ {w w'} {p : Program C R ε Unit}, rely w w' →
      Guards M.services rely ok (fun _ _ => True) p w →
      Guards M.services rely ok (fun _ _ => True) p w' := by
    intro w w' p hw hp
    exact hp.later htrans (fun _ _ _ _ _ => trivial) hw
  refine hr.invariant (I := fun _ s => rely w₀ s.world ∧
    ∀ p ∈ s.threads, Guards M.services rely ok (fun _ _ => True) p s.world)
    ⟨h₀, fun p hp => absurd hp List.not_mem_nil⟩ ?_
  intro tr s₁ l s₂ h _ hs
  obtain ⟨hw, hps⟩ := h
  cases hs with
  | start hp =>
    obtain ⟨hstep, hnew⟩ := hstart _ _ _ hw hp
    refine ⟨htrans _ _ _ hw hstep, fun q hq => ?_⟩
    obtain hq | hq := List.mem_append.mp hq
    · exact hlater hstep (hps q hq)
    · rw [List.mem_singleton.mp hq]
      exact hnew
  | served hi hserved =>
    obtain ⟨hok, hk⟩ := hps _ (List.mem_of_getElem? hi) _ (hrefl _ hw)
    have hstep := hserve _ _ _ _ hw hok hserved
    refine ⟨htrans _ _ _ hw hstep, fun q hq => ?_⟩
    obtain hq | rfl := List.mem_or_eq_of_mem_set hq
    · exact hlater hstep (hps q hq)
    · exact hk _ _ hserved
  | failed hi hf =>
    refine ⟨hw, fun q hq => ?_⟩
    obtain hq | rfl := List.mem_or_eq_of_mem_set hq
    · exact hps q hq
    · trivial
  | env he =>
    have hstep := henv _ _ hw he
    exact ⟨htrans _ _ _ hw hstep, fun q hq => hlater hstep (hps q hq)⟩

end OdwaManager.Effect
