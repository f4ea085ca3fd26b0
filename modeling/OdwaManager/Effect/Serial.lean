import OdwaManager.Effect.Program

/-! What one program does when nothing else happens between its calls: the result of a
whole run, every world on the way, and the rules by which a run keeps an invariant. -/
namespace OdwaManager.Effect
variable {C : Type} {R : C → Type} {ε α β W : Type}

/-- What the outside does with a call: an answer and the world after it, or a failure
that leaves the world as it was. A call that has neither blocks. -/
structure Services (C : Type) (R : C → Type) (ε W : Type) where
  serve : (c : C) → W → R c → W → Prop
  fail : C → W → ε → Prop

section
variable (S : Services C R ε W)

def Runs : Program C R ε α → W → Except ε α → W → Prop
  | .ret a, w, res, w' => res = .ok a ∧ w' = w
  | .raise e, w, res, w' => res = .error e ∧ w' = w
  | .call c k, w, res, w' =>
    (∃ r w₁, S.serve c w r w₁ ∧ Runs (k r) w₁ res w') ∨
      ∃ e, S.fail c w e ∧ res = .error e ∧ w' = w

/-- The worlds a run passes through, its first and its last included. -/
def Visits : Program C R ε α → W → W → Prop
  | .ret _, w, w' => w' = w
  | .raise _, w, w' => w' = w
  | .call c k, w, w' => w' = w ∨ ∃ r w₁, S.serve c w r w₁ ∧ Visits (k r) w₁ w'

/-- A whole run from a world with `I` ends in a world with `I`, raised or not. -/
def Keeps (I : W → Prop) (p : Program C R ε α) : Prop :=
  ∀ w res w', I w → Runs S p w res w' → I w'

/-- From `w` the program can only answer `a` and leave `w₁`. -/
def Does (p : Program C R ε α) (w : W) (a : α) (w₁ : W) : Prop :=
  ∀ res w', Runs S p w res w' ↔ res = .ok a ∧ w' = w₁

/-- From `w` the program can only answer `a`, and changes nothing. -/
abbrev Yields (p : Program C R ε α) (w : W) (a : α) : Prop := Does S p w a w

/-- The program can run from `w`, and every way it can run ends as `post` says. -/
def Ensures (p : Program C R ε α) (w : W) (post : Except ε α → W → Prop) : Prop :=
  (∃ res w', Runs S p w res w') ∧ ∀ res w', Runs S p w res w' → post res w'

end

variable {S : Services C R ε W} {p : Program C R ε α} {f : α → Program C R ε β}
variable {w w' : W}

@[simp] theorem runs_ret (a : α) (res : Except ε α) :
    Runs S (.ret a) w res w' ↔ res = .ok a ∧ w' = w := Iff.rfl

@[simp] theorem runs_pure (a : α) (res : Except ε α) :
    Runs S (pure a) w res w' ↔ res = .ok a ∧ w' = w := Iff.rfl

@[simp] theorem runs_raise (e : ε) (res : Except ε α) :
    Runs S (.raise e) w res w' ↔ res = .error e ∧ w' = w := Iff.rfl

theorem runs_request {c : C} {res : Except ε (R c)} :
    Runs S (Program.request c) w res w' ↔
      (∃ r, S.serve c w r w' ∧ res = .ok r) ∨ ∃ e, S.fail c w e ∧ res = .error e ∧ w' = w := by
  constructor
  · rintro (⟨r, w₁, hs, rfl, rfl⟩ | h)
    · exact .inl ⟨r, hs, rfl⟩
    · exact .inr h
  · rintro (⟨r, hs, rfl⟩ | h)
    · exact .inl ⟨r, w', hs, rfl, rfl⟩
    · exact .inr h

/-- A run of a sequence is a run of its first part, then of the rest unless that raised. -/
theorem runs_bind {res : Except ε β} :
    Runs S (p >>= f) w res w' ↔
      (∃ a w₁, Runs S p w (.ok a) w₁ ∧ Runs S (f a) w₁ res w') ∨
        ∃ e, Runs S p w (.error e) w' ∧ res = .error e := by
  change Runs S (p.bind f) w res w' ↔ _
  induction p generalizing w with
  | ret a => simp [Program.bind]
  | raise e => simp [Program.bind, and_comm]
  | call c k ih =>
    simp only [Program.bind, Runs, ih]
    constructor
    · rintro (⟨r, w₁, hs, ⟨a, w₂, ha, hf⟩ | ⟨e, he, rfl⟩⟩ | ⟨e, hf, rfl, rfl⟩)
      · exact .inl ⟨a, w₂, .inl ⟨r, w₁, hs, ha⟩, hf⟩
      · exact .inr ⟨e, .inl ⟨r, w₁, hs, he⟩, rfl⟩
      · exact .inr ⟨e, .inr ⟨e, hf, rfl, rfl⟩, rfl⟩
    · rintro (⟨a, w₂, ⟨r, w₁, hs, ha⟩ | ⟨e, _, he, _⟩, hf⟩ |
        ⟨e, ⟨r, w₁, hs, he⟩ | ⟨e', hf, he, rfl⟩, rfl⟩)
      · exact .inl ⟨r, w₁, hs, .inl ⟨a, w₂, ha, hf⟩⟩
      · cases he
      · exact .inl ⟨r, w₁, hs, .inr ⟨e, he, rfl⟩⟩
      · cases he
        exact .inr ⟨e, hf, rfl, rfl⟩

theorem Runs.bind {a : α} {w₁ : W} {res : Except ε β} (hp : Runs S p w (.ok a) w₁)
    (hf : Runs S (f a) w₁ res w') : Runs S (p >>= f) w res w' :=
  runs_bind.mpr (.inl ⟨a, w₁, hp, hf⟩)

/-- A call that raises has changed nothing; else the run goes on with its answer. -/
theorem runs_request_bind {c : C} {g : R c → Program C R ε β} {res : Except ε β}
    (h : Runs S (Program.request c >>= g) w res w') :
    w' = w ∨ ∃ r w₁, S.serve c w r w₁ ∧ Runs S (g r) w₁ res w' := by
  obtain ⟨r, w₁, hs, hr⟩ | ⟨e, _, _, hw⟩ := h
  · exact .inr ⟨r, w₁, hs, hr⟩
  · exact .inl hw

theorem runs_request_cases {c : C} {res : Except ε (R c)}
    (h : Runs S (Program.request c) w res w') : w' = w ∨ ∃ r, S.serve c w r w' := by
  obtain ⟨r, hs, _⟩ | ⟨e, _, _, hw⟩ := runs_request.mp h
  · exact .inr ⟨r, hs⟩
  · exact .inl hw

/-- A last step that only computes changes the answer and nothing else. -/
theorem runs_map {g : α → β} {res : Except ε β} :
    Runs S (p >>= fun a => pure (g a)) w res w' ↔ ∃ r, Runs S p w r w' ∧ res = r.map g := by
  rw [runs_bind]
  constructor
  · intro h
    obtain ⟨a, w₁, ha, rfl, rfl⟩ | ⟨e, he, rfl⟩ := h
    · exact ⟨.ok a, ha, rfl⟩
    · exact ⟨.error e, he, rfl⟩
  · intro h
    obtain ⟨r, hr, rfl⟩ := h
    cases r with
    | ok a => exact .inl ⟨a, w', hr, rfl, rfl⟩
    | error e => exact .inr ⟨e, hr, rfl⟩

theorem Runs.visits {res : Except ε α} (h : Runs S p w res w') : Visits S p w w' := by
  induction p generalizing w with
  | ret a => exact h.2
  | raise e => exact h.2
  | call c k ih =>
    obtain ⟨r, w₁, hs, hr⟩ | ⟨e, _, _, rfl⟩ := h
    · exact .inr ⟨r, w₁, hs, ih r hr⟩
    · exact .inl rfl

/-- A preorder on worlds that every allowed call respects is respected by the whole run,
and by each of its parts. -/
theorem Visits.respects {allowed : C → Prop} (rel : W → W → Prop) (hp : p.Uses allowed)
    (hrefl : ∀ w, rel w w) (htrans : ∀ w₁ w₂ w₃, rel w₁ w₂ → rel w₂ w₃ → rel w₁ w₃)
    (hstep : ∀ c w r w', allowed c → S.serve c w r w' → rel w w')
    (h : Visits S p w w') : rel w w' := by
  induction p generalizing w with
  | ret a => rw [show w' = w from h]; exact hrefl w
  | raise e => rw [show w' = w from h]; exact hrefl w
  | call c k ih =>
    obtain rfl | ⟨r, w₁, hs, hv⟩ := h
    · exact hrefl w'
    · exact htrans w w₁ w' (hstep c w r w₁ hp.1 hs) (ih r (hp.2 r) hv)

/-- What no allowed call changes, the run does not change. -/
theorem Visits.preserves {γ : Type} {allowed : C → Prop} (g : W → γ) (hp : p.Uses allowed)
    (hstep : ∀ c w r w', allowed c → S.serve c w r w' → g w' = g w)
    (h : Visits S p w w') : g w' = g w := by
  refine h.respects (fun w w' => g w' = g w) hp (fun _ => rfl) ?_ hstep
  intro w₁ w₂ w₃ h₁ h₂
  exact h₂.trans h₁

section Keeps
variable {I : W → Prop}

theorem Keeps.of_uses {allowed : C → Prop} (hp : p.Uses allowed)
    (hstep : ∀ c w r w', allowed c → S.serve c w r w' → I w → I w') : Keeps S I p := by
  intro w res w' hi hr
  exact hr.visits.respects (fun w w' => I w → I w') hp (fun _ h => h)
    (fun _ _ _ h₁ h₂ h => h₂ (h₁ h)) hstep hi

theorem Keeps.pure (a : α) : Keeps S I (pure a : Program C R ε α) := by
  rintro w res w' hi ⟨_, rfl⟩
  exact hi

theorem Keeps.bind (hp : Keeps S I p) (hf : ∀ a, Keeps S I (f a)) : Keeps S I (p >>= f) := by
  intro w res w' hi hr
  obtain ⟨a, w₁, ha, hr⟩ | ⟨e, he, rfl⟩ := runs_bind.mp hr
  · exact hf a w₁ res w' (hp w _ w₁ hi ha) hr
  · exact hp w _ w' hi he

theorem Keeps.forget (hp : Keeps S I p) : Keeps S I p.forget :=
  hp.bind fun _ => Keeps.pure ()

theorem Keeps.each {g : β → Program C R ε Unit} (l : List β)
    (h : ∀ b ∈ l, Keeps S I (g b)) : Keeps S I (Program.each l g) := by
  induction l with
  | nil => exact Keeps.pure ()
  | cons b bs ih =>
    refine Keeps.bind (h b (by simp)) fun _ => ih ?_
    intro b' hb'
    exact h b' (List.mem_cons_of_mem b hb')

theorem Keeps.times {q : Program C R ε Unit} (n : Nat) (h : Keeps S I q) :
    Keeps S I (Program.times n q) := by
  induction n with
  | zero => exact Keeps.pure ()
  | succ n ih => exact Keeps.bind h fun _ => ih

end Keeps

section Does
variable {a : α} {b : β} {w₁ w₂ : W}

theorem Does.pure : Does S (pure a : Program C R ε α) w a w := fun _ _ => Iff.rfl

/-- The run goes on with the answer and the world that the first part leaves. -/
theorem Does.runs_bind (h : Does S p w a w₁) {res : Except ε β} :
    Runs S (p >>= f) w res w' ↔ Runs S (f a) w₁ res w' := by
  rw [Effect.runs_bind]
  constructor
  · intro hr
    obtain ⟨a', w₂, ha, hf⟩ | ⟨e, he, _⟩ := hr
    · obtain ⟨hok, rfl⟩ := (h _ _).mp ha
      cases hok
      exact hf
    · cases ((h _ _).mp he).1
  · intro hf
    exact .inl ⟨a, w₁, (h _ _).mpr ⟨rfl, rfl⟩, hf⟩

theorem Does.bind (h : Does S p w a w₁) (hf : Does S (f a) w₁ b w₂) :
    Does S (p >>= f) w b w₂ :=
  fun res w' => h.runs_bind.trans (hf res w')

theorem Does.runs (h : Does S p w a w₁) : Runs S p w (.ok a) w₁ := (h _ _).mpr ⟨rfl, rfl⟩

end Does

@[simp] theorem ensures_pure {a : α} {post : Except ε α → W → Prop} :
    Ensures S (pure a : Program C R ε α) w post ↔ post (.ok a) w := by
  simp [Ensures]

@[simp] theorem ensures_raise {e : ε} {post : Except ε α → W → Prop} :
    Ensures S (.raise e : Program C R ε α) w post ↔ post (.error e) w := by
  simp [Ensures]

theorem Ensures.mono {post post' : Except ε α → W → Prop} (h : Ensures S p w post)
    (hpost : ∀ res w', post res w' → post' res w') : Ensures S p w post' :=
  ⟨h.1, fun res w' hr => hpost res w' (h.2 res w' hr)⟩

end OdwaManager.Effect
