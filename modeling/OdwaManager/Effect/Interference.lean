import OdwaManager.Effect.Serial

/-! One program among changes that it does not make: the world may move before each of its
calls, and a log keeps what the program was told. -/
namespace OdwaManager.Effect
variable {C : Type} {R : C → Type} {ε α β W E : Type}

/-- The services when the world may `change` before each call. -/
def Services.under (S : Services C R ε W) (change : W → W → Prop) : Services C R ε W where
  serve c w r w' := ∃ w₁, change w w₁ ∧ S.serve c w₁ r w'
  fail c w e := ∃ w₁, change w w₁ ∧ S.fail c w₁ e

/-- The services when the world may `change` after each call that is served. -/
def Services.followed (S : Services C R ε W) (change : W → W → Prop) : Services C R ε W where
  serve c w r w' := ∃ w₁, S.serve c w r w₁ ∧ change w₁ w'
  fail := S.fail

/-- The services with a log of the answers that `note` picks out, latest first. -/
def Services.noting (S : Services C R ε W) (note : (c : C) → R c → List E) :
    Services C R ε (W × List E) where
  serve c w r w' := S.serve c w.1 r w'.1 ∧ w'.2 = note c r ++ w.2
  fail c w e := S.fail c w.1 e

/-- The services for the runs that make no call where it is not `ok`. -/
def Services.only (S : Services C R ε W) (ok : C → W → Prop) : Services C R ε W where
  serve c w r w' := ok c w ∧ S.serve c w r w'
  fail c w e := ok c w ∧ S.fail c w e

/-- From a world with `I` every run ends in one, and does not raise. -/
def Succeeds (S : Services C R ε W) (I : W → Prop) (p : Program C R ε α) : Prop :=
  ∀ w res w', I w → Runs S p w res w' → I w' ∧ ∃ a, res = .ok a

variable {S : Services C R ε W} {I : W → Prop} {p : Program C R ε α} {f : α → Program C R ε β}

theorem Succeeds.pure (a : α) : Succeeds S I (pure a : Program C R ε α) := by
  intro w res w' hi hr
  rw [hr.1, hr.2]
  exact ⟨hi, a, rfl⟩

theorem Succeeds.bind (hp : Succeeds S I p) (hf : ∀ a, Succeeds S I (f a)) :
    Succeeds S I (p >>= f) := by
  intro w res w' hi hr
  obtain ⟨a, w₁, ha, hr⟩ | ⟨e, he, _⟩ := runs_bind.mp hr
  · exact hf a w₁ res w' (hp w _ w₁ hi ha).1 hr
  · obtain ⟨_, _, hok⟩ := hp w _ w' hi he
    cases hok

theorem Succeeds.request {c : C} (hs : ∀ w r w', I w → S.serve c w r w' → I w')
    (hf : ∀ w e, I w → ¬ S.fail c w e) :
    Succeeds S I (Program.request c : Program C R ε (R c)) := by
  intro w res w' hi hr
  obtain ⟨r, hserve, hok⟩ | ⟨e, hfail, _⟩ := runs_request.mp hr
  · exact ⟨hs w r w' hi hserve, r, hok⟩
  · exact absurd hfail (hf w e hi)

theorem Succeeds.each {g : β → Program C R ε Unit} (l : List β) (h : ∀ b ∈ l, Succeeds S I (g b)) :
    Succeeds S I (Program.each l g) := by
  induction l with
  | nil => exact Succeeds.pure ()
  | cons b bs ih =>
    refine Succeeds.bind (h b (by simp)) fun _ => ih ?_
    intro b' hb'
    exact h b' (List.mem_cons_of_mem b hb')

theorem Succeeds.times {q : Program C R ε Unit} (n : Nat) (h : Succeeds S I q) :
    Succeeds S I (Program.times n q) := by
  induction n with
  | zero => exact Succeeds.pure ()
  | succ n ih => exact Succeeds.bind h fun _ => ih

/-- A program whose calls are all answered or rejected, whatever the world, never gets stuck. -/
theorem exists_runs {allowed : C → Prop} (hp : p.Uses allowed)
    (hS : ∀ c w, allowed c → (∃ r w', S.serve c w r w') ∨ ∃ e, S.fail c w e) (w : W) :
    ∃ res w', Runs S p w res w' := by
  induction p generalizing w with
  | ret a => exact ⟨_, _, rfl, rfl⟩
  | raise e => exact ⟨_, _, rfl, rfl⟩
  | call c k ih =>
    obtain ⟨r, w₁, hs⟩ | ⟨e, hf⟩ := hS c w hp.1
    · obtain ⟨res, w', hr⟩ := ih r (hp.2 r) w₁
      exact ⟨res, w', .inl ⟨r, w₁, hs, hr⟩⟩
    · exact ⟨_, _, .inr ⟨e, hf, rfl, rfl⟩⟩

/-- A run is still possible where more may be answered. -/
theorem Runs.mono {S' : Services C R ε W} (hs : ∀ c w r w', S.serve c w r w' → S'.serve c w r w')
    (hf : ∀ c w e, S.fail c w e → S'.fail c w e) {w w' : W} {res : Except ε α}
    (h : Runs S p w res w') : Runs S' p w res w' := by
  induction p generalizing w with
  | ret a => exact h
  | raise e => exact h
  | call c k ih =>
    obtain ⟨r, w₁, hserve, hr⟩ | ⟨e, hfail, hend⟩ := h
    · exact .inl ⟨r, w₁, hs c w r w₁ hserve, ih r hr⟩
    · exact .inr ⟨e, hf c w e hfail, hend⟩

theorem Runs.under {change : W → W → Prop} (hrefl : ∀ w, change w w) {w w' : W}
    {res : Except ε α} (h : Runs S p w res w') : Runs (S.under change) p w res w' := by
  refine h.mono (fun c w r w' hs => ?_) fun c w e hf => ?_
  · exact ⟨w, hrefl w, hs⟩
  · exact ⟨w, hrefl w, hf⟩

theorem Runs.followed {change : W → W → Prop} (hrefl : ∀ w, change w w) {w w' : W}
    {res : Except ε α} (h : Runs S p w res w') : Runs (S.followed change) p w res w' := by
  refine h.mono (fun c w r w' hs => ?_) fun c w e hf => ?_
  · exact ⟨w', hs, hrefl w'⟩
  · exact hf

theorem Runs.of_only {ok : C → W → Prop} {w w' : W} {res : Except ε α}
    (h : Runs (S.only ok) p w res w') : Runs S p w res w' :=
  Runs.mono (S := S.only ok) (fun _ _ _ _ hs => hs.2) (fun _ _ _ hf => hf.2) h

/-- A run that returns has made no call but those that are served. -/
theorem Runs.only {ok : C → W → Prop} (hok : ∀ c w r w', S.serve c w r w' → ok c w) {w w' : W}
    {a : α} (h : Runs S p w (.ok a) w') : Runs (S.only ok) p w (.ok a) w' := by
  induction p generalizing w with
  | ret b => exact h
  | raise e => exact h
  | call c k ih =>
    obtain ⟨r, w₁, hs, hr⟩ | ⟨e, _, he, _⟩ := h
    · exact .inl ⟨r, w₁, ⟨hok c w r w₁ hs, hs⟩, ih r hr⟩
    · cases he

theorem Runs.noting {note : (c : C) → R c → List E} (es : List E) {w w' : W} {res : Except ε α}
    (h : Runs S p w res w') : ∃ es', Runs (S.noting note) p (w, es) res (w', es') := by
  induction p generalizing w es with
  | ret a => exact ⟨es, h.1, by rw [h.2]⟩
  | raise e => exact ⟨es, h.1, by rw [h.2]⟩
  | call c k ih =>
    obtain ⟨r, w₁, hs, hr⟩ | ⟨e, hf, hres, rfl⟩ := h
    · obtain ⟨es', hr'⟩ := ih r (note c r ++ es) hr
      exact ⟨es', .inl ⟨r, (w₁, note c r ++ es), ⟨hs, rfl⟩, hr'⟩⟩
    · exact ⟨es, .inr ⟨e, hf, hres, rfl⟩⟩

/-- A program that is told nothing of note runs as it does without the log. -/
theorem runs_noting {note : (c : C) → R c → List E} {w w' : W × List E} {res : Except ε α}
    (hp : p.Uses fun c => ∀ r, note c r = []) :
    Runs (S.noting note) p w res w' ↔ Runs S p w.1 res w'.1 ∧ w'.2 = w.2 := by
  induction p generalizing w with
  | ret a => simp [Prod.ext_iff, and_assoc]
  | raise e => simp [Prod.ext_iff, and_assoc]
  | call c k ih =>
    constructor
    · rintro (⟨r, w₁, ⟨hs, hn⟩, hr⟩ | ⟨e, hf, hres, rfl⟩)
      · rw [ih r (hp.2 r), hn, hp.1 r] at hr
        exact ⟨.inl ⟨r, w₁.1, hs, hr.1⟩, hr.2⟩
      · exact ⟨.inr ⟨e, hf, hres, rfl⟩, rfl⟩
    · rintro ⟨⟨r, w₁, hs, hr⟩ | ⟨e, hf, hres, hw⟩, hlog⟩
      · refine .inl ⟨r, (w₁, w.2), ⟨hs, by rw [hp.1 r]; rfl⟩, ?_⟩
        exact (ih r (hp.2 r)).mpr ⟨hr, hlog⟩
      · exact .inr ⟨e, hf, hres, Prod.ext hw hlog⟩

/-- A program that is told nothing of note leaves the log as it was. -/
theorem noting_quiet {note : (c : C) → R c → List E} {w w' : W × List E} {res : Except ε α}
    (hp : p.Uses fun c => ∀ r, note c r = []) (h : Runs (S.noting note) p w res w') :
    w'.2 = w.2 :=
  ((runs_noting hp).mp h).2

theorem Does.noting {note : (c : C) → R c → List E} {w w₁ : W} {a : α} (es : List E)
    (hp : p.Uses fun c => ∀ r, note c r = []) (h : Does S p w a w₁) :
    Does (S.noting note) p (w, es) a (w₁, es) := by
  intro res w'
  rw [runs_noting hp, h res w'.1, Prod.ext_iff, and_assoc]

end OdwaManager.Effect
