import OdwaManager.Effect.Pool

/-! A pool that remembers what each of its programs was started as, and the rule by which
every program in progress stays fit for its tag. -/
namespace OdwaManager.Effect
variable {C : Type} {R : C → Type} {ε W T : Type}

/-- The services beside a component that no call touches. -/
def Services.beside (S : Services C R ε W) (T : Type) : Services C R ε (W × T) where
  serve c w r w' := S.serve c w.1 r w'.1 ∧ w'.2 = w.2
  fail c w e := S.fail c w.1 e

/-- The world keeps the tags in the order in which their programs were started. -/
def System.tagged (S : Services C R ε W) (program : T → Program C R ε Unit)
    (begins : T → W → W → Prop) (env : W → W → Prop) : System C R ε (W × List T) where
  services := S.beside (List T)
  starts w p w' := ∃ t, begins t w.1 w'.1 ∧ p = program t ∧ w'.2 = w.2 ++ [t]
  env w w' := env w.1 w'.1 ∧ w'.2 = w.2

/-- Thread `i` was started as `t` and is now at `p`. -/
def Config.Running (s : Config C R ε (W × List T)) (i : Nat) (t : T) (p : Program C R ε Unit) :
    Prop :=
  s.world.2[i]? = some t ∧ s.threads[i]? = some p

structure Fitting (fits : T → Program C R ε Unit → W → Prop) (s : Config C R ε (W × List T)) :
    Prop where
  aligned : s.world.2.length = s.threads.length
  fits : ∀ i t p, s.Running i t p → fits t p s.world.1

variable {S : Services C R ε W} {program : T → Program C R ε Unit} {begins : T → W → W → Prop}
variable {env : W → W → Prop} {fits : T → Program C R ε Unit → W → Prop}
variable {s s' : Config C R ε (W × List T)} {l : Label C} {w : W}

section
variable {guard : List (Label C) → Config C R ε (W × List T) → Label C → Prop}
variable {tr : List (Label C)} {ts : List (Program C R ε Unit)} {tags : List T} {w' : W}

theorem System.Run.begin (t : T)
    (hr : (System.tagged S program begins env).Run guard s tr ⟨ts, (w, tags)⟩)
    (hb : begins t w w') (hg : guard tr ⟨ts, (w, tags)⟩ .start) :
    (System.tagged S program begins env).Run guard s (.start :: tr)
      ⟨ts ++ [program t], (w', tags ++ [t])⟩ :=
  .cons hr hg (.start ⟨t, hb, rfl, rfl⟩)

theorem System.Run.answer {c : C} {k : R c → Program C R ε Unit} (i : Nat) (r : R c)
    (hr : (System.tagged S program begins env).Run guard s tr ⟨ts, (w, tags)⟩)
    (hi : ts[i]? = some (.call c k)) (h : S.serve c w r w')
    (hg : guard tr ⟨ts, (w, tags)⟩ (.served i c)) :
    (System.tagged S program begins env).Run guard s (.served i c :: tr)
      ⟨ts.set i (k r), (w', tags)⟩ :=
  .cons hr hg (.served hi ⟨h, rfl⟩)

end

theorem fitting_start : Fitting fits (⟨[], (w, [])⟩ : Config C R ε (W × List T)) where
  aligned := rfl
  fits := by
    intro i t p h
    exact absurd h.1 (by simp)

theorem Fitting.running (h : Fitting fits s) {i : Nat} {p : Program C R ε Unit}
    (hi : s.threads[i]? = some p) : ∃ t, s.Running i t p := by
  obtain ⟨hlt, _⟩ := List.getElem?_eq_some_iff.mp hi
  rw [← h.aligned] at hlt
  exact ⟨s.world.2[i], List.getElem?_eq_getElem hlt, hi⟩

/-- The threads of a pool that has just started one more. -/
theorem running_append {ts : List (Program C R ε Unit)} {tags : List T} {w' : W}
    {p q : Program C R ε Unit} {t t' : T} {i : Nat} (hlength : tags.length = ts.length)
    (h : Config.Running ⟨ts ++ [p], (w', tags ++ [t])⟩ i t' q) :
    (t' = t ∧ q = p) ∨ Config.Running ⟨ts, (w, tags)⟩ i t' q := by
  obtain ⟨htag, hthread⟩ := h
  obtain ⟨rfl, rfl⟩ | ⟨hi, hthread⟩ := getElem?_append_cases hthread
  · refine .inl ⟨?_, rfl⟩
    simpa [← hlength] using htag.symm
  · refine .inr ⟨?_, hthread⟩
    rw [List.getElem?_append_left (by omega)] at htag
    exact htag

/-- The threads of a pool in which thread `i` has moved on to `q`. -/
theorem running_set {ts : List (Program C R ε Unit)} {tags : List T} {w' : W} {i j : Nat}
    {q q' : Program C R ε Unit} {t : T} (h : Config.Running ⟨ts.set i q, (w', tags)⟩ j t q') :
    (j = i ∧ q' = q ∧ tags[i]? = some t) ∨ (j ≠ i ∧ Config.Running ⟨ts, (w, tags)⟩ j t q') := by
  obtain ⟨htag, hthread⟩ := h
  obtain ⟨rfl, rfl⟩ | ⟨hne, hthread⟩ := getElem?_set_cases hthread
  · exact .inl ⟨rfl, rfl, htag⟩
  · exact .inr ⟨hne, htag, hthread⟩

/-- One step keeps all threads fit if it does so for the thread that makes it and for each
of the others, and whatever raises is fit. -/
theorem Fitting.step (h : Fitting fits s) (hs : (System.tagged S program begins env).Step s l s')
    (hstart : ∀ t w', begins t s.world.1 w' →
      fits t (program t) w' ∧ ∀ t' p, fits t' p s.world.1 → fits t' p w')
    (hserve : ∀ i c k r w' t, l = .served i c → s.Running i t (.call c k) →
      S.serve c s.world.1 r w' → fits t (k r) w')
    (hothers : ∀ i c r w', l = .served i c → S.serve c s.world.1 r w' →
      ∀ j t p, s.Running j t p → fits t p w')
    (hraise : ∀ t e, fits t (.raise e) s.world.1)
    (henv : ∀ w', env s.world.1 w' → ∀ t p, fits t p s.world.1 → fits t p w') :
    Fitting fits s' := by
  cases hs with
  | @start ts w w' p hp =>
    obtain ⟨w, tags⟩ := w
    obtain ⟨w', tags'⟩ := w'
    obtain ⟨t, hbegins, rfl, rfl⟩ := hp
    obtain ⟨hnew, hold⟩ := hstart t w' hbegins
    refine ⟨by simpa using h.aligned, fun i t' q hq => ?_⟩
    obtain ⟨rfl, rfl⟩ | hq := running_append (w := w) h.aligned hq
    · exact hnew
    · exact hold t' q (h.fits i t' q hq)
  | @served ts w w' i c k r hi hserved =>
    obtain ⟨w, tags⟩ := w
    obtain ⟨w', tags'⟩ := w'
    obtain ⟨hserved, rfl⟩ := hserved
    refine ⟨by simpa using h.aligned, fun j t q hq => ?_⟩
    obtain ⟨rfl, rfl, htag⟩ | ⟨_, hq⟩ := running_set (w := w) hq
    · exact hserve j c k r w' t rfl ⟨htag, hi⟩ hserved
    · exact hothers i c r w' rfl hserved j t q hq
  | @failed ts w i c k e hi hf =>
    obtain ⟨w, tags⟩ := w
    refine ⟨by simpa using h.aligned, fun j t q hq => ?_⟩
    obtain ⟨rfl, rfl, htag⟩ | ⟨_, hq⟩ := running_set (w := w) hq
    · exact hraise t e
    · exact h.fits j t q hq
  | @env ts w w' he =>
    obtain ⟨w, tags⟩ := w
    obtain ⟨w', tags'⟩ := w'
    obtain ⟨he, rfl⟩ := he
    exact ⟨h.aligned, fun i t p hp => henv w' he t p (h.fits i t p hp)⟩

end OdwaManager.Effect
