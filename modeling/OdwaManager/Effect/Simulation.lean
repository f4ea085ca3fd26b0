import OdwaManager.Effect.Embed

/-! Forward simulation of pools. A system with more to do than another, whose programs go
through the programs of the other one and otherwise leave its part of the world alone, only
makes changes that the other one makes. -/
namespace OdwaManager.Effect

/-- The lists agree under `rel`, once the `idle` elements of the first are left out. -/
inductive Paired {A B : Type} (rel : A → B → Prop) (idle : A → Prop) : List A → List B → Prop
  | nil : Paired rel idle [] []
  | pair {a : A} {b : B} {as : List A} {bs : List B} (h : rel a b) (hs : Paired rel idle as bs) :
    Paired rel idle (a :: as) (b :: bs)
  | skip {a : A} {as : List A} {bs : List B} (h : idle a) (hs : Paired rel idle as bs) :
    Paired rel idle (a :: as) bs

section
variable {A B : Type} {rel : A → B → Prop} {idle : A → Prop} {as : List A} {bs : List B}

theorem Paired.append {a : List A} {b : List B} (h : Paired rel idle as bs)
    (hab : Paired rel idle a b) : Paired rel idle (as ++ a) (bs ++ b) := by
  induction h with
  | nil => exact hab
  | pair h _ ih => exact .pair h ih
  | skip h _ ih => exact .skip h ih

/-- An element is idle and may be exchanged for an idle one, or has its counterpart and may be
exchanged together with it. -/
theorem Paired.at {i : Nat} {a : A} (h : Paired rel idle as bs) (hi : as[i]? = some a) :
    (idle a ∧ ∀ a', idle a' → Paired rel idle (as.set i a') bs) ∨
      ∃ j b, bs[j]? = some b ∧ rel a b ∧ (∀ a', rel a' b → Paired rel idle (as.set i a') bs) ∧
        ∀ a' b', rel a' b' → Paired rel idle (as.set i a') (bs.set j b') := by
  induction h generalizing i with
  | nil => simp at hi
  | pair h hs ih =>
    cases i with
    | zero =>
      obtain rfl := Option.some.inj hi
      exact .inr ⟨0, _, rfl, h, fun _ h' => .pair h' hs, fun _ _ h' => .pair h' hs⟩
    | succ i =>
      obtain ⟨ha, hset⟩ | ⟨j, b, hj, hrel, hone, hboth⟩ := ih hi
      · exact .inl ⟨ha, fun a' ha' => .pair h (hset a' ha')⟩
      · exact .inr ⟨j+1, b, hj, hrel, fun a' h' => .pair h (hone a' h'),
          fun a' b' h' => .pair h (hboth a' b' h')⟩
  | skip h hs ih =>
    cases i with
    | zero =>
      obtain rfl := Option.some.inj hi
      exact .inl ⟨h, fun _ h' => .skip h' hs⟩
    | succ i =>
      obtain ⟨ha, hset⟩ | ⟨j, b, hj, hrel, hone, hboth⟩ := ih hi
      · exact .inl ⟨ha, fun a' ha' => .skip h (hset a' ha')⟩
      · exact .inr ⟨j, b, hj, hrel, fun a' h' => .skip h (hone a' h'),
          fun a' b' h' => .skip h (hboth a' b' h')⟩

end

variable {C C' : Type} {R' : C' → Type} {ε ε' W D O : Type}

theorem Program.bind_assoc {R : C → Type} {α β γ : Type} (p : Program C R ε α)
    (k : α → Program C R ε β) (l : β → Program C R ε γ) :
    (p >>= k) >>= l = p >>= fun a => k a >>= l := by
  induction p with
  | ret a => rfl
  | raise e => rfl
  | call c _ ih => exact congrArg (Program.call c) (funext ih)

theorem Program.forget_unit {R : C → Type} (p : Program C R ε Unit) : p.forget = p := by
  induction p with
  | ret a => rfl
  | raise e => rfl
  | call c _ ih => exact congrArg (Program.call c) (funext ih)

/-- A sequence that returns has returned from its first part. -/
theorem runs_bind_ok {R : C → Type} {α β : Type} {S : Services C R ε W} {p : Program C R ε α}
    {k : α → Program C R ε β} {b : β} {w w' : W} (h : Runs S (p >>= k) w (.ok b) w') :
    ∃ a w₁, Runs S p w (.ok a) w₁ ∧ Runs S (k a) w₁ (.ok b) w' := by
  obtain h | ⟨_, _, hok⟩ := runs_bind.mp h
  · exact h
  · cases hok

/-- What the step shows of the call that it serves. -/
def Label.shows {C : Type} (see : C → Option O) : Label C → Option O
  | .served _ c => see c
  | _ => none

/-- `q` goes through the calls of `p`, and is quiet after it. -/
inductive StandsFor (f : C → C') (quiet : C' → Prop) :
    Program C' R' ε' Unit → Program C (fun c => R' (f c)) ε Unit → Prop
  | done {q : Program C' R' ε' Unit} (h : q.Uses quiet) : StandsFor f quiet q (.ret ())
  | raised (e : ε') (e₀ : ε) : StandsFor f quiet (.raise e) (.raise e₀)
  | call {c : C} {k' : R' (f c) → Program C' R' ε' Unit}
    {k : R' (f c) → Program C (fun c => R' (f c)) ε Unit}
    (h : ∀ r, StandsFor f quiet (k' r) (k r)) : StandsFor f quiet (.call (f c) k') (.call c k)

variable {f : C → C'} {g : ε → ε'} {quiet : C' → Prop}

theorem standsFor_embed {α : Type} {p : Program C (fun c => R' (f c)) ε α}
    {k : α → Program C' R' ε' Unit} (hk : ∀ a, (k a).Uses quiet) :
    StandsFor f quiet (p.embed f g >>= k) p.forget := by
  induction p with
  | ret a => exact .done (hk a)
  | raise e => exact .raised (g e) e
  | call c k₀ ih => exact .call ih

/-- A run of `q` has done to the world of `p` what a run of `p` does. -/
theorem StandsFor.runs {S : Services C (fun c => R' (f c)) ε W} {S' : Services C' R' ε' (W × D)}
    {q : Program C' R' ε' Unit} {p : Program C (fun c => R' (f c)) ε Unit} {w w' : W × D}
    {res : Except ε' Unit} (hS : Extends S S' g)
    (hquiet : ∀ c w r w', quiet c → S'.serve c w r w' → w'.1 = w.1)
    (h : StandsFor f quiet q p) (hr : Runs S' q w res w') : ∃ res₀, Runs S p w.1 res₀ w'.1 := by
  induction h generalizing w with
  | done hq =>
    have hw : w'.1 = w.1 :=
      hr.visits.preserves Prod.fst hq fun c w r w' hc hs => hquiet c w r w' hc hs
    exact ⟨.ok (), rfl, hw⟩
  | raised e e₀ => exact ⟨.error e₀, rfl, by rw [hr.2]⟩
  | @call c k' k _ ih =>
    obtain ⟨r, w₁, hs, hr⟩ | ⟨e, hf, _, hw⟩ := hr
    · obtain ⟨res₀, hr₀⟩ := ih r hr
      exact ⟨res₀, .inl ⟨r, w₁.1, ((hS.serve c _ _ _).mp hs).1, hr₀⟩⟩
    · obtain ⟨e₀, _, hf₀⟩ := (hS.fail c _ _).mp hf
      exact ⟨.error e₀, .inr ⟨e₀, hf₀, rfl, by rw [hw]⟩⟩

/-- The larger system `M'` does nothing to the world of `M` but what `M` does. -/
structure Refines (M' : System C' R' ε' (W × D)) (M : System C (fun c => R' (f c)) ε W) (g : ε → ε')
    (quiet : C' → Prop) (see' : C' → Option O) (see : C → Option O) : Prop where
  services : Extends M.services M'.services g
  unmoved : ∀ c w r w', quiet c → M'.services.serve c w r w' → w'.1 = w.1
  starts : ∀ w q w', M'.starts w q w' →
    (q.Uses quiet ∧ w'.1 = w.1) ∨ ∃ p, M.starts w.1 p w'.1 ∧ StandsFor f quiet q p
  env : ∀ w w', M'.env w w' → w'.1 = w.1 ∨ M.env w.1 w'.1
  see : ∀ c, see' (f c) = see c
  see_quiet : ∀ c, quiet c → see' c = none

variable {M' : System C' R' ε' (W × D)} {M : System C (fun c => R' (f c)) ε W}
variable {see' : C' → Option O} {see : C → Option O}

/-- A run of `M` has come to the same world and has shown the same. -/
def Agrees (M : System C (fun c => R' (f c)) ε W) (quiet : C' → Prop) (see' : C' → Option O)
    (see : C → Option O) (w : W) (tr : List (Label C')) (s : Config C' R' ε' (W × D)) : Prop :=
  ∃ tr₀ ts, M.Run unguarded ⟨[], w⟩ tr₀ ⟨ts, s.world.1⟩ ∧
    Paired (StandsFor f quiet) (fun q => q.Uses quiet) s.threads ts ∧
    tr₀.filterMap (Label.shows see) = tr.filterMap (Label.shows see')

section
variable {w : W} {tr : List (Label C')} {s : Config C' R' ε' (W × D)}

/-- A step that shows nothing and leaves the world of `M` where it is. -/
theorem Agrees.stutter {l : Label C'} {w' : W × D} {ts : List (Program C' R' ε' Unit)}
    {tr₀ : List (Label C)} {ts₀ : List (Program C (fun c => R' (f c)) ε Unit)}
    (hr : M.Run unguarded ⟨[], w⟩ tr₀ ⟨ts₀, s.world.1⟩)
    (hp : Paired (StandsFor f quiet) (fun q => q.Uses quiet) ts ts₀)
    (hshown : tr₀.filterMap (Label.shows see) = tr.filterMap (Label.shows see'))
    (hl : l.shows see' = none) (hw : w'.1 = s.world.1) :
    Agrees M quiet see' see w (l :: tr) ⟨ts, w'⟩ := by
  refine ⟨tr₀, ts₀, ?_, hp, ?_⟩
  · rw [hw]
    exact hr
  · rw [List.filterMap_cons_none hl]
    exact hshown

theorem Refines.agrees_step (h : Refines M' M g quiet see' see) {s' : Config C' R' ε' (W × D)}
    {l : Label C'} (ha : Agrees M quiet see' see w tr s) (hs : M'.Step s l s') :
    Agrees M quiet see' see w (l :: tr) s' := by
  obtain ⟨tr₀, ts₀, hr, hp, hshown⟩ := ha
  cases hs with
  | start hstart =>
    obtain ⟨hq, hw⟩ | ⟨p, hstart₀, hstands⟩ := h.starts _ _ _ hstart
    · refine Agrees.stutter hr ?_ hshown rfl hw
      simpa using hp.append (.skip hq .nil)
    · exact ⟨_, _, hr.start p hstart₀ trivial, hp.append (.pair hstands .nil), hshown⟩
  | served hi hserve =>
    have hquiet : ∀ {i c}, quiet c → (Label.served i c).shows see' = none := h.see_quiet _
    obtain ⟨hq, hset⟩ | ⟨j, p, hj, hstands, hone, hboth⟩ := hp.at hi
    · exact Agrees.stutter hr (hset _ (hq.2 _)) hshown (hquiet hq.1) (h.unmoved _ _ _ _ hq.1 hserve)
    · cases hstands with
      | done hq =>
        exact Agrees.stutter hr (hone _ (.done (hq.2 _))) hshown (hquiet hq.1)
          (h.unmoved _ _ _ _ hq.1 hserve)
      | @call c _ _ hk =>
        have hserve₀ := ((h.services.serve c _ _ _).mp hserve).1
        refine ⟨_, _, hr.serve j _ hj hserve₀ trivial, hboth _ _ (hk _), ?_⟩
        simp only [List.filterMap_cons, Label.shows, h.see, hshown]
  | failed hi hf =>
    obtain ⟨_, hset⟩ | ⟨j, p, hj, hstands, hone, hboth⟩ := hp.at hi
    · exact Agrees.stutter hr (hset _ trivial) hshown rfl rfl
    · cases hstands with
      | done hq => exact Agrees.stutter hr (hone _ (.done trivial)) hshown rfl rfl
      | @call c _ _ hk =>
        obtain ⟨e₀, rfl, hf₀⟩ := (h.services.fail c _ _).mp hf
        exact ⟨_, _, hr.fail j e₀ hj hf₀ trivial, hboth _ _ (.raised (g e₀) e₀), hshown⟩
  | env he =>
    obtain hw | he := h.env _ _ he
    · exact Agrees.stutter hr hp hshown rfl hw
    · exact ⟨_, _, hr.change he trivial, hp, hshown⟩

/-- Every run of the larger system is one of `M`, as far as `M` is concerned. -/
theorem Refines.run (h : Refines M' M g quiet see' see) {w' : W × D}
    {guard : List (Label C') → Config C' R' ε' (W × D) → Label C' → Prop}
    (hr : M'.Run guard ⟨[], w'⟩ tr s) :
    ∃ tr₀ ts, M.Run unguarded ⟨[], w'.1⟩ tr₀ ⟨ts, s.world.1⟩ ∧
      tr₀.filterMap (Label.shows see) = tr.filterMap (Label.shows see') := by
  have hagrees : Agrees M quiet see' see w'.1 tr s := by
    refine hr.invariant (I := fun tr s => Agrees M quiet see' see w'.1 tr s) ?_ ?_
    · exact ⟨[], [], .nil, .nil, rfl⟩
    · exact fun _ _ _ _ ha _ hs => h.agrees_step ha hs
  obtain ⟨tr₀, ts, hr₀, _, hshown⟩ := hagrees
  exact ⟨tr₀, ts, hr₀, hshown⟩

end

end OdwaManager.Effect
