import OdwaManager.Effect.Program

/-! Which call comes after which. A program keeps an order when every call, with the answer
it got, allows the call that the program makes next. -/
namespace OdwaManager.Effect.Program
variable {C : Type} {R : C → Type} {ε α β : Type}

/-- The next call, unless the program has ended. -/
def head : Program C R ε α → Option C
  | .call c _ => some c
  | _ => none

def Ordered (follows : (c : C) → R c → Option C → Prop) : Program C R ε α → Prop
  | .ret _ => True
  | .raise _ => True
  | .call c k => ∀ r, follows c r (k r).head ∧ (k r).Ordered follows

variable {follows : (c : C) → R c → Option C → Prop} {p : Program C R ε α}

theorem Uses.head {allowed : C → Prop} {c : C} (hp : p.Uses allowed) (h : p.head = some c) :
    allowed c := by
  cases p with
  | ret a => cases h
  | raise e => cases h
  | call c' k =>
    cases h
    exact hp.1

/-- The next call of a sequence is that of its first part, or of the rest once it is done. -/
theorem head_bind {next : Option C → Prop} {f : α → Program C R ε β} (hp : next p.head)
    (hf : ∀ a, next none → next (f a).head) : next (p >>= f).head := by
  cases p with
  | ret a => exact hf a hp
  | raise e => exact hp
  | call c k => exact hp

theorem Ordered.bind {f : α → Program C R ε β} (hp : p.Ordered follows)
    (hf : ∀ a, (f a).Ordered follows) (hend : ∀ c r a, follows c r none → follows c r (f a).head) :
    (p >>= f).Ordered follows := by
  induction p with
  | ret a => exact hf a
  | raise e => trivial
  | call c k ih =>
    intro r
    exact ⟨head_bind (hp r).1 (hend c r), ih r (hp r).2⟩

theorem Ordered.request {c : C} (h : ∀ r, follows c r none) :
    (request c : Program C R ε (R c)).Ordered follows :=
  fun r => ⟨h r, trivial⟩

theorem head_each {next : Option C → Prop} (l : List β) {g : β → Program C R ε Unit}
    (hend : next none) (hg : ∀ b, next (g b).head) : next (each l g).head := by
  induction l with
  | nil => exact hend
  | cons b bs ih => exact head_bind (hg b) fun _ _ => ih

theorem Ordered.each (l : List β) {g : β → Program C R ε Unit} (h : ∀ b, (g b).Ordered follows)
    (hend : ∀ c r b, follows c r none → follows c r (g b).head) : (each l g).Ordered follows := by
  induction l with
  | nil => trivial
  | cons b bs ih =>
    refine (h b).bind (fun _ => ih) fun c r _ hn => ?_
    exact head_each bs hn fun b' => hend c r b' hn

theorem Ordered.forget (hp : p.Ordered follows) : p.forget.Ordered follows :=
  hp.bind (fun _ => trivial) fun _ _ _ hn => hn

end OdwaManager.Effect.Program
