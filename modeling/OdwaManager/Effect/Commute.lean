import OdwaManager.Effect.Tagged
import Mathlib.Data.List.Perm.Basic

/-! Programs whose effects on the world commute. In whatever order the calls of a pool are
answered, it ends in the world in which its programs end one after the other. -/
namespace OdwaManager.Effect
open Program
variable {C : Type} {R : C → Type} {ε α β W A T : Type}

section
variable (S : Services C R ε W) (act : W → A → W) (I : W → Prop)

/-- Wherever `I` holds the next call is answered, and whatever the answers are, `es` is all that
the program does to the world. A result meets `post`. -/
def Emits (post : α → Prop) : Program C R ε α → List A → Prop
  | .ret a, es => es = [] ∧ post a
  | .raise _, _ => False
  | .call c k, es => ∃ now rest, es = now ++ rest ∧ ∀ w, I w →
    (∃ r w', S.serve c w r w') ∧ (∀ e, ¬ S.fail c w e) ∧
      ∀ r w', S.serve c w r w' → w' = now.foldl act w ∧ Emits post (k r) rest

/-- What the programs of a pool are still to do, one after the other. -/
inductive Owes : List (Program C R ε Unit) → List A → Prop
  | nil : Owes [] []
  | cons {p : Program C R ε Unit} {ps : List (Program C R ε Unit)} {es es' : List A}
    (h : Emits S act I (fun _ => True) p es) (hs : Owes ps es') : Owes (p :: ps) (es ++ es')

end

variable {S : Services C R ε W} {act : W → A → W} {I : W → Prop} {post : α → Prop}
  {p : Program C R ε α} {es es' : List A} {w w₀ : W}

theorem foldl_keeps (hI : ∀ w a, I w → I (act w a)) (hw : I w) : I (es.foldl act w) := by
  induction es generalizing w with
  | nil => exact hw
  | cons a es ih => exact ih (hI w a hw)

namespace Emits

theorem pure {a : α} (h : post a) : Emits S act I post (pure a : Program C R ε α) [] := ⟨rfl, h⟩

theorem request {c : C} {post : R c → Prop} (now : List A) (h : ∀ w, I w →
    (∃ r w', S.serve c w r w') ∧ (∀ e, ¬ S.fail c w e) ∧
      ∀ r w', S.serve c w r w' → w' = now.foldl act w ∧ post r) :
    Emits S act I post (Program.request c : Program C R ε (R c)) now := by
  refine ⟨now, [], (List.append_nil now).symm, fun w hw => ?_⟩
  obtain ⟨hserve, hfail, hall⟩ := h w hw
  refine ⟨hserve, hfail, fun r w' hs => ?_⟩
  obtain ⟨hw', hr⟩ := hall r w' hs
  exact ⟨hw', rfl, hr⟩

theorem bind {post' : β → Prop} {f : α → Program C R ε β} (hp : Emits S act I post p es)
    (hf : ∀ a, post a → Emits S act I post' (f a) es') :
    Emits S act I post' (p >>= f) (es ++ es') := by
  change Emits S act I post' (p.bind f) (es ++ es')
  induction p generalizing es with
  | ret a =>
    obtain ⟨rfl, ha⟩ := hp
    exact hf a ha
  | raise e => exact hp.elim
  | call c k ih =>
    obtain ⟨now, rest, rfl, h⟩ := hp
    refine ⟨now, rest ++ es', List.append_assoc now rest es', fun w hw => ?_⟩
    obtain ⟨hserve, hfail, hall⟩ := h w hw
    refine ⟨hserve, hfail, fun r w' hs => ?_⟩
    obtain ⟨hw', hr⟩ := hall r w' hs
    exact ⟨hw', ih r hr⟩

theorem each {f : β → Program C R ε Unit} {effects : β → List A} (l : List β)
    (h : ∀ b ∈ l, Emits S act I (fun _ => True) (f b) (effects b)) :
    Emits S act I (fun _ => True) (each l f) (l.flatMap effects) := by
  induction l with
  | nil => exact .pure trivial
  | cons b l ih =>
    rw [List.flatMap_cons]
    exact (h b (by simp)).bind fun _ _ => ih fun b' hb' => h b' (List.mem_cons_of_mem b hb')

/-- Alone it does these effects, and returns. -/
theorem does {p : Program C R ε Unit} (hI : ∀ w a, I w → I (act w a))
    (h : Emits S act I (fun _ => True) p es) (hw : I w) : Does S p w () (es.foldl act w) := by
  induction p generalizing w es with
  | ret a =>
    obtain ⟨rfl, _⟩ := h
    exact Does.pure
  | raise e => exact h.elim
  | call c k ih =>
    obtain ⟨now, rest, rfl, h⟩ := h
    obtain ⟨⟨r, w₁, hs⟩, hfail, hall⟩ := h w hw
    have hrest : ∀ r w₁, S.serve c w r w₁ → Does S (k r) w₁ () ((now ++ rest).foldl act w) := by
      intro r w₁ hs
      obtain ⟨rfl, hr⟩ := hall r w₁ hs
      rw [List.foldl_append]
      exact ih r hr (foldl_keeps hI hw)
    intro res w'
    constructor
    · rintro (⟨r', w₂, hs', hr⟩ | ⟨e, he, _⟩)
      · exact (hrest r' w₂ hs' res w').mp hr
      · exact absurd he (hfail e)
    · exact fun hres => .inl ⟨r, w₁, hs, (hrest r w₁ hs res w').mpr hres⟩

end Emits

section
variable {ps : List (Program C R ε Unit)} {p q : Program C R ε Unit} {i : Nat}

theorem Owes.append (h : Owes S act I ps es) (hp : Emits S act I (fun _ => True) p es') :
    Owes S act I (ps ++ [p]) (es ++ es') := by
  induction h with
  | nil =>
    have h := Owes.cons hp Owes.nil
    rw [List.append_nil] at h
    exact h
  | cons hq _ ih =>
    rw [List.append_assoc]
    exact .cons hq ih

theorem Owes.mem (h : Owes S act I ps es) (hp : p ∈ ps) : ∃ es, Emits S act I (fun _ => True) p es := by
  induction h with
  | nil => cases hp
  | cons hq _ ih =>
    obtain rfl | hp := List.mem_cons.mp hp
    · exact ⟨_, hq⟩
    · exact ih hp

/-- What the pool owes is what one of its programs owes and something more, which stays when
this program goes on. -/
theorem Owes.set (h : Owes S act I ps es) (hi : ps[i]? = some p) :
    ∃ mine others, Emits S act I (fun _ => True) p mine ∧ es.Perm (mine ++ others) ∧
      ∀ q mine', Emits S act I (fun _ => True) q mine' →
        ∃ es', Owes S act I (ps.set i q) es' ∧ es'.Perm (mine' ++ others) := by
  induction h generalizing i with
  | nil => cases hi
  | @cons p' ps es₁ es₂ hp hs ih =>
    cases i with
    | zero =>
      obtain rfl : p' = p := Option.some.inj hi
      exact ⟨es₁, es₂, hp, .refl _, fun q mine' hq => ⟨_, .cons hq hs, .refl _⟩⟩
    | succ i =>
      obtain ⟨mine, others, hmine, hperm, hset⟩ := ih hi
      have hswap : ∀ l : List A, (es₁ ++ (l ++ others)).Perm (l ++ (es₁ ++ others)) := by
        intro l
        rw [← List.append_assoc, ← List.append_assoc]
        exact List.perm_append_comm.append_right others
      refine ⟨mine, es₁ ++ others, hmine, (hperm.append_left es₁).trans (hswap mine), fun q mine' hq => ?_⟩
      obtain ⟨es', hes', hperm'⟩ := hset q mine' hq
      exact ⟨_, .cons hp hes', (hperm'.append_left es₁).trans (hswap mine')⟩

theorem Owes.nil_of_returned (h : Owes S act I ps es) (hps : ∀ p ∈ ps, p = .ret ()) : es = [] := by
  induction h with
  | nil => rfl
  | cons hp _ ih =>
    rw [hps _ List.mem_cons_self] at hp
    rw [hp.1, ih fun p hp => hps p (List.mem_cons_of_mem _ hp)]
    rfl

end

section
variable {program : T → Program C R ε Unit} {begins : T → W → W → Prop} {effects : T → List A}
  {guard : List (Label C) → Config C R ε (W × List T) → Label C → Prop} {tr : List (Label C)}
  {s : Config C R ε (W × List T)}

theorem foldl_perm (hcomm : ∀ w a b, act (act w a) b = act (act w b) a) (h : es.Perm es') :
    es.foldl act w = es'.foldl act w :=
  h.foldl_eq' (fun a _ b _ w => hcomm w a b) w

/-- Where a run has come to: when the programs have done what they still owe, the world is the
one that the effects of all that were started make of the first world. -/
structure Accounted (S : Services C R ε W) (act : W → A → W) (I : W → Prop)
    (program : T → Program C R ε Unit) (effects : T → List A) (w₀ : W)
    (s : Config C R ε (W × List T)) : Prop where
  keeps : I s.world.1
  emits : ∀ t ∈ s.world.2, Emits S act I (fun _ => True) (program t) (effects t)
  owes : ∃ es, Owes S act I s.threads es ∧
    es.foldl act s.world.1 = (s.world.2.flatMap effects).foldl act w₀

theorem System.Run.accounted (hcomm : ∀ w a b, act (act w a) b = act (act w b) a)
    (hI : ∀ w a, I w → I (act w a)) (hstart : ∀ t w w', I w → begins t w w' →
      w' = w ∧ Emits S act I (fun _ => True) (program t) (effects t)) (h₀ : I w₀)
    (hr : (System.tagged S program begins fun _ _ => False).Run guard ⟨[], (w₀, [])⟩ tr s) :
    Accounted S act I program effects w₀ s := by
  refine hr.invariant (I := fun _ s => Accounted S act I program effects w₀ s)
    ⟨h₀, fun t ht => absurd ht List.not_mem_nil, [], .nil, rfl⟩ ?_
  intro tr s₁ l s₂ h _ hs
  obtain ⟨hw, hemits, es, howes, hworld⟩ := h
  cases hs with
  | @start ts w w' p hp =>
    obtain ⟨t, hbegins, rfl, htags⟩ := hp
    obtain ⟨hsame, hnew⟩ := hstart t _ _ hw hbegins
    refine ⟨hsame ▸ hw, fun t' ht' => ?_, _, howes.append hnew, ?_⟩
    · rw [htags] at ht'
      obtain ht' | ht' := List.mem_append.mp ht'
      · exact hemits t' ht'
      · rw [List.mem_singleton.mp ht']
        exact hnew
    · calc (es ++ effects t).foldl act w'.1 = (effects t).foldl act (es.foldl act w.1) := by
            rw [hsame, List.foldl_append]
        _ = (w'.2.flatMap effects).foldl act w₀ := by rw [hworld, htags]; simp
  | @served ts w w' i c k r hi hserved =>
    obtain ⟨hserved, htags⟩ := hserved
    obtain ⟨mine, others, hmine, hperm, hset⟩ := howes.set hi
    obtain ⟨now, rest, rfl, hcall⟩ := hmine
    obtain ⟨hw', hrest⟩ := (hcall w.1 hw).2.2 r w'.1 hserved
    obtain ⟨es', hes', hperm'⟩ := hset (k r) rest hrest
    refine ⟨?_, fun t ht => hemits t (htags ▸ ht), es', hes', ?_⟩
    · dsimp only
      rw [hw']
      exact foldl_keeps hI hw
    · calc es'.foldl act w'.1 = (rest ++ others).foldl act (now.foldl act w.1) := by
            rw [hw', foldl_perm hcomm hperm']
        _ = (now ++ rest ++ others).foldl act w.1 := by simp only [List.foldl_append]
        _ = es.foldl act w.1 := (foldl_perm hcomm hperm).symm
        _ = (w'.2.flatMap effects).foldl act w₀ := by rw [hworld, htags]
  | @failed ts w i c k e hi hf =>
    obtain ⟨mine, others, ⟨now, rest, rfl, hcall⟩, _⟩ := howes.set hi
    exact absurd hf ((hcall w.1 hw).2.1 e)
  | env he => exact he.1.elim

/-- No program of the pool has raised. -/
theorem Accounted.not_raised (h : Accounted S act I program effects w₀ s) {p : Program C R ε Unit}
    (hp : p ∈ s.threads) (e : ε) : p ≠ .raise e := by
  obtain ⟨es, howes, _⟩ := h.owes
  obtain ⟨_, hemits⟩ := howes.mem hp
  rintro rfl
  exact hemits

theorem Accounted.goes_on (h : Accounted S act I program effects w₀ s) {i : Nat} {c : C}
    {k : R c → Program C R ε Unit} (hi : s.threads[i]? = some (.call c k)) :
    ∃ s', (System.tagged S program begins fun _ _ => False).Step s (.served i c) s' := by
  obtain ⟨es, howes, _⟩ := h.owes
  obtain ⟨_, now, rest, _, hcall⟩ := howes.mem (List.mem_of_getElem? hi)
  obtain ⟨r, w', hs⟩ := (hcall s.world.1 h.keeps).1
  exact ⟨⟨s.threads.set i (k r), (w', s.world.2)⟩, .served hi ⟨hs, rfl⟩⟩

/-- A pool that has returned has done what its programs do one after the other, in any order. -/
theorem Accounted.serial (hcomm : ∀ w a b, act (act w a) b = act (act w b) a)
    (hI : ∀ w a, I w → I (act w a)) (h₀ : I w₀) (h : Accounted S act I program effects w₀ s)
    (hret : ∀ p ∈ s.threads, p = .ret ()) {ts : List T} (hts : ts.Perm s.world.2) :
    Does S (each ts program) w₀ () s.world.1 := by
  obtain ⟨es, howes, hworld⟩ := h.owes
  have heach := Emits.each ts fun t ht => h.emits t (hts.mem_iff.mp ht)
  have hdoes := heach.does hI h₀
  rw [foldl_perm hcomm (hts.flatMap_right effects), ← hworld, howes.nil_of_returned hret] at hdoes
  exact hdoes

end

end OdwaManager.Effect
