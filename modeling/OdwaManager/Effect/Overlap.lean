import OdwaManager.Effect.Budget
import OdwaManager.Effect.Order
import OdwaManager.Effect.Tagged
import Mathlib.Algebra.BigOperators.Intervals
import Mathlib.Algebra.Order.BigOperators.Group.Finset

/-! Licensed programs that overlap. Each keeps within the room it found, but the others take
the same room: the size passes the cap by no more than what those in progress may still add. -/
namespace OdwaManager.Effect
open Finset Program
variable {C : Type} {R : C → Type} {ε W T : Type}

section
variable (weight : T → Nat)

/-- What thread `j` may add at the most, unless it has ended. -/
def Config.load (s : Config C R ε (W × List T)) (j : Nat) : Nat :=
  match s.threads[j]?, s.world.2[j]? with
  | some (.call _ _), some t => weight t
  | _, _ => 0

/-- Whoever is in progress has others of total weight at most `n` beside it. -/
def Crowded (n : Nat) (s : Config C R ε (W × List T)) : Prop :=
  ∀ i t c k, s.Running i t (.call c k) →
    ∑ j ∈ (range s.threads.length).erase i, s.load weight j ≤ n

variable (charged : C → Prop) (grant : (c : C) → R c → Option Nat)

/-- A thread with `share` charged calls to come: none is granted yet, or that many are. -/
def Entitled (t : T) (p : Program C R ε Unit) (share : Nat) : Prop :=
  p.Bounded charged (weight t) ∧ (p.Licensed charged grant ∧ share = 0 ∨
    p.Ungranted grant ∧ p.Bounded charged share ∧ share ≤ weight t ∧ (p.head = none → share = 0))

/-- The size, with all that has been granted and not used, is within `bound`. -/
structure Overlap (size : W → Nat) (bound : Nat) (share : Nat → Nat)
    (s : Config C R ε (W × List T)) : Prop where
  aligned : s.world.2.length = s.threads.length
  size_le : size s.world.1 + ∑ i ∈ range s.threads.length, share i ≤ bound
  entitled : ∀ i t p, s.Running i t p → Entitled weight charged grant t p (share i)

end

variable {weight : T → Nat} {charged : C → Prop} {grant : (c : C) → R c → Option Nat}
variable {size : W → Nat} {bound cap n : Nat} {share : Nat → Nat}

/-- A licensed program never makes more charged calls than the largest grant. -/
theorem Program.Licensed.bounded {α : Type} {p : Program C R ε α} (hp : p.Licensed charged grant)
    (hgrant : ∀ c r m, grant c r = some m → m ≤ cap) : p.Bounded charged cap := by
  induction p with
  | ret a => trivial
  | raise e => trivial
  | call c k ih =>
    refine ⟨fun hc => absurd hc hp.1, fun _ r => ?_⟩
    cases hg : grant c r with
    | none => exact ih r ((hp.2 r).2 hg)
    | some m => exact ((hp.2 r).1 m hg).1.mono (hgrant c r m hg)

theorem sum_update {m i x : Nat} (hi : i < m) :
    ∑ j ∈ range m, Function.update share i x j = x + ∑ j ∈ (range m).erase i, share j := by
  rw [← add_sum_erase _ _ (mem_range.mpr hi), Function.update_self]
  congr 1
  refine sum_congr rfl fun j hj => ?_
  rw [Function.update_of_ne (ne_of_mem_erase hj)]

/-- What a program may still add is nothing once it has ended. -/
theorem Entitled.of_bounded {t : T} {p : Program C R ε Unit} {x : Nat} (hw : p.Bounded charged (weight t))
    (hu : p.Ungranted grant) (hb : p.Bounded charged x) (hx : x ≤ weight t) :
    ∃ y ≤ x, Entitled weight charged grant t p y := by
  cases p with
  | ret a => exact ⟨0, Nat.zero_le _, hw, .inr ⟨hu, trivial, Nat.zero_le _, fun _ => rfl⟩⟩
  | raise e => exact ⟨0, Nat.zero_le _, hw, .inr ⟨hu, trivial, Nat.zero_le _, fun _ => rfl⟩⟩
  | call c k =>
    refine ⟨x, le_refl x, hw, .inr ⟨hu, hb, hx, fun h => ?_⟩⟩
    cases h

theorem Entitled.le_load {s : Config C R ε (W × List T)} {j : Nat} {t : T}
    {p : Program C R ε Unit} {x : Nat} (h : Entitled weight charged grant t p x)
    (hj : s.Running j t p) : x ≤ s.load weight j := by
  obtain ⟨_, ⟨_, hx⟩ | ⟨_, _, hx, hend⟩⟩ := h
  · omega
  · simp only [Config.load, hj.1, hj.2]
    cases p with
    | ret a => exact (hend rfl).le
    | raise e => exact (hend rfl).le
    | call c k => exact hx

section
variable {s : Config C R ε (W × List T)}

theorem Overlap.running (h : Overlap weight charged grant size bound share s) {j : Nat}
    (hj : j < s.threads.length) : ∃ t p, s.Running j t p := by
  have hj' : j < s.world.2.length := by
    rw [h.aligned]
    exact hj
  exact ⟨_, _, List.getElem?_eq_getElem hj', List.getElem?_eq_getElem hj⟩

/-- What the others hold is within what they weigh. -/
theorem Overlap.others_le (h : Overlap weight charged grant size bound share s) (i : Nat) :
    ∑ j ∈ (range s.threads.length).erase i, share j ≤
      ∑ j ∈ (range s.threads.length).erase i, s.load weight j := by
  refine sum_le_sum fun j hj => ?_
  obtain ⟨t, p, hp⟩ := h.running (mem_range.mp (mem_of_mem_erase hj))
  exact (h.entitled j t p hp).le_load hp

end

section
variable {ts : List (Program C R ε Unit)} {tags : List T} {w w' : W} {i : Nat}
  {p q : Program C R ε Unit}

/-- Thread `i` moves on to `q` and holds `x`. -/
theorem Overlap.move {x : Nat} {t : T} (h : Overlap weight charged grant size bound share ⟨ts, (w, tags)⟩)
    (hi : Config.Running ⟨ts, (w, tags)⟩ i t p) (hq : Entitled weight charged grant t q x)
    (hsize : size w' + x + ∑ j ∈ (range ts.length).erase i, share j ≤ bound) :
    Overlap weight charged grant size bound (Function.update share i x) ⟨ts.set i q, (w', tags)⟩ := by
  have hlt : i < ts.length := (List.getElem?_eq_some_iff.mp hi.2).1
  refine ⟨by simpa using h.aligned, ?_, fun j t' p' hj => ?_⟩
  · simp only [List.length_set]
    rw [sum_update hlt]
    omega
  · obtain ⟨rfl, rfl, htag⟩ | ⟨hne, hj⟩ := running_set (w := w) hj
    · obtain rfl : t' = t := Option.some.inj (htag.symm.trans hi.1)
      rw [Function.update_self]
      exact hq
    · rw [Function.update_of_ne hne]
      exact h.entitled j t' p' hj

/-- One thread's share apart from those of the others. -/
theorem Overlap.split {t : T} (h : Overlap weight charged grant size bound share ⟨ts, (w, tags)⟩)
    (hi : Config.Running ⟨ts, (w, tags)⟩ i t p) :
    size w + share i + ∑ j ∈ (range ts.length).erase i, share j ≤ bound := by
  have hlt : i < ts.length := (List.getElem?_eq_some_iff.mp hi.2).1
  have hsum := add_sum_erase (range ts.length) share (mem_range.mpr hlt)
  have hsize := h.size_le
  simp only at hsize
  omega

/-- A charged call uses up one of the thread's share, and a count of the room gives it a new
one, which the others' shares can only add to. -/
theorem Overlap.served {S : Services C R ε W} {c : C} {k : R c → Program C R ε Unit} {r : R c} {t : T}
    (hcharged : ∀ c w r w', charged c → S.serve c w r w' → size w' ≤ size w+1)
    (hfree : ∀ c w r w', ¬ charged c → S.serve c w r w' → size w' ≤ size w)
    (hgrant : ∀ c w r w' m, S.serve c w r w' → grant c r = some m → m ≤ cap-size w')
    (h : Overlap weight charged grant size (max bound (cap+n)) share ⟨ts, (w, tags)⟩)
    (hcrowd : Crowded weight n ⟨ts, (w, tags)⟩)
    (hi : Config.Running ⟨ts, (w, tags)⟩ i t (.call c k)) (hs : S.serve c w r w') :
    ∃ x, Overlap weight charged grant size (max bound (cap+n)) (Function.update share i x)
      ⟨ts.set i (k r), (w', tags)⟩ := by
  have hsplit := h.split hi
  obtain ⟨hweight, ⟨hl, hzero⟩ | ⟨hu, hb, hle, _⟩⟩ := h.entitled i t _ hi
  · have hsize := hfree c w r w' hl.1 hs
    have hweight' := hweight.2 hl.1 r
    cases hg : grant c r with
    | none =>
      refine ⟨0, h.move hi ⟨hweight', .inl ⟨(hl.2 r).2 hg, rfl⟩⟩ ?_⟩
      omega
    | some m =>
      obtain ⟨hbm, hum⟩ := (hl.2 r).1 m hg
      have hroom := hgrant c w r w' m hs hg
      have hmin : (k r).Bounded charged (min m (weight t)) := by
        obtain hm | hm := min_choice m (weight t)
        · rw [hm]
          exact hbm
        · rw [hm]
          exact hweight'
      obtain ⟨y, hy, hent⟩ := Entitled.of_bounded hweight' hum hmin (min_le_right _ _)
      refine ⟨y, h.move hi hent ?_⟩
      have hothers := (h.others_le i).trans (hcrowd i t c k hi)
      simp only at hothers
      omega
  · by_cases hc : charged c
    · obtain ⟨m, hm, hk⟩ := hb.1 hc
      obtain ⟨m', hm', hk'⟩ := hweight.1 hc
      have hsize := hcharged c w r w' hc hs
      have hweight' : (k r).Bounded charged (weight t) := (hk' r).mono (by omega)
      obtain ⟨y, hy, hent⟩ := Entitled.of_bounded hweight' (hu.2 r) (hk r) (by omega)
      refine ⟨y, h.move hi hent ?_⟩
      omega
    · have hsize := hfree c w r w' hc hs
      obtain ⟨y, hy, hent⟩ := Entitled.of_bounded (hweight.2 hc r) (hu.2 r) (hb.2 hc r) hle
      refine ⟨y, h.move hi hent ?_⟩
      omega

/-- A program that starts has nothing granted yet. -/
theorem Overlap.start {t : T} (h : Overlap weight charged grant size bound share ⟨ts, (w, tags)⟩)
    (hp : p.Licensed charged grant ∧ p.Bounded charged (weight t)) (hsize : size w' ≤ size w) :
    Overlap weight charged grant size bound (Function.update share ts.length 0)
      ⟨ts ++ [p], (w', tags ++ [t])⟩ := by
  have hlength := h.aligned
  simp only at hlength
  refine ⟨by simpa using h.aligned, ?_, fun j t' q hj => ?_⟩
  · have hle := h.size_le
    have hsame : ∑ j ∈ range ts.length, Function.update share ts.length 0 j =
        ∑ j ∈ range ts.length, share j := by
      refine sum_congr rfl fun j hj => Function.update_of_ne ?_ _ _
      exact (mem_range.mp hj).ne
    simp only [List.length_append, List.length_singleton, sum_range_succ, hsame,
      Function.update_self] at hle ⊢
    omega
  · by_cases hlast : j = ts.length
    · subst hlast
      obtain ⟨rfl, rfl⟩ : t' = t ∧ q = p := by
        have htag := hj.1
        have hthread := hj.2
        simp only [← hlength, List.getElem?_concat_length, Option.some.injEq] at htag
        simp only [List.getElem?_concat_length, Option.some.injEq] at hthread
        exact ⟨htag.symm, hthread.symm⟩
      rw [Function.update_self]
      exact ⟨hp.2, .inl ⟨hp.1, rfl⟩⟩
    · rw [Function.update_of_ne hlast]
      obtain ⟨hjlast, _⟩ | ⟨_, hold⟩ := getElem?_append_cases hj.2
      · exact absurd hjlast hlast
      · have hlt : j < tags.length := by
          rw [hlength]
          exact (List.getElem?_eq_some_iff.mp hold).1
        have htag := hj.1
        simp only [List.getElem?_append_left hlt] at htag
        exact h.entitled j t' q ⟨htag, hold⟩

end

section
variable {S : Services C R ε W} {program : T → Program C R ε Unit} {begins : T → W → W → Prop}
variable {env : W → W → Prop}

/-- While those in progress never have more than `n` beside them, the size does not pass the
cap by more than `n`. -/
theorem System.Run.size_le_overlap {w₀ : W} {tr : List (Label C)} {s : Config C R ε (W × List T)}
    (hprogram : ∀ t w w', begins t w w' →
      ((program t).Licensed charged grant ∧ (program t).Bounded charged (weight t)) ∧ size w' ≤ size w)
    (hcharged : ∀ c w r w', charged c → S.serve c w r w' → size w' ≤ size w+1)
    (hfree : ∀ c w r w', ¬ charged c → S.serve c w r w' → size w' ≤ size w)
    (hgrant : ∀ c w r w' m, S.serve c w r w' → grant c r = some m → m ≤ cap-size w')
    (henv : ∀ w w', env w w' → size w' ≤ size w)
    (hr : (System.tagged S program begins env).Run (fun _ s _ => Crowded weight n s)
      ⟨[], (w₀, [])⟩ tr s) : size s.world.1 ≤ max (size w₀) (cap+n) := by
  have hinv : ∃ share, Overlap weight charged grant size (max (size w₀) (cap+n)) share s := by
    refine hr.invariant (I := fun _ s =>
      ∃ share, Overlap weight charged grant size (max (size w₀) (cap+n)) share s) ?_ ?_
    · refine ⟨fun _ => 0, rfl, by simp, fun i t p hp => ?_⟩
      exact absurd hp.1 (by simp)
    · intro tr s₁ l s₂ h hcrowd hs
      obtain ⟨share, h⟩ := h
      cases hs with
      | @start ts w w' p hp =>
        obtain ⟨w, tags⟩ := w
        obtain ⟨w', tags'⟩ := w'
        obtain ⟨t, hbegins, rfl, rfl⟩ := hp
        obtain ⟨hp, hsize⟩ := hprogram t w w' hbegins
        exact ⟨_, h.start hp hsize⟩
      | @served ts w w' i c k r hi hserved =>
        obtain ⟨w, tags⟩ := w
        obtain ⟨w', tags'⟩ := w'
        obtain ⟨hserved, rfl⟩ := hserved
        obtain ⟨t, p, htag, hthread⟩ := h.running (List.getElem?_eq_some_iff.mp hi).1
        obtain ⟨x, hx⟩ := h.served hcharged hfree hgrant hcrowd ⟨htag, hi⟩ hserved
        exact ⟨_, hx⟩
      | @failed ts w i c k e hi hf =>
        obtain ⟨w, tags⟩ := w
        obtain ⟨t, p, htag, hthread⟩ := h.running (List.getElem?_eq_some_iff.mp hi).1
        have hsplit := h.split ⟨htag, hi⟩
        refine ⟨_, h.move (x := 0) ⟨htag, hi⟩ ⟨trivial, .inl ⟨trivial, rfl⟩⟩ ?_⟩
        omega
      | @env ts w w' he =>
        obtain ⟨w, tags⟩ := w
        obtain ⟨w', tags'⟩ := w'
        obtain ⟨he, rfl⟩ := he
        have hsize := henv w w' he
        have hle := h.size_le
        exact ⟨share, h.aligned, by simp only at hle ⊢; omega, h.entitled⟩
  obtain ⟨share, h⟩ := hinv
  have hle := h.size_le
  omega

end
end OdwaManager.Effect
