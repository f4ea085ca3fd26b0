import OdwaManager.Interrupted
import OdwaManager.Settling

/-! A constant load. Where the workers share one load among them, each round maps the size of the
pool by one formula of the policy. The pool comes to rest if a growing pool cannot become too
large at once, or a shrinking one too small. -/
namespace OdwaManager
open Effect Program

/-- A map that takes a measure down wherever it moves comes to rest. -/
theorem iterate_rests {f μ : Nat → Nat} {I : Nat → Prop} (hI : ∀ n, I n → I (f n))
    (hf : ∀ n, I n → f n = n ∨ μ (f n) < μ n) (b : Nat) :
    ∀ n, I n → μ n ≤ b → ∃ m, I m ∧ f m = m ∧ ∀ k, b ≤ k → f^[k] n = m := by
  induction b with
  | zero =>
    intro n hn hb
    have hfix : f n = n := (hf n hn).resolve_right (by omega)
    exact ⟨n, hn, hfix, fun k _ => Function.iterate_fixed hfix k⟩
  | succ b ih =>
    intro n hn hb
    obtain hfix | hlt := hf n hn
    · exact ⟨n, hn, hfix, fun k _ => Function.iterate_fixed hfix k⟩
    · obtain ⟨m, hm, hfix, hall⟩ := ih (f n) (hI n hn) (by omega)
      refine ⟨m, hm, hfix, fun k hk => ?_⟩
      obtain ⟨j, rfl⟩ : ∃ j, k = j+1 := ⟨k-1, by omega⟩
      rw [Function.iterate_succ_apply]
      exact hall j (by omega)

/-- The workers share the load `L`. -/
def SharedLoad (L : ℚ) (w : Account) : Prop := w.meanCpu*w.poolSize = L

namespace Policy

/-- What a round makes of `n` workers that share the load `L`. -/
def nextSize (p : Policy) (L : ℚ) (n : Nat) : Nat := ((n : ℤ)+(p.decide n n (L/n)).change).toNat

/-- The load is too high for `n` workers. -/
def Over (p : Policy) (L : ℚ) (n : Nat) : Prop := p.expandThreshold*n < L

/-- The load is too low for `n` workers. -/
def Under (p : Policy) (L : ℚ) (n : Nat) : Prop := ¬ p.Over L n ∧ L < p.shrinkThreshold*n

instance (p : Policy) (L : ℚ) (n : Nat) : Decidable (p.Over L n) :=
  inferInstanceAs (Decidable (_ < _))

instance (p : Policy) (L : ℚ) (n : Nat) : Decidable (p.Under L n) :=
  inferInstanceAs (Decidable (_ ∧ _))

section
variable {p : Policy} {L : ℚ} {n : Nat}

theorem mean_gt_iff {t : ℚ} (hn : 1 ≤ n) : L/n > t ↔ t*n < L := by
  have hpos : (0 : ℚ) < n := by exact_mod_cast hn
  exact lt_div_iff₀ hpos

theorem mean_lt_iff {t : ℚ} (hn : 1 ≤ n) : L/n < t ↔ L < t*n := by
  have hpos : (0 : ℚ) < n := by exact_mod_cast hn
  exact div_lt_iff₀ hpos

theorem nextSize_over (hn : 1 ≤ n) (h : p.Over L n) :
    (p.nextSize L n : ℤ) = n + max 0 (min (⌈p.expandRatio*n⌉-n) (8-n)) := by
  rw [nextSize, Policy.decide, if_pos ((mean_gt_iff hn).mpr h), Decision.change]
  omega

theorem nextSize_under (hlt : p.shrinkRatio < 1) (hn : 1 ≤ n) (h : p.Under L n) :
    p.nextSize L n = shareLeft p.shrinkRatio n := by
  have hfloor := floor_share_lt hlt hn
  rw [nextSize, Policy.decide, if_neg (fun hgt => h.1 ((mean_gt_iff hn).mp hgt)),
    if_pos ((mean_lt_iff hn).mpr h.2), Decision.change, shareLeft]
  omega

theorem nextSize_within (hn : 1 ≤ n) (ho : ¬ p.Over L n) (hu : ¬ p.Under L n) :
    p.nextSize L n = n := by
  have hu' : ¬ L/n < p.shrinkThreshold := fun hl => hu ⟨ho, (mean_lt_iff hn).mp hl⟩
  rw [nextSize, Policy.decide, if_neg (fun hgt => ho ((mean_gt_iff hn).mp hgt)), if_neg hu',
    Decision.change]
  omega

theorem nextSize_pos (hlt : p.shrinkRatio < 1) (hn : 1 ≤ n) : 1 ≤ p.nextSize L n := by
  by_cases ho : p.Over L n
  · have hsize := nextSize_over hn ho
    omega
  · by_cases hu : p.Under L n
    · rw [nextSize_under hlt hn hu]
      exact shareLeft_pos hlt hn
    · rw [nextSize_within hn ho hu]
      exact hn

/-- A pool that grew has at most 8 workers, and not more than the ratio, rounded up, of each. -/
theorem nextSize_le (hn : 1 ≤ n) (h : p.Over L n) (hne : p.nextSize L n ≠ n) :
    n < p.nextSize L n ∧ p.nextSize L n ≤ 8 ∧ (p.nextSize L n : ℤ) ≤ ⌈p.expandRatio⌉*n := by
  have hsize := nextSize_over hn h
  have hceil : ⌈p.expandRatio*n⌉ ≤ ⌈p.expandRatio⌉*n := by
    rw [Int.ceil_le]
    push_cast
    exact mul_le_mul_of_nonneg_right (Int.le_ceil _) (Nat.cast_nonneg n)
  omega

/-- A pool that shrank keeps at least its share of workers. -/
theorem le_nextSize (hlt : p.shrinkRatio < 1) (hn : 1 ≤ n) (h : p.Under L n)
    (hne : p.nextSize L n ≠ n) :
    p.nextSize L n < n ∧ (1-p.shrinkRatio)*n ≤ p.nextSize L n := by
  rw [nextSize_under hlt hn h, shareLeft] at hne ⊢
  have hfloor := floor_share_lt hlt hn
  have hle := Int.floor_le (p.shrinkRatio*n)
  have hpos : 0 < ⌊p.shrinkRatio*n⌋ := by omega
  have hcast : ((n-⌊p.shrinkRatio*n⌋.toNat : Nat) : ℚ) = n-⌊p.shrinkRatio*n⌋ := by
    have hint : ((n-⌊p.shrinkRatio*n⌋.toNat : Nat) : ℤ) = n-⌊p.shrinkRatio*n⌋ := by omega
    exact_mod_cast congrArg (Int.cast : ℤ → ℚ) hint
  refine ⟨by omega, ?_⟩
  rw [hcast]
  linarith

/-- The thresholds are so far apart that growth does not overshoot. -/
def GrowsGently (p : Policy) : Prop := ⌈p.expandRatio⌉*p.shrinkThreshold ≤ p.expandThreshold

/-- The thresholds are so far apart that shrinking does not overshoot. -/
def ShrinksGently (p : Policy) : Prop :=
  p.shrinkThreshold ≤ (1-p.shrinkRatio)*p.expandThreshold

theorem GrowsGently.not_under (hp : p.GrowsGently) (hL : 0 ≤ L) (hn : 1 ≤ n) (h : p.Over L n)
    (hne : p.nextSize L n ≠ n) : ¬ p.Under L (p.nextSize L n) := by
  rintro ⟨-, hlow⟩
  obtain ⟨-, -, hle⟩ := nextSize_le hn h hne
  have hle' : (p.nextSize L n : ℚ) ≤ ⌈p.expandRatio⌉*n := by exact_mod_cast hle
  have hpos : (0 : ℚ) ≤ n := Nat.cast_nonneg n
  have hst : 0 ≤ p.shrinkThreshold := by
    by_contra hneg
    have hnext : p.shrinkThreshold*p.nextSize L n ≤ 0 :=
      mul_nonpos_of_nonpos_of_nonneg (not_le.mp hneg).le (Nat.cast_nonneg _)
    linarith
  have hlt : L < p.expandThreshold*n :=
    calc L < p.shrinkThreshold*p.nextSize L n := hlow
      _ ≤ p.shrinkThreshold*(⌈p.expandRatio⌉*n) := mul_le_mul_of_nonneg_left hle' hst
      _ = ⌈p.expandRatio⌉*p.shrinkThreshold*n := by ring
      _ ≤ p.expandThreshold*n := mul_le_mul_of_nonneg_right hp hpos
  exact absurd h (not_lt.mpr hlt.le)

theorem ShrinksGently.not_over (hp : p.ShrinksGently) (hL : 0 ≤ L) (hlt : p.shrinkRatio < 1)
    (hn : 1 ≤ n) (h : p.Under L n) (hne : p.nextSize L n ≠ n) : ¬ p.Over L (p.nextSize L n) := by
  intro hover
  obtain ⟨-, hle⟩ := le_nextSize hlt hn h hne
  have hpos : (0 : ℚ) ≤ n := Nat.cast_nonneg n
  have het : 0 ≤ p.expandThreshold := by
    by_contra hneg
    have hst : p.shrinkThreshold ≤ 0 :=
      hp.trans (mul_nonpos_of_nonneg_of_nonpos (by linarith) (not_le.mp hneg).le)
    have hlow := h.2
    have hzero : p.shrinkThreshold*n ≤ 0 := mul_nonpos_of_nonpos_of_nonneg hst hpos
    linarith
  have hlt' : L < p.expandThreshold*p.nextSize L n :=
    calc L < p.shrinkThreshold*n := h.2
      _ ≤ (1-p.shrinkRatio)*p.expandThreshold*n := mul_le_mul_of_nonneg_right hp hpos
      _ = p.expandThreshold*((1-p.shrinkRatio)*n) := by ring
      _ ≤ p.expandThreshold*p.nextSize L n := mul_le_mul_of_nonneg_left hle het
  exact absurd hover (not_lt.mpr hlt'.le)

/-- Once the load is not too low it never is again, and the pool only grows. -/
theorem GrowsGently.descends (hp : p.GrowsGently) (hL : 0 ≤ L) (hlt : p.shrinkRatio < 1)
    (hn : 1 ≤ n) : p.nextSize L n = n ∨
      (if p.Under L (p.nextSize L n) then p.nextSize L n+8 else 8-p.nextSize L n) <
        if p.Under L n then n+8 else 8-n := by
  by_cases hne : p.nextSize L n = n
  · exact .inl hne
  · refine .inr ?_
    by_cases ho : p.Over L n
    · obtain ⟨hgt, hcap, -⟩ := nextSize_le hn ho hne
      rw [if_neg (hp.not_under hL hn ho hne), if_neg fun hu => hu.1 ho]
      omega
    · have hu : p.Under L n := by
        by_contra hu
        exact hne (nextSize_within hn ho hu)
      obtain ⟨hgt, -⟩ := le_nextSize hlt hn hu hne
      rw [if_pos hu]
      split <;> omega

/-- Once the load is not too high it never is again, and the pool only shrinks. -/
theorem ShrinksGently.descends (hp : p.ShrinksGently) (hL : 0 ≤ L) (hlt : p.shrinkRatio < 1)
    (hn : 1 ≤ n) : p.nextSize L n = n ∨
      (if p.Over L (p.nextSize L n) then 17-p.nextSize L n else p.nextSize L n) <
        if p.Over L n then 17-n else n := by
  by_cases hne : p.nextSize L n = n
  · exact .inl hne
  · refine .inr ?_
    by_cases ho : p.Over L n
    · obtain ⟨hgt, hcap, -⟩ := nextSize_le hn ho hne
      rw [if_pos ho]
      split <;> omega
    · have hu : p.Under L n := by
        by_contra hu
        exact hne (nextSize_within hn ho hu)
      obtain ⟨hgt, -⟩ := le_nextSize hlt hn hu hne
      rw [if_neg (hp.not_over hL hlt hn hu hne), if_neg ho]
      exact hgt

theorem iterate_nextSize_rests (hp : p.GrowsGently ∨ p.ShrinksGently) (hL : 0 ≤ L)
    (hlt : p.shrinkRatio < 1) (hn : 1 ≤ n) :
    ∃ m, 1 ≤ m ∧ p.nextSize L m = m ∧ ∀ k, n+16 ≤ k → (p.nextSize L)^[k] n = m := by
  have hpos : ∀ m, 1 ≤ m → 1 ≤ p.nextSize L m := fun m hm => nextSize_pos hlt hm
  obtain hp | hp := hp
  · refine iterate_rests (μ := fun m => if p.Under L m then m+8 else 8-m) hpos
      (fun m hm => hp.descends hL hlt hm) (n+16) n hn ?_
    split <;> omega
  · refine iterate_rests (μ := fun m => if p.Over L m then 17-m else m) hpos
      (fun m hm => hp.descends hL hlt hm) (n+16) n hn ?_
    split <;> omega

/-- Where the pool stays: the load is in the band, or too high with no room left, or too low
with less than one worker to end. -/
def Rests (p : Policy) (L : ℚ) (n : Nat) : Prop :=
  ¬ p.Over L n ∧ ¬ p.Under L n ∨ p.Over L n ∧ (8 ≤ n ∨ p.expandRatio ≤ 1) ∨
    p.Under L n ∧ p.shrinkRatio*n < 1

/-- The sizes that a round does not change. -/
theorem nextSize_eq_iff (hlt : p.shrinkRatio < 1) (hn : 1 ≤ n) :
    p.nextSize L n = n ↔ p.Rests L n := by
  by_cases ho : p.Over L n
  · have hsize := nextSize_over hn ho
    have hnot : ¬ p.Under L n := fun hu => hu.1 ho
    simp only [Rests, ho, hnot, not_true_eq_false, false_and, true_and, or_false, false_or]
    constructor
    · intro hfix
      by_contra! hroom
      have hceil := lt_ceil_mul hroom.2 hn
      omega
    · rintro (hfull | hratio)
      · omega
      · have hceil : ⌈p.expandRatio*n⌉ ≤ n := by
          rw [Int.ceil_le]
          exact_mod_cast mul_le_of_le_one_left (Nat.cast_nonneg n) hratio
        omega
  · by_cases hu : p.Under L n
    · rw [nextSize_under hlt hn hu]
      simp only [Rests, ho, hu, not_true_eq_false, and_false, false_and, true_and, false_or]
      constructor
      · intro hfix
        by_contra hshare
        exact absurd hfix (shareLeft_lt hn (not_lt.mp hshare)).ne
      · intro hshare
        have hfloor : ⌊p.shrinkRatio*n⌋ < 1 := Int.floor_lt.mpr (by exact_mod_cast hshare)
        rw [shareLeft]
        omega
    · exact iff_of_true (nextSize_within hn ho hu) (.inl ⟨ho, hu⟩)

end

end Policy

/- The rounds. -/

section
variable {faults : Call → Account → Prop} {elb : Account → Prop} {p : Policy} {L : ℚ}
  {w₀ w w' : Account} {k : Nat}

theorem Settled.steady (h : Settled w) (hne : 1 ≤ w.poolSize) : w.Steady :=
  ⟨h.pending, by rw [h.serving], by rw [h.healthy_card]; omega, h.measured⟩

theorem SharedLoad.meanCpu (h : SharedLoad L w) (hne : 1 ≤ w.poolSize) :
    w.meanCpu = L/w.poolSize := by
  have hpos : (w.poolSize : ℚ) ≠ 0 := by
    rw [Nat.cast_ne_zero]
    omega
  rw [eq_div_iff hpos]
  exact h

theorem tickDoes_shared (h : p.Rules w) (hlt : p.shrinkRatio < 1) (hload : SharedLoad L w) :
    TickDoes w (p.decide w.poolSize w.poolSize (L/w.poolSize)) := by
  have hrun : Truthful w := fun id hid => (h.settled.worker id hid).inState
  have hstored : w.table.rows.head? = (some p : Option Policy).map Policy.row := h.stored
  have hdoes := tickDoes_decision hrun hstored (by rintro q ⟨⟩; exact hlt.le)
  rw [decision_of_steady h.isOn (h.settled.steady h.serving), h.settled.healthy_card,
    h.settled.fleetSize, hload.meanCpu h.serving] at hdoes
  exact hdoes

theorem Round.shared (h : p.Rules w) (hlt : p.shrinkRatio < 1)
    (hr : Round faults elb (SharedLoad L) w w') :
    p.Rules w' ∧ w'.poolSize = p.nextSize L w.poolSize := by
  obtain ⟨hsize, htable, hsettled⟩ := hr.size h.settled (tickDoes_shared h hlt hr.1)
  have hnext : w'.poolSize = p.nextSize L w.poolSize := by
    rw [Policy.nextSize]
    omega
  refine ⟨⟨h.isOn, by rw [htable]; exact h.stored, hsettled, ?_⟩, hnext⟩
  rw [hnext]
  exact Policy.nextSize_pos hlt h.serving

theorem Rounds.shared (h₀ : p.Rules w₀) (hlt : p.shrinkRatio < 1)
    (hr : Rounds faults elb (SharedLoad L) w₀ k w) :
    p.Rules w ∧ w.poolSize = (p.nextSize L)^[k] w₀.poolSize := by
  induction hr with
  | zero => exact ⟨h₀, rfl⟩
  | succ _ hs ih =>
    obtain ⟨hrules, hsize⟩ := hs.shared ih.1 hlt
    rw [hsize, ih.2, Function.iterate_succ_apply']
    exact ⟨hrules, rfl⟩

/- Rounds of any number can be made. -/

theorem Tended.of_astray (ht : Tended w) (honly : WorkersOnly w')
    (hs : ∀ id, w'.Astray id → w.Astray id) : Tended w' := by
  refine ⟨honly, fun id hl => ?_⟩
  by_contra hk
  obtain ⟨hl₀, hk₀⟩ := hs id ⟨hl, hk⟩
  exact hk₀ (ht.kept id hl₀)

theorem Enlarged.tended {n : ℤ} (h : Enlarged n w w') (ht : Tended w) : Tended w' := by
  refine ht.of_astray ?_ fun _ => h.astray
  obtain ⟨new, _, _, _, hinst, hqueue, htargets, _, _⟩ := h
  have hworker : ∀ id, w.IsWorker id → w'.IsWorker id := by
    rintro id ⟨s, hs⟩
    exact ⟨s, by rw [Account.Worker, hinst]; exact List.mem_append_left _ hs⟩
  refine ⟨fun t hmem => hworker _ (ht.only.targets t (htargets ▸ hmem)), fun id hid => ?_⟩
  rw [hqueue, List.mem_append] at hid
  obtain hid | hid := hid
  · exact hworker id (ht.only.queued id hid)
  · refine ⟨.pending, ?_⟩
    rw [Account.Worker, hinst]
    exact List.mem_append_right _ (List.mem_map_of_mem hid)

theorem Reduced.tended {n : ℤ} (h : Reduced n w w') (ht : Tended w) : Tended w' := by
  refine ht.of_astray ?_ fun _ => h.astray
  obtain ⟨gone, _, _, _, hinst, htargets, hqueue, _, _⟩ := h
  have hworker : ∀ id, w.IsWorker id → w'.IsWorker id := by
    rintro id ⟨s, hs⟩
    rw [Account.IsWorker]
    simp only [Account.Worker, hinst, List.mem_map]
    by_cases hid : id ∈ gone
    · exact ⟨.shuttingDown, _, hs, by simp [hid]⟩
    · exact ⟨s, _, hs, by simp [hid]⟩
  refine ⟨fun t hmem => ?_, fun id hid => hworker id (ht.only.queued id (hqueue ▸ hid))⟩
  rw [htargets, List.mem_map] at hmem
  obtain ⟨t₀, hmem, rfl⟩ := hmem
  split <;> exact hworker _ (ht.only.targets t₀ hmem)

theorem Decision.Effect.tended {d : Decision} (h : d.Effect w w') (ht : Tended w) : Tended w' := by
  cases d with
  | hold => exact h ▸ ht
  | grow n => exact Enlarged.tended h ht
  | shrink n => exact Reduced.tended h ht

/-- Every worker with its share of the load. -/
theorem sharedLoad_of_cpu (h : Settled w) (hne : 1 ≤ w.poolSize)
    (hcpu : w.cpu = fun _ _ => [L/w.poolSize]) : SharedLoad L w := by
  have hpos : (w.poolSize : ℚ) ≠ 0 := by
    rw [Nat.cast_ne_zero]
    omega
  have hmean : ∀ id ∈ w.healthy, mean (w.datapoints id) = L/w.poolSize := by
    intro id _
    simp [Account.datapoints, hcpu, mean]
  rw [SharedLoad, Account.meanCpu, Finset.sum_congr rfl hmean, Finset.sum_const, h.healthy_card,
    nsmul_eq_mul]
  field_simp

theorem round_shared_exists (h : p.Rules w) (hlt : p.shrinkRatio < 1) (ht : Tended w)
    (hload : SharedLoad L w) :
    ∃ w', Round noFaults Truthful (SharedLoad L) w w' ∧ Tended w' ∧ SharedLoad L w' := by
  have hdoes := tickDoes_shared h hlt hload
  obtain ⟨⟨res, w₁, htick⟩, hpost⟩ := hdoes
  have ht₁ := (hpost res w₁ htick).2.tended ht
  obtain ⟨w', ⟨ms, hr, hms⟩, ht', hsettled, hcpu⟩ := ht₁.settles (fun _ h => h)
    (fun _ _ => [L/w₁.poolSize]) fun _ => List.cons_ne_nil _ _
  have hround : Round noFaults Truthful (SharedLoad L) w w' :=
    ⟨hload, res, w₁, ms, htick, hr, hms, hsettled⟩
  refine ⟨w', hround, ht', sharedLoad_of_cpu hsettled (hround.shared h hlt).1.serving ?_⟩
  rw [hcpu, (run_settling hms hr).1]

theorem rounds_shared_exist (h₀ : p.Rules w₀) (hlt : p.shrinkRatio < 1) (ht : Tended w₀)
    (hload : SharedLoad L w₀) (k : Nat) :
    ∃ w, Rounds noFaults Truthful (SharedLoad L) w₀ k w ∧ Tended w ∧ SharedLoad L w := by
  induction k with
  | zero => exact ⟨w₀, .zero, ht, hload⟩
  | succ k ih =>
    obtain ⟨w, hr, ht, hload⟩ := ih
    obtain ⟨w', hs, ht', hload'⟩ := round_shared_exists (hr.shared h₀ hlt).1 hlt ht hload
    exact ⟨w', .succ hr hs, ht', hload'⟩

/-- Under a constant load the pool follows one map of its size, whichever workers are sampled and
however the fleet settles between the ticks, and it stays only where that map does: with the load
in the band, with no room left, or with less than one worker to end. There are as many rounds as
one likes. -/
theorem constant_load_orbit (h₀ : p.Rules w₀) (hlt : p.shrinkRatio < 1)
    (ht : ∀ t ∈ w₀.targets, w₀.IsWorker t.id) (hq : ∀ id ∈ w₀.queue, w₀.IsWorker id)
    (hkept : ∀ id, w₀.Live id → w₀.Kept id) (hload : SharedLoad L w₀) (k : Nat) :
    (∃ w, Rounds noFaults Truthful (SharedLoad L) w₀ k w) ∧
      ∀ w, Rounds faults elb (SharedLoad L) w₀ k w →
        w.poolSize = (p.nextSize L)^[k] w₀.poolSize ∧
        ∀ w', Round faults elb (SharedLoad L) w w' →
          (w'.poolSize = w.poolSize ↔ p.Rests L w.poolSize) := by
  obtain ⟨w, hr, _⟩ := rounds_shared_exist h₀ hlt ⟨⟨ht, hq⟩, hkept⟩ hload k
  refine ⟨⟨w, hr⟩, fun w hr => ?_⟩
  obtain ⟨hrules, hsize⟩ := hr.shared h₀ hlt
  refine ⟨hsize, fun w' hs => ?_⟩
  rw [(hs.shared hrules hlt).2]
  exact Policy.nextSize_eq_iff hlt hrules.serving

end

/-- Under thresholds of 1/2 and 2/5, three workers that share the load 31/20 become six, six become
four, and four become three again. -/
example : Policy.nextSize ⟨true, 2/5, 2, 2/5, 1/2⟩ (31/20) 3 = 6 ∧
    Policy.nextSize ⟨true, 2/5, 2, 2/5, 1/2⟩ (31/20) 6 = 4 ∧
    Policy.nextSize ⟨true, 2/5, 2, 2/5, 1/2⟩ (31/20) 4 = 3 := by decide +kernel

/-- The lone worker under thresholds of 50 and 40 percent, which the page offers. -/
def loneFlapping : Account :=
  { loneServing with
    cpu := fun _ _ => [31/20]
    table := .single ⟨true, some (2/5), some 2, some (2/5), some (1/2)⟩ }

theorem loneFlapping_rules : Policy.Rules ⟨true, 2/5, 2, 2/5, 1/2⟩ loneFlapping :=
  ⟨rfl, rfl, ⟨rfl, rfl, rfl, fun _ _ => List.cons_ne_nil _ _⟩, by decide⟩

/-- Three workers are too few for the load and four too many. -/
theorem loneFlapping_never_rests (n : Nat) : ¬ Policy.Rests ⟨true, 2/5, 2, 2/5, 1/2⟩ (31/20) n := by
  have hover : Policy.Over ⟨true, 2/5, 2, 2/5, 1/2⟩ (31/20) n ↔ n ≤ 3 := by
    rw [Policy.Over, ← Nat.lt_succ_iff]
    constructor
    · intro h
      have hlt : (n : ℚ) < 4 := by linarith
      exact_mod_cast hlt
    · intro h
      have hle : (n : ℚ) ≤ 3 := by exact_mod_cast Nat.lt_succ_iff.mp h
      linarith
  have hunder : Policy.Under ⟨true, 2/5, 2, 2/5, 1/2⟩ (31/20) n ↔ 4 ≤ n := by
    rw [Policy.Under, hover]
    constructor
    · omega
    · intro h
      have hle : (4 : ℚ) ≤ n := by exact_mod_cast h
      exact ⟨by omega, by linarith⟩
  rw [Policy.Rests, hover, hunder]
  rintro (h | ⟨hfew, h | h⟩ | ⟨hmany, h⟩)
  · omega
  · omega
  · norm_num at h
  · have hle : (4 : ℚ) ≤ n := by exact_mod_cast hmany
    linarith

/-- One worker becomes two, then four, then three, and the next round changes that again. -/
theorem constant_load_orbit_flapping :
    ∃ w, Rounds noFaults Truthful (SharedLoad (31/20)) loneFlapping 3 w ∧ w.poolSize = 3 ∧
      ∀ w', Round noFaults Truthful (SharedLoad (31/20)) w w' → w'.poolSize ≠ 3 := by
  have hload : SharedLoad (31/20) loneFlapping := by
    rw [SharedLoad, Account.meanCpu, show loneFlapping.healthy = {"i-1"} from rfl,
      show loneFlapping.poolSize = 1 from rfl]
    norm_num [Account.datapoints, loneFlapping, mean]
  have hworker : loneFlapping.IsWorker "i-1" := ⟨.running, List.mem_cons_self⟩
  have hkept : ∀ id, loneFlapping.Live id → loneFlapping.Kept id := by
    intro id hl
    obtain ⟨i, hi, rfl⟩ := List.mem_map.mp hl.known
    obtain rfl : i = ⟨"i-1", some "worker", .running⟩ := List.mem_singleton.mp hi
    exact .inl ⟨⟨"i-1", .healthy⟩, List.mem_cons_self, rfl, by decide⟩
  have htargets : ∀ t ∈ loneFlapping.targets, loneFlapping.IsWorker t.id := by
    intro t ht
    obtain rfl : t = ⟨"i-1", .healthy⟩ := List.mem_singleton.mp ht
    exact hworker
  obtain ⟨⟨w, hr⟩, hall⟩ := constant_load_orbit loneFlapping_rules (by norm_num) htargets
    (fun id hid => absurd hid List.not_mem_nil) hkept hload 3
  obtain ⟨hsize, hkeeps⟩ := hall w hr
  have hthree : w.poolSize = 3 := by
    rw [hsize]
    decide +kernel
  refine ⟨w, hr, hthree, fun w' hs hsame => ?_⟩
  exact loneFlapping_never_rests _ ((hkeeps w' hs).mp (hsame.trans hthree.symm))

section
variable {faults : Call → Account → Prop} {elb : Account → Prop} {p : Policy} {L : ℚ} {w₀ : Account}

/-- Under a constant load the pool comes to rest, within 16 rounds more than it has workers, if
the thresholds are so far apart that growth does not overshoot, or that shrinking does not. -/
theorem constant_load_settles (h₀ : p.Rules w₀) (hlt : p.shrinkRatio < 1)
    (hp : p.GrowsGently ∨ p.ShrinksGently) (hL : 0 ≤ L) :
    ∃ n, 1 ≤ n ∧ p.Rests L n ∧ ∀ k w, Rounds faults elb (SharedLoad L) w₀ k w →
      w₀.poolSize+16 ≤ k → w.poolSize = n := by
  obtain ⟨n, hn, hfix, hall⟩ := Policy.iterate_nextSize_rests hp hL hlt h₀.serving
  refine ⟨n, hn, (Policy.nextSize_eq_iff hlt hn).mp hfix, fun k w hr hk => ?_⟩
  rw [(hr.shared h₀ hlt).2]
  exact hall k hk

end

/-- The policy that the form has selected when the page is opened. -/
theorem constant_load_settles_lone : ∃ n, 1 ≤ n ∧ Policy.Rests ⟨true, 1/10, 2, 1/10, 4/5⟩ 90 n ∧
    ∀ k w, Rounds noFaults Truthful (SharedLoad 90) loneServing k w → 17 ≤ k → w.poolSize = n := by
  have hrules : Policy.Rules ⟨true, 1/10, 2, 1/10, 4/5⟩ loneServing :=
    ⟨rfl, rfl, ⟨rfl, rfl, rfl, fun _ _ => List.cons_ne_nil _ _⟩, by decide⟩
  exact constant_load_settles hrules (by norm_num) (.inl (by norm_num [Policy.GrowsGently])) (by norm_num)

end OdwaManager
