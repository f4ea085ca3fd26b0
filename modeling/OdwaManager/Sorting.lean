import Mathlib

/-! Stable sorting by a key, and the lexicographic order of texts that begin with one of a
set of words none of which begins another. -/
namespace OdwaManager.Sorting

section ByKey
variable {α κ : Type} [LinearOrder κ] {key : α → κ} {l l' : List α}

/-- Sorted by `key`; equal keys stay in the order in which they came. -/
def sortByKey (key : α → κ) (l : List α) : List α := l.mergeSort fun a b => decide (key a ≤ key b)

theorem sortByKey_perm (key : α → κ) (l : List α) : (sortByKey key l).Perm l :=
  List.mergeSort_perm l _

theorem key_le_trans (a b c : α) (hab : decide (key a ≤ key b) = true)
    (hbc : decide (key b ≤ key c) = true) : decide (key a ≤ key c) = true := by
  rw [decide_eq_true_eq] at *
  exact hab.trans hbc

theorem key_le_total (a b : α) : (decide (key a ≤ key b) || decide (key b ≤ key a)) = true := by
  simpa using le_total (key a) (key b)

theorem pairwise_sortByKey (key : α → κ) (l : List α) :
    (sortByKey key l).Pairwise fun a b => key a ≤ key b := by
  have h : (sortByKey key l).Pairwise fun a b => decide (key a ≤ key b) = true :=
    List.pairwise_mergeSort key_le_trans key_le_total l
  exact h.imp fun hab => of_decide_eq_true hab

/-- The items of one key are left as they came. -/
theorem filter_sortByKey (key : α → κ) (l : List α) (k : κ) :
    (sortByKey key l).filter (fun a => key a = k) = l.filter fun a => key a = k := by
  have hsame : (l.filter fun a => key a = k).Pairwise fun a b => decide (key a ≤ key b) = true := by
    refine List.pairwise_of_forall_mem_list fun a ha b hb => ?_
    simp only [List.mem_filter, decide_eq_true_eq] at ha hb ⊢
    rw [ha.2, hb.2]
  have hsub := List.sublist_mergeSort key_le_trans key_le_total hsame List.filter_sublist
  have hfilter := hsub.filter fun a => decide (key a = k)
  rw [List.filter_filter] at hfilter
  simp only [Bool.and_self] at hfilter
  exact (hfilter.eq_of_length ((sortByKey_perm key l).filter _).length_eq.symm).symm

/-- Where no two items share a key there is only one way to sort them. -/
theorem sortByKey_eq_of_pairwise (hperm : l'.Perm l) (hsorted : l'.Pairwise fun a b => key a ≤ key b)
    (hinj : ∀ a ∈ l, ∀ b ∈ l, key a = key b → a = b) : sortByKey key l = l' := by
  have hboth := (sortByKey_perm key l).trans hperm.symm
  refine List.Perm.eq_of_pairwise (fun a b ha hb hab hba => ?_) (pairwise_sortByKey key l) hsorted hboth
  exact hinj a ((sortByKey_perm key l).mem_iff.mp ha) b (hperm.mem_iff.mp hb) (le_antisymm hab hba)

theorem sortByKey_congr (hperm : l'.Perm l) (hinj : ∀ a ∈ l, ∀ b ∈ l, key a = key b → a = b) :
    sortByKey key l' = sortByKey key l :=
  (sortByKey_eq_of_pairwise ((sortByKey_perm key l').trans hperm) (pairwise_sortByKey key l') hinj).symm

/-- In a sorted list the item with the smaller key comes first. -/
theorem pairwise_of_key_lt {R : α → α → Prop} {a b : α} (hsorted : l.Pairwise fun a b => key a ≤ key b)
    (hR : l.Pairwise R) (ha : a ∈ l) (hb : b ∈ l) (hlt : key a < key b) : R a b := by
  induction l with
  | nil => cases ha
  | cons c l ih =>
    rw [List.pairwise_cons] at hsorted hR
    rw [List.mem_cons] at ha hb
    obtain rfl | ha := ha
    · obtain rfl | hb := hb
      · exact absurd hlt (lt_irrefl _)
      · exact hR.1 b hb
    · obtain rfl | hb := hb
      · exact absurd (hsorted.1 a ha) (not_le.mpr hlt)
      · exact ih hsorted.2 hR.2 ha hb

end ByKey

section Words
variable {α : Type} [LinearOrder α] {a b x y : List α}

/-- Words that do not begin one another decide the order of the texts they begin. -/
theorem append_lt_append_iff (h : ¬ a <+: b) (h' : ¬ b <+: a) : a ++ x < b ++ y ↔ a < b := by
  induction a generalizing b with
  | nil => exact absurd List.nil_prefix h
  | cons c a ih =>
    cases b with
    | nil => exact absurd List.nil_prefix h'
    | cons d b =>
      rw [List.cons_append, List.cons_append, List.cons_lt_cons_iff, List.cons_lt_cons_iff]
      refine or_congr_right (and_congr_right fun hcd => ih ?_ ?_)
      · exact fun hp => h (List.cons_prefix_cons.mpr ⟨hcd, hp⟩)
      · exact fun hp => h' (List.cons_prefix_cons.mpr ⟨hcd.symm, hp⟩)

theorem append_lt_append_left_iff : a ++ x < a ++ y ↔ x < y := by
  induction a with
  | nil => rfl
  | cons c a ih => simpa [List.cons_lt_cons_iff] using ih

end Words
end OdwaManager.Sorting
