import OdwaManager.Sorting

/-! The chart data of util.py. Points are put in order by their label, the hour and the
minute as text: no point is lost or paired anew, but the order of the labels is the order of
time only away from 10:00 and midnight. -/
namespace OdwaManager
open Sorting

/-- A UTC time of CloudWatch. -/
structure Timestamp where
  seconds : ℤ
  deriving DecidableEq, Repr

def Timestamp.hour (t : Timestamp) : Nat := (t.seconds/3600%24).toNat

def Timestamp.minute (t : Timestamp) : Nat := (t.seconds/60%60).toNat

inductive Statistic where
  | average | sum
  deriving DecidableEq, Repr

/-- One of the Datapoints; it has the statistic that the caller asked for. -/
structure Datapoint where
  timestamp : Timestamp
  value : Statistic → ℚ

/-- The text of %02d. -/
def twoDigits (n : Nat) : List Char := (Nat.toDigits 10 n).leftpad 2 '0'

/-- The text of "%d:%02d". -/
def label (hour minute : Nat) : String :=
  String.ofList (Nat.toDigits 10 hour ++ ':' :: twoDigits minute)

def Datapoint.label (p : Datapoint) : String := OdwaManager.label p.timestamp.hour p.timestamp.minute

/-- The row of storage_list that a point becomes. -/
def Datapoint.entry (specification : Statistic) (p : Datapoint) : String × ℚ :=
  (p.label, p.value specification)

def returnLabelValues (stats : List Datapoint) (specification : Statistic) :
    List String × List ℚ × ℚ :=
  let storageList := sortByKey Prod.fst (stats.map (Datapoint.entry specification))
  let labels := storageList.map Prod.fst
  let values := storageList.map Prod.snd
  let maxVal := match storageList.argmax Prod.snd with
    | none => 0
    | some item => item.2
  (labels, values, maxVal)

/- The label as text. -/

/-- The hour with its colon: no such word begins another. -/
def hourWord (hour : Nat) : List Char := Nat.toDigits 10 hour ++ [':']

theorem hourWord_begins : ∀ h < 24, ∀ h' < 24, hourWord h <+: hourWord h' → h = h' := by
  decide

theorem hourWord_lt_next : ∀ h < 24, hourWord h < hourWord ((h+1)%24) ↔ h ≠ 9 ∧ h ≠ 23 := by
  decide

theorem label_toList (hour minute : Nat) :
    (label hour minute).toList = hourWord hour ++ twoDigits minute := by
  rw [label, String.toList_ofList, hourWord, List.append_assoc]
  rfl

theorem twoDigits_eq : ∀ m < 60, twoDigits m = [Nat.digitChar (m/10), Nat.digitChar (m%10)] := by
  decide

theorem digitChar_lt_iff : ∀ d < 10, ∀ e < 10, Nat.digitChar d < Nat.digitChar e ↔ d < e := by
  decide

theorem digitChar_inj : ∀ d < 10, ∀ e < 10, Nat.digitChar d = Nat.digitChar e → d = e := by
  decide

section
variable {h h' m m' : Nat}

theorem twoDigits_lt_iff (hm : m < 60) (hm' : m' < 60) : twoDigits m < twoDigits m' ↔ m < m' := by
  have hq : m/10 < 10 := by omega
  have hq' : m'/10 < 10 := by omega
  have hr : m%10 < 10 := by omega
  have hr' : m'%10 < 10 := by omega
  have heq : Nat.digitChar (m/10) = Nat.digitChar (m'/10) ↔ m/10 = m'/10 :=
    ⟨digitChar_inj _ hq _ hq', congrArg _⟩
  rw [twoDigits_eq m hm, twoDigits_eq m' hm', List.cons_lt_cons_iff, List.cons_lt_cons_iff,
    digitChar_lt_iff _ hq _ hq', digitChar_lt_iff _ hr _ hr', heq]
  simp only [List.not_lt_nil, and_false, or_false]
  omega

/-- Labels of one hour are in the order of their minutes. -/
theorem label_lt_iff_of_hour (hm : m < 60) (hm' : m' < 60) : label h m < label h m' ↔ m < m' := by
  rw [String.lt_iff_toList_lt, label_toList, label_toList, append_lt_append_left_iff,
    twoDigits_lt_iff hm hm']

/-- Labels of different hours are in the order of the hours as words. -/
theorem label_lt_iff_of_ne (hh : h < 24) (hh' : h' < 24) (hne : h ≠ h') :
    label h m < label h' m' ↔ hourWord h < hourWord h' := by
  rw [String.lt_iff_toList_lt, label_toList, label_toList]
  refine append_lt_append_iff (fun hp => ?_) fun hp => ?_
  · exact hne (hourWord_begins h hh h' hh' hp)
  · exact hne (hourWord_begins h' hh' h hh hp).symm

theorem label_injective (hh : h < 24) (hm : m < 60) (hh' : h' < 24) (hm' : m' < 60)
    (he : label h m = label h' m') : h = h' ∧ m = m' := by
  have hhour : h = h' := by
    have hlist := congrArg String.toList he
    rw [label_toList, label_toList] at hlist
    obtain hp | hp := List.prefix_or_prefix_of_prefix
      (List.prefix_append (hourWord h) (twoDigits m)) (hlist ▸ List.prefix_append (hourWord h') _)
    · exact hourWord_begins h hh h' hh' hp
    · exact (hourWord_begins h' hh' h hh hp).symm
  subst hhour
  have hlt := label_lt_iff_of_hour (h := h) hm hm'
  have hgt := label_lt_iff_of_hour (h := h) hm' hm
  rw [he] at hlt hgt
  simp only [lt_self_iff_false, false_iff, not_lt] at hlt hgt
  exact ⟨rfl, le_antisymm hgt hlt⟩

end

theorem Timestamp.hour_lt (t : Timestamp) : t.hour < 24 := by
  unfold Timestamp.hour
  omega

theorem Timestamp.minute_lt (t : Timestamp) : t.minute < 60 := by
  unfold Timestamp.minute
  omega

theorem Datapoint.label_eq_iff {p q : Datapoint} : p.label = q.label ↔
    p.timestamp.hour = q.timestamp.hour ∧ p.timestamp.minute = q.timestamp.minute := by
  constructor
  · exact label_injective p.timestamp.hour_lt p.timestamp.minute_lt q.timestamp.hour_lt
      q.timestamp.minute_lt
  · intro h
    rw [Datapoint.label, Datapoint.label, h.1, h.2]

/- What is returned. -/

section
variable {points points' : List Datapoint} {specification : Statistic}

/-- storage_list once it is sorted. -/
def storage (points : List Datapoint) (specification : Statistic) : List (String × ℚ) :=
  sortByKey Prod.fst (points.map (Datapoint.entry specification))

theorem storage_perm :
    (storage points specification).Perm (points.map (Datapoint.entry specification)) :=
  sortByKey_perm _ _

/-- The maximum is one of the values and no value is above it. -/
theorem returnLabelValues_max (hne : points ≠ []) :
    (∃ p ∈ points, (returnLabelValues points specification).2.2 = p.value specification) ∧
      ∀ p ∈ points, p.value specification ≤ (returnLabelValues points specification).2.2 := by
  have hstorage : (storage points specification).argmax Prod.snd ≠ none := by
    rw [Ne, List.argmax_eq_none, ← List.length_eq_zero_iff, storage_perm.length_eq]
    simpa using hne
  obtain ⟨item, hitem⟩ := Option.ne_none_iff_exists'.mp hstorage
  have hmax : (returnLabelValues points specification).2.2 = item.2 := by
    change (match (storage points specification).argmax Prod.snd with
      | none => 0
      | some item => item.2) = item.2
    rw [hitem]
  rw [hmax]
  constructor
  · obtain ⟨p, hp, he⟩ := List.mem_map.mp (storage_perm.mem_iff.mp (List.argmax_mem hitem))
    exact ⟨p, hp, by rw [← he]; rfl⟩
  · intro p hp
    have hmem := storage_perm.mem_iff.mpr (List.mem_map_of_mem (f := Datapoint.entry specification) hp)
    exact List.le_of_mem_argmax hmem hitem

/-- Entries with one label come from one point, if no two points share hour and minute. -/
theorem entry_inj (hd : points.Pairwise fun p q => p.label ≠ q.label) :
    ∀ a ∈ points.map (Datapoint.entry specification),
      ∀ b ∈ points.map (Datapoint.entry specification), a.1 = b.1 → a = b := by
  intro a ha b hb hab
  obtain ⟨p, hp, rfl⟩ := List.mem_map.mp ha
  obtain ⟨q, hq, rfl⟩ := List.mem_map.mp hb
  have hinj := List.inj_on_of_nodup_map (List.pairwise_map.mpr hd : (points.map Datapoint.label).Nodup)
  rw [hinj hp hq hab]

theorem returnLabelValues_congr (hperm : points'.Perm points)
    (hd : points.Pairwise fun p q => p.label ≠ q.label) :
    returnLabelValues points' specification = returnLabelValues points specification := by
  have hstorage : storage points' specification = storage points specification :=
    sortByKey_congr (hperm.map _) (entry_inj hd)
  unfold storage at hstorage
  simp only [returnLabelValues, hstorage]

end

section
variable {points : List Datapoint} {specification : Statistic} {labels : List String}
  {values : List ℚ} {maxVal : ℚ}

theorem returned_iff (labels : List String) (values : List ℚ) :
    (∃ maxVal, returnLabelValues points specification = (labels, values, maxVal)) ↔
      labels = (storage points specification).map Prod.fst ∧
        values = (storage points specification).map Prod.snd := by
  constructor
  · rintro ⟨maxVal, h⟩
    cases h
    exact ⟨rfl, rfl⟩
  · rintro ⟨rfl, rfl⟩
    exact ⟨_, rfl⟩

/-- No point is lost or paired anew, the labels are sorted and equal ones keep their order,
the maximum is the greatest value, a label stands for one hour and minute, and points at
different minutes of the day give the same chart in whatever order they come. -/
theorem chart_faithful (h : returnLabelValues points specification = (labels, values, maxVal)) :
    labels.length = values.length ∧
    (labels.zip values).Perm (points.map (Datapoint.entry specification)) ∧
    labels.Pairwise (· ≤ ·) ∧
    (∀ text, (labels.zip values).filter (fun e => e.1 = text) =
      (points.map (Datapoint.entry specification)).filter fun e => e.1 = text) ∧
    (points = [] → maxVal = 0) ∧
    (points ≠ [] → (∃ p ∈ points, maxVal = p.value specification) ∧
      ∀ p ∈ points, p.value specification ≤ maxVal) ∧
    (∀ hour < 24, ∀ minute < 60, ∀ hour' < 24, ∀ minute' < 60,
      label hour minute = label hour' minute' → hour = hour' ∧ minute = minute') ∧
    ∀ points' : List Datapoint, points'.Perm points →
      points.Pairwise (fun p q => ¬ (p.timestamp.hour = q.timestamp.hour ∧
        p.timestamp.minute = q.timestamp.minute)) →
      returnLabelValues points' specification = (labels, values, maxVal) := by
  obtain ⟨hlabels, hvalues⟩ := (returned_iff labels values).mp ⟨maxVal, h⟩
  have hzip : labels.zip values = storage points specification := by
    rw [hlabels, hvalues]
    exact (List.zip_of_prod rfl rfl).symm
  have hmax : (returnLabelValues points specification).2.2 = maxVal := by rw [h]
  refine ⟨by simp [hlabels, hvalues], ?_, ?_, fun text => ?_, fun hnil => ?_, fun hne => ?_,
    fun _ hh _ hm _ hh' _ hm' => label_injective hh hm hh' hm', fun points' hperm hd => ?_⟩
  · rw [hzip]
    exact storage_perm
  · rw [hlabels, List.pairwise_map]
    exact pairwise_sortByKey _ _
  · rw [hzip]
    exact filter_sortByKey _ _ text
  · rw [← hmax, hnil]
    simp [returnLabelValues, sortByKey]
  · rw [← hmax]
    exact returnLabelValues_max hne
  · rw [← h]
    refine returnLabelValues_congr hperm (hd.imp fun hpq => ?_)
    rwa [Ne, Datapoint.label_eq_iff]

end

/-- The point of the minute `n` of the first day. -/
def pointAt (n : ℤ) (value : ℚ) : Datapoint := ⟨⟨60*n⟩, fun _ => value⟩

/-- Two points, and one at the minute of the second on the next day. -/
def twoDays : List Datapoint := [pointAt 120 4, pointAt 60 5, pointAt 1500 7]

theorem chart_faithful_two_days :
    returnLabelValues twoDays .sum = (["1:00", "1:00", "2:00"], [5, 7, 4], 7) ∧
    (["1:00", "1:00", "2:00"].zip [5, 7, 4]).Perm (twoDays.map (Datapoint.entry .sum)) := by
  have hentries : twoDays.map (Datapoint.entry .sum) = [("2:00", 4), ("1:00", 5), ("1:00", 7)] := by
    decide
  have hsorted : sortByKey Prod.fst [("2:00", (4 : ℚ)), ("1:00", 5), ("1:00", 7)] =
      [("1:00", 5), ("1:00", 7), ("2:00", 4)] := by
    simp [sortByKey, List.mergeSort]
  have hchart : returnLabelValues twoDays .sum = (["1:00", "1:00", "2:00"], [5, 7, 4], 7) := by
    rw [returnLabelValues, hentries, hsorted]
    rfl
  exact ⟨hchart, (chart_faithful hchart).2.1⟩

/- The order of time. -/

/-- The points in the order of their timestamps. -/
def chronological (points : List Datapoint) : List Datapoint :=
  sortByKey (fun p => p.timestamp.seconds) points

/-- The chart lists labels and values in the order of time. -/
def InTimeOrder (points : List Datapoint) (specification : Statistic) : Prop :=
  (returnLabelValues points specification).1 = (chronological points).map Datapoint.label ∧
    (returnLabelValues points specification).2.1 =
      (chronological points).map fun p => p.value specification

/-- What CloudWatch answers for the half hour before `ref`: one point a minute, in any order. -/
structure HalfHour (ref : Timestamp) (points : List Datapoint) : Prop where
  after : ∀ p ∈ points, ref.seconds - 30*60 ≤ p.timestamp.seconds
  before : ∀ p ∈ points, p.timestamp.seconds ≤ ref.seconds
  aligned : ∀ p ∈ points, p.timestamp.seconds%60 = 0
  distinct : points.Pairwise fun p q => p.timestamp ≠ q.timestamp

/-- Some point is in the one hour and some in the other. -/
def Straddles (points : List Datapoint) (hour hour' : Nat) : Prop :=
  (∃ p ∈ points, p.timestamp.hour = hour) ∧ ∃ q ∈ points, q.timestamp.hour = hour'

/-- Within half an hour two minutes are in one hour or in two that follow each other. -/
theorem label_lt_iff_of_lt {t t' : Timestamp} (ht : t.seconds%60 = 0) (ht' : t'.seconds%60 = 0)
    (hlt : t.seconds < t'.seconds) (hle : t'.seconds ≤ t.seconds + 30*60) :
    label t.hour t.minute < label t'.hour t'.minute ↔
      ¬ (t.hour = 9 ∧ t'.hour = 10) ∧ ¬ (t.hour = 23 ∧ t'.hour = 0) := by
  have hcases : t'.hour = t.hour ∧ t.minute < t'.minute ∨ t'.hour = (t.hour+1)%24 := by
    unfold Timestamp.hour Timestamp.minute
    omega
  obtain ⟨hhour, hminute⟩ | hhour := hcases
  · rw [hhour, label_lt_iff_of_hour t.minute_lt t'.minute_lt]
    refine iff_of_true hminute ?_
    omega
  · have hh := t.hour_lt
    rw [label_lt_iff_of_ne t.hour_lt t'.hour_lt (by omega), hhour, hourWord_lt_next _ hh]
    omega

section
variable {ref : Timestamp} {points : List Datapoint} {p q : Datapoint}

theorem HalfHour.label_lt_iff (h : HalfHour ref points) (hp : p ∈ points) (hq : q ∈ points)
    (hlt : p.timestamp.seconds < q.timestamp.seconds) : p.label < q.label ↔
      ¬ (p.timestamp.hour = 9 ∧ q.timestamp.hour = 10) ∧
        ¬ (p.timestamp.hour = 23 ∧ q.timestamp.hour = 0) := by
  have hafter := h.after p hp
  have hbefore := h.before q hq
  exact label_lt_iff_of_lt (h.aligned p hp) (h.aligned q hq) hlt (by omega)

/-- Half an hour has no two minutes of one label. -/
theorem HalfHour.timestamp_eq (h : HalfHour ref points) (hp : p ∈ points) (hq : q ∈ points)
    (he : p.label = q.label) : p.timestamp = q.timestamp := by
  have hp₁ := h.after p hp
  have hp₂ := h.before p hp
  have hp₃ := h.aligned p hp
  have hq₁ := h.after q hq
  have hq₂ := h.before q hq
  have hq₃ := h.aligned q hq
  rw [Datapoint.label_eq_iff, Timestamp.hour, Timestamp.hour, Timestamp.minute, Timestamp.minute] at he
  have hs : p.timestamp.seconds = q.timestamp.seconds := by omega
  cases hpt : p.timestamp
  cases hqt : q.timestamp
  rw [hpt, hqt] at hs
  exact congrArg Timestamp.mk hs

theorem HalfHour.labels_distinct (h : HalfHour ref points) :
    points.Pairwise fun p q => p.label ≠ q.label :=
  h.distinct.imp_of_mem fun hp hq hne he => hne (h.timestamp_eq hp hq he)

/-- The later of two consecutive hours has the later points. -/
theorem HalfHour.seconds_lt (h : HalfHour ref points) (hp : p ∈ points) (hq : q ∈ points)
    (hnext : q.timestamp.hour = (p.timestamp.hour+1)%24) :
    p.timestamp.seconds < q.timestamp.seconds := by
  have hp₂ := h.before p hp
  have hq₁ := h.after q hq
  unfold Timestamp.hour at hnext
  omega

theorem inTimeOrder_iff_storage {specification : Statistic} : InTimeOrder points specification ↔
    storage points specification = (chronological points).map (Datapoint.entry specification) := by
  constructor
  · intro h
    have hlabels : (storage points specification).map Prod.fst =
        ((chronological points).map (Datapoint.entry specification)).map Prod.fst := by
      rw [List.map_map]
      exact h.1
    have hvalues : (storage points specification).map Prod.snd =
        ((chronological points).map (Datapoint.entry specification)).map Prod.snd := by
      rw [List.map_map]
      exact h.2
    exact (List.zip_of_prod hlabels hvalues).trans (List.zip_of_prod rfl rfl).symm
  · intro h
    constructor
    · change (storage points specification).map Prod.fst = _
      rw [h, List.map_map]
      rfl
    · change (storage points specification).map Prod.snd = _
      rw [h, List.map_map]
      rfl

/-- The chart is in the order of time exactly if the half hour has no points on both sides of
10:00, where the hour gets its second digit, and none on both sides of midnight. -/
theorem chart_in_time_order_iff (h : HalfHour ref points) (specification : Statistic) :
    InTimeOrder points specification ↔ ¬ Straddles points 9 10 ∧ ¬ Straddles points 23 0 := by
  have hmem : ∀ p, p ∈ chronological points ↔ p ∈ points :=
    fun p => (sortByKey_perm _ points).mem_iff
  rw [inTimeOrder_iff_storage]
  constructor
  · intro hstorage
    have hlabels : (chronological points).Pairwise fun p q => p.label ≤ q.label := by
      have hsorted := pairwise_sortByKey Prod.fst (points.map (Datapoint.entry specification))
      rw [← storage, hstorage, List.pairwise_map] at hsorted
      exact hsorted
    have hpair : ∀ p ∈ points, ∀ q ∈ points, q.timestamp.hour = (p.timestamp.hour+1)%24 →
        ¬ (p.timestamp.hour = 9 ∧ q.timestamp.hour = 10) ∧
          ¬ (p.timestamp.hour = 23 ∧ q.timestamp.hour = 0) := by
      intro p hp q hq hnext
      have hlt := h.seconds_lt hp hq hnext
      have hle := pairwise_of_key_lt (pairwise_sortByKey _ points) hlabels ((hmem p).mpr hp)
        ((hmem q).mpr hq) hlt
      refine (h.label_lt_iff hp hq hlt).mp (lt_of_le_of_ne hle fun he => ?_)
      rw [h.timestamp_eq hp hq he] at hlt
      exact lt_irrefl _ hlt
    constructor
    · rintro ⟨⟨p, hp, hph⟩, q, hq, hqh⟩
      exact (hpair p hp q hq (by rw [hph, hqh])).1 ⟨hph, hqh⟩
    · rintro ⟨⟨p, hp, hph⟩, q, hq, hqh⟩
      exact (hpair p hp q hq (by rw [hph, hqh])).2 ⟨hph, hqh⟩
  · rintro ⟨hten, hmidnight⟩
    have hperm := (sortByKey_perm (fun p : Datapoint => p.timestamp.seconds) points).map
      (Datapoint.entry specification)
    refine sortByKey_eq_of_pairwise hperm ?_ (entry_inj h.labels_distinct)
    rw [List.pairwise_map]
    refine (pairwise_sortByKey _ points).imp_of_mem fun {p q} hp hq hle => ?_
    have hp := (hmem p).mp hp
    have hq := (hmem q).mp hq
    obtain hlt | heq := lt_or_eq_of_le hle
    · refine le_of_lt ((h.label_lt_iff hp hq hlt).mpr ⟨fun hh => ?_, fun hh => ?_⟩)
      · exact hten ⟨⟨p, hp, hh.1⟩, q, hq, hh.2⟩
      · exact hmidnight ⟨⟨p, hp, hh.1⟩, q, hq, hh.2⟩
    · refine le_of_eq (Datapoint.label_eq_iff.mpr ?_)
      simp only [Timestamp.hour, Timestamp.minute, heq, and_self]

end

/-- Two minutes that follow each other, the later one first. -/
def lastMinutes (n : ℤ) : List Datapoint := [pointAt n 3, pointAt (n-1) 1]

theorem lastMinutes_halfHour (n : ℤ) : HalfHour ⟨60*n⟩ (lastMinutes n) where
  after := by simp [lastMinutes, pointAt]; omega
  before := by simp [lastMinutes, pointAt]
  aligned := by simp [lastMinutes, pointAt]
  distinct := by simp [lastMinutes, pointAt]; omega

/-- Around noon the chart is in the order of time. -/
theorem chart_in_time_order_noon : InTimeOrder (lastMinutes 720) .average := by
  refine (chart_in_time_order_iff (lastMinutes_halfHour 720) .average).mpr ⟨?_, ?_⟩
  · simp [Straddles, lastMinutes, pointAt, Timestamp.hour]
  · simp [Straddles, lastMinutes, pointAt, Timestamp.hour]

/-- 10:00 is listed before 9:59. -/
theorem chart_out_of_order_ten :
    HalfHour ⟨36000⟩ (lastMinutes 600) ∧
    returnLabelValues (lastMinutes 600) .average = (["10:00", "9:59"], [3, 1], 3) ∧
    (chronological (lastMinutes 600)).map Datapoint.label = ["9:59", "10:00"] ∧
    ¬ InTimeOrder (lastMinutes 600) .average := by
  have hentries : (lastMinutes 600).map (Datapoint.entry .average) = [("10:00", 3), ("9:59", 1)] := by
    decide
  have hchart : returnLabelValues (lastMinutes 600) .average = (["10:00", "9:59"], [3, 1], 3) := by
    have hsorted : sortByKey Prod.fst [("10:00", (3 : ℚ)), ("9:59", 1)] = [("10:00", 3), ("9:59", 1)] :=
      sortByKey_eq_of_pairwise (List.Perm.refl _) (by decide) (by decide)
    rw [returnLabelValues, hentries, hsorted]
    rfl
  have htime : (chronological (lastMinutes 600)).map Datapoint.label = ["9:59", "10:00"] := by
    have hsorted : chronological (lastMinutes 600) = (lastMinutes 600).reverse :=
      sortByKey_eq_of_pairwise (List.reverse_perm _) (by decide) (by simp [lastMinutes, pointAt])
    rw [hsorted]
    decide
  refine ⟨lastMinutes_halfHour 600, hchart, htime, fun h => ?_⟩
  have hlabels := h.1
  rw [hchart, htime] at hlabels
  simp at hlabels

end OdwaManager
