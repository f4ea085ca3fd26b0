import OdwaManager.Disturbance
import OdwaManager.PolicyEffect

/-! A tick that reads the target health three times while it changes. The number to destroy
comes from the first read, and the pool for the sample is the third. -/
namespace OdwaManager
open Effect Program

/- What the tick is asked to tolerate. -/

/-- The healthy ids of the reads, latest first. -/
def reads : List Notice → List (Finset InstanceId)
  | [] => []
  | .read healthy :: es => healthy :: reads es
  | .sampled _ :: es => reads es

/-- The tick returned, and of the pool that it sampled from a healthy worker is left out. -/
structure Tolerates (res : Except PyError TickReport) (es : List Notice) : Prop where
  returns : ∃ report, res = .ok report
  spares : ∀ l healthy rest, es = .sampled l :: .read healthy :: rest → healthy.Nonempty →
    ∃ id ∈ healthy, id ∉ l

/-- The other columns that a tick may need are not null. -/
structure AutoScalingConfig.Complete (config : AutoScalingConfig) : Prop where
  expandThreshold : config.expandThreshold ≠ none
  shrinkThreshold : config.shrinkThreshold ≠ none
  expandRatio : config.expandRatio ≠ none

/-- If the health was read for the third time, it showed nobody or more than the number
that goes with the first read. -/
def RoomLeft (ratio : ℚ) (es : List Notice) : Prop :=
  ∀ third second first, reads es = [third, second, first] →
    third = ∅ ∨ ⌊ratio*first.card⌋ < third.card

section
variable {ratio : ℚ} {report : TickReport} {es : List Notice} {H₁ H₂ H₃ : Finset InstanceId}
  {res : Except PyError TickReport} {w w' : Account} {s' : Account × List Notice}
  {l : List InstanceId}

/-- A log that stops before the third read. -/
def Early (es : List Notice) : Prop := (reads es).length < 3 ∧ ∀ l rest, es ≠ .sampled l :: rest

theorem Early.tolerates_iff (h : Early es) :
    Tolerates (.ok report) es ↔ RoomLeft ratio es := by
  refine iff_of_true ⟨⟨report, rfl⟩, fun l H rest hes => absurd hes (h.2 l _)⟩ ?_
  intro third second first hreads
  have hlen := h.1
  rw [hreads] at hlen
  simp at hlen

theorem roomLeft_iff (h : reads es = [H₃, H₂, H₁]) :
    RoomLeft ratio es ↔ H₃ = ∅ ∨ ⌊ratio*H₁.card⌋ < H₃.card := by
  simp [RoomLeft, h]

theorem tolerates_sampled :
    Tolerates (.ok report) (.sampled l :: .read H₃ :: es) ↔
      (H₃.Nonempty → ∃ id ∈ H₃, id ∉ l) := by
  constructor
  · intro h
    exact h.spares l H₃ es rfl
  · intro h
    refine ⟨⟨report, rfl⟩, fun l' H rest hes => ?_⟩
    cases hes
    exact h

theorem calm_verdict {p : Op TickReport} (hp : Calm l p) (hw : Recorded l w) (he : Early es)
    (h : Runs disturbed p (w, es) res s') : Tolerates res s'.2 ↔ RoomLeft ratio s'.2 := by
  obtain ⟨_, hes, report, rfl⟩ := hp.runs hw h
  rw [hes]
  exact he.tolerates_iff

theorem Early.not_three {p : Op TickReport} (he : Early es)
    (hp : p.Uses fun c => ∀ r, note c r = []) (h : Runs disturbed p (w, es) res s') :
    (reads s'.2).length ≠ 3 := by
  have hes : s'.2 = es := noting_quiet hp h
  rw [hes]
  exact he.1.ne

/-- A health read answers with some healthy ids, and all of them are on record. -/
theorem runs_serving_bind {β : Type} {f : Finset InstanceId × Nat → Op β} {res : Except PyError β}
    (hw : Recorded l w) (h : Runs disturbed (getServingInstances >>= f) (w, es) res s') :
    ∃ H w₁, Recorded H.toList w₁ ∧
      Runs disturbed (f (H, H.card)) (w₁, .read H :: es) res s' := by
  change Runs disturbed (ask .describeTargetHealth >>= fun r =>
    f (inserviceIds r, (inserviceIds r).card)) (w, es) res s' at h
  obtain ⟨_, _, w₁, hw₁, _, ⟨rfl, rfl⟩, h⟩ :=
    runs_disturbed_ask (c := .describeTargetHealth) hw (fun _ _ _ hr => hr) h
  refine ⟨inserviceIds w₁.targets, w₁, ⟨hw₁.targets, fun id hid => ?_⟩, h⟩
  rw [inserviceIds_targets, Finset.mem_toList, Account.mem_healthy] at hid
  exact hw₁.targets _ hid

theorem runs_allValid_bind {β : Type} {f : Bool × Num → Op β} {res : Except PyError β}
    (hw : Recorded l w) (h : Runs disturbed (allInstanceHasValidCpuUtil >>= f) (w, es) res s') :
    ∃ H a w₁, Recorded H.toList w₁ ∧ Runs disturbed (f a) (w₁, .read H :: es) res s' := by
  change Runs disturbed (getServingInstances >>= fun a =>
    (ask (.iterate a.1) >>= fun order => gatherCpuStats order []) >>= f) (w, es) res s' at h
  obtain ⟨H, w₁, hw₁, h⟩ := runs_serving_bind hw h
  have hiterate : Calm H.toList (ask (.iterate H)) :=
    Calm.request (.inr (.inr (.inl trivial))) (fun _ => rfl) fun _ _ _ hr => hr
  have hloop := hiterate.bind fun order => calm_gather order []
  obtain ⟨a, w₂, hw₂, h⟩ := hloop.runs_bind hw₁ h
  exact ⟨H, a, w₂, hw₂, h⟩

/-- The second look at the pool: nobody is a False, too few are a ValueError, and else a
sample of it is destroyed whatever else happens. -/
theorem runs_randomDestroy {k : ℤ} (hk : 0 < k) (hw : Recorded l w) {res : Except PyError Bool}
    (h : Runs disturbed (randomDestroyWorker k) (w, es) res s') :
    ∃ H, (H = ∅ ∧ res = .ok false ∧ s'.2 = .read H :: es) ∨
      (H.Nonempty ∧ H.card < k ∧ res = .error .valueError ∧ s'.2 = .read H :: es) ∨
      ∃ l, H.Nonempty ∧ IsSample H k l ∧ res = .ok true ∧ s'.2 = .sampled l :: .read H :: es := by
  obtain ⟨H, w₁, hw₁, h⟩ := runs_serving_bind hw h
  refine ⟨H, ?_⟩
  dsimp only at h
  by_cases hc : H.card = 0
  · rw [if_pos hc] at h
    exact .inl ⟨Finset.card_eq_zero.mp hc, h.1, by rw [h.2]⟩
  · have hne : H.Nonempty := Finset.card_pos.mp (Nat.pos_of_ne_zero hc)
    rw [if_neg hc, randomSample] at h
    by_cases hs : 0 ≤ k ∧ k ≤ H.card
    · rw [if_pos hs] at h
      obtain ⟨l, w₂, w₃, hw₂, _, ⟨hl, rfl⟩, h⟩ :=
        runs_disturbed_ask (c := .sample H k.toNat) hw₁ (fun _ _ _ hr => hr) h
      have hloop : Calm H.toList (each l destroyAWorker) :=
        Calm.each l fun id hid => calm_destroy (Finset.mem_toList.mpr (hl.2.1 id hid))
      obtain ⟨r, hr, rfl⟩ := runs_map.mp h
      obtain ⟨_, hes, _, rfl⟩ := hloop.runs hw₂ hr
      exact .inr (.inr ⟨l, hne, hl, rfl, hes⟩)
    · rw [if_neg hs] at h
      exact .inr (.inl ⟨hne, by omega, h.1, by rw [h.2]⟩)

variable {config : AutoScalingConfig}

/-- The branch that destroys keeps within the pool exactly if the third read leaves room. -/
theorem shrink_verdict (hr : config.shrinkRatio = some ratio) (hw : Recorded l w)
    (h : Runs disturbed (shrinkFleet config H₁.card) (w, [.read H₂, .read H₁]) res s') :
    Tolerates res s'.2 ↔ RoomLeft ratio s'.2 := by
  rw [shrinkFleet, hr] at h
  change Runs _ (if toDestroy ratio H₁.card > 0 then _ else _) _ res s' at h
  by_cases hpos : toDestroy ratio H₁.card > 0
  · have hfloor : ⌊ratio*H₁.card⌋ = toDestroy ratio H₁.card := by
      have hnat := pyInt_toNat (ratio*H₁.card)
      rw [toDestroy] at hpos ⊢
      omega
    rw [if_pos hpos] at h
    obtain ⟨r, hdestroy, rfl⟩ := runs_map.mp h
    obtain ⟨H₃, ⟨rfl, rfl, hes⟩ | ⟨hne, hlt, rfl, hes⟩ | ⟨l, hne, hl, rfl, hes⟩⟩ :=
      runs_randomDestroy hpos hw hdestroy
    · rw [hes, roomLeft_iff rfl]
      refine iff_of_true ⟨⟨_, rfl⟩, fun l H rest hlog => ?_⟩ (.inl rfl)
      cases hlog
    · rw [hes, roomLeft_iff rfl, hfloor]
      refine iff_of_false (fun ht => ?_) (not_or.mpr ⟨hne.ne_empty, by omega⟩)
      obtain ⟨report, hok⟩ := ht.returns
      cases hok
    · rw [hes, roomLeft_iff rfl, hfloor, ← hl.spares_iff hne]
      refine tolerates_sampled.trans ?_
      simp [hne, hne.ne_empty]
  · rw [if_neg hpos] at h
    exact calm_verdict (Calm.pure _) hw (by simp [Early, reads]) h

theorem expandFleet_quiet (n m : Nat) :
    (expandFleet config n m).Uses fun c => ∀ r, note c r = [] := by
  refine (expandFleet_uses config n m).mono fun c hc r => ?_
  cases c <;> first | rfl | exact False.elim hc

/-- Only the branch that shrinks comes to a third read; under a complete policy the others
return. -/
theorem actOn_verdict (hc : config.Complete ∨ (reads s'.2).length = 3)
    (hr : config.shrinkRatio = some ratio) (hw : Recorded l w) {m : Nat} {avg : Num}
    (h : Runs disturbed (actOn config H₁.card m avg) (w, [.read H₂, .read H₁]) res s') :
    Tolerates res s'.2 ↔ RoomLeft ratio s'.2 := by
  have hearly : Early [.read H₂, .read H₁] := by simp [Early, reads]
  cases het : config.expandThreshold with
  | none =>
    rw [actOn, het] at h
    obtain hc | hthree := hc
    · exact absurd het hc.expandThreshold
    · exact absurd hthree (hearly.not_three (p := .raise .typeError) trivial h)
  | some et =>
    cases hgt : avg.gt et with
    | true =>
      rw [actOn_expand het hgt] at h
      obtain hc | hthree := hc
      · exact calm_verdict (calm_expandFleet hc.expandRatio _ _) hw hearly h
      · exact absurd hthree (hearly.not_three (expandFleet_quiet _ _) h)
    | false =>
      cases hst : config.shrinkThreshold with
      | none =>
        rw [actOn_below het hgt, hst] at h
        obtain hc | hthree := hc
        · exact absurd hst hc.shrinkThreshold
        · exact absurd hthree (hearly.not_three (p := .raise .typeError) trivial h)
      | some st =>
        cases hlt : avg.lt st with
        | true =>
          rw [actOn_shrink het hgt hst hlt] at h
          exact shrink_verdict hr hw h
        | false =>
          rw [actOn_within het hgt hst hlt] at h
          exact calm_verdict (Calm.pure _) hw hearly h

theorem scaleFleet_verdict (hc : config.Complete ∨ (reads s'.2).length = 3)
    (hr : config.shrinkRatio = some ratio) (hw : Recorded l w)
    (h : Runs disturbed (scaleFleet config) (w, []) res s') :
    Tolerates res s'.2 ↔ RoomLeft ratio s'.2 := by
  obtain ⟨H₁, w₁, hw₁, h⟩ := runs_serving_bind hw h
  obtain ⟨n, w₂, hw₂, h⟩ := calm_running.runs_bind hw₁ h
  dsimp only at h
  split at h
  · exact calm_verdict (Calm.pure _) hw₂ (by simp [Early, reads]) h
  · obtain ⟨m, w₃, hw₃, h⟩ := calm_nonTerminated.runs_bind hw₂ h
    obtain ⟨H₂, a, w₄, hw₄, h⟩ := runs_allValid_bind hw₃ h
    dsimp only at h
    split at h
    · exact calm_verdict (Calm.pure _) hw₄ (by simp [Early, reads]) h
    · exact actOn_verdict hc hr hw₄ h

end

/-- Under any changes of the health and any destroy requests between its calls, a tick that
reads the health three times, and any tick under a complete policy, returns and spares a
healthy worker exactly if the third read shows nobody or more than the number that it
computed from the first. -/
theorem shrink_race_iff {w : Account} {s' : Account × List Notice} {config : AutoScalingConfig}
    {ratio : ℚ} {res : Except PyError TickReport} (hstored : w.table.rows.head? = some config)
    (hr : config.shrinkRatio = some ratio) (hknown : ∀ t ∈ w.targets, w.Known t.id)
    (h : Runs disturbed autoCheckAvgCpuUtilization (w, []) res s')
    (hc : config.Complete ∨ (reads s'.2).length = 3) :
    Tolerates res s'.2 ↔ RoomLeft ratio s'.2 := by
  have hw : Recorded [] w := ⟨hknown, nofun⟩
  have hearly : Early [] := by simp [Early, reads]
  obtain ⟨r, w₁, w₂, hw₁, htable, ⟨rfl, rfl⟩, h⟩ :=
    runs_disturbed_ask (c := .queryFirst) hw (fun _ _ _ hr => hr) h
  rw [htable, hstored] at h
  dsimp only at h
  split at h
  · obtain ⟨b, w₂, hw₂, h⟩ := calm_hasPending.runs_bind hw₁ h
    split at h
    · exact calm_verdict calm_reportIdle hw₂ hearly h
    · exact scaleFleet_verdict hc hr hw₂ h
  · exact calm_verdict calm_reportIdle hw₁ hearly h

/- Runs of the disturbed tick. -/

section
variable {α : Type} {w w' w₁ : Account} {es : List Notice} {p : Op α} {config : AutoScalingConfig}

theorem runs_undisturbed {res : Except PyError α} (hp : p.Uses fun c => ∀ r, note c r = [])
    (h : Runs (services noFaults) p w res w') : Runs disturbed p (w, es) res (w', es) := by
  have hrun : ∃ es', Runs disturbed p (w, es) res (w', es') :=
    (h.under fun _ => .refl).noting es
  obtain ⟨es', hrun⟩ := hrun
  have hes : es' = es := noting_quiet hp hrun
  rw [hes] at hrun
  exact hrun

theorem runs_serving (hd : Relation.ReflTransGen Disturbance w w₁) :
    Runs disturbed getServingInstances (w, es) (.ok (w₁.healthy, w₁.healthy.card))
      (w₁, .read w₁.healthy :: es) := by
  rw [← inserviceIds_targets]
  exact .inl ⟨w₁.targets, (w₁, _), ⟨⟨w₁, hd, rfl, rfl⟩, rfl⟩, rfl, rfl⟩

theorem runs_allValid (hm : w.AllMeasured) :
    Runs disturbed allInstanceHasValidCpuUtil (w, es) (.ok (true, w.fleetMean))
      (w, .read w.healthy :: es) := by
  have hall := (yields_allValid (w := w)).runs
  rw [if_pos hm] at hall
  refine (runs_serving .refl).bind (runs_undisturbed ?_ (yields_serving.runs_bind.mp hall))
  exact Uses.bind (Uses.request fun _ => rfl) fun order => (calm_gather (l := []) order []).quiet

/-- Left alone, a tick that is past its gates has read the health twice. -/
theorem runs_action {res : Except PyError TickReport} {s' : Account × List Notice}
    (hready : w.Ready config)
    (h : Runs disturbed (w.action config) (w, [.read w.healthy, .read w.healthy]) res s') :
    Runs disturbed autoCheckAvgCpuUtilization (w, []) res s' := by
  refine (runs_undisturbed (Uses.request fun _ => rfl) yields_queryFirst.runs).bind ?_
  rw [hready.stored]
  dsimp only
  rw [if_pos hready.isOn]
  refine (runs_undisturbed (calm_hasPending (l := [])).quiet yields_hasPending.runs).bind ?_
  rw [if_neg (by simp [hready.settled])]
  refine (runs_serving .refl).bind ?_
  refine (runs_undisturbed (calm_running (l := [])).quiet yields_running.runs).bind ?_
  dsimp only
  rw [if_neg (not_not.mpr hready.inService)]
  refine (runs_undisturbed (calm_nonTerminated (l := [])).quiet yields_nonTerminated.runs).bind ?_
  exact (runs_allValid hready.measured).bind h

/-- A tick that shrinks may find another pool, and destroy any sample of it. -/
theorem runs_shrinking {ratio et st : ℚ} {l : List InstanceId} (hready : w.Ready config)
    (het : config.expandThreshold = some et) (hgt : w.fleetMean.gt et = false)
    (hst : config.shrinkThreshold = some st) (hlt : w.fleetMean.lt st = true)
    (hr : config.shrinkRatio = some ratio) (hpos : 0 < toDestroy ratio w.healthy.card)
    (hd : Relation.ReflTransGen Disturbance w w₁) (hknown : ∀ id ∈ w₁.healthy, w₁.Known id)
    (hle : toDestroy ratio w.healthy.card ≤ w₁.healthy.card)
    (hl : IsSample w₁.healthy (toDestroy ratio w.healthy.card) l) :
    Runs disturbed autoCheckAvgCpuUtilization (w, [])
      (.ok (.shrink (toDestroy ratio w.healthy.card)))
      (w₁.destroyed l,
        [.sampled l, .read w₁.healthy, .read w.healthy, .read w.healthy]) := by
  refine runs_action hready ?_
  rw [Account.action, actOn_shrink het hgt hst hlt, shrinkFleet, hr]
  change Runs _ (if toDestroy ratio w.healthy.card > 0 then _ else _) _ _ _
  rw [if_pos hpos]
  refine Runs.bind (a := true) ((runs_serving hd).bind ?_) ⟨rfl, rfl⟩
  dsimp only
  rw [if_neg (by omega), randomSample, if_pos ⟨hpos.le, hle⟩]
  refine .inl ⟨l, (w₁, _), ⟨⟨w₁, .refl, hl, rfl⟩, rfl⟩, ?_⟩
  have hloop := does_each_destroy l fun id hid => hknown id (hl.2.1 id hid)
  have hquiet : (each l destroyAWorker).Uses fun c => ∀ r, note c r = [] :=
    Uses.each l fun id hid => (calm_destroy hid).quiet
  exact (runs_undisturbed hquiet hloop.runs).bind ⟨rfl, rfl⟩

end

/-- Half of the pool goes while the mean is below one half. -/
def halving : AutoScalingConfig := ⟨true, some (1/2), some 2, some (1/2), some (4/5)⟩

theorem halving_ready : (pair (1/20) (.single halving)).Ready halving where
  stored := rfl
  isOn := rfl
  settled := pair_pending
  inService := rfl
  measured := pair_measured

theorem halving_shrinks {w₁ : Account} {l : List InstanceId}
    (hd : Relation.ReflTransGen Disturbance (pair (1/20) (.single halving)) w₁)
    (hknown : ∀ id ∈ w₁.healthy, w₁.Known id) (hpool : w₁.healthy.Nonempty)
    (hl : IsSample w₁.healthy 1 l) :
    Runs disturbed autoCheckAvgCpuUtilization (pair (1/20) (.single halving), [])
      (.ok (.shrink 1))
      (w₁.destroyed l, [.sampled l, .read w₁.healthy, .read {"i-1", "i-2"}, .read {"i-1", "i-2"}]) := by
  have hmean : (pair (1/20) (.single halving)).fleetMean = .val (1/20) := by
    rw [Account.fleetMean_eq ⟨"i-1", by decide⟩, pair_meanCpu]
  have hone : toDestroy (1/2) (pair (1/20) (.single halving)).healthy.card = 1 := by
    rw [pair_card]
    norm_num [toDestroy, pyInt]
  have hrun := runs_shrinking halving_ready rfl (by norm_num [hmean, Num.gt]) rfl
    (by norm_num [hmean, Num.lt]) rfl (by rw [hone]; norm_num) hd hknown
    (by rw [hone]; exact_mod_cast hpool.card_pos) (hone.symm ▸ hl)
  rw [hone] at hrun
  exact hrun

theorem shrink_race_alone :
    Tolerates (.ok (.shrink 1)) [.sampled ["i-1"], .read {"i-1", "i-2"}, .read {"i-1", "i-2"},
      .read {"i-1", "i-2"}] := by
  have hrun := halving_shrinks (l := ["i-1"]) .refl
    (fun id hid => (pair_worker id hid).inState.known) ⟨"i-1", by decide⟩ (by decide)
  refine (shrink_race_iff rfl rfl (by decide) hrun (.inr rfl)).mpr ?_
  refine (roomLeft_iff rfl).mpr (.inr ?_)
  decide +kernel

/-- The second worker turns unhealthy before the third read, and the tick, which counted
two, takes the only one left. -/
theorem shrink_race_emptied :
    ¬ ∀ (w : Account) (s' : Account × List Notice) (config : AutoScalingConfig) (ratio : ℚ)
      (res : Except PyError TickReport), w.table.rows.head? = some config →
      config.shrinkRatio = some ratio → 0 ≤ ratio → ratio < 1 → config.Complete →
      (∀ t ∈ w.targets, w.Known t.id) →
      Runs disturbed autoCheckAvgCpuUtilization (w, []) res s' → Tolerates res s'.2 := by
  intro h
  have hd : Disturbance (pair (1/20) (.single halving)) _ :=
    .health fun t => if t.id = "i-1" then .healthy else .unhealthy
  have hrun := halving_shrinks (l := ["i-1"]) (.single hd) (by decide) ⟨"i-1", by decide⟩ (by decide)
  have htolerates := h _ _ halving _ _ rfl rfl (by norm_num) (by norm_num)
    ⟨by decide, by decide, by decide⟩ (by decide) hrun
  obtain ⟨id, hid, hleft⟩ := htolerates.spares _ _ _ rfl ⟨"i-1", by decide⟩
  have hnone : ∀ id ∈ ({"i-1"} : Finset InstanceId), id ∈ ["i-1"] := by decide
  exact hleft (hnone id hid)

end OdwaManager
