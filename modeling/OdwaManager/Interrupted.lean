import OdwaManager.Convergence
import OdwaManager.Effect.Advance
import OdwaManager.Effect.Interference
import OdwaManager.Effect.Loop
import OdwaManager.PolicyRegister

/-! Calls that raise. A tick that is cut short has done a part of what it decided, and at most one
worker is left neither registered nor queued; while there is such a worker no tick does anything. -/
namespace OdwaManager
open Effect Program

section
variable {faults : Call → Account → Prop} {w w' : Account} {id : InstanceId}

theorem ask_ok {c : Call} {r : Answer c} (h : Runs (services faults) (ask c) w (.ok r) w') :
    Serves c w r w' := by
  obtain ⟨r', hs, hok⟩ | ⟨_, _, hok, _⟩ := runs_request.mp h
  · cases hok
    exact hs
  · cases hok

/- A destroy and a creation that returned, and one that raised. -/

theorem found_id {i : Instance} {l : List Instance}
    (h : i :: l = w.instances.filter fun i => i.id = id) : i.id = id := by
  have hi : i ∈ w.instances.filter fun i => i.id = id := by simp [← h]
  simpa using (List.mem_filter.mp hi).2

theorem destroyAWorker_returned (h : Runs (services faults) (destroyAWorker id) w (.ok ()) w') :
    w' = w.destroy id := by
  obtain ⟨_, w₁, hd, h⟩ | ⟨_, _, hok⟩ := runs_bind.mp h
  · obtain rfl : w₁ = w.deregister id := ask_ok hd
    obtain ⟨found, w₂, hfound, h⟩ | ⟨_, _, hok⟩ := runs_bind.mp h
    · obtain ⟨hlist, rfl⟩ := ask_ok hfound
      cases found with
      | nil => cases h.1
      | cons i rest =>
        obtain ⟨_, rfl⟩ := ask_ok h
        rw [found_id hlist]
        rfl
    · cases hok
  · cases hok

theorem destroyAWorker_raised {e : PyError}
    (h : Runs (services faults) (destroyAWorker id) w (.error e) w') :
    w' = w ∨ w' = w.deregister id := by
  obtain ⟨_, w₁, hd, h⟩ | ⟨_, hd, _⟩ := runs_bind.mp h
  · obtain rfl : w₁ = w.deregister id := ask_ok hd
    refine .inr ?_
    obtain ⟨found, w₂, hfound, h⟩ | ⟨_, hfound, _⟩ := runs_bind.mp h
    · obtain ⟨_, rfl⟩ := ask_ok hfound
      cases found with
      | nil => exact h.2
      | cons i rest => exact request_raised h
    · exact request_raised hfound
  · exact .inl (request_raised hd)

theorem celeryCreateWorker_raised {e : PyError}
    (h : Runs (services faults) celeryCreateWorker w (.error e) w') :
    w' = w ∨ ∃ (id : InstanceId) (hid : w.Fresh id), w' = w.launch id "worker" hid := by
  obtain ⟨id, w₁, hc, h⟩ | ⟨_, hc, _⟩ := runs_bind.mp h
  · obtain ⟨hid, rfl⟩ := ask_ok hc
    exact .inr ⟨id, hid, request_raised h⟩
  · exact .inl (request_raised hc)

theorem through_destroy {l : List InstanceId}
    (h : Through (services faults) destroyAWorker w l w') : w' = w.destroyed l := by
  induction h with
  | nil => rfl
  | cons hb _ ih =>
    rw [ih, destroyAWorker_returned hb]
    rfl

theorem through_create {l : List Unit}
    (h : Through (services faults) (fun _ => celeryCreateWorker) w l w') : w.Grows l.length w' := by
  induction h with
  | nil => rfl
  | cons hb _ ih =>
    obtain ⟨_, id, hid, rfl⟩ := runs_celeryCreateWorker.mp (runs_ok_noFaults hb)
    exact ⟨id, hid, ih⟩

/- The two loops. -/

/-- What is left of creating `n` workers. -/
theorem times_create_leaves {n : Nat} {res : Except PyError Unit}
    (h : Runs (services faults) (times n celeryCreateWorker) w res w') :
    ∃ j w₁, j ≤ n ∧ w.Grows j w₁ ∧
      (w' = w₁ ∨ j < n ∧ ∃ (id : InstanceId) (hid : w₁.Fresh id), w' = w₁.launch id "worker" hid) := by
  rw [times_eq_each] at h
  obtain ⟨_, ht⟩ | ⟨done, b, rest, w₁, e, hl, ht, he, _⟩ := h.each_cut
  · have hgrows := through_create ht
    rw [List.length_replicate] at hgrows
    exact ⟨n, w', le_rfl, hgrows, .inl rfl⟩
  · have hlen : done.length < n := by
      have hcount := congrArg List.length hl
      simp only [List.length_replicate, List.length_append, List.length_cons] at hcount
      omega
    exact ⟨done.length, w₁, hlen.le, through_create ht,
      (celeryCreateWorker_raised he).imp_right fun h => ⟨hlen, h⟩⟩

/-- What is left of destroying the sampled workers. -/
theorem each_destroy_leaves {l : List InstanceId} {res : Except PyError Unit} (hl : l.Nodup)
    (h : Runs (services faults) (each l destroyAWorker) w res w') :
    ∃ gone, gone <+: l ∧ (w' = w.destroyed gone ∨ gone.length < l.length ∧
      ∃ id ∈ l, id ∉ gone ∧ w' = (w.destroyed gone).deregister id) := by
  obtain ⟨_, ht⟩ | ⟨gone, id, rest, w₁, e, rfl, ht, he, _⟩ := h.each_cut
  · exact ⟨l, List.prefix_refl l, .inl (through_destroy ht)⟩
  · obtain rfl := through_destroy ht
    refine ⟨gone, List.prefix_append _ _, (destroyAWorker_raised he).imp_right fun hw => ?_⟩
    have hnot : id ∉ gone := by
      have hdisjoint := (List.nodup_append.mp hl).2.2
      intro hmem
      exact hdisjoint id hmem id List.mem_cons_self rfl
    exact ⟨by simp, id, by simp, hnot, hw⟩

theorem randomSample_leaves {s : Finset InstanceId} {k : ℤ} {res : Except PyError (List InstanceId)}
    (h : Runs (services faults) (randomSample s k) w res w') :
    w' = w ∧ ∀ l, res = .ok l → IsSample s k l := by
  unfold randomSample at h
  split at h
  · obtain ⟨l, ⟨hl, hw⟩, rfl⟩ | ⟨e, _, rfl, hw⟩ := runs_request.mp h
    · refine ⟨hw, fun l' hok => ?_⟩
      cases hok
      exact hl
    · exact ⟨hw, fun l hok => by cases hok⟩
  · obtain ⟨rfl, hw⟩ := h
    exact ⟨hw, fun l hok => by cases hok⟩

/-- What is left of a request to destroy `k` workers. -/
theorem randomDestroyWorker_leaves {k : ℤ} {res : Except PyError Bool}
    (h : Runs (services faults) (randomDestroyWorker k) w res w') :
    ∃ gone, (gone.Nodup ∧ (∀ id ∈ gone, id ∈ w.healthy) ∧ gone.length ≤ k.toNat) ∧
      (w' = w.destroyed gone ∨ gone.length < k.toNat ∧
        ∃ id ∈ w.healthy, id ∉ gone ∧ w' = (w.destroyed gone).deregister id) := by
  have hnothing : ([] : List InstanceId).Nodup ∧ (∀ id ∈ ([] : List InstanceId), id ∈ w.healthy) ∧
      ([] : List InstanceId).length ≤ k.toNat := ⟨List.nodup_nil, by simp, by simp⟩
  obtain rfl | h := runs_bind_read yields_serving
    (getServingInstances_uses.mono fun c hc => hc.readOnly) h
  · exact ⟨[], hnothing, .inl rfl⟩
  dsimp only at h
  split at h
  · exact ⟨[], hnothing, .inl h.2⟩
  obtain ⟨l, w₁, hsample, hrest⟩ | ⟨e, hsample, _⟩ := runs_bind.mp h
  · obtain ⟨rfl, hl⟩ := randomSample_leaves hsample
    obtain ⟨hnodup, hmem, hlen⟩ := hl l rfl
    obtain ⟨res', heach, _⟩ := runs_map.mp hrest
    obtain ⟨gone, hpre, hleaves⟩ := each_destroy_leaves hnodup heach
    refine ⟨gone, ⟨hnodup.sublist hpre.sublist, fun id hid => hmem id (hpre.subset hid), ?_⟩, ?_⟩
    · exact hlen ▸ hpre.length_le
    · refine hleaves.imp_right ?_
      rintro ⟨hlt, id, hid, hleft⟩
      exact ⟨hlen ▸ hlt, id, hmem id hid, hleft⟩
  · rw [(randomSample_leaves hsample).1]
    exact ⟨[], hnothing, .inl rfl⟩

end

/-- A part of what the decision does: some of the creations and perhaps a worker without its
task, or some of the destroys and perhaps a worker that is only deregistered. -/
def Decision.Part : Decision → Account → Account → Prop
  | .hold, w, w' => w' = w
  | .grow k, w, w' => ∃ j w₁, j ≤ k ∧ Enlarged j w w₁ ∧
      (w' = w₁ ∨ j < k ∧ ∃ (id : InstanceId) (hid : w₁.Fresh id), w' = w₁.launch id "worker" hid)
  | .shrink k, w, w' => ∃ j w₁, j ≤ k ∧ Reduced j w w₁ ∧
      (w' = w₁ ∨ j < k ∧ ∃ id ∈ w₁.healthy, w' = w₁.deregister id)

section
variable {faults : Call → Account → Prop} {w w' : Account} {p : Policy} {policy : Option Policy}
  {res : Except PyError TickReport}

theorem reduced_zero : Reduced 0 w w :=
  ⟨[], rfl, List.nodup_nil, by simp, by simp, by simp, rfl, rfl, rfl⟩

theorem Policy.decide_part_refl (n m : Nat) (a : ℚ) : (p.decide n m a).Part w w := by
  rw [Policy.decide]
  split_ifs
  · exact ⟨0, w, by omega, enlarged_zero, .inl rfl⟩
  · exact ⟨0, w, by omega, reduced_zero, .inl rfl⟩
  · rfl

theorem part_expandFleet {n m : Nat} (h : Runs (services faults) (expandFleet p.row n m) w res w') :
    (Decision.grow (max 0 (min (⌈p.expandRatio*n⌉-n) (8-m)))).Part w w' := by
  by_cases hm : m ≥ 8
  · rw [expandFleet, if_pos hm] at h
    rw [h.2]
    exact ⟨0, w, by omega, enlarged_zero, .inl rfl⟩
  · rw [expandFleet, if_neg hm] at h
    obtain ⟨res', htimes, _⟩ := runs_map.mp h
    obtain ⟨j, w₁, hle, hgrows, hleft⟩ := times_create_leaves htimes
    have hnumber := toCreate_toNat p.expandRatio n m
    refine ⟨j, w₁, by omega, hgrows.enlarged, hleft.imp_right fun h => ⟨by omega, h.2⟩⟩

theorem part_shrinkFleet (hrun : Truthful w) {n : Nat}
    (h : Runs (services faults) (shrinkFleet p.row n) w res w') :
    (Decision.shrink (max 0 ⌊p.shrinkRatio*n⌋)).Part w w' := by
  have hnumber := toDestroy_toNat p.shrinkRatio n
  change Runs _ (if toDestroy p.shrinkRatio n > 0 then _ else _) w res w' at h
  split_ifs at h
  · obtain ⟨res', hrandom, _⟩ := runs_map.mp h
    obtain ⟨gone, ⟨hnodup, hmem, hlen⟩, hleft⟩ := randomDestroyWorker_leaves hrandom
    have hreduced := reduced_destroyed hrun (k := gone.length) ⟨hnodup, hmem, by simp⟩
    refine ⟨gone.length, w.destroyed gone, by omega, hreduced, hleft.imp_right ?_⟩
    rintro ⟨hlt, id, hid, hnot, hw⟩
    refine ⟨by omega, id, ?_, hw⟩
    rw [Account.healthy_destroyed]
    simp [hid, hnot]
  · rw [h.2]
    exact ⟨0, w, by omega, reduced_zero, .inl rfl⟩

/-- With any calls raising, a tick does a part of what it decides. -/
theorem tick_part (hrun : Truthful w) (hpolicy : w.table.rows.head? = policy.map Policy.row)
    (h : Runs (services faults) autoCheckAvgCpuUtilization w res w') :
    (w.decision policy).Part w w' := by
  obtain rfl | ⟨config, hready, h⟩ := tick_acts h
  · cases policy with
    | none => rfl
    | some p =>
      rw [Account.decision]
      split_ifs
      · exact Policy.decide_part_refl _ _ _
      · rfl
  · cases policy with
    | none =>
      have hstored := hready.stored
      rw [hpolicy] at hstored
      cases hstored
    | some p =>
      obtain rfl : p.row = config := Option.some.inj (hpolicy.symm.trans hready.stored)
      by_cases hempty : w.healthy.card = 0
      · rw [Account.decision, if_neg fun hs => hs.2.2.2.1 hempty]
        rw [Account.action, Account.fleetMean, if_pos (Finset.card_eq_zero.mp hempty),
          actOn_within rfl rfl rfl rfl] at h
        exact h.2
      · have hmean := Account.fleetMean_eq (Finset.card_ne_zero.mp hempty)
        rw [decision_of_steady hready.isOn ⟨hready.settled, hready.inService, hempty, hready.measured⟩,
          Policy.decide]
        rw [Account.action, hmean] at h
        split_ifs with ha hlt
        · have hgt : (Num.val w.meanCpu).gt p.expandThreshold = true := decide_eq_true ha
          rw [actOn_expand rfl hgt] at h
          exact part_expandFleet h
        · have hgt : (Num.val w.meanCpu).gt p.expandThreshold = false := decide_eq_false ha
          have hlow : (Num.val w.meanCpu).lt p.shrinkThreshold = true := decide_eq_true hlt
          rw [actOn_shrink rfl hgt rfl hlow] at h
          exact part_shrinkFleet hrun h
        · have hgt : (Num.val w.meanCpu).gt p.expandThreshold = false := decide_eq_false ha
          have hlow : (Num.val w.meanCpu).lt p.shrinkThreshold = false := decide_eq_false hlt
          rw [actOn_within rfl hgt rfl hlow] at h
          exact h.2

end

/-- Up, but neither registered nor queued for it. -/
def Account.Astray (w : Account) (id : InstanceId) : Prop := w.Live id ∧ ¬ w.Kept id

section
variable {w w' : Account} {id : InstanceId} {k : ℤ}

theorem Enlarged.astray (h : Enlarged k w w') (hs : w'.Astray id) : w.Astray id := by
  obtain ⟨new, _, _, _, hinst, hqueue, htargets, _, _⟩ := h
  have hkept : w'.Kept id ↔ w.Registered id ∨ id ∈ w.queue ∨ id ∈ new := by
    rw [Account.Kept, Account.Registered, Account.Registered, htargets, hqueue, List.mem_append]
  obtain ⟨hl, hk⟩ := hs
  rw [hkept, not_or, not_or] at hk
  refine ⟨?_, fun hold => hold.elim hk.1 hk.2.1⟩
  simpa [Account.Live, Account.Worker, hinst, hk.2.2] using hl

theorem Reduced.astray (h : Reduced k w w') (hs : w'.Astray id) : w.Astray id := by
  obtain ⟨gone, _, _, _, hinst, htargets, hqueue, _, _⟩ := h
  have hstays : ∀ s, w'.Worker id s → s ≠ .shuttingDown → id ∉ gone ∧ w.Worker id s := by
    intro s hs hne
    rw [Account.Worker, hinst, List.mem_map] at hs
    obtain ⟨i, hi, heq⟩ := hs
    split at heq
    · simp only [Instance.mk.injEq] at heq
      exact absurd heq.2.2.symm hne
    · rename_i hid
      rw [heq] at hi hid
      exact ⟨hid, hi⟩
  obtain ⟨hl, hk⟩ := hs
  have hboth : id ∉ gone ∧ w.Live id := by
    obtain hl | hl := hl
    · exact (hstays _ hl (by decide)).imp_right .inl
    · exact (hstays _ hl (by decide)).imp_right .inr
  refine ⟨hboth.2, fun hold => hk ?_⟩
  rw [Account.Kept, hqueue]
  refine hold.imp_left ?_
  rintro ⟨t, hmem, rfl, hs⟩
  refine ⟨t, ?_, rfl, hs⟩
  rw [htargets, List.mem_map]
  exact ⟨t, hmem, if_neg hboth.1⟩

theorem astray_of_launch {j : InstanceId} {name : String} {hj : w.Fresh j}
    (hs : (w.launch j name hj).Astray id) : w.Astray id ∨ id = j :=
  (live_launch hs.1).imp_left fun hl => ⟨hl, hs.2⟩

theorem astray_of_deregister {j : InstanceId} (hs : (w.deregister j).Astray id) :
    w.Astray id ∨ id = j := by
  by_cases hj : id = j
  · exact .inr hj
  · exact .inl ⟨hs.1, fun hk => hs.2 (hk.imp_left fun hr => hr.deregister hj)⟩

/-- What a cut tick leaves goes astray in one worker at most. -/
theorem Decision.Part.astray {d : Decision} (h : d.Part w w') :
    ∃ stray : Option InstanceId, ∀ id, w'.Astray id → w.Astray id ∨ id ∈ stray := by
  cases d with
  | hold =>
    rw [show w' = w from h]
    exact ⟨none, fun _ hs => .inl hs⟩
  | grow k =>
    obtain ⟨j, w₁, _, hlarge, rfl | ⟨_, stray, hfresh, rfl⟩⟩ := h
    · exact ⟨none, fun _ hs => .inl (hlarge.astray hs)⟩
    · refine ⟨some stray, fun id hs => ?_⟩
      exact (astray_of_launch hs).imp hlarge.astray fun hid => by simp [hid]
  | shrink k =>
    obtain ⟨j, w₁, _, hred, rfl | ⟨_, stray, _, rfl⟩⟩ := h
    · exact ⟨none, fun _ hs => .inl (hred.astray hs)⟩
    · refine ⟨some stray, fun id hs => ?_⟩
      exact (astray_of_deregister hs).imp hred.astray fun hid => by simp [hid]

end

section
variable {faults : Call → Account → Prop} {w w' : Account} {policy : Option Policy}
  {res : Except PyError TickReport}

/-- A read may succeed where other calls raise. -/
theorem advances_read {α β : Type} {p : Op α} {f : α → Op β} {a : α}
    (hy : Yields (services noFaults) p w a) : Advances (services faults) (p >>= f) w (f a) w := by
  have hfail : ∀ c w e, (services noFaults).fail c w e → (services faults).fail c w e :=
    fun c w e hf => hf.imp_right fun hnone => False.elim hnone.1
  have hread : Runs (services faults) p w (.ok a) w := by
    refine Runs.mono ?_ hfail hy.runs
    exact fun c w r w' hs => hs
  exact hread.advances

/-- The reads of a tick lead to its action. -/
theorem tick_advances {config : AutoScalingConfig} (hready : w.Ready config) :
    Advances (services faults) autoCheckAvgCpuUtilization w (w.action config) w := by
  have hmeasured := yields_allValid (w := w)
  rw [if_pos hready.measured] at hmeasured
  refine (advances_read yields_queryFirst).trans ?_
  rw [hready.stored]
  dsimp only
  rw [if_pos hready.isOn]
  refine (advances_read yields_hasPending).trans ?_
  rw [if_neg (by simp [hready.settled])]
  refine (advances_read yields_serving).trans ((advances_read yields_running).trans ?_)
  dsimp only
  rw [if_neg (not_not.mpr hready.inService)]
  exact (advances_read yields_nonTerminated).trans (advances_read hmeasured)

/-- A tick is cut where a call raises. It has then done a part of what it decided, all of it if it
returns and the policy does not ask for more than the pool, and at most one more worker is up and
neither registered nor queued. -/
theorem tick_interrupted (hrun : Truthful w) (hpolicy : w.table.rows.head? = policy.map Policy.row)
    (h : Runs (services faults) autoCheckAvgCpuUtilization w res w') :
    (w.decision policy).Part w w' ∧
      ((∀ p ∈ policy, p.shrinkRatio ≤ 1) → ∀ report, res = .ok report → (w.decision policy).Effect w w') ∧
      ∃ stray : Option InstanceId, ∀ id, w'.Live id → ¬ w'.Kept id →
        (w.Live id ∧ ¬ w.Kept id) ∨ id ∈ stray := by
  have hpart := tick_part hrun hpolicy h
  refine ⟨hpart, ?_, ?_⟩
  · rintro hratio report rfl
    exact ((tickDoes_decision hrun hpolicy hratio).2 _ _ (runs_ok_noFaults h)).2
  · obtain ⟨stray, hstray⟩ := hpart.astray
    exact ⟨stray, fun id hl hk => hstray id ⟨hl, hk⟩⟩

end

/-- The broker does not take the task of the worker that a tick has just launched. -/
theorem tick_interrupted_unqueued :
    Runs (services anyFaults) autoCheckAvgCpuUtilization loneServing (.error .clientError)
        (loneServing.launch "i-2" "worker" loneServing_fresh) ∧
      (loneServing.decision (some ⟨true, 1/10, 2, 1/10, 4/5⟩)).Part loneServing
        (loneServing.launch "i-2" "worker" loneServing_fresh) := by
  have hcut : Runs (services anyFaults) celeryCreateWorker loneServing (.error .clientError)
      (loneServing.launch "i-2" "worker" loneServing_fresh) :=
    .inl ⟨"i-2", _, ⟨loneServing_fresh, rfl⟩, .inr ⟨.clientError, .inr ⟨trivial, rfl⟩, rfl, rfl⟩⟩
  have htick : Runs (services anyFaults) autoCheckAvgCpuUtilization loneServing (.error .clientError)
      (loneServing.launch "i-2" "worker" loneServing_fresh) := by
    refine (tick_advances loneServing_ready).runs ?_
    rw [Account.action, actOn_expand rfl loneServing_mean, expandFleet, if_neg (by decide)]
    change Runs _ (times (toCreate 2 loneServing.healthy.card loneServing.fleetSize).toNat _ >>= _) _ _ _
    rw [loneServing_toCreate]
    exact runs_bind.mpr (.inr ⟨_, runs_bind.mpr (.inr ⟨_, hcut, rfl⟩), rfl⟩)
  have hstored : loneServing.table.rows.head? =
      (some ⟨true, 1/10, 2, 1/10, 4/5⟩ : Option Policy).map Policy.row := rfl
  exact ⟨htick, (tick_interrupted loneServing_truthful hstored htick).1⟩

/- A worker that is astray, from then on. -/

section
variable {w : Account} {id j : InstanceId}

theorem Account.Astray.launch (h : w.Astray id) {name : String} (hj : w.Fresh j) :
    (w.launch j name hj).Astray id :=
  ⟨h.1.imp (fun hl => Account.mem_launch.mpr (.inl hl)) fun hl => Account.mem_launch.mpr (.inl hl), h.2⟩

theorem Account.Astray.enqueue (h : w.Astray id) (hne : id ≠ j) : (w.enqueue j).Astray id := by
  refine ⟨h.1, fun hk => h.2 (hk.imp_right fun hq => ?_)⟩
  simpa [Account.enqueue, hne] using hq

theorem Account.Astray.dequeue (h : w.Astray id) : (w.dequeue j).Astray id :=
  ⟨h.1, fun hk => h.2 (hk.imp_right List.mem_of_mem_erase)⟩

theorem Account.Astray.deregister (h : w.Astray id) : (w.deregister j).Astray id :=
  ⟨h.1, fun hk => h.2 (hk.imp_left Account.Registered.of_deregister)⟩

theorem Account.Astray.destroy (h : w.Astray id) (hne : id ≠ j) : (w.destroy j).Astray id :=
  ⟨(h.deregister (j := j)).1.modify_ne hne, (h.deregister (j := j)).2⟩

theorem Account.Astray.destroyed (h : w.Astray id) (l : List InstanceId) (hid : id ∉ l) :
    (w.destroyed l).Astray id := by
  induction l generalizing w with
  | nil => exact h
  | cons j l ih =>
    rw [List.mem_cons, not_or] at hid
    exact ih (h.destroy hid.1) hid.2

theorem Account.Astray.register (h : w.Astray id) (hne : id ≠ j) : (w.register j).Astray id := by
  refine ⟨(Account.Live.congr Account.register_instances).mpr h.1, fun hk => h.2 ?_⟩
  rw [Account.Kept, Account.register_queue] at hk
  refine hk.imp_left ?_
  rintro ⟨t, ht, rfl, hs⟩
  obtain ht | ⟨ht, _⟩ := Account.mem_register ht
  · exact ⟨t, ht, rfl, hs⟩
  · exact absurd ht hne

theorem Account.Astray.not_healthy (h : w.Astray id) : id ∉ w.healthy := fun hid =>
  h.2 (.inl ⟨_, Account.mem_healthy.mp hid, rfl, by simp⟩)

end

section
variable {faults : Call → Account → Prop} {w w' : Account} {id : InstanceId}

/-- The running workers are never all healthy. -/
theorem tick_idle_of_astray (hi : Inclusion w) (hs : w.Astray id) {res : Except PyError TickReport}
    (h : Runs (services faults) autoCheckAvgCpuUtilization w res w') : w' = w := by
  obtain hw | ⟨config, hready, _⟩ := tick_acts h
  · exact hw
  · have heq := hi.healthy_eq hready.inService
    obtain hl | hl := hs.1
    · have hpending : id ∈ w.workers pendingStates :=
        Account.mem_workers.mpr ⟨.pending, by simp [pendingStates], hl⟩
      rw [hready.settled] at hpending
      exact absurd hpending (Finset.notMem_empty id)
    · have hrunning : id ∈ w.workers runningStates :=
        Account.mem_workers.mpr ⟨.running, by simp [runningStates], hl⟩
      rw [← heq] at hrunning
      exact absurd hrunning hs.not_healthy

theorem astray_create {res : Except PyError Unit} (hs : w.Astray id)
    (h : Runs (services faults) celeryCreateWorker w res w') : w'.Astray id := by
  obtain rfl | ⟨j, hj, rfl | rfl⟩ := celeryCreateWorker_leaves h
  · exact hs
  · exact hs.launch hj
  · refine (hs.launch hj).enqueue ?_
    rintro rfl
    exact hj.1 hs.1.known

theorem astray_stores {α : Type} {p : Op α} (hp : p.Uses Call.Stores) :
    Keeps (services faults) (fun w => w.Astray id) p := by
  refine Keeps.of_uses hp fun c w r w' hc hserve hs => ?_
  cases c with
  | queryFirst => rw [hserve.2]; exact hs
  | insertConfig row =>
    obtain ⟨_, rfl⟩ := hserve
    exact hs
  | updateConfig key changes =>
    obtain ⟨_, _, rfl⟩ := hserve
    exact hs
  | recreateTable => rw [hserve]; exact hs
  | _ => exact False.elim hc

/-- The operations that can end a worker which is not healthy. -/
def Operation.Reaches (id : InstanceId) : Operation → Prop
  | .destroyAll | .stopManager => True
  | .detailDestroyWorker j => j = id
  | _ => False

theorem operation_astray {o : Operation} {w₀ : Account} {res : Except PyError Unit}
    (ho : ¬ o.Reaches id) (hi : Inclusion w) (hs : w.Astray id) (hb : o.Begins w w₀)
    (hr : Runs (services faults) o.program w₀ res w') : w'.Astray id := by
  cases o with
  | tick =>
    rw [show w₀ = w from hb] at hr
    obtain ⟨_, hr, _⟩ := runs_map.mp hr
    rw [tick_idle_of_astray hi hs hr]
    exact hs
  | createWorker =>
    rw [show w₀ = w from hb] at hr
    obtain ⟨_, hr, _⟩ := runs_map.mp hr
    obtain rfl | hr := runs_bind_read yields_nonTerminated
      (getNonTerminatedInstances_uses.mono fun c hc => hc ▸ trivial) hr
    · exact hs
    · dsimp only at hr
      split at hr
      · rw [hr.2]
        exact hs
      · obtain ⟨_, hr, _⟩ := runs_map.mp hr
        exact astray_create hs hr
  | destroyWorker =>
    rw [show w₀ = w from hb] at hr
    obtain ⟨_, hr, _⟩ := runs_map.mp hr
    have hrandom : ∃ res, Runs (services faults) (randomDestroyWorker 1) w res w' := by
      obtain ⟨_, w₁, hrandom, hr⟩ | ⟨_, hrandom, _⟩ := runs_bind.mp hr
      · split at hr
        · rw [hr.2]
          exact ⟨_, hrandom⟩
        · rw [hr.2]
          exact ⟨_, hrandom⟩
      · exact ⟨_, hrandom⟩
    obtain ⟨_, hrandom⟩ := hrandom
    obtain ⟨gone, ⟨_, hgone, _⟩, hleft⟩ := randomDestroyWorker_leaves hrandom
    have hnot : id ∉ gone := fun hid => hs.not_healthy (hgone id hid)
    obtain rfl | ⟨_, j, _, _, rfl⟩ := hleft
    · exact hs.destroyed gone hnot
    · exact (hs.destroyed gone hnot).deregister
  | detailDestroyWorker j =>
    rw [show w₀ = w from hb] at hr
    obtain rfl | rfl | rfl := destroyAWorker_leaves hr
    · exact hs
    · exact hs.deregister
    · exact hs.destroy fun hid => ho hid.symm
  | destroyAll | stopManager => exact absurd trivial ho
  | apply form =>
    rw [show w₀ = w from hb] at hr
    exact (astray_stores (apply_uses form)).forget _ _ _ hs hr
  | turnOn =>
    rw [show w₀ = w from hb] at hr
    exact astray_stores turnOn_uses _ _ _ hs hr
  | registerInstance j =>
    obtain ⟨hq, rfl⟩ := hb
    have hne : id ≠ j := by
      rintro rfl
      exact hs.2 (.inr hq)
    obtain rfl | rfl := registerInstanceToElb_leaves hr
    · exact hs.dequeue
    · exact hs.dequeue.register hne
  | processStart =>
    rw [show w₀ = w from hb] at hr
    have hstores : (ask .recreateTable).Uses Call.Stores := Uses.request trivial
    obtain ⟨_, w₁, htable, hr⟩ | ⟨_, htable, _⟩ := runs_bind.mp hr
    · exact astray_create (astray_stores hstores _ _ _ hs htable) hr
    · exact astray_stores hstores _ _ _ hs htable

theorem step_astray {m : Move} (hm : ∀ o, m = .op o → ¬ o.Reaches id) (hi : Inclusion w)
    (hs : w.Astray id) (h : SerialStep faults Truthful w m w') : w'.Astray id := by
  cases h with
  | env he =>
    refine ⟨(env_live_iff he).mpr hs.1, fun hk => hs.2 ?_⟩
    rw [Account.Kept, env_registered he, env_queue he] at hk
    exact hk
  | op hb hr => exact operation_astray (hm _ rfl) hi hs hb hr

/-- One worker that is up and neither registered nor queued switches the scaler off: whatever else
happens and whichever calls raise, it stays that way, and no tick changes anything, until the
worker is destroyed by its id or with all others. -/
theorem stray_disables_scaler {w₀ : Account} {ms : List Move} (h₀ : Inclusion w₀)
    (hl : w₀.Live id) (hk : ¬ w₀.Kept id) (hr : SerialRun faults Truthful w₀ ms w)
    (hms : ∀ o, .op o ∈ ms → ¬ o.Reaches id) :
    w.Live id ∧ ¬ w.Kept id ∧
      ∀ res w', Runs (services faults) autoCheckAvgCpuUtilization w res w' → w' = w := by
  have hstays : Inclusion w ∧ w.Astray id := by
    refine hr.invariant (I := fun ms w => (∀ o, .op o ∈ ms → ¬ o.Reaches id) →
      Inclusion w ∧ w.Astray id) (fun _ => ⟨h₀, hl, hk⟩) ?_ hms
    intro ms w₁ m w₂ ih hs hms
    obtain ⟨hi, hstray⟩ := ih fun o ho => hms o (List.mem_cons_of_mem m ho)
    refine ⟨step_inclusion hs hi, step_astray (fun o ho => hms o ?_) hi hstray hs⟩
    rw [ho]
    exact List.mem_cons_self
  exact ⟨hstays.2.1, hstays.2.2, fun res w' h => tick_idle_of_astray hstays.1 hstays.2 h⟩

end

theorem loneServing_inclusion : Inclusion loneServing := by
  refine ⟨fun t ht => ?_, fun id hid => absurd hid List.not_mem_nil, loneServing_truthful⟩
  rw [List.mem_singleton.mp ht]
  exact ⟨.running, List.mem_cons_self⟩

/-- The worker without its task comes up, and the scaler is off. -/
theorem stray_disables_scaler_unqueued :
    ∃ w, SerialRun anyFaults Truthful (loneServing.launch "i-2" "worker" loneServing_fresh) [.env] w ∧
      ∀ res w', Runs (services anyFaults) autoCheckAvgCpuUtilization w res w' → w' = w := by
  have hpending : (loneServing.launch "i-2" "worker" loneServing_fresh).Worker "i-2" .pending :=
    Account.mem_launch.mpr (.inr rfl)
  have hboot : Env Truthful (loneServing.launch "i-2" "worker" loneServing_fresh) _ :=
    .boot hpending.inState
  have hunkept : ¬ (loneServing.launch "i-2" "worker" loneServing_fresh).Kept "i-2" := by
    rintro (⟨t, ht, hid, _⟩ | hq)
    · rw [List.mem_singleton.mp ht] at hid
      exact absurd hid (by decide)
    · exact absurd hq List.not_mem_nil
  have hrun : SerialRun anyFaults Truthful (loneServing.launch "i-2" "worker" loneServing_fresh)
      [.env] _ := .cons .nil (.env hboot)
  exact ⟨_, hrun, (stray_disables_scaler (loneServing_inclusion.launch loneServing_fresh "worker") (.inl hpending)
    hunkept hrun (by simp)).2.2⟩

end OdwaManager
