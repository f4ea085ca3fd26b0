import OdwaManager.FleetRace
import OdwaManager.PagePolicies
import OdwaManager.Shutdown

/-! Ticks that overlap do not see each other. Each destroys what it has sampled of the pool that
all of them have counted, so together they can destroy all of it. -/
namespace OdwaManager
open Effect Program

section
variable {w : Account} {p : Policy} {k : ℤ} {l : List InstanceId}

theorem ready_of_shrink (hstored : w.table.rows.head? = some p.row) (hd : w.decision (some p) = .shrink k) :
    w.Ready p.row ∧ w.healthy.Nonempty ∧ ¬ w.meanCpu > p.expandThreshold ∧
      w.meanCpu < p.shrinkThreshold ∧ k = max 0 ⌊p.shrinkRatio*w.healthy.card⌋ := by
  unfold Account.decision at hd
  dsimp only at hd
  split at hd
  next hon =>
    obtain ⟨hon, hpending, hservice, hcard, hmeasured⟩ := hon
    unfold Policy.decide at hd
    split_ifs at hd with hhigh hlow
    cases hd
    exact ⟨⟨hstored, hon, hpending, hservice, hmeasured⟩, Finset.card_ne_zero.mp hcard, hhigh, hlow, rfl⟩
  next => cases hd

/-- A tick that is to shrink the pool can come to its sample without having changed anything;
what is then left of it destroys the sample, wherever the account has come to. -/
theorem tick_samples (hstored : w.table.rows.head? = some p.row) (hd : w.decision (some p) = .shrink k)
    (hk : 0 < k) (hle : k ≤ w.healthy.card) (hl : IsSample w.healthy k l) :
    ∃ q, Advances (services noFaults) Operation.tick.program w q w ∧
      ∀ w₁, (∀ id ∈ l, w₁.Known id) → Runs (services noFaults) q w₁ (.ok ()) (w₁.destroyed l) := by
  obtain ⟨hready, hne, hhigh, hlow, hsize⟩ := ready_of_shrink hstored hd
  have hmean := Account.fleetMean_eq hne
  have haction : w.action p.row = shrinkFleet p.row w.healthy.card := by
    refine actOn_shrink rfl ?_ rfl ?_
    · rw [hmean]
      exact decide_eq_false hhigh
    · rw [hmean]
      exact decide_eq_true hlow
  have hdestroy : toDestroy p.shrinkRatio w.healthy.card = k := by
    have hnat := toDestroy_toNat p.shrinkRatio w.healthy.card
    omega
  have hsample : Runs (services noFaults) (randomSample w.healthy k) w (.ok l) w := by
    rw [runs_randomSample, if_pos ⟨hk.le, hle⟩]
    exact ⟨rfl, l, hl, rfl⟩
  have hshrink : Advances (services noFaults) (shrinkFleet p.row w.healthy.card) w
      ((each l destroyAWorker >>= fun _ => pure true) >>= fun _ => pure (.shrink k)) w := by
    change Advances _ (if toDestroy p.shrinkRatio w.healthy.card > 0 then _ else _) w _ w
    rw [hdestroy, if_pos hk]
    refine Advances.bind ((advances_read yields_serving).trans ?_)
    dsimp only
    rw [if_neg (Finset.card_ne_zero.mpr hne)]
    exact Runs.advances hsample
  rw [← haction] at hshrink
  refine ⟨_, ((tick_advances hready).trans hshrink).bind, fun w₁ hknown => ?_⟩
  have hloop := (does_each_destroy l hknown).runs
  have htrue : Runs (services noFaults) (each l destroyAWorker >>= fun _ => pure true) w₁ (.ok true)
      (w₁.destroyed l) := hloop.bind ⟨rfl, rfl⟩
  have hreport : Runs (services noFaults)
      ((each l destroyAWorker >>= fun _ => pure true) >>= fun _ => pure (TickReport.shrink k)) w₁
      (.ok (.shrink k)) (w₁.destroyed l) := htrue.bind ⟨rfl, rfl⟩
  exact hreport.bind ⟨rfl, rfl⟩

/-- Any number of ticks come to their samples, one after the other. -/
theorem ticks_sample (hstored : w.table.rows.head? = some p.row) (hd : w.decision (some p) = .shrink k)
    (hk : 0 < k) (hle : k ≤ w.healthy.card) (ls : List (List InstanceId))
    (hls : ∀ l ∈ ls, IsSample w.healthy k l) :
    ∃ tr qs, (scalers noFaults).Run unguarded ⟨[], w⟩ tr ⟨qs, w⟩ ∧
      List.Forall₂ (fun l q => ∀ w₁, (∀ id ∈ l, w₁.Known id) →
        Runs (services noFaults) q w₁ (.ok ()) (w₁.destroyed l)) ls qs := by
  induction ls using List.reverseRecOn with
  | nil => exact ⟨[], [], .nil, .nil⟩
  | append_singleton ls l ih =>
    obtain ⟨tr, qs, hr, hqs⟩ := ih fun l' hl' => hls l' (List.mem_append_left _ hl')
    obtain ⟨q, hq, hrest⟩ := tick_samples hstored hd hk hle (hls l (by simp))
    have hstart := hr.start Operation.tick.program ⟨.inl rfl, rfl⟩ trivial
    obtain ⟨tr', hr'⟩ := hstart.advance hq fun _ _ _ _ _ => trivial
    exact ⟨tr', qs ++ [q], hr', List.rel_append hqs (.cons hrest .nil)⟩

theorem Account.Known.destroyed {id : InstanceId} (h : w.Known id) : (w.destroyed l).Known id := by
  have hids : (w.destroyed l).instances.map Instance.id = w.instances.map Instance.id := by
    rw [destroyed_instances, List.map_map]
    refine List.map_congr_left fun i _ => ?_
    simp only [Function.comp_apply]
    split <;> rfl
  rw [Account.Known, hids]
  exact h

/-- The rest of the ticks, one after the other. -/
theorem ticks_destroy {ls : List (List InstanceId)} {qs done : List (Op Unit)} {w₀ w₁ : Account}
    {tr : List (Label Call)} (hknown : ∀ l ∈ ls, ∀ id ∈ l, w₁.Known id)
    (hqs : List.Forall₂ (fun l q => ∀ w₁, (∀ id ∈ l, w₁.Known id) →
      Runs (services noFaults) q w₁ (.ok ()) (w₁.destroyed l)) ls qs)
    (hr : (scalers noFaults).Run unguarded ⟨[], w₀⟩ tr ⟨done ++ qs, w₁⟩) :
    ∃ tr', (scalers noFaults).Run unguarded ⟨[], w₀⟩ tr'
      ⟨done ++ List.replicate ls.length (.ret ()), w₁.destroyed ls.flatten⟩ := by
  induction hqs generalizing done w₁ tr with
  | nil => exact ⟨tr, hr⟩
  | @cons l q ls qs hq _ ih =>
    obtain ⟨tr', hr'⟩ := hr.advance (.of_runs (hq w₁ (hknown l (by simp)))) fun _ _ _ _ _ => trivial
    have hstill : ∀ l' ∈ ls, ∀ id ∈ l', (w₁.destroyed l).Known id := fun l' hl' id hid =>
      (hknown l' (List.mem_cons_of_mem l hl') id hid).destroyed
    rw [List.append_cons] at hr'
    obtain ⟨tr'', hr''⟩ := ih hstill hr'
    refine ⟨tr'', ?_⟩
    rw [List.append_assoc] at hr''
    rw [List.flatten_cons, Account.destroyed, List.foldl_append]
    exact hr''

/-- Ticks that overlap do not see each other: for any samples of the pool they have all counted,
there is an interleaving in which each of them destroys its own. Where the samples cover the pool,
no worker is left that is up. -/
theorem overlapping_ticks_destroy (hi : Inclusion w) (hstored : w.table.rows.head? = some p.row)
    (hd : w.decision (some p) = .shrink k) (hk : 0 < k) (hle : k ≤ w.healthy.card)
    (ls : List (List InstanceId)) (hls : ∀ l ∈ ls, IsSample w.healthy k l) :
    ∃ tr, (scalers noFaults).Run unguarded ⟨[], w⟩ tr
        ⟨List.replicate ls.length (.ret ()), w.destroyed ls.flatten⟩ ∧
      ((∀ id ∈ w.healthy, ∃ l ∈ ls, id ∈ l) → ∀ id, ¬ (w.destroyed ls.flatten).Live id) := by
  obtain ⟨tr, qs, hr, hqs⟩ := ticks_sample hstored hd hk hle ls hls
  have hknown : ∀ l ∈ ls, ∀ id ∈ l, w.Known id := fun l hl id hid =>
    (hi.healthy_worker id ((hls l hl).2.1 id hid)).inState.known
  have hsampled : (scalers noFaults).Run unguarded ⟨[], w⟩ tr ⟨[] ++ qs, w⟩ := hr
  obtain ⟨tr', hr'⟩ := ticks_destroy hknown hqs hsampled
  refine ⟨tr', hr', fun hall id hlive => ?_⟩
  obtain ⟨hlive, hnot⟩ := live_of_destroyed hlive
  obtain ⟨hready, _⟩ := ready_of_shrink hstored hd
  have hhealthy : id ∈ w.healthy := by
    rw [hi.healthy_eq hready.inService]
    obtain hpending | hrunning := hlive
    · have hmem : id ∈ w.workers pendingStates :=
        Account.mem_workers.mpr ⟨.pending, by simp [pendingStates], hpending⟩
      rw [hready.settled] at hmem
      exact absurd hmem (Finset.notMem_empty id)
    · exact Account.mem_workers.mpr ⟨.running, by simp [runningStates], hrunning⟩
  obtain ⟨l, hl, hid⟩ := hall id hhealthy
  exact hnot (List.mem_flatten.mpr ⟨l, hl, hid⟩)

end

/-- Two ticks at once end the pool of two workers, of which either was to leave one. -/
theorem overlapping_ticks_destroy_pair : ∃ w tr s, Inclusion w ∧ w.poolSize = 2 ∧
    (scalers noFaults).Run unguarded ⟨[], w⟩ tr s ∧ s.threads = [.ret (), .ret ()] ∧
    ∀ id, ¬ s.world.Live id := by
  have hd : (pair 0 (.single (Policy.row ⟨true, 1/2, 2, 1/2, 4/5⟩))).decision
      (some ⟨true, 1/2, 2, 1/2, 4/5⟩) = .shrink 1 := by
    rw [Account.decision, if_pos ⟨rfl, pair_pending, rfl, by rw [pair_card]; decide, pair_measured⟩,
      Policy.decide, pair_meanCpu, pair_card]
    norm_num
  obtain ⟨tr, hr, hnone⟩ := overlapping_ticks_destroy pair_inclusion rfl hd (by decide)
    (by rw [pair_card]; decide) [["i-1"], ["i-2"]] (by rw [pair_healthy]; decide)
  exact ⟨_, tr, _, pair_inclusion, rfl, hr, rfl, hnone (by rw [pair_healthy]; decide)⟩

end OdwaManager
