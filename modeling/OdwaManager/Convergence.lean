import OdwaManager.Decision
import OdwaManager.PolicyForm

/-! Sustained load converges. Ticks under one policy, each after the fleet has settled again,
take the pool to the cap of 8 under high load, and down to the last size whose share rounds
to zero under low load. -/
namespace OdwaManager
open Effect Program

/-- Every worker is running, in service and measured, or terminated. -/
structure Settled (w : Account) : Prop where
  pending : w.workers pendingStates = ∅
  ending : w.workers [.shuttingDown] = ∅
  serving : w.healthy = w.workers runningStates
  measured : w.AllMeasured

/-- What may happen between two ticks: changes from outside and queued registrations. -/
def Move.Settling : Move → Prop
  | .env | .op (.registerInstance _) => True
  | _ => False

section
variable (faults : Call → Account → Prop) (elb : Account → Prop) (load : Account → Prop)

/-- A tick that finds `load`, and then the fleet settles. -/
def Round (w w' : Account) : Prop :=
  load w ∧ ∃ res w₁ ms, Runs (services noFaults) autoCheckAvgCpuUtilization w res w₁ ∧
    SerialRun faults elb w₁ ms w' ∧ (∀ m ∈ ms, m.Settling) ∧ Settled w'

inductive Rounds (w₀ : Account) : Nat → Account → Prop
  | zero : Rounds w₀ 0 w₀
  | succ {k : Nat} {w w' : Account} (hr : Rounds w₀ k w) (hs : Round faults elb load w w') :
    Rounds w₀ (k+1) w'

end

/- Settling changes neither the pool nor the policy. -/

section
variable {faults : Call → Account → Prop} {elb load : Account → Prop} {w w' : Account}
  {id : InstanceId}

theorem Account.Live.modify_ne {j : InstanceId} {f : InstanceState → InstanceState} (hl : w.Live id)
    (hne : id ≠ j) : (w.modify j f).Live id :=
  hl.imp (fun hl => Account.mem_modify.mpr (by rw [if_neg hne]; exact hl))
    fun hl => Account.mem_modify.mpr (by rw [if_neg hne]; exact hl)

/-- A pending worker may come up; no worker that is up goes down by itself. -/
theorem env_live_iff (he : Env elb w w') : w'.Live id ↔ w.Live id := by
  refine ⟨env_live he, fun hl => ?_⟩
  cases he with
  | @boot j hp =>
    by_cases hj : id = j
    · subst hj
      obtain hl | hl := hl
      · exact .inr (Account.mem_modify.mpr (by rw [if_pos rfl]; exact ⟨_, hl, rfl⟩))
      · exact .inr (Account.mem_modify.mpr (by rw [if_pos rfl]; exact ⟨_, hl, rfl⟩))
    · exact hl.modify_ne hj
  | @halt j hp =>
    refine hl.modify_ne ?_
    rintro rfl
    obtain hl | hl := hl
    · cases hp.unique hl.inState
    · cases hp.unique hl.inState
  | health | drained | metrics => exact hl

theorem Account.Live.congr (h : w'.instances = w.instances) : w'.Live id ↔ w.Live id := by
  rw [Account.Live, Account.Live, Account.Worker, Account.Worker, Account.Worker, Account.Worker, h]

theorem poolSize_congr (h : ∀ id, w'.Live id ↔ w.Live id) : w'.poolSize = w.poolSize := by
  have hpool : w'.workers [.pending, .running] = w.workers [.pending, .running] := by
    ext id
    rw [mem_pool, mem_pool, h]
  rw [Account.poolSize, hpool, Account.poolSize]

theorem step_settling {m : Move} (hm : m.Settling) (hs : SerialStep faults elb w m w') :
    w'.poolSize = w.poolSize ∧ w'.table = w.table := by
  cases hs with
  | env he => exact ⟨poolSize_congr fun id => env_live_iff he, env_table he⟩
  | @op w₁ _ o res hb hr =>
    cases o with
    | registerInstance j =>
      have hinst : w'.instances = w.instances := by
        obtain rfl | rfl := registerInstanceToElb_leaves hr
        · exact hb.instances
        · rw [Account.register_instances, hb.instances]
      refine ⟨poolSize_congr fun id => Account.Live.congr hinst, ?_⟩
      rw [program_table (o := .registerInstance j) id hr, hb.table]
    | _ => exact False.elim hm

theorem run_settling {ms : List Move} (hms : ∀ m ∈ ms, m.Settling)
    (hr : SerialRun faults elb w ms w') : w'.poolSize = w.poolSize ∧ w'.table = w.table := by
  refine hr.invariant (I := fun ms w' => (∀ m ∈ ms, m.Settling) →
    w'.poolSize = w.poolSize ∧ w'.table = w.table) (fun _ => ⟨rfl, rfl⟩) ?_ hms
  intro ms w₁ m w₂ ih hs hms
  obtain ⟨hsize, htable⟩ := step_settling (hms m (by simp)) hs
  obtain ⟨hsize', htable'⟩ := ih fun m' hm' => hms m' (List.mem_cons_of_mem m hm')
  exact ⟨hsize.trans hsize', htable.trans htable'⟩

/- One round. -/

theorem Settled.healthy_card (h : Settled w) : w.healthy.card = w.poolSize := by
  have hpool : w.workers [.pending, .running] = w.workers runningStates := by
    ext id
    have hnone : id ∉ w.workers pendingStates := by rw [h.pending]; exact Finset.notMem_empty id
    rw [Account.mem_workers] at hnone
    simp only [pendingStates, List.mem_singleton, exists_eq_left] at hnone
    simp [Account.mem_workers, runningStates, hnone]
  rw [h.serving, Account.poolSize, hpool]

theorem Settled.fleetSize (h : Settled w) : w.fleetSize = w.poolSize := by
  have hfleet : w.workers nonTerminatedStates = w.workers [.pending, .running] := by
    ext id
    have hnone : id ∉ w.workers [.shuttingDown] := by rw [h.ending]; exact Finset.notMem_empty id
    rw [Account.mem_workers] at hnone
    simp only [List.mem_singleton, exists_eq_left] at hnone
    simp [Account.mem_workers, nonTerminatedStates, hnone, or_comm]
  rw [Account.fleetSize, hfleet, Account.poolSize]

theorem Settled.worker (h : Settled w) : ∀ id ∈ w.healthy, w.Worker id .running := by
  intro id hid
  rw [h.serving, Account.mem_workers] at hid
  obtain ⟨s, hs, hw⟩ := hid
  rw [runningStates, List.mem_singleton] at hs
  exact hs ▸ hw

theorem Settled.ready {p : Policy} (h : Settled w) (hon : p.isOn = true)
    (hstored : w.table.rows.head? = some p.row) : w.Ready p.row :=
  ⟨hstored, hon, h.pending, by rw [h.serving], h.measured⟩

theorem Settled.nonempty (h : Settled w) (hne : 1 ≤ w.poolSize) : w.healthy.Nonempty := by
  rw [← Finset.card_pos, h.healthy_card]
  exact hne

/-- A round changes the size of the pool as its tick decides, and keeps the policy. -/
theorem Round.size {d : Decision} (h : Settled w) (hdoes : TickDoes w d)
    (hr : Round faults elb load w w') :
    (w'.poolSize : ℤ) = w.poolSize+d.change ∧ w'.table = w.table ∧ Settled w' := by
  obtain ⟨_, res, w₁, ms, ht, hs, hms, hsettled⟩ := hr
  obtain ⟨hsize, htable⟩ := run_settling hms hs
  rw [hsize, htable]
  refine ⟨(hdoes.2 res w₁ ht).2.poolSize h.worker, ?_, hsettled⟩
  exact program_table (o := .tick) id (runs_map.mpr ⟨_, ht, rfl⟩)

end

/-- The policy is on and stored, and the fleet has settled. -/
structure Policy.Rules (p : Policy) (w : Account) : Prop where
  isOn : p.isOn = true
  stored : w.table.rows.head? = some p.row
  settled : Settled w
  serving : 1 ≤ w.poolSize

/-- The average is above the upper threshold. -/
def Policy.High (p : Policy) (w : Account) : Prop := w.meanCpu > p.expandThreshold

/-- The average is not above the upper threshold, and below the lower one. -/
def Policy.Low (p : Policy) (w : Account) : Prop :=
  ¬ w.meanCpu > p.expandThreshold ∧ w.meanCpu < p.shrinkThreshold

section
variable {faults : Call → Account → Prop} {elb : Account → Prop} {p : Policy} {w₀ w w' : Account}
  {k : Nat}

/-- Under high load the pool grows by its rounded ratio, up to the cap. -/
theorem Round.grown (h : p.Rules w) (hr : Round faults elb p.High w w') :
    p.Rules w' ∧ (w'.poolSize : ℤ) = w.poolSize +
      max 0 (min (⌈p.expandRatio*w.poolSize⌉-w.poolSize) (8-w.poolSize)) := by
  have hdoes := tickDoes_grow (h.settled.ready h.isOn h.stored) (h.settled.nonempty h.serving) hr.1
  rw [h.settled.healthy_card, h.settled.fleetSize] at hdoes
  obtain ⟨hsize, htable, hsettled⟩ := hr.size h.settled hdoes
  rw [Decision.change] at hsize
  have hserving := h.serving
  exact ⟨⟨h.isOn, by rw [htable]; exact h.stored, hsettled, by omega⟩, hsize⟩

theorem lt_ceil_mul {r : ℚ} {n : Nat} (hr : 1 < r) (hn : 1 ≤ n) : (n : ℤ) < ⌈r*n⌉ := by
  have hpos : (0 : ℚ) < n := by exact_mod_cast hn
  rw [Int.lt_ceil]
  exact_mod_cast (lt_mul_iff_one_lt_left hpos).mpr hr

/-- One more round is at least one more worker, until there are 8. -/
theorem Round.grown_lt (h : p.Rules w) (hratio : 1 < p.expandRatio) (hcap : w.poolSize ≤ 8)
    (hr : Round faults elb p.High w w') :
    p.Rules w' ∧ w'.poolSize ≤ 8 ∧ min 8 (w.poolSize+1) ≤ w'.poolSize := by
  obtain ⟨hrules, hsize⟩ := hr.grown h
  have hceil := lt_ceil_mul hratio h.serving
  exact ⟨hrules, by omega, by omega⟩

theorem Rounds.grown (h₀ : p.Rules w₀) (hratio : 1 < p.expandRatio) (hcap : w₀.poolSize ≤ 8)
    (hr : Rounds faults elb p.High w₀ k w) :
    p.Rules w ∧ w.poolSize ≤ 8 ∧ min 8 (w₀.poolSize+k) ≤ w.poolSize := by
  induction hr with
  | zero => exact ⟨h₀, hcap, by omega⟩
  | succ _ hs ih =>
    obtain ⟨hrules, hle, hmin⟩ := ih
    obtain ⟨hrules', hle', hmin'⟩ := hs.grown_lt hrules hratio hle
    exact ⟨hrules', hle', by omega⟩

end

/- The sizes under low load. -/

/-- What a round of low load leaves of `n` workers. -/
def shareLeft (r : ℚ) (n : Nat) : Nat := n-⌊r*n⌋.toNat

/-- A count that never grows is constant after as many steps as it can lose. -/
theorem iterate_const_of_le {f : Nat → Nat} (hf : ∀ n, f n ≤ n) (n : Nat) :
    ∀ k, n ≤ k → f^[k] n = f^[n] n := by
  induction n using Nat.strong_induction_on with
  | _ n ih =>
    intro k hk
    by_cases hfix : f n = n
    · rw [Function.iterate_fixed hfix, Function.iterate_fixed hfix]
    · have hlt : f n < n := lt_of_le_of_ne (hf n) hfix
      obtain ⟨m, rfl⟩ : ∃ m, n = m+1 := ⟨n-1, by omega⟩
      obtain ⟨j, rfl⟩ : ∃ j, k = j+1 := ⟨k-1, by omega⟩
      rw [Function.iterate_succ_apply, Function.iterate_succ_apply, ih _ hlt j (by omega),
        ih _ hlt m (by omega)]

section
variable {r : ℚ} {n : Nat}

theorem floor_share_lt (hlt : r < 1) (hn : 1 ≤ n) : ⌊r*n⌋ < (n : ℤ) := by
  have hpos : (0 : ℚ) < n := by exact_mod_cast hn
  rw [Int.floor_lt]
  exact_mod_cast (mul_lt_iff_lt_one_left hpos).mpr hlt

theorem shareLeft_pos (hlt : r < 1) (hn : 1 ≤ n) : 1 ≤ shareLeft r n := by
  have hfloor := floor_share_lt hlt hn
  unfold shareLeft
  omega

theorem shareLeft_lt (hn : 1 ≤ n) (h : 1 ≤ r*n) : shareLeft r n < n := by
  have hfloor : 1 ≤ ⌊r*n⌋ := Int.le_floor.mpr (by exact_mod_cast h)
  unfold shareLeft
  omega

theorem iterate_shareLeft_pos (hlt : r < 1) (hn : 1 ≤ n) (k : Nat) : 1 ≤ (shareLeft r)^[k] n := by
  induction k with
  | zero => exact hn
  | succ k ih =>
    rw [Function.iterate_succ_apply']
    exact shareLeft_pos hlt ih

/-- The share of the size that stays is less than one worker. -/
theorem share_of_const (hlt : r < 1) (hn : 1 ≤ n) : r*((shareLeft r)^[n] n) < 1 := by
  have hle : ∀ m, shareLeft r m ≤ m := fun m => Nat.sub_le _ _
  have hfix : shareLeft r ((shareLeft r)^[n] n) = (shareLeft r)^[n] n := by
    rw [← Function.iterate_succ_apply' (shareLeft r)]
    exact iterate_const_of_le hle n (n+1) (by omega)
  by_contra h
  exact absurd hfix (shareLeft_lt (iterate_shareLeft_pos hlt hn n) (not_lt.mp h)).ne

end

section
variable {faults : Call → Account → Prop} {elb : Account → Prop} {p : Policy} {w₀ w w' : Account}
  {k : Nat}

/-- Under low load the pool loses its rounded share. -/
theorem Round.shrunk (h : p.Rules w) (hlt : p.shrinkRatio < 1) (hr : Round faults elb p.Low w w') :
    p.Rules w' ∧ w'.poolSize = shareLeft p.shrinkRatio w.poolSize := by
  have hrun : Truthful w := fun id hid => (h.settled.worker id hid).inState
  have hdoes := tickDoes_shrink hrun (h.settled.ready h.isOn h.stored)
    (h.settled.nonempty h.serving) hlt.le hr.1.1 hr.1.2
  rw [h.settled.healthy_card] at hdoes
  obtain ⟨hsize, htable, hsettled⟩ := hr.size h.settled hdoes
  rw [Decision.change] at hsize
  have hfloor := floor_share_lt hlt h.serving
  have hleft : w'.poolSize = shareLeft p.shrinkRatio w.poolSize := by
    unfold shareLeft
    omega
  refine ⟨⟨h.isOn, by rw [htable]; exact h.stored, hsettled, ?_⟩, hleft⟩
  rw [hleft]
  exact shareLeft_pos hlt h.serving

theorem Rounds.shrunk (h₀ : p.Rules w₀) (hlt : p.shrinkRatio < 1)
    (hr : Rounds faults elb p.Low w₀ k w) :
    p.Rules w ∧ w.poolSize = (shareLeft p.shrinkRatio)^[k] w₀.poolSize := by
  induction hr with
  | zero => exact ⟨h₀, rfl⟩
  | succ _ hs ih =>
    obtain ⟨hrules, hsize⟩ := hs.shrunk ih.1 hlt
    rw [hsize, ih.2, Function.iterate_succ_apply']
    exact ⟨hrules, rfl⟩

/-- Rounds of high load fill the pool up to 8, one worker a round at least, and leave it there.
Rounds of low load take it down as long as its share is a whole worker, never to zero, and
leave it at a size whose share is less than one. Which workers are sampled does not matter. -/
theorem sustained_load_converges (h₀ : p.Rules w₀) :
    (1 < p.expandRatio → w₀.poolSize ≤ 8 → ∀ k w, Rounds faults elb p.High w₀ k w →
      (∀ w', Round faults elb p.High w w' → w.poolSize < 8 → w.poolSize < w'.poolSize) ∧
      w.poolSize ≤ 8 ∧ (8-w₀.poolSize ≤ k → w.poolSize = 8)) ∧
    (p.shrinkRatio < 1 → ∃ n : Nat, 1 ≤ n ∧ p.shrinkRatio*n < 1 ∧
      ∀ k w, Rounds faults elb p.Low w₀ k w →
        (∀ w', Round faults elb p.Low w w' → 1 ≤ p.shrinkRatio*w.poolSize →
          w'.poolSize < w.poolSize) ∧
        1 ≤ w.poolSize ∧ (w₀.poolSize ≤ k → w.poolSize = n)) := by
  constructor
  · intro hratio hcap k w hr
    obtain ⟨hrules, hle, hmin⟩ := hr.grown h₀ hratio hcap
    refine ⟨fun w' hs hlt => ?_, hle, fun hk => by omega⟩
    obtain ⟨_, _, hmin'⟩ := hs.grown_lt hrules hratio hle
    omega
  · intro hlt
    refine ⟨(shareLeft p.shrinkRatio)^[w₀.poolSize] w₀.poolSize,
      iterate_shareLeft_pos hlt h₀.serving _, share_of_const hlt h₀.serving, fun k w hr => ?_⟩
    obtain ⟨hrules, hsize⟩ := hr.shrunk h₀ hlt
    refine ⟨fun w' hs hshare => ?_, hrules.serving, fun hk => ?_⟩
    · rw [(hs.shrunk hrules hlt).2]
      exact shareLeft_lt hrules.serving hshare
    · rw [hsize]
      exact iterate_const_of_le (fun m => Nat.sub_le _ _) _ k hk

end

theorem two_ids_nodup : ["i-1", "i-2"].Nodup := by decide

/-- The second worker of `loneServing` has come up and is in service. -/
def loneGrown : Account :=
  { loneServing with
    instances := [⟨"i-1", some "worker", .running⟩, ⟨"i-2", some "worker", .running⟩]
    ids_nodup := two_ids_nodup
    targets := [⟨"i-1", .healthy⟩, ⟨"i-2", .healthy⟩] }

theorem loneGrown_round : Round noFaults (fun _ => True)
    (Policy.High ⟨true, 1/10, 2, 1/10, 4/5⟩) loneServing loneGrown := by
  have hhigh : Policy.High ⟨true, 1/10, 2, 1/10, 4/5⟩ loneServing := by
    rw [Policy.High, Account.meanCpu, show loneServing.healthy = {"i-1"} from rfl]
    norm_num [Account.datapoints, loneServing, lone, mean]
  let created := (loneServing.launch "i-2" "worker" loneServing_fresh).enqueue "i-2"
  let booted := created.modify "i-2" fun _ => .running
  have hpending : created.InState "i-2" .pending := ⟨some "worker", by simp [created]; decide⟩
  have hrunning : (booted.dequeue "i-2").InState "i-2" .running := ⟨some "worker", by decide⟩
  have hregister : Runs (services noFaults) (registerInstanceToElb "i-2") (booted.dequeue "i-2")
      (.ok ()) ((booted.dequeue "i-2").register "i-2") := by
    refine .inl ⟨(), _, ⟨hrunning, rfl⟩, .inl ⟨(), _, ⟨?_, rfl⟩, .inl ⟨(), _, ⟨hrunning, rfl⟩, rfl, rfl⟩⟩⟩
    exact ⟨.running, hrunning, by decide, by decide⟩
  have hsettles : SerialRun noFaults (fun _ => True) created
      [.env, .op (.registerInstance "i-2"), .env] loneGrown := by
    refine .cons (.cons (.cons .nil (.env (.boot hpending))) (.op ⟨List.mem_cons_self, rfl⟩ hregister))
      (.env ?_)
    exact Env.health (fun _ => .healthy) (fun _ => by decide) trivial
  exact ⟨hhigh, _, created, _, loneServing_tick, hsettles, by simp [Move.Settling],
    rfl, rfl, rfl, fun _ _ => List.cons_ne_nil _ _⟩

theorem sustained_load_converges_lone : loneServing.poolSize < loneGrown.poolSize := by
  have hrules : Policy.Rules ⟨true, 1/10, 2, 1/10, 4/5⟩ loneServing :=
    ⟨rfl, rfl, ⟨rfl, rfl, rfl, fun _ _ => List.cons_ne_nil _ _⟩, by decide⟩
  exact ((sustained_load_converges hrules).1 (by norm_num) (by decide) 0 loneServing .zero).1
    loneGrown loneGrown_round (by decide)

end OdwaManager
