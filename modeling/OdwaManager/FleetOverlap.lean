import OdwaManager.Effect.Overlap
import OdwaManager.EmptyPool
import OdwaManager.FleetRace
import OdwaManager.Interrupted
import OdwaManager.ModeSwitch

/-! How far overlapping operations take the fleet past 8: by what the others in progress may
still create, and no further. -/
namespace OdwaManager
open Effect Program

/-- How many workers the operation may create, if it counts them first. -/
def Operation.mayAdd : Operation → Nat
  | .tick => 8
  | .createWorker => 1
  | _ => 0

/-- Every operation but the start of the process, which creates a worker without a count. -/
def Counting (o : Operation) (_ : Account) : Prop := o ≠ .processStart

/-- Whoever is in progress has others beside it that may add `n` workers at the most. -/
def BesideAtMost (n : Nat) (_ : List (Label Call))
    (s : Effect.Config Call Answer PyError (Account × List Operation)) (_ : Label Call) : Prop :=
  Crowded Operation.mayAdd n s

theorem room_le_cap {c : Call} {r : Answer c} {n : Nat} (h : room c r = some n) : n ≤ 8 := by
  cases c with
  | describeInstances f =>
    simp only [room] at h
    split at h
    · cases h
      omega
    · cases h
  | _ => cases h

theorem createWorker_bounded : createWorker.Bounded Creation 1 := by
  constructor
  · intro hc
    obtain ⟨_, hc⟩ := hc
    cases hc
  · intro _ r
    change (if (ids r).card ≥ 8 then _ else _ : Op Flash).Bounded Creation 1
    split
    · trivial
    · exact Bounded.bind celeryCreateWorker_bounded fun _ => Bounded.of_uses 0 (Uses.pure Flash.created)

theorem program_mayAdd (o : Operation) (ho : o ≠ .processStart) :
    o.program.Bounded Creation o.mayAdd := by
  by_cases htick : o = .tick
  · subst htick
    exact (program_licensed .tick ho).bounded fun c r n h => room_le_cap h
  by_cases hcreate : o = .createWorker
  · subst hcreate
    exact Bounded.bind createWorker_bounded fun _ => Bounded.of_uses 0 (Uses.pure ())
  refine Bounded.of_uses _ (program_uncreating o htick ?_)
  cases o with
  | createWorker => exact absurd rfl hcreate
  | processStart => exact absurd rfl ho
  | _ => exact id

/- The bound is reached: operations of one kind that all count before the first of them creates. -/

section
variable {o : Operation} {w w₁ : Account} {m n a : Nat} {tr : List (Label Call)}

/-- As many operations `o` in progress as there are programs in `ts`. -/
def alike (o : Operation) (ts : List (Op Unit)) (w : Account) :
    Effect.Config Call Answer PyError (Account × List Operation) :=
  ⟨ts, (w, List.replicate ts.length o)⟩

theorem alike_crowded {ts : List (Op Unit)} (hn : (ts.length-1)*o.mayAdd ≤ n) :
    Crowded Operation.mayAdd n (alike o ts w) := by
  intro i t c k hi
  have hlt : i < ts.length := (List.getElem?_eq_some_iff.mp hi.2).1
  have hload : ∀ j, (alike o ts w).load Operation.mayAdd j ≤ o.mayAdd := by
    intro j
    unfold Config.load
    split
    next htag => rw [List.eq_of_mem_replicate (List.mem_of_getElem? htag)]
    next => exact Nat.zero_le _
  calc ∑ j ∈ (Finset.range ts.length).erase i, (alike o ts w).load Operation.mayAdd j
      ≤ ∑ _j ∈ (Finset.range ts.length).erase i, o.mayAdd := Finset.sum_le_sum fun j _ => hload j
    _ = (ts.length-1)*o.mayAdd := by
      rw [Finset.sum_const, smul_eq_mul, Finset.card_erase_of_mem (Finset.mem_range.mpr hlt),
        Finset.card_range]
    _ ≤ n := hn

theorem alike_advance {s : Effect.Config Call Answer PyError (Account × List Operation)}
    {before after : List (Op Unit)} {p q : Op Unit}
    (hr : (requests noFaults Counting).Run (BesideAtMost n) s tr (alike o (before ++ p :: after) w))
    (hn : (before.length+after.length)*o.mayAdd ≤ n) (h : Advances (services noFaults) p w q w₁) :
    ∃ tr', (requests noFaults Counting).Run (BesideAtMost n) s tr' (alike o (before ++ q :: after) w₁) := by
  have hlength : ∀ q' : Op Unit, (before ++ q' :: after).length = before.length+after.length+1 := by
    intro q'
    rw [List.length_append, List.length_cons, Nat.add_assoc]
  have hrun := hr.advance (h.beside (List.replicate (before ++ p :: after).length o)) fun q' w' h' _ _ => by
    obtain ⟨w', tags⟩ := w'
    obtain rfl : tags = _ := h'.beside_eq
    rw [hlength p, ← hlength q']
    refine alike_crowded ?_
    rwa [hlength, Nat.add_sub_cancel]
  rw [hlength p, ← hlength q] at hrun
  exact hrun

/-- They begin, one after the other, and each comes to where it has counted. -/
theorem alike_count {q : Op Unit} (ho : o ≠ .processStart) (hb : o.Begins w w)
    (hcount : Advances (services noFaults) o.program w q w) (hm : (m-1)*o.mayAdd ≤ n) :
    ∃ tr, (requests noFaults Counting).Run (BesideAtMost n) ⟨[], (w, [])⟩ tr
      (alike o (List.replicate m q) w) := by
  induction m with
  | zero => exact ⟨[], .nil⟩
  | succ m ih =>
    have hm' : (m-1)*o.mayAdd ≤ n := (Nat.mul_le_mul_right _ (by omega)).trans hm
    obtain ⟨tr, hr⟩ := ih hm'
    have hcrowded : Crowded Operation.mayAdd n (alike o (List.replicate m q) w) := by
      refine alike_crowded ?_
      rwa [List.length_replicate]
    have hbegun := hr.begin o ⟨ho, hb⟩ hcrowded
    rw [← List.replicate_succ'] at hbegun
    have hone : alike o (List.replicate m q ++ [o.program]) w =
        ⟨List.replicate m q ++ [o.program], (w, List.replicate ((List.replicate m q).length+1) o)⟩ := by
      rw [alike, List.length_append, List.length_singleton]
    rw [← hone] at hbegun
    obtain ⟨tr', hr'⟩ := alike_advance hbegun (by simpa using hm) hcount
    rw [List.replicate_succ']
    exact ⟨tr', hr'⟩

/-- Each then adds what it has counted on. -/
theorem alike_add {q : Op Unit} (ho : o ≠ .processStart) (hb : o.Begins w w)
    (hcount : Advances (services noFaults) o.program w q w)
    (hadd : ∀ w₁, ∃ q' w₂, Advances (services noFaults) q w₁ q' w₂ ∧ w₂.fleetSize = w₁.fleetSize+a)
    (j : Nat) (hm : (j+m-1)*o.mayAdd ≤ n) :
    ∃ tr done w₁, (requests noFaults Counting).Run (BesideAtMost n) ⟨[], (w, [])⟩ tr
        (alike o (done ++ List.replicate m q) w₁) ∧
      done.length = j ∧ w₁.fleetSize = w.fleetSize+j*a := by
  induction j generalizing m with
  | zero =>
    rw [Nat.zero_add] at hm
    obtain ⟨tr, hr⟩ := alike_count ho hb hcount hm
    exact ⟨tr, [], w, hr, rfl, by omega⟩
  | succ j ih =>
    obtain ⟨tr, done, w₁, hr, rfl, hsize⟩ := ih (m := m+1) (by rwa [Nat.add_right_comm] at hm)
    obtain ⟨q', w₂, hq, hsize'⟩ := hadd w₁
    rw [List.replicate_succ] at hr
    obtain ⟨tr', hr'⟩ := alike_advance hr (by rw [List.length_replicate]; convert hm using 2; omega) hq
    rw [List.append_cons] at hr'
    refine ⟨tr', done ++ [q'], w₂, hr', by simp, ?_⟩
    rw [hsize', hsize, Nat.succ_mul, Nat.add_assoc]

end

/-- A create request that has counted fewer than 8 workers. -/
def granted : Op Unit := Program.forget (celeryCreateWorker >>= fun _ => pure Flash.created)

theorem granted_adds (w : Account) : ∃ q' w', Advances (services noFaults) granted w q' w' ∧
    w'.fleetSize = w.fleetSize+1 := by
  obtain ⟨id, hid⟩ := w.exists_fresh
  have hcreate : (services noFaults).serve (.createInstances "worker") w id (w.launch id "worker" hid) :=
    ⟨hid, rfl⟩
  exact ⟨_, _, .step hcreate .refl, fleetSize_launch hid⟩

/-- A tick that has found the pool busy and counted room for `k` workers. -/
def expanding (k : ℤ) : Op Unit :=
  Program.forget (times k.toNat celeryCreateWorker >>= fun _ => pure (TickReport.expand k))

theorem Account.Grows.fleetSize {n : Nat} {w w' : Account} (h : w.Grows n w') :
    w'.fleetSize = w.fleetSize+n := by
  induction n generalizing w with
  | zero => rw [show w' = w from h, Nat.add_zero]
  | succ n ih =>
    obtain ⟨id, hid, h⟩ := h
    rw [ih h, fleetSize_create hid]
    omega

theorem expanding_adds (k : ℤ) (w : Account) : ∃ q' w', Advances (services noFaults) (expanding k) w q' w' ∧
    w'.fleetSize = w.fleetSize+k.toNat := by
  obtain ⟨w', hgrows⟩ := w.exists_grows k.toNat
  have hcreate := (runs_times_create k.toNat).mpr ⟨rfl, hgrows⟩
  exact ⟨_, w', (Runs.advances hcreate).bind, hgrows.fleetSize⟩

theorem tick_expanding {w : Account} {config : AutoScalingConfig} {et ratio : ℚ} (hready : w.Ready config)
    (het : config.expandThreshold = some et) (hhigh : w.fleetMean.gt et = true)
    (hratio : config.expandRatio = some ratio) (hroom : w.fleetSize < 8) :
    Advances (services noFaults) Operation.tick.program w
      (expanding (toCreate ratio w.healthy.card w.fleetSize)) w := by
  have haction : w.action config =
      times (toCreate ratio w.healthy.card w.fleetSize).toNat celeryCreateWorker >>=
        fun _ => pure (TickReport.expand (toCreate ratio w.healthy.card w.fleetSize)) := by
    rw [Account.action, actOn_expand het hhigh, expandFleet, if_neg (not_le.mpr hroom), hratio]
    rfl
  have hreads : Advances (services noFaults) autoCheckAvgCpuUtilization w (w.action config) w :=
    tick_advances hready
  rw [haction] at hreads
  exact hreads.bind

/-- One busy worker, of which the policy is to make eight. -/
def soleBusy : Account :=
  { loneServing with table := .single ⟨true, some (1/10), some 8, some (1/10), some (4/5)⟩ }

theorem soleBusy_expanding :
    Advances (services noFaults) Operation.tick.program soleBusy (expanding 7) soleBusy := by
  have hready : soleBusy.Ready ⟨true, some (1/10), some 8, some (1/10), some (4/5)⟩ :=
    ⟨rfl, rfl, rfl, rfl, fun _ _ => List.cons_ne_nil _ _⟩
  have hcreate : toCreate 8 soleBusy.healthy.card soleBusy.fleetSize = 7 := by
    rw [show soleBusy.healthy.card = 1 from rfl, show soleBusy.fleetSize = 1 from rfl]
    norm_num [toCreate]
  have htick := tick_expanding hready rfl loneServing_mean rfl (by decide)
  rwa [hcreate] at htick

/-- However operations overlap: while nobody in progress has others beside it that may add more
than `n` workers, the fleet stays within `8 + n`. There are create requests that get there; and
`n + 1` ticks that overlap make `8 + n * 7` of a single worker. -/
theorem fleet_overlap_bound (n : Nat) :
    (∀ (faults : Call → Account → Prop) (w : Account) (tr : List (Label Call))
      (s : Effect.Config Call Answer PyError (Account × List Operation)), w.fleetSize ≤ 8 →
      (requests faults Counting).Run (BesideAtMost n) ⟨[], (w, [])⟩ tr s →
      s.world.1.fleetSize ≤ 8+n) ∧
    (∃ tr s, (requests noFaults Counting).Run (BesideAtMost n) ⟨[], (crowd, [])⟩ tr s ∧
      s.world.2 = List.replicate (n+1) .createWorker ∧ s.world.1.fleetSize = 8+n) ∧
    ∃ tr s, (requests noFaults Counting).Run (BesideAtMost (n*8)) ⟨[], (soleBusy, [])⟩ tr s ∧
      s.world.2 = List.replicate (n+1) .tick ∧ s.world.1.fleetSize = 8+n*7 := by
  refine ⟨?_, ?_, ?_⟩
  · intro faults w tr s hw hr
    have hle : s.world.1.fleetSize ≤ max w.fleetSize (8+n) := System.Run.size_le_overlap
      (fun o w w' hb => ⟨⟨program_licensed o hb.1, program_mayAdd o hb.1⟩,
        (fleetSize_congr hb.2.instances).le⟩)
      (fun c w r w' hc h => serves_creation_fleetSize hc h)
      (fun c w r w' hc h => serves_fleetSize hc h) (fun c w r w' n h hn => room_le h hn)
      (fun w w' h => env_fleetSize h) hr
    omega
  · have hcount : (services noFaults).serve (.describeInstances ⟨some nonTerminatedStates, "worker"⟩) crowd
        (crowd.listed ⟨some nonTerminatedStates, "worker"⟩) crowd := ⟨rfl, rfl⟩
    obtain ⟨tr, done, w, hr, hlength, hsize⟩ := alike_add (o := .createWorker) (q := granted) (n := n) (m := 0)
      nofun rfl (.step hcount .refl) granted_adds (n+1) (by simp [Operation.mayAdd])
    refine ⟨tr, _, hr, ?_, ?_⟩
    · simp [alike, hlength]
    · have hcrowd : crowd.fleetSize = 7 := by decide
      change w.fleetSize = 8+n
      omega
  · obtain ⟨tr, done, w, hr, hlength, hsize⟩ := alike_add (o := .tick) (n := n*8) (m := 0)
      nofun rfl soleBusy_expanding (expanding_adds 7) (n+1) (by simp [Operation.mayAdd])
    refine ⟨tr, _, hr, ?_, ?_⟩
    · simp [alike, hlength]
    · have hsole : soleBusy.fleetSize = 1 := rfl
      rw [hsole, show Int.toNat 7 = 7 from rfl] at hsize
      change w.fleetSize = 8+n*7
      omega

end OdwaManager
