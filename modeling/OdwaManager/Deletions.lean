import OdwaManager.Effect.Commute
import OdwaManager.Interrupted

/-! Deletes at the same time. Any number of requests that destroy one worker or all of them run
at once, call by call; they come to the account that they leave one after the other. -/
namespace OdwaManager
open Effect Program

/-- The two requests of detail/view.py that destroy. -/
inductive Deletion where
  | worker (id : InstanceId)
  | all
  deriving DecidableEq

def Deletion.program : Deletion → Op Unit
  | .worker id => destroyAWorker id
  | .all => destroyAll

/-- The instance that is to be destroyed is one that EC2 knows. -/
def Deletion.Finds (w : Account) : Deletion → Prop
  | .worker id => w.Known id
  | .all => True

def deletions : System Call Answer PyError (Account × List Deletion) :=
  System.tagged (services noFaults) Deletion.program (fun d w w' => d.Finds w ∧ w' = w) fun _ _ => False

inductive Ending where
  | deregister (id : InstanceId)
  | terminate (id : InstanceId)

def Account.act (w : Account) : Ending → Account
  | .deregister id => w.deregister id
  | .terminate id => w.modify id InstanceState.terminate

section
variable {w w' w₀ : Account} {id : InstanceId}

theorem drain_drain (i j : InstanceId) (t : Target) :
    (if (if t.id = i then ⟨t.id, .draining⟩ else t).id = j then
      ⟨(if t.id = i then ⟨t.id, .draining⟩ else t).id, .draining⟩
    else if t.id = i then ⟨t.id, .draining⟩ else t : Target) =
    if t.id = i ∨ t.id = j then ⟨t.id, .draining⟩ else t := by
  by_cases hi : t.id = i
  · simp [hi]
  · simp [hi]

theorem deregister_comm (i j : InstanceId) :
    (w.deregister i).deregister j = (w.deregister j).deregister i := by
  have htargets : ((w.deregister i).deregister j).targets = ((w.deregister j).deregister i).targets := by
    simp only [Account.deregister, List.map_map]
    refine List.map_congr_left fun t _ => ?_
    simp only [Function.comp_apply, drain_drain, Or.comm]
  exact congrArg (fun targets => { w with targets := targets }) htargets

theorem update_comm (f : InstanceState → InstanceState) (i j : InstanceId) (inst : Instance) :
    (inst.update i f).update j f = (inst.update j f).update i f := by
  obtain rfl | hij := eq_or_ne i j
  · rfl
  · by_cases hi : inst.id = i
    · simp [Instance.update, hi, hij]
    · by_cases hj : inst.id = j
      · simp [Instance.update, hj, hij.symm]
      · simp [Instance.update, hi, hj]

theorem modify_comm (f : InstanceState → InstanceState) (i j : InstanceId) :
    (w.modify i f).modify j f = (w.modify j f).modify i f := by
  unfold Account.modify
  congr 1
  simp only [List.map_map]
  exact List.map_congr_left fun inst _ => update_comm f i j inst

theorem act_comm (w : Account) (a b : Ending) : (w.act a).act b = (w.act b).act a := by
  cases a with
  | deregister i =>
    cases b with
    | deregister j => exact deregister_comm i j
    | terminate j => rfl
  | terminate i =>
    cases b with
    | deregister j => rfl
    | terminate j => exact modify_comm _ i j

/-- The instances and their names do not change. -/
def SameNames (w₀ w : Account) : Prop :=
  w.instances.map (fun i => (i.id, i.name)) = w₀.instances.map fun i => (i.id, i.name)

theorem act_sameNames (w : Account) (e : Ending) (h : SameNames w₀ w) : SameNames w₀ (w.act e) := by
  cases e with
  | deregister id => exact h
  | terminate id =>
    refine Eq.trans ?_ h
    simp only [Account.act, Account.modify, List.map_map]
    refine List.map_congr_left fun i _ => ?_
    simp only [Function.comp_apply, Instance.update]
    split <;> rfl

theorem SameNames.known (h : SameNames w₀ w) : w.Known id ↔ w₀.Known id := by
  have hids := congrArg (List.map Prod.fst) h
  simp only [List.map_map] at hids
  rw [Account.Known, Account.Known]
  exact iff_of_eq (congrArg (id ∈ ·) hids)

theorem SameNames.listed (h : SameNames w₀ w) (name : String) :
    (w.listed ⟨none, name⟩).map Instance.id = (w₀.listed ⟨none, name⟩).map Instance.id := by
  have hlisted : ∀ w : Account, (w.listed ⟨none, name⟩).map Instance.id =
      ((w.instances.map fun i => (i.id, i.name)).filter fun i => i.2 = some name).map Prod.fst := by
    intro w
    have haccepts : (⟨none, name⟩ : InstanceFilter).accepts = fun i => decide (i.name = some name) := by
      funext i
      simp [InstanceFilter.accepts]
    rw [List.filter_map, List.map_map, Account.listed, haccepts]
    rfl
  rw [hlisted w, hlisted w₀, h]

end

/- What a delete does, whatever the others do. -/

def endings (id : InstanceId) : List Ending := [.deregister id, .terminate id]

def Deletion.effects (w₀ : Account) : Deletion → List Ending
  | .worker id => endings id
  | .all => ((w₀.listed ⟨none, "worker"⟩).map Instance.id).flatMap endings

section
variable {w₀ : Account} {id : InstanceId}

theorem emits_destroyAWorker (hk : w₀.Known id) :
    Emits (services noFaults) Account.act (SameNames w₀) (fun _ => True) (destroyAWorker id) (endings id) := by
  have hfaults : ∀ c w e, (services noFaults).fail c w e → Rejects c w e := by
    intro c w e he
    exact he.elim (fun h => h) fun h => h.1.elim
  have hderegister : Emits (services noFaults) Account.act (SameNames w₀) (fun _ => True)
      (deregisterFromElb id) [.deregister id] := by
    refine Emits.request _ fun w _ => ⟨⟨(), _, rfl⟩, fun e he => ?_, fun r w' hs => ⟨hs, trivial⟩⟩
    exact hfaults _ _ _ he
  have hlookup : Emits (services noFaults) Account.act (SameNames w₀)
      (fun found => ∃ i l, found = i :: l ∧ i.id = id) (ask (.describeInstance id)) [] := by
    refine Emits.request _ fun w hw => ⟨⟨_, _, rfl, rfl⟩, fun e he => ?_, fun r w' hs => ?_⟩
    · exact (hfaults _ _ _ he).1 (hw.known.mpr hk)
    · obtain ⟨i, l, hl, hi⟩ := filter_id_of_known (hw.known.mpr hk)
      exact ⟨hs.2, i, l, hs.1.trans hl, hi⟩
  have hterminate : Emits (services noFaults) Account.act (SameNames w₀) (fun _ => True)
      (ask (.terminate id)) [.terminate id] := by
    refine Emits.request _ fun w hw => ?_
    have hknown := hw.known.mpr hk
    exact ⟨⟨(), _, hknown, rfl⟩, fun e he => (hfaults _ _ _ he).1 hknown, fun r w' hs => ⟨hs.2, trivial⟩⟩
  refine hderegister.bind fun _ _ => ?_
  refine hlookup.bind fun found hfound => ?_
  obtain ⟨i, l, rfl, rfl⟩ := hfound
  exact hterminate

theorem emits_program {d : Deletion} (hd : d.Finds w₀) :
    Emits (services noFaults) Account.act (SameNames w₀) (fun _ => True) d.program (d.effects w₀) := by
  cases d with
  | worker id => exact emits_destroyAWorker hd
  | all =>
    have hlist : Emits (services noFaults) Account.act (SameNames w₀)
        (fun l => l.map Instance.id = (w₀.listed ⟨none, "worker"⟩).map Instance.id)
        (ask (.describeInstances ⟨none, "worker"⟩)) [] := by
      refine Emits.request _ fun w hw => ⟨⟨_, _, rfl, rfl⟩, fun e he => ?_, fun r w' hs => ?_⟩
      · exact he.elim (fun h => h) fun h => h.1
      · exact ⟨hs.2, by rw [hs.1]; exact hw.listed "worker"⟩
    refine hlist.bind fun l hl => ?_
    rw [← each_map, hl]
    refine Emits.each _ fun id hid => emits_destroyAWorker ?_
    obtain ⟨i, hi, rfl⟩ := List.mem_map.mp hid
    exact List.mem_map_of_mem (List.mem_of_mem_filter hi)

/-- However the calls of any number of deletes are interleaved: none raises, none gets stuck, and
when all have returned, the account is the one that the same deletes leave if they run one after
the other, in any order. -/
theorem deletes_serializable {tr : List (Label Call)} {s : Config Call Answer PyError (Account × List Deletion)}
    (hr : deletions.Run unguarded ⟨[], (w₀, [])⟩ tr s) :
    (∀ p ∈ s.threads, ∀ e, p ≠ .raise e) ∧
    (∀ i c k, s.threads[i]? = some (.call c k) → ∃ s', deletions.Step s (.served i c) s') ∧
    ((∀ p ∈ s.threads, p = .ret ()) → ∀ ds, ds.Perm s.world.2 →
      Does (services noFaults) (each ds Deletion.program) w₀ () s.world.1) := by
  have hstart : ∀ (d : Deletion) (w w' : Account), SameNames w₀ w → d.Finds w ∧ w' = w →
      w' = w ∧ Emits (services noFaults) Account.act (SameNames w₀) (fun _ => True) d.program (d.effects w₀) := by
    rintro d w w' hw ⟨hd, rfl⟩
    refine ⟨rfl, emits_program ?_⟩
    cases d with
    | worker id => exact hw.known.mp hd
    | all => trivial
  have h : Accounted (services noFaults) Account.act (SameNames w₀) Deletion.program
      (Deletion.effects w₀) w₀ s := System.Run.accounted act_comm act_sameNames hstart rfl hr
  exact ⟨fun p hp e => h.not_raised hp e, fun i c k hi => h.goes_on hi,
    fun hret ds hds => h.serial act_comm act_sameNames rfl hret hds⟩

end

/-- The lone worker is deleted twice at once, call by call in turn. -/
theorem deletes_serializable_lone : ∃ tr s, deletions.Run unguarded ⟨[], (loneServing, [])⟩ tr s ∧
    s.world.2 = [.worker "i-1", .all] ∧ (∀ p ∈ s.threads, p = .ret ()) ∧
    Does (services noFaults) (each [Deletion.all, .worker "i-1"] Deletion.program) loneServing () s.world.1 := by
  have hknown : loneServing.Known "i-1" := List.mem_cons_self
  have h₀ : deletions.Run unguarded ⟨[], (loneServing, [])⟩ [] ⟨[], (loneServing, [])⟩ := .nil
  have hworker : (Deletion.worker "i-1").Finds loneServing := hknown
  have hall : Deletion.all.Finds loneServing := trivial
  have h₁ := h₀.begin (.worker "i-1") ⟨hworker, rfl⟩ trivial
  have h₂ := h₁.begin .all ⟨hall, rfl⟩ trivial
  have h₃ := h₂.answer 0 () rfl rfl trivial
  have h₄ := h₃.answer 1 _ rfl ⟨rfl, rfl⟩ trivial
  have h₅ := h₄.answer 1 () rfl rfl trivial
  have h₆ := h₅.answer 0 _ rfl ⟨rfl, rfl⟩ trivial
  have h₇ := h₆.answer 0 () rfl ⟨hknown, rfl⟩ trivial
  have h₈ := h₇.answer 1 _ rfl ⟨rfl, rfl⟩ trivial
  have h₉ := h₈.answer 1 () rfl ⟨List.mem_cons_self, rfl⟩ trivial
  have hreturned := (deletes_serializable h₉).2.2
  refine ⟨_, _, h₉, rfl, ?_, hreturned ?_ _ (List.Perm.swap _ _ [])⟩
  all_goals
    intro p hp
    fin_cases hp <;> rfl

end OdwaManager
