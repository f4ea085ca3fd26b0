import OdwaManager.Cooldown
import OdwaManager.Effect.Tagged
import OdwaManager.PolicyForm

/-! Manual and automatic scaling. A tick reads the policy once, at its start, and the manual
requests never read it, so the two keep apart only as long as no switch of the mode overtakes
a request of the mode that it leaves. -/
namespace OdwaManager
open Effect Program

/-- There is a stored policy, and it is on. -/
def Account.AutoOn (w : Account) : Prop := ∃ row, w.table.rows.head? = some row ∧ row.isOn = true

def Call.Resizes : Call → Prop
  | .createInstances _ | .terminate _ => True
  | _ => False

/-- The program changes the fleet no more. -/
def Idle (p : Op Unit) : Prop := p.Uses fun c => ¬ c.Resizes

def Operation.Manual : Operation → Prop
  | .createWorker | .destroyWorker => True
  | _ => False

/-- Any number of operations in progress; `admitted` says which may begin when. -/
def requests (faults : Call → Account → Prop) (admitted : Operation → Account → Prop) :
    System Call Answer PyError (Account × List Operation) :=
  .tagged (services faults) Operation.program (fun o w w' => admitted o w ∧ o.Begins w w')
    (Env fun _ => True)

/-- The two buttons are used only where the panel shows them as enabled. -/
def WhileOff (o : Operation) (w : Account) : Prop := o.Manual → ¬ w.AutoOn

def TurnsOn (c : Call) (w : Account) : Prop := ¬ w.AutoOn ∧ ∃ r w', Serves c w r w' ∧ w'.AutoOn

def TurnsOff (c : Call) (w : Account) : Prop := w.AutoOn ∧ ∃ r w', Serves c w r w' ∧ ¬ w'.AutoOn

/-- No commit switches the policy on while a manual request may still change the fleet, nor
off while a tick that has read the policy may. -/
structure Orderly (_ : List (Label Call))
    (s : Effect.Config Call Answer PyError (Account × List Operation)) (l : Label Call) : Prop where
  on : ∀ i c, l = .served i c → TurnsOn c s.world.1 →
    ∀ j o p, s.Running j o p → o.Manual → Idle p
  off : ∀ i c, l = .served i c → TurnsOff c s.world.1 →
    ∀ j p, s.Running j .tick p → p = Operation.tick.program ∨ Idle p

/-- What may switch the policy on. -/
def Call.SetsOn : Call → Prop
  | .insertConfig _ => True
  | .updateConfig _ changes => changes.isOn = some true
  | _ => False

def switchOff : Changes := { Changes.none with isOn := some false }

/-- An operation in progress: what it may still do in the present mode, and whether it may
switch the policy on. -/
structure InMode (o : Operation) (p : Op Unit) (w : Account) : Prop where
  tick : o = .tick → p = Operation.tick.program ∨ Idle p ∨ w.AutoOn
  manual : o.Manual → Idle p ∨ ¬ w.AutoOn
  quiet : (∀ form, o ≠ .apply form) → p.Uses fun c => ¬ c.SetsOn
  turnOn : o = .turnOn → p = OdwaManager.turnOn ∨ p = ask (.updateConfig true switchOff) ∨
    p = .ret () ∨ ∃ e, p = .raise e

section
variable {faults : Call → Account → Prop} {admitted : Operation → Account → Prop}
variable {s s' : Effect.Config Call Answer PyError (Account × List Operation)}
variable {tr : List (Label Call)} {l : Label Call} {o : Operation} {p : Op Unit}
variable {w w' : Account} {c : Call} {r : Answer c} {k : Answer c → Op Unit} {i j : Nat}

/- The mode. -/

theorem autoOn_of_table (h : w'.table = w.table) : w'.AutoOn ↔ w.AutoOn := by
  rw [Account.AutoOn, Account.AutoOn, h]

theorem not_setsOn (h : ¬ c.Rewrites) : ¬ c.SetsOn := by
  cases c <;> simp_all [Call.SetsOn, Call.Rewrites]

/-- No other call than those that set it switches the policy on. -/
theorem serves_stays_off (hc : ¬ c.SetsOn) (h : Serves c w r w') (hw : ¬ w.AutoOn) :
    ¬ w'.AutoOn := by
  by_cases hrw : c.Rewrites
  · cases c with
    | insertConfig row => exact absurd trivial hc
    | updateConfig key changes =>
      obtain ⟨_, _, rfl⟩ := h
      rintro ⟨row, hhead, hon⟩
      obtain ⟨old, hold, rfl⟩ := Option.map_eq_some_iff.mp (List.head?_map ▸ hhead)
      have hoff : old.isOn ≠ true := fun ho => hw ⟨old, hold, ho⟩
      rw [ConfigTable.updateRow_isOn] at hon
      split at hon
      next hkey =>
        rw [hkey] at hoff
        cases hset : changes.isOn with
        | none => exact hoff (by simpa [hset] using hon)
        | some b => exact hc (by simpa [hset, Call.SetsOn] using hon)
      next => exact hoff hon
    | recreateTable =>
      obtain rfl : w' = { w with table := .empty } := h
      rintro ⟨row, hhead, _⟩
      cases hhead
    | _ => exact absurd hrw id
  · rw [autoOn_of_table (serves_table hrw h)]
    exact hw

theorem serves_switchOff {r : Answer (.updateConfig true switchOff)}
    (h : Serves (.updateConfig true switchOff) w r w') : ¬ w'.AutoOn := by
  obtain ⟨_, _, rfl⟩ := h
  rintro ⟨row, hhead, hon⟩
  obtain ⟨old, hold, rfl⟩ := Option.map_eq_some_iff.mp (List.head?_map ▸ hhead)
  rw [ConfigTable.updateRow_isOn] at hon
  split at hon
  next => cases hon
  next hkey => exact hkey hon

/- The operations. -/

/-- A tick that has read the policy changes the fleet only if it found the policy on. -/
theorem tick_reads (hp : Program.call c k = Operation.tick.program) (hs : Serves c w r w') :
    Idle (k r) ∨ w'.AutoOn := by
  cases hp
  obtain ⟨rfl, rfl⟩ := hs
  cases hhead : w'.table.rows.head? with
  | none => exact .inl trivial
  | some config =>
    cases hon : config.isOn with
    | true => exact .inr ⟨config, hhead, hon⟩
    | false =>
      have hidle : Idle reportIdle.forget :=
        (reportIdle_uses.mono fun c h => by cases c <;> simp_all [Call.Lists, Call.Resizes]).forget
      left
      change Idle (Program.forget (if config.isOn = true then _ else reportIdle))
      rw [if_neg (by simp [hon])]
      exact hidle

theorem turnOn_quiet : turnOn.Uses fun c => ¬ c.SetsOn := by
  refine Uses.bind (Uses.request id) fun r => ?_
  cases r with
  | none => trivial
  | some config =>
    dsimp only [commitChanges]
    split
    · exact Uses.pure _
    · refine Uses.request ?_
      cases config.isOn <;> simp [Call.SetsOn, setIsOn]

theorem program_quiet (ho : ∀ form, o ≠ .apply form) : o.program.Uses fun c => ¬ c.SetsOn := by
  by_cases hset : o.SetsPolicy
  · cases o with
    | apply form => exact absurd rfl (ho form)
    | turnOn => exact turnOn_quiet
    | processStart =>
      refine Uses.bind (Uses.request id) fun _ => celeryCreateWorker_uses.mono fun c h => ?_
      exact not_setsOn (Call.Scales.keepsTable (.inr (.inl h)))
    | _ => exact absurd hset id
  · exact (program_keepsTable o hset).mono fun c h => not_setsOn h

/-- A request to turn manual scaling on reads the policy, then commits if it was on. -/
theorem turnOn_reads (hp : Program.call c k = turnOn) (hs : Serves c w r w') :
    k r = ask (.updateConfig true switchOff) ∨ (k r = .ret () ∧ ¬ w'.AutoOn) ∨
      ∃ e, k r = .raise e := by
  cases hp
  obtain ⟨rfl, rfl⟩ := hs
  cases hhead : w'.table.rows.head? with
  | none => exact .inr (.inr ⟨_, rfl⟩)
  | some config =>
    have hcommit : ∀ on, config.isOn = on →
        commitChanges config { Changes.none with isOn := setIsOn config.isOn false } =
          if on = true then ask (.updateConfig true switchOff) else .ret () := by
      rintro (_ | _) hon <;> rw [commitChanges, hon] <;> rfl
    cases hon : config.isOn with
    | true => exact .inl (hcommit true hon)
    | false =>
      refine .inr (.inl ⟨hcommit false hon, ?_⟩)
      rintro ⟨row, hrow, hrow'⟩
      rw [hhead] at hrow
      cases hrow
      rw [hon] at hrow'
      cases hrow'

/- One step, one run. -/

theorem InMode.of_table (h : InMode o p w) (ht : w'.table = w.table) : InMode o p w' where
  tick := by
    intro ho
    rw [autoOn_of_table ht]
    exact h.tick ho
  manual := by
    intro ho
    rw [autoOn_of_table ht]
    exact h.manual ho
  quiet := h.quiet
  turnOn := h.turnOn

theorem inMode_start (h : WhileOff o w) (hb : o.Begins w w') : InMode o o.program w' where
  tick := fun ho => .inl (ho ▸ rfl)
  manual := by
    intro ho
    rw [autoOn_of_table hb.table]
    exact .inr (h ho)
  quiet := fun ho => program_quiet ho
  turnOn := fun ho => .inl (ho ▸ rfl)

theorem inMode_raise (e : PyError) : InMode o (.raise e) w where
  tick := fun _ => .inr (.inl trivial)
  manual := fun _ => .inl trivial
  quiet := fun _ => trivial
  turnOn := fun _ => .inr (.inr (.inr ⟨e, rfl⟩))

/-- A call that is served in order leaves every thread in the mode that it has then. -/
theorem InMode.served (hg : Orderly tr s (.served i c)) (hs : Serves c s.world.1 r w')
    (hr : s.Running j o p) (h : InMode o p s.world.1) : InMode o p w' where
  tick := by
    intro ho
    subst ho
    by_cases hon : s.world.1.AutoOn
    · by_cases hon' : w'.AutoOn
      · exact .inr (.inr hon')
      · exact (hg.off i c rfl ⟨hon, r, w', hs, hon'⟩ j p hr).imp_right .inl
    · exact (h.tick rfl).imp_right fun h => .inl (h.resolve_right hon)
  manual := by
    intro ho
    by_cases hon' : w'.AutoOn
    · by_cases hon : s.world.1.AutoOn
      · exact .inl ((h.manual ho).resolve_right fun h => h hon)
      · exact .inl (hg.on i c rfl ⟨hon, r, w', hs, hon'⟩ j o p hr ho)
    · exact .inr hon'
  quiet := h.quiet
  turnOn := h.turnOn

/-- The thread that was served moves on. -/
theorem InMode.next (hs : Serves c w r w') (h : InMode o (.call c k) w') : InMode o (k r) w' where
  tick := by
    intro ho
    obtain hp | hp | hon := h.tick ho
    · exact .inr (tick_reads hp hs)
    · exact .inr (.inl (hp.2 r))
    · exact .inr (.inr hon)
  manual := fun ho => (h.manual ho).imp_left fun hp => hp.2 r
  quiet := fun ho => (h.quiet ho).2 r
  turnOn := by
    intro ho
    obtain hp | hp | hp | ⟨e, hp⟩ := h.turnOn ho
    · obtain hk | ⟨hk, _⟩ | hk := turnOn_reads hp hs
      · exact .inr (.inl hk)
      · exact .inr (.inr (.inl hk))
      · exact .inr (.inr (.inr hk))
    · cases hp
      exact .inr (.inr (.inl rfl))
    · cases hp
    · cases hp

theorem fitting_step (h : Fitting InMode s) (hg : Orderly tr s l)
    (hs : (requests faults WhileOff).Step s l s') : Fitting InMode s' := by
  refine h.step hs ?_ ?_ ?_ ?_ ?_
  · rintro o w' ⟨hwhile, hb⟩
    exact ⟨inMode_start hwhile hb, fun o' p hp => hp.of_table hb.table⟩
  · rintro i c k r w' o rfl hr hserve
    exact ((h.fits i o _ hr).served hg hserve hr).next hserve
  · rintro i c r w' rfl hserve j o p hr
    exact (h.fits j o p hr).served hg hserve hr
  · exact fun o e => inMode_raise e
  · exact fun w' he o p hp => hp.of_table (env_table he)

/-- The thread that is about to create or terminate belongs to the present mode. -/
theorem InMode.resizes (h : InMode o (.call c k) w) (hc : c.Resizes) :
    (o = .tick → w.AutoOn) ∧ (o.Manual → ¬ w.AutoOn) := by
  have hbusy : ¬ Idle (.call c k) := fun hp => hp.1 hc
  constructor
  · intro ho
    obtain hp | hp | hon := h.tick ho
    · cases hp
      exact hc.elim
    · exact absurd hp hbusy
    · exact hon
  · exact fun ho => (h.manual ho).resolve_left hbusy

/-- No step belongs to an apply request. -/
def NoApply (s : Effect.Config Call Answer PyError (Account × List Operation)) (l : Label Call) :
    Prop :=
  ∀ i c form, l = .served i c → s.world.2[i]? ≠ some (.apply form)

theorem step_stays_off (h : Fitting InMode s) (hg : NoApply s l) (hoff : ¬ s.world.1.AutoOn)
    (hs : (requests faults WhileOff).Step s l s') : ¬ s'.world.1.AutoOn := by
  cases hs with
  | start hp =>
    obtain ⟨o, ⟨_, hb⟩, _⟩ := hp
    rw [autoOn_of_table hb.table]
    exact hoff
  | @served ts w w' i c k r hi hserved =>
    obtain ⟨o, hr⟩ := h.running hi
    have ho : ∀ form, o ≠ .apply form := fun form ho => hg i c form rfl (ho ▸ hr.1)
    exact serves_stays_off ((h.fits i o _ hr).quiet ho).1 hserved.1 hoff
  | failed => exact hoff
  | env he =>
    rw [autoOn_of_table (env_table he.1)]
    exact hoff

/-- The step with which a request to turn manual scaling on returns leaves the policy off. -/
theorem turnOn_returns (h : Fitting InMode s)
    (hs : (requests faults WhileOff).Step s (.served i c) s')
    (hret : s'.Running i .turnOn (.ret ())) : ¬ s'.world.1.AutoOn := by
  cases hs with
  | @served ts w w' _ _ k r hi hserved =>
    obtain ⟨hserved, htags⟩ := hserved
    obtain ⟨_, hk, htag⟩ | ⟨hne, _⟩ := running_set (w := w.1) hret
    · rw [htags] at htag
      obtain hp | hp | hp | ⟨e, hp⟩ := (h.fits i _ _ ⟨htag, hi⟩).turnOn rfl
      · obtain hr | ⟨_, hoff⟩ | ⟨e, hr⟩ := turnOn_reads hp hserved
        · cases hk.trans hr
        · exact hoff
        · cases hk.trans hr
      · cases hp
        exact serves_switchOff (r := r) hserved
      · cases hp
      · cases hp
    · exact absurd rfl hne

/-- Every run in which the manual requests begin while the policy is off, and no commit
overtakes a request of the mode that it leaves, keeps the modes apart: ticks create and
terminate only while the policy is on, manual requests only while it is not, and once
manual scaling was turned on no tick changes the fleet before the next step of an apply. -/
theorem scaling_modes_exclude {w : Account}
    (hr : (requests faults WhileOff).Run Orderly ⟨[], (w, [])⟩ tr s) :
    (∀ i o c k, s.Running i o (.call c k) → c.Resizes →
      (o = .tick → s.world.1.AutoOn) ∧ (o.Manual → ¬ s.world.1.AutoOn)) ∧
    ∀ i c s₁, Orderly tr s (.served i c) →
      (requests faults WhileOff).Step s (.served i c) s₁ → s₁.Running i .turnOn (.ret ()) →
      ∀ tr' s₂,
        (requests faults WhileOff).Run (fun tr s l => Orderly tr s l ∧ NoApply s l) s₁ tr' s₂ →
        ¬ s₂.world.1.AutoOn ∧ ∀ j c k, s₂.Running j .tick (.call c k) → ¬ c.Resizes := by
  have hfit : Fitting InMode s :=
    hr.invariant (I := fun _ s => Fitting InMode s) fitting_start
      fun _ _ _ _ h hg hs => fitting_step h hg hs
  refine ⟨fun i o c k hrun hc => (hfit.fits i o _ hrun).resizes hc, ?_⟩
  intro i c s₁ hg hs hret tr' s₂ hr'
  have hstart : Fitting InMode s₁ ∧ ¬ s₁.world.1.AutoOn :=
    ⟨fitting_step hfit hg hs, turnOn_returns hfit hs hret⟩
  obtain ⟨hfit₂, hoff₂⟩ := hr'.invariant
    (I := fun _ s => Fitting InMode s ∧ ¬ s.world.1.AutoOn) hstart
    fun _ _ _ _ h hg hs => ⟨fitting_step h.1 hg.1 hs, step_stays_off h.1 hg.2 h.2 hs⟩
  exact ⟨hoff₂, fun j c k hrun hc => hoff₂ (((hfit₂.fits j _ _ hrun).resizes hc).1 rfl)⟩

theorem orderly_start : Orderly tr s .start where
  on := by
    intro i c h
    cases h
  off := by
    intro i c h
    cases h

theorem orderly_of_keepsTable (hc : ¬ c.Rewrites) : Orderly tr s (.served i c) where
  on := by
    rintro _ _ ⟨rfl, rfl⟩ ⟨hoff, r, w', hs, hon⟩
    exact absurd ((autoOn_of_table (serves_table hc hs)).mp hon) hoff
  off := by
    rintro _ _ ⟨rfl, rfl⟩ ⟨hon, r, w', hs, hoff⟩
    exact absurd ((autoOn_of_table (serves_table hc hs)).mpr hon) hoff

end

/-- The policy of the lone worker's account. -/
def lonePolicy : AutoScalingConfig := ⟨true, some (1/10), some 2, some (1/10), some (4/5)⟩

theorem lonePolicy_expands :
    (actOn lonePolicy 1 1 (npMean [npMean [.val 90]])).forget =
      (times 1 celeryCreateWorker >>= fun _ => pure (TickReport.expand 1)).forget := by
  have hmean : npMean [npMean [.val 90]] = .val 90 := by norm_num [npMean, Num.values]
  have hgt : (Num.val 90).gt (4/5) = true := by norm_num [Num.gt]
  have hone : toCreate 2 1 1 = 1 := by norm_num [toCreate]
  have hact : actOn lonePolicy 1 1 (.val 90) =
      if (Num.val 90).gt (4/5) = true then expandFleet lonePolicy 1 1
      else if (Num.val 90).lt (1/10) = true then shrinkFleet lonePolicy 1
        else pure .withinRange := rfl
  have hexpand : expandFleet lonePolicy 1 1 =
      times (toCreate 2 1 1).toNat celeryCreateWorker >>=
        fun _ => pure (.expand (toCreate 2 1 1)) := rfl
  rw [hmean, hact, if_pos hgt, hexpand, hone]
  rfl

/-- The same account once manual scaling was turned on. -/
def turned : Account :=
  { loneServing with table := .single { lonePolicy with isOn := false } }

theorem loneServing_autoOn : loneServing.AutoOn := ⟨_, rfl, rfl⟩

/-- The tick of the lone worker's account up to its first creation. -/
theorem lone_tick_run (admitted : Operation → Account → Prop)
    (guard : List (Label Call) → Effect.Config Call Answer PyError (Account × List Operation) →
      Label Call → Prop) (hadmitted : admitted .tick loneServing) (hstart : ∀ tr s, guard tr s .start)
    (hread : ∀ tr s i c, ¬ c.Rewrites → guard tr s (.served i c)) :
    ∃ tr k, (requests noFaults admitted).Run guard ⟨[], (loneServing, [])⟩ tr
      ⟨[.call (.createInstances "worker") k], (loneServing, [.tick])⟩ := by
  have h₀ : (requests noFaults admitted).Run guard
    ⟨[], (loneServing, [])⟩ [] ⟨[], (loneServing, [])⟩ := .nil
  have h₁ := h₀.begin Operation.tick ⟨hadmitted, rfl⟩ (hstart _ _)
  have h₂ := h₁.answer 0 (some lonePolicy) rfl ⟨rfl, rfl⟩ (hread _ _ _ _ id)
  have h₃ := h₂.answer 0 [] rfl ⟨rfl, rfl⟩ (hread _ _ _ _ id)
  have h₄ := h₃.answer 0 [⟨"i-1", .healthy⟩] rfl ⟨rfl, rfl⟩ (hread _ _ _ _ id)
  have h₅ := h₄.answer 0 [⟨"i-1", some "worker", .running⟩] rfl ⟨rfl, rfl⟩ (hread _ _ _ _ id)
  have h₆ := h₅.answer 0 [⟨"i-1", some "worker", .running⟩] rfl ⟨rfl, rfl⟩ (hread _ _ _ _ id)
  have h₇ := h₆.answer 0 [⟨"i-1", .healthy⟩] rfl ⟨rfl, rfl⟩ (hread _ _ _ _ id)
  have h₈ := h₇.answer 0 ["i-1"] rfl ⟨⟨by decide, rfl⟩, rfl⟩ (hread _ _ _ _ id)
  have h₉ := h₈.answer 0 [90] rfl ⟨rfl, rfl⟩ (hread _ _ _ _ id)
  change (requests noFaults admitted).Run guard _ _
    ⟨[(actOn lonePolicy 1 1 (npMean [npMean [.val 90]])).forget], (loneServing, [.tick])⟩ at h₉
  rw [lonePolicy_expands] at h₉
  exact ⟨_, _, h₉⟩

/-- A tick alone comes to create while the policy is on, and a manual request does after
manual scaling was turned on. -/
theorem scaling_modes_exclude_lone :
    (∃ tr s k, (requests noFaults WhileOff).Run Orderly ⟨[], (loneServing, [])⟩ tr s ∧
      s.Running 0 .tick (.call (.createInstances "worker") k) ∧ s.world.1.AutoOn) ∧
    ∃ s₁ tr s k, s₁.Running 0 .turnOn (.ret ()) ∧
      (requests noFaults WhileOff).Run (fun tr s l => Orderly tr s l ∧ NoApply s l) s₁ tr s ∧
      s.Running 1 .createWorker (.call (.createInstances "worker") k) ∧ ¬ s.world.1.AutoOn := by
  refine ⟨?_, ?_⟩
  · obtain ⟨tr, k, hr⟩ := lone_tick_run WhileOff Orderly False.elim
      (fun _ _ => orderly_start) fun _ _ _ _ hc => orderly_of_keepsTable hc
    have hon := ((scaling_modes_exclude hr).1 0 .tick _ k ⟨rfl, rfl⟩ trivial).1 rfl
    exact ⟨tr, _, k, hr, ⟨rfl, rfl⟩, hon⟩
  · have h₀ : (requests noFaults WhileOff).Run Orderly
      ⟨[], (loneServing, [])⟩ [] ⟨[], (loneServing, [])⟩ := .nil
    have h₁ := h₀.begin Operation.turnOn ⟨False.elim, rfl⟩ orderly_start
    have h₂ := h₁.answer 0 (some lonePolicy) rfl ⟨rfl, rfl⟩ (orderly_of_keepsTable id)
    have hcommit : ∀ tr, Orderly tr ⟨[ask (.updateConfig true switchOff)],
        (loneServing, [.turnOn])⟩ (.served 0 (.updateConfig true switchOff)) := by
      refine fun tr => ⟨fun _ _ _ ht => absurd loneServing_autoOn ht.1, fun _ _ _ _ j p hr => ?_⟩
      obtain ⟨hlt, htag⟩ := List.getElem?_eq_some_iff.mp hr.1
      simp at htag
    have hstep : (requests noFaults WhileOff).Step
        ⟨[ask (.updateConfig true switchOff)], (loneServing, [.turnOn])⟩
        (.served 0 (.updateConfig true switchOff)) ⟨[.ret ()], (turned, [.turnOn])⟩ :=
      .served rfl ⟨⟨List.mem_cons_self, by decide, rfl⟩, rfl⟩
    have hafter := (scaling_modes_exclude h₂).2 0 _ _ (hcommit _) hstep ⟨rfl, rfl⟩
    have g₀ : (requests noFaults WhileOff).Run (fun tr s l => Orderly tr s l ∧ NoApply s l)
      ⟨[.ret ()], (turned, [.turnOn])⟩ [] ⟨[.ret ()], (turned, [.turnOn])⟩ := .nil
    have g₁ := g₀.begin Operation.createWorker ⟨fun _ => (hafter _ _ g₀).1, rfl⟩
      ⟨orderly_start, fun _ _ _ h => by cases h⟩
    have g₂ := g₁.answer 1 [⟨"i-1", some "worker", .running⟩] rfl ⟨rfl, rfl⟩
      ⟨orderly_of_keepsTable id, fun _ _ _ h htag => by cases h; cases htag⟩
    exact ⟨_, _, _, _, ⟨rfl, rfl⟩, g₂, ⟨rfl, rfl⟩, (hafter _ _ g₂).1⟩

/-- A manual request creates while the policy is on, and a tick creates after manual scaling
was turned on. -/
theorem scaling_modes_cross :
    (∃ tr s k, (requests noFaults fun _ _ => True).Run unguarded ⟨[], (loneServing, [])⟩ tr s ∧
      s.Running 0 .createWorker (.call (.createInstances "worker") k) ∧ s.world.1.AutoOn) ∧
    ∃ tr s k, (requests noFaults fun _ _ => True).Run unguarded ⟨[], (loneServing, [])⟩ tr s ∧
      s.Running 0 .tick (.call (.createInstances "worker") k) ∧ s.Running 1 .turnOn (.ret ()) ∧
      ¬ s.world.1.AutoOn := by
  refine ⟨?_, ?_⟩
  · have h₀ : (requests noFaults fun _ _ => True).Run unguarded
      ⟨[], (loneServing, [])⟩ [] ⟨[], (loneServing, [])⟩ := .nil
    have h₁ := h₀.begin Operation.createWorker ⟨trivial, rfl⟩ trivial
    have h₂ := h₁.answer 0 [⟨"i-1", some "worker", .running⟩] rfl ⟨rfl, rfl⟩ trivial
    exact ⟨_, _, _, h₂, ⟨rfl, rfl⟩, loneServing_autoOn⟩
  · obtain ⟨tr, k, h₀⟩ := lone_tick_run (fun _ _ => True) unguarded trivial
      (fun _ _ => trivial) fun _ _ _ _ _ => trivial
    have h₁ := h₀.begin Operation.turnOn ⟨trivial, rfl⟩ trivial
    have h₂ := h₁.answer 1 (some lonePolicy) rfl ⟨rfl, rfl⟩ trivial
    have h₃ := h₂.answer 1 () rfl ⟨List.mem_cons_self, by decide, rfl⟩ trivial
    refine ⟨_, _, k, h₃, ⟨rfl, rfl⟩, ⟨rfl, rfl⟩, ?_⟩
    rintro ⟨row, hrow, hon⟩
    cases hrow
    cases hon

end OdwaManager
