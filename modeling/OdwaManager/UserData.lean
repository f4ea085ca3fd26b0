import OdwaManager.Effect.Interference
import Mathlib.Logic.Relation

/-! The data of the user application and the button that deletes it: the objects of the S3
bucket, and two tables of MySQL that are emptied in one transaction. What the bucket and the
database do is a parameter, of which only the assumptions named below are used. -/
namespace OdwaManager
open Effect Program

inductive DataError where
  | clientError | operationalError
  deriving DecidableEq, Repr

inductive DataTable where
  | users | photos
  deriving DecidableEq, Repr

/-- What a connection has deleted and not committed. -/
structure Transaction where
  deleted : DataTable → List Nat

def Transaction.empty : Transaction := ⟨fun _ => []⟩

def Transaction.delete (t : Transaction) (table : DataTable) (rows : List Nat) : Transaction :=
  ⟨fun table' => if table' = table then rows ++ t.deleted table' else t.deleted table'⟩

/-- Objects and committed rows by number; `next` has not been used for any of them. -/
structure Store where
  objects : List Nat
  rows : DataTable → List Nat
  connections : List Transaction
  next : Nat

inductive DataCall where
  | deleteObjects
  | connect
  | execute (con : Nat) (table : DataTable)
  | commit (con : Nat)
  | rollback (con : Nat)
  deriving DecidableEq

/-- A call that fails is answered with its error, which the with statement looks at. -/
abbrev DataAnswer : DataCall → Type
  | .connect => Except DataError Nat
  | _ => Except DataError Unit

abbrev DataOp := Program DataCall DataAnswer DataError

abbrev send (c : DataCall) : DataOp (DataAnswer c) := Program.request c

def Store.setConnection (s : Store) (con : Nat) (t : Transaction) : Store :=
  { s with connections := s.connections.set con t }

def Store.transaction (s : Store) (con : Nat) : Transaction := s.connections.getD con .empty

/-- What the commit of a connection makes of the rows. -/
def Store.committed (s : Store) (con : Nat) : Store :=
  { s.setConnection con .empty with
    rows := fun table => (s.rows table).filter (· ∉ (s.transaction con).deleted table) }

/-- What is assumed of S3, PyMySQL and MySQL. Which objects a delete of the bucket leaves is open,
whether it returns or fails. A statement only works on its transaction, and a commit that fails may
have happened all the same. -/
structure DataHost where
  serve : (c : DataCall) → Store → DataAnswer c → Store → Prop
  answers : ∀ c s, ∃ r s', serve c s r s'
  bucket : ∀ {s r s'}, serve .deleteObjects s r s' →
    ∃ kept, kept.Sublist s.objects ∧ s' = { s with objects := kept }
  connection : ∀ {s r s'}, serve .connect s r s' →
    (r = .ok s.connections.length ∧ s' = { s with connections := s.connections ++ [.empty] }) ∨
      (∃ e, r = .error e) ∧ s' = s
  statement : ∀ {con table s r s'}, serve (.execute con table) s r s' →
    ∃ t, s' = s.setConnection con t ∧ (r = .ok () → t = (s.transaction con).delete table (s.rows table))
  commit : ∀ {con s r s'}, serve (.commit con) s r s' →
    s' = s.committed con ∨ (∃ e, r = .error e) ∧ s' = s
  rollback : ∀ {con s r s'}, serve (.rollback con) s r s' → ∃ t, s' = s.setConnection con t

/-- A delete of the bucket that returns has deleted every object. -/
def DataHost.Thorough (H : DataHost) : Prop :=
  ∀ s s', H.serve .deleteObjects s (.ok ()) s' → s'.objects = []

/-- A commit that raises has not happened. -/
def DataHost.Candid (H : DataHost) : Prop :=
  ∀ con s e s', H.serve (.commit con) s (.error e) s' → s' = s

def dataServices (H : DataHost) : Services DataCall DataAnswer DataError Store where
  serve := H.serve
  fail _ _ _ := False

/- util.py -/

def orRaise {α : Type} : Except DataError α → DataOp α
  | .ok a => pure a
  | .error e => .raise e

def deleteS3Data : DataOp Unit := do
  orRaise (← send .deleteObjects)

/-- Leaving the with statement by an error rolls back and passes the error on. -/
def leaveWith (con : Nat) (e : DataError) : DataOp Unit := do
  orRaise (← send (.rollback con))
  .raise e

def deleteRdsData : DataOp Unit := do
  let con ← orRaise (← send .connect)
  let users : Except DataError Unit ← send (.execute con .users)
  match users with
  | .error e => leaveWith con e
  | .ok _ =>
    let photos : Except DataError Unit ← send (.execute con .photos)
    match photos with
    | .error e => leaveWith con e
    | .ok _ => orRaise (← send (.commit con))

def deleteData : DataOp Unit := do
  deleteS3Data
  deleteRdsData

/-- What the user application does in the meantime: it adds objects and rows. -/
inductive Upload : Store → Store → Prop
  | object {s : Store} : Upload s { s with objects := s.objects ++ [s.next], next := s.next+1 }
  | row {s : Store} (table : DataTable) : Upload s { s with
      rows := fun table' => if table' = table then s.rows table' ++ [s.next] else s.rows table'
      next := s.next+1 }

def whileUsed (H : DataHost) : Services DataCall DataAnswer DataError Store :=
  (dataServices H).under (Relation.ReflTransGen Upload)

/- What was there before number `n` was given out. -/

/-- The rows below `n` are the same. -/
def SameRows (n : Nat) (s s' : Store) : Prop :=
  ∀ table, ∀ i < n, (i ∈ s'.rows table ↔ i ∈ s.rows table)

/-- Every row below `n` is gone, of the users and of the photos. -/
def NoRows (n : Nat) (s : Store) : Prop := ∀ table, ∀ i < n, i ∉ s.rows table

/-- The objects and rows below `n` are the same. -/
structure Untouched (n : Nat) (s s' : Store) : Prop where
  objects : ∀ i < n, (i ∈ s'.objects ↔ i ∈ s.objects)
  rows : SameRows n s s'
  next : n ≤ s.next → n ≤ s'.next

/-- The rows below `n` are gone, and the objects below it are the same. -/
structure Emptied (n : Nat) (s s' : Store) : Prop where
  objects : ∀ i < n, (i ∈ s'.objects ↔ i ∈ s.objects)
  rows : NoRows n s'

section
variable {H : DataHost} {n con : Nat} {s s₁ s₂ s' : Store} {α : Type}

theorem Untouched.refl (n : Nat) (s : Store) : Untouched n s s :=
  ⟨fun _ _ => Iff.rfl, fun _ _ _ => Iff.rfl, fun h => h⟩

theorem Untouched.trans (h : Untouched n s s₁) (h' : Untouched n s₁ s') : Untouched n s s' where
  objects i hi := (h'.objects i hi).trans (h.objects i hi)
  rows table i hi := (h'.rows table i hi).trans (h.rows table i hi)
  next hn := h'.next (h.next hn)

theorem Untouched.setConnection (n : Nat) (s : Store) (con : Nat) (t : Transaction) :
    Untouched n s (s.setConnection con t) :=
  ⟨fun _ _ => Iff.rfl, fun _ _ _ => Iff.rfl, fun h => h⟩

theorem upload_untouched (h : Upload s s') (hn : n ≤ s.next) : Untouched n s s' := by
  cases h with
  | object =>
    refine ⟨fun i hi => ?_, fun _ _ _ => Iff.rfl, fun _ => by simp only; omega⟩
    simp only [List.mem_append, List.mem_singleton]
    exact or_iff_left (by omega)
  | row table =>
    refine ⟨fun _ _ => Iff.rfl, fun table' i hi => ?_, fun _ => by simp only; omega⟩
    simp only
    split
    · rw [List.mem_append, List.mem_singleton]
      exact or_iff_left (by omega)
    · rfl

/-- Uploads add to what was there, and touch no connection. -/
theorem uploads_untouched (h : Relation.ReflTransGen Upload s s') (hn : n ≤ s.next) :
    Untouched n s s' ∧ s'.connections = s.connections := by
  induction h with
  | refl => exact ⟨.refl n s, rfl⟩
  | tail _ hu ih =>
    obtain ⟨hsame, hcon⟩ := ih
    refine ⟨hsame.trans (upload_untouched hu (hsame.next hn)), ?_⟩
    rw [← hcon]
    cases hu <;> rfl

/-- Every call is answered after some uploads. -/
theorem runs_used {c : DataCall} {g : DataAnswer c → DataOp α} {res : Except DataError α}
    (hn : n ≤ s.next) (h : Runs (whileUsed H) (send c >>= g) s res s') :
    ∃ s₁ r s₂, Untouched n s s₁ ∧ s₁.connections = s.connections ∧ H.serve c s₁ r s₂ ∧
      Runs (whileUsed H) (g r) s₂ res s' := by
  obtain ⟨r, s₂, ⟨s₁, hup, hs⟩, hr⟩ | ⟨e, ⟨_, _, hf⟩, _⟩ := h
  · obtain ⟨hsame, hcon⟩ := uploads_untouched hup hn
    exact ⟨s₁, r, s₂, hsame, hcon, hs, hr⟩
  · exact hf.elim

theorem runs_orRaise {r : Except DataError α} {res : Except DataError α}
    (h : Runs (whileUsed H) (orRaise r) s res s') : res = r ∧ s' = s := by
  cases r with
  | ok a => exact h
  | error e => exact h

theorem runs_deleteS3Data {res : Except DataError Unit} (hn : n ≤ s.next)
    (h : Runs (whileUsed H) deleteS3Data s res s') :
    SameRows n s s' ∧ (∀ i < n, i ∈ s'.objects → i ∈ s.objects) ∧
      (H.Thorough → res = .ok () → ∀ i < n, i ∉ s'.objects) ∧ n ≤ s'.next := by
  obtain ⟨s₁, r, s₂, hsame, _, hs, hr⟩ := runs_used hn h
  obtain ⟨rfl, rfl⟩ := runs_orRaise hr
  obtain ⟨kept, hkept, rfl⟩ := H.bucket hs
  refine ⟨hsame.rows, fun i hi hobject => ?_, ?_, hsame.next hn⟩
  · exact (hsame.objects i hi).mp (hkept.subset hobject)
  · rintro hthorough rfl i _ hobject
    rw [hthorough _ _ hs] at hobject
    exact List.not_mem_nil hobject

theorem runs_leaveWith {e : DataError} {res : Except DataError Unit} (hn : n ≤ s.next)
    (h : Runs (whileUsed H) (leaveWith con e) s res s') : Untouched n s s' ∧ res ≠ .ok () := by
  obtain ⟨s₁, r, s₂, hsame, _, hs, hr⟩ := runs_used hn h
  obtain ⟨t, rfl⟩ := H.rollback hs
  have hsame₂ := hsame.trans (.setConnection n s₁ con t)
  cases r with
  | ok a =>
    obtain ⟨rfl, rfl⟩ := hr
    exact ⟨hsame₂, by simp⟩
  | error e' =>
    obtain ⟨rfl, rfl⟩ := hr
    exact ⟨hsame₂, by simp⟩

/-- A statement of the transaction leaves the committed rows alone. -/
theorem execute_untouched {table : DataTable} {r : Except DataError Unit}
    (hs : H.serve (.execute con table) s r s') : Untouched n s s' := by
  obtain ⟨t, rfl, _⟩ := H.statement hs
  exact .setConnection n s con t

theorem transaction_set {t : Transaction} (hcon : con < s.connections.length) :
    (s.setConnection con t).transaction con = t := by
  simp [Store.transaction, Store.setConnection, hcon]

theorem deleted_execute {table : DataTable}
    (hs : H.serve (.execute con table) s (.ok ()) s') (hcon : con < s.connections.length) :
    (s'.transaction con).deleted = ((s.transaction con).delete table (s.rows table)).deleted ∧
      s'.connections.length = s.connections.length := by
  obtain ⟨t, rfl, ht⟩ := H.statement hs
  rw [transaction_set hcon, ht rfl]
  simp [Store.setConnection]

/-- What has become of the rows when the delete ends: all of them are gone, and where it has raised
this is the commit that has happened all the same; or they are as they were. -/
def AllOrNothing (H : DataHost) (n : Nat) (s s' : Store) (res : Except DataError Unit) : Prop :=
  Emptied n s s' ∧ (H.Candid → res = .ok ()) ∨ res ≠ .ok () ∧ Untouched n s s'

theorem AllOrNothing.after {res : Except DataError Unit} (h : Untouched n s s₁) (h' : AllOrNothing H n s₁ s' res) :
    AllOrNothing H n s s' res := by
  obtain ⟨hemptied, hres⟩ | ⟨hres, hsame⟩ := h'
  · exact .inl ⟨⟨fun i hi => (hemptied.objects i hi).trans (h.objects i hi), hemptied.rows⟩, hres⟩
  · exact .inr ⟨hres, h.trans hsame⟩

/-- The commit removes what both statements saw. -/
theorem emptied_commit
    (hdeleted : ∀ table, ∀ i < n, i ∈ s.rows table → i ∈ (s.transaction con).deleted table) :
    Emptied n s (s.committed con) where
  objects _ _ := Iff.rfl
  rows := by
    intro table i hi hrow
    obtain ⟨hrow, hkept⟩ := List.mem_filter.mp hrow
    simp only [decide_eq_true_eq] at hkept
    exact hkept (hdeleted table i hi hrow)

theorem runs_commit {res : Except DataError Unit} (hn : n ≤ s.next)
    (hdeleted : ∀ table, ∀ i < n, i ∈ s.rows table → i ∈ (s.transaction con).deleted table)
    (h : Runs (whileUsed H) (send (.commit con) >>= fun r => orRaise r) s res s') :
    AllOrNothing H n s s' res := by
  obtain ⟨s₁, r, s₂, hsame, hcon, hs, hr⟩ := runs_used hn h
  obtain ⟨rfl, rfl⟩ := runs_orRaise hr
  refine AllOrNothing.after hsame ?_
  have hdeleted₁ : ∀ table, ∀ i < n, i ∈ s₁.rows table → i ∈ (s₁.transaction con).deleted table := by
    intro table i hi hrow
    rw [Store.transaction, hcon]
    exact hdeleted table i hi ((hsame.rows table i hi).mp hrow)
  obtain rfl | ⟨⟨e, rfl⟩, rfl⟩ := H.commit hs
  · cases res with
    | ok _ => exact .inl ⟨emptied_commit hdeleted₁, fun _ => rfl⟩
    | error e =>
      by_cases hcandid : H.Candid
      · rw [hcandid con s₁ e _ hs]
        exact .inr ⟨by simp, .refl n s₁⟩
      · exact .inl ⟨emptied_commit hdeleted₁, fun h => absurd h hcandid⟩
  · exact .inr ⟨by simp, .refl n s'⟩

theorem runs_deleteRdsData {res : Except DataError Unit} (hn : n ≤ s.next)
    (h : Runs (whileUsed H) deleteRdsData s res s') : AllOrNothing H n s s' res := by
  obtain ⟨s₁, r, s₂, h₁, _, hs, h⟩ := runs_used hn h
  obtain ⟨rfl, rfl⟩ | ⟨⟨e, rfl⟩, rfl⟩ := H.connection hs
  · have h₂ : Untouched n s { s₁ with connections := s₁.connections ++ [.empty] } :=
      ⟨h₁.objects, h₁.rows, h₁.next⟩
    generalize hs₂ : ({ s₁ with connections := s₁.connections ++ [.empty] } : Store) = s₂ at h₂ h
    have hcon₂ : s₁.connections.length < s₂.connections.length := by
      rw [← hs₂]
      simp
    generalize s₁.connections.length = con at h hcon₂
    obtain ⟨s₃, r, s₄, h₃, hcon₃, hs, h⟩ := runs_used (h₂.next hn) h
    have h₄ := h₂.trans (h₃.trans (execute_untouched hs))
    cases r with
    | error e =>
      obtain ⟨hsame, hres⟩ := runs_leaveWith (h₄.next hn) h
      exact .inr ⟨hres, h₄.trans hsame⟩
    | ok a =>
      rw [← hcon₃] at hcon₂
      obtain ⟨hdeleted₄, hcon₄⟩ := deleted_execute hs hcon₂
      rw [← hcon₄] at hcon₂
      obtain ⟨s₅, r, s₆, h₅, hcon₅, hs', h⟩ := runs_used (h₄.next hn) h
      have h₆ := h₄.trans (h₅.trans (execute_untouched hs'))
      cases r with
      | error e =>
        obtain ⟨hsame, hres⟩ := runs_leaveWith (h₆.next hn) h
        exact .inr ⟨hres, h₆.trans hsame⟩
      | ok a =>
        rw [← hcon₅] at hcon₂
        obtain ⟨hdeleted₆, _⟩ := deleted_execute hs' hcon₂
        have htransaction : s₅.transaction con = s₄.transaction con := by
          rw [Store.transaction, hcon₅]
          rfl
        have hdeleted : ∀ table, ∀ i < n, i ∈ s₆.rows table →
            i ∈ (s₆.transaction con).deleted table := by
          intro table i hi hrow
          have hrow₅ := ((execute_untouched hs').rows table i hi).mp hrow
          rw [hdeleted₆, htransaction]
          cases table with
          | users =>
            have hrow₃ : i ∈ s₃.rows .users :=
              ((execute_untouched hs).rows .users i hi).mp ((h₅.rows .users i hi).mp hrow₅)
            simp [Transaction.delete, hdeleted₄, hrow₃]
          | photos => simp [Transaction.delete, hrow₅]
        exact (runs_commit (h₆.next hn) hdeleted h).after h₆
  · obtain ⟨rfl, rfl⟩ := h
    exact .inr ⟨by simp, h₁⟩

/-- Whatever fails and however, and whatever is uploaded in the meantime: the users and photos that
were there when the delete began are all gone or all there, and all gone if it returns; no object
comes back. Where a commit that raises has not happened, a delete that raises leaves every row.
Where the bucket is empty when its delete returns, the rows only go after the objects. -/
theorem delete_data_all_or_nothing {res : Except DataError Unit}
    (h : Runs (whileUsed H) deleteData s res s') :
    (NoRows s.next s' ∨ res ≠ .ok () ∧ SameRows s.next s s') ∧
    (∀ i < s.next, i ∈ s'.objects → i ∈ s.objects) ∧
    (H.Candid → res ≠ .ok () → SameRows s.next s s') ∧
    (H.Thorough → res = .ok () ∨ ¬ SameRows s.next s s' → ∀ i < s.next, i ∉ s'.objects) := by
  obtain ⟨a, s₁, hs3, hrds⟩ | ⟨e, hs3, rfl⟩ := runs_bind.mp h
  · obtain ⟨hrows, hobjects, hthorough, hnext⟩ := runs_deleteS3Data (Nat.le_refl s.next) hs3
    obtain ⟨⟨hsame, hgone⟩, hres⟩ | ⟨hres, hsame⟩ := runs_deleteRdsData hnext hrds
    · refine ⟨.inl hgone, fun i hi ho => hobjects i hi ((hsame i hi).mp ho), ?_, ?_⟩
      · exact fun hcandid hne => absurd (hres hcandid) hne
      · exact fun ht _ i hi ho => hthorough ht rfl i hi ((hsame i hi).mp ho)
    · have hkept : SameRows s.next s s' := fun table i hi =>
        (hsame.rows table i hi).trans (hrows table i hi)
      refine ⟨.inr ⟨hres, hkept⟩, fun i hi ho => hobjects i hi ((hsame.objects i hi).mp ho),
        fun _ _ => hkept, ?_⟩
      exact fun ht _ i hi ho => hthorough ht rfl i hi ((hsame.objects i hi).mp ho)
  · obtain ⟨hrows, hobjects, _, _⟩ := runs_deleteS3Data (Nat.le_refl s.next) hs3
    refine ⟨.inr ⟨by simp, hrows⟩, hobjects, fun _ _ => hrows, fun _ hor => ?_⟩
    obtain hok | hchanged := hor
    · cases hok
    · exact absurd hrows hchanged

end

/-- A bucket and a database whose calls do all they should or nothing. -/
def cleanHost : DataHost where
  serve
    | .deleteObjects, s, r, s' =>
      (r = .ok () ∧ s' = { s with objects := [] }) ∨ r = .error .clientError ∧ s' = s
    | .connect, s, r, s' =>
      (r = .ok s.connections.length ∧ s' = { s with connections := s.connections ++ [.empty] }) ∨
        r = .error .operationalError ∧ s' = s
    | .execute con table, s, r, s' =>
      (r = .ok () ∧ s' = s.setConnection con ((s.transaction con).delete table (s.rows table))) ∨
        r = .error .operationalError ∧ s' = s.setConnection con .empty
    | .commit con, s, r, s' =>
      (r = .ok () ∧ s' = s.committed con) ∨ r = .error .operationalError ∧ s' = s
    | .rollback con, s, r, s' => r = .ok () ∧ s' = s.setConnection con .empty
  answers c s := by
    cases c with
    | rollback con => exact ⟨_, _, rfl, rfl⟩
    | _ => exact ⟨_, _, .inl ⟨rfl, rfl⟩⟩
  bucket := by
    rintro s r s' (⟨_, rfl⟩ | ⟨_, rfl⟩)
    · exact ⟨[], List.nil_sublist _, rfl⟩
    · exact ⟨_, List.Sublist.refl _, rfl⟩
  connection h := h.imp_right fun h => ⟨⟨_, h.1⟩, h.2⟩
  statement := by
    rintro con table s r s' (⟨_, rfl⟩ | ⟨rfl, rfl⟩)
    · exact ⟨_, rfl, fun _ => rfl⟩
    · exact ⟨_, rfl, fun h => by cases h⟩
  commit h := h.imp (fun h => h.2) fun h => ⟨⟨_, h.1⟩, h.2⟩
  rollback h := ⟨_, h.2⟩

theorem cleanHost_candid : cleanHost.Candid := by
  rintro con s e s' (⟨h, _⟩ | ⟨_, rfl⟩)
  · cases h
  · rfl

theorem cleanHost_thorough : cleanHost.Thorough := by
  rintro s s' (⟨_, rfl⟩ | ⟨h, _⟩)
  · rfl
  · cases h

/-- One user with one photo. -/
def album : Store where
  objects := [1]
  rows
    | .users => [0]
    | .photos => [1]
  connections := []
  next := 2

/-- A delete that goes through, and one whose connection is refused once the bucket is empty. -/
theorem delete_data_all_or_nothing_album :
    (∃ s', Runs (whileUsed cleanHost) deleteData album (.ok ()) s' ∧ NoRows 2 s' ∧ 1 ∉ s'.objects) ∧
    ∃ s', Runs (whileUsed cleanHost) deleteData album (.error .operationalError) s' ∧
      s'.objects = [] ∧ 1 ∈ s'.rows .photos := by
  constructor
  · have hrun : ∃ s', Runs (whileUsed cleanHost) deleteData album (.ok ()) s' :=
      ⟨_, .inl ⟨.ok (), _, ⟨album, .refl, .inl ⟨rfl, rfl⟩⟩,
        .inl ⟨.ok 0, _, ⟨_, .refl, .inl ⟨rfl, rfl⟩⟩,
        .inl ⟨.ok (), _, ⟨_, .refl, .inl ⟨rfl, rfl⟩⟩,
        .inl ⟨.ok (), _, ⟨_, .refl, .inl ⟨rfl, rfl⟩⟩,
        .inl ⟨.ok (), _, ⟨_, .refl, .inl ⟨rfl, rfl⟩⟩, rfl, rfl⟩⟩⟩⟩⟩⟩
    obtain ⟨s', hrun⟩ := hrun
    obtain ⟨hrows, _, _, hobjects⟩ := delete_data_all_or_nothing hrun
    refine ⟨s', hrun, hrows.resolve_right fun h => h.1 rfl, ?_⟩
    exact hobjects cleanHost_thorough (.inl rfl) 1 (by decide)
  · have hrun : Runs (whileUsed cleanHost) deleteData album (.error .operationalError)
        { album with objects := [] } :=
      .inl ⟨.ok (), _, ⟨album, .refl, .inl ⟨rfl, rfl⟩⟩,
        .inl ⟨.error .operationalError, _, ⟨_, .refl, .inr ⟨rfl, rfl⟩⟩, rfl, rfl⟩⟩
    have hkept := (delete_data_all_or_nothing hrun).2.2.1 cleanHost_candid (by simp)
    exact ⟨_, hrun, rfl, (hkept .photos 1 (by decide)).mpr (by decide)⟩

end OdwaManager
