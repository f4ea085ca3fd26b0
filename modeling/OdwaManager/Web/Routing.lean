import Mathlib.Tactic.Common

/-! URL rules and the routers that go by them. A rule builds a path from its arguments. All that
is asked of a router is that it finds no view but one whose rule has built the path, and that it
does not miss the only one. -/
namespace OdwaManager.Routing

inductive Method where
  | get | head | post
  deriving DecidableEq, Repr

/-- What stands between two slashes of a rule: a fixed text or an argument. A rule with a slash
at its end ends with the empty text. -/
inductive Part where
  | text (s : List Char)
  | arg
  deriving DecidableEq

structure Rule (V : Type) where
  method : Method
  parts : List Part
  view : V
  deriving DecidableEq

variable {V : Type}

/-- A rule for GET is one for HEAD too. -/
def Rule.Allows (r : Rule V) (method : Method) : Prop :=
  method = r.method ∨ method = .head ∧ r.method = .get

instance (r : Rule V) (method : Method) : Decidable (r.Allows method) :=
  inferInstanceAs (Decidable (_ ∨ _))

def Rule.Static (r : Rule V) : Prop := .arg ∉ r.parts

instance (r : Rule V) : Decidable r.Static := inferInstanceAs (Decidable (_ ∉ _))

def buildParts : List Part → List (List Char) → List (List Char)
  | [], _ => []
  | .text s :: ps, args => s :: buildParts ps args
  | .arg :: ps, a :: args => a :: buildParts ps args
  | .arg :: _, [] => []

def Rule.build (r : Rule V) (args : List (List Char)) : List Char :=
  '/' :: ['/'].intercalate (buildParts r.parts args)

/-- The arguments fit the rule and can stand between slashes. -/
structure Rule.Fits (r : Rule V) (args : List (List Char)) : Prop where
  count : r.parts.count .arg = args.length
  nonempty : ∀ a ∈ args, a ≠ []
  noSlash : ∀ a ∈ args, '/' ∉ a

def Part.NoSlash : Part → Prop
  | .text s => '/' ∉ s
  | .arg => True

instance : DecidablePred Part.NoSlash
  | .text s => inferInstanceAs (Decidable ('/' ∉ s))
  | .arg => inferInstanceAs (Decidable True)

/-- The parts of a rule stand between slashes, and there is at least one. -/
structure Rule.WellFormed (r : Rule V) : Prop where
  parts_ne : r.parts ≠ []
  noSlash : ∀ p ∈ r.parts, p.NoSlash

/-- The path without the slashes it begins with, of which there may be any number. -/
def relative (path : List Char) : List Char := path.dropWhile (· = '/')

/-- The path is the one that the rule builds from the arguments. -/
def Rule.Matches (r : Rule V) (path : List Char) (args : List (List Char)) : Prop :=
  r.Fits args ∧ r.build args = '/' :: relative path

/-- The rule builds the path, or builds it but for a slash at its end. -/
def Rule.Covers (r : Rule V) (path : List Char) : Prop :=
  ∃ args, r.Fits args ∧
    (r.build args = '/' :: relative path ∨ r.build args = '/' :: (relative path ++ ['/']))

/-- What is asked of a router. It may send a request to a rule that allows its method and matches
its path, and it has to if no other rule comes into question; a rule without arguments goes before
those with arguments. The order in which it tries the rules is its own, and so is what it does with
a path that only lacks its last slash. -/
structure Router (rules : List (Rule V)) where
  route : Method → List Char → Option (V × List (List Char))
  found : ∀ {method path view args}, route method path = some (view, args) →
    ∃ r ∈ rules, r.Allows method ∧ r.view = view ∧ r.Matches path args
  reaches : ∀ {method path r args}, r ∈ rules → r.Allows method → r.Matches path args →
    (∀ r' ∈ rules, r'.Allows method → r'.Covers path → r' = r ∨ r.Static ∧ ¬ r'.Static) →
    route method path = some (r.view, args)

/- Matching segment by segment. -/

def segments (path : List Char) : List (List Char) := (relative path).splitOn '/'

/-- The arguments, if the parts match. An argument is not empty. -/
def matchParts : List Part → List (List Char) → Option (List (List Char))
  | [], [] => some []
  | .text s :: ps, seg :: segs => if seg = s then matchParts ps segs else none
  | .arg :: ps, seg :: segs => if seg = [] then none else (matchParts ps segs).map (seg :: ·)
  | _, _ => none

theorem buildParts_ne_nil {ps : List Part} {args : List (List Char)} (hps : ps ≠ [])
    (hcount : ps.count .arg = args.length) : buildParts ps args ≠ [] := by
  cases ps with
  | nil => exact absurd rfl hps
  | cons p ps =>
    cases p with
    | text s => simp [buildParts]
    | arg =>
      cases args with
      | nil => simp at hcount
      | cons a args => simp [buildParts]

theorem matchParts_build {ps : List Part} {args : List (List Char)}
    (hcount : ps.count .arg = args.length) (hne : ∀ a ∈ args, a ≠ []) :
    matchParts ps (buildParts ps args) = some args := by
  induction ps generalizing args with
  | nil =>
    cases args with
    | nil => rfl
    | cons a args => simp at hcount
  | cons p ps ih =>
    cases p with
    | text s =>
      have hrest : ps.count .arg = args.length := by simpa using hcount
      simp [buildParts, matchParts, ih hrest hne]
    | arg =>
      cases args with
      | nil => simp at hcount
      | cons a args =>
        have hrest : ps.count .arg = args.length := by simpa using hcount
        have ha : a ≠ [] := hne a (by simp)
        simp [buildParts, matchParts, ha, ih hrest fun b hb => hne b (List.mem_cons_of_mem a hb)]

theorem mem_buildParts {ps : List Part} {args : List (List Char)} {seg : List Char}
    (h : seg ∈ buildParts ps args) : .text seg ∈ ps ∨ seg ∈ args := by
  induction ps generalizing args with
  | nil => simp [buildParts] at h
  | cons p ps ih =>
    cases p with
    | text s =>
      obtain rfl | h := List.mem_cons.mp h
      · simp
      · obtain h | h := ih h
        · exact .inl (List.mem_cons_of_mem _ h)
        · exact .inr h
    | arg =>
      cases args with
      | nil => simp [buildParts] at h
      | cons a args =>
        obtain rfl | h := List.mem_cons.mp h
        · simp
        · obtain h | h := ih h
          · exact .inl (List.mem_cons_of_mem _ h)
          · exact .inr (List.mem_cons_of_mem _ h)

/-- The segments of a path that was built. -/
theorem splitOn_build {r : Rule V} {path : List Char} {args : List (List Char)} (hr : r.WellFormed)
    (h : r.Fits args) (hbuild : r.build args = '/' :: path) :
    path.splitOn '/' = buildParts r.parts args := by
  obtain rfl : ['/'].intercalate (buildParts r.parts args) = path := (List.cons.inj hbuild).2
  refine List.splitOn_intercalate '/' (fun seg hseg => ?_) (buildParts_ne_nil hr.parts_ne h.count)
  obtain hseg | hseg := mem_buildParts hseg
  · exact hr.noSlash (.text seg) hseg
  · exact h.noSlash seg hseg

theorem Rule.Matches.matchParts {r : Rule V} {path : List Char} {args : List (List Char)}
    (h : r.Matches path args) (hr : r.WellFormed) : matchParts r.parts (segments path) = some args := by
  rw [segments, splitOn_build hr h.1 h.2]
  exact matchParts_build h.1.count h.1.nonempty

/-- Whatever covers the path matches its segments, or matches them with an empty one behind. -/
theorem Rule.Covers.matchParts {r : Rule V} {path : List Char} (h : r.Covers path) (hr : r.WellFormed) :
    matchParts r.parts (segments path) ≠ none ∨ matchParts r.parts (segments path ++ [[]]) ≠ none := by
  obtain ⟨args, hfits, hbuild | hbuild⟩ := h
  · left
    rw [Matches.matchParts ⟨hfits, hbuild⟩ hr]
    simp
  · right
    have hlast : segments path ++ [[]] = (relative path ++ ['/']).splitOn '/' := by
      rw [segments, List.splitOn_append_cons_self, List.splitOn_nil]
    rw [hlast, splitOn_build hr hfits hbuild, matchParts_build hfits.count hfits.nonempty]
    simp

theorem buildParts_of_match {ps : List Part} {segs args : List (List Char)}
    (h : matchParts ps segs = some args) : buildParts ps args = segs := by
  induction ps generalizing segs args with
  | nil =>
    cases segs with
    | nil => rfl
    | cons seg segs => simp [matchParts] at h
  | cons p ps ih =>
    cases segs with
    | nil => cases p <;> simp [matchParts] at h
    | cons seg segs =>
      cases p with
      | text s =>
        simp only [matchParts, Option.ite_none_right_eq_some] at h
        rw [buildParts, ih h.2, h.1]
      | arg =>
        simp only [matchParts, Option.ite_none_left_eq_some, Option.map_eq_some_iff] at h
        obtain ⟨_, rest, hrest, rfl⟩ := h
        rw [buildParts, ih hrest]

theorem fits_of_match {ps : List Part} {segs args : List (List Char)}
    (h : matchParts ps segs = some args) :
    ps.count .arg = args.length ∧ (∀ a ∈ args, a ≠ []) ∧ ∀ a ∈ args, a ∈ segs := by
  induction ps generalizing segs args with
  | nil =>
    cases segs with
    | nil =>
      cases h
      simp
    | cons seg segs => simp [matchParts] at h
  | cons p ps ih =>
    cases segs with
    | nil => cases p <;> simp [matchParts] at h
    | cons seg segs =>
      cases p with
      | text s =>
        simp only [matchParts, Option.ite_none_right_eq_some] at h
        obtain ⟨hcount, hne, hmem⟩ := ih h.2
        exact ⟨by simpa using hcount, hne, fun a ha => List.mem_cons_of_mem seg (hmem a ha)⟩
      | arg =>
        simp only [matchParts, Option.ite_none_left_eq_some, Option.map_eq_some_iff] at h
        obtain ⟨hseg, rest, hrest, rfl⟩ := h
        obtain ⟨hcount, hne, hmem⟩ := ih hrest
        refine ⟨by simpa using hcount, ?_, ?_⟩
        · simpa [hseg] using hne
        · simpa using fun a ha => .inr (hmem a ha)

theorem not_mem_of_mem_splitOn {c : Char} {path seg : List Char} (h : seg ∈ path.splitOn c) :
    c ∉ seg := by
  induction path generalizing seg with
  | nil => simp_all [List.splitOn_nil]
  | cons d path ih =>
    rw [List.splitOn_cons_eq_if_modifyHead] at h
    split at h
    next =>
      obtain rfl | h := List.mem_cons.mp h
      · simp
      · exact ih h
    next hne =>
      cases hsplit : path.splitOn c with
      | nil => exact absurd hsplit (List.splitOn_ne_nil c path)
      | cons first rest =>
        rw [hsplit, List.modifyHead_cons] at h
        rw [hsplit] at ih
        obtain rfl | h := List.mem_cons.mp h
        · have hfirst : c ∉ first := ih List.mem_cons_self
          have hd : c ≠ d := fun he => hne (by simp [he])
          simp [hd, hfirst]
        · exact ih (List.mem_cons_of_mem first h)

/-- Matching the segments is matching the path. -/
theorem matches_of_matchParts {r : Rule V} {path : List Char} {args : List (List Char)}
    (h : matchParts r.parts (segments path) = some args) : r.Matches path args := by
  obtain ⟨hcount, hne, hmem⟩ := fits_of_match h
  refine ⟨⟨hcount, hne, fun a ha => not_mem_of_mem_splitOn (hmem a ha)⟩, ?_⟩
  rw [Rule.build, buildParts_of_match h, segments, List.intercalate_splitOn]

/- A router that takes the first rule that matches. -/

/-- Rules without arguments are tried first. -/
def matchOrder (rules : List (Rule V)) : List (Rule V) :=
  rules.filter (fun r => r.Static) ++ rules.filter fun r => ¬ r.Static

/-- The view and its arguments, if the rule allows the method and matches. -/
def Rule.attempt (method : Method) (path : List Char) (r : Rule V) : Option (V × List (List Char)) :=
  if r.Allows method then (matchParts r.parts (segments path)).map fun args => (r.view, args) else none

theorem attempt_eq_some {r : Rule V} {method : Method} {path : List Char} {view : V}
    {args : List (List Char)} : r.attempt method path = some (view, args) ↔
      r.Allows method ∧ r.view = view ∧ matchParts r.parts (segments path) = some args := by
  simp only [Rule.attempt, Option.ite_none_right_eq_some, Option.map_eq_some_iff, Prod.mk.injEq]
  constructor
  · rintro ⟨hallows, _, hmatch, hview, rfl⟩
    exact ⟨hallows, hview, hmatch⟩
  · rintro ⟨hallows, hview, hmatch⟩
    exact ⟨hallows, args, hmatch, hview, rfl⟩

theorem covers_of_attempt {r : Rule V} {method : Method} {path : List Char}
    (h : r.attempt method path ≠ none) : r.Allows method ∧ r.Covers path := by
  obtain ⟨⟨view, args⟩, hsome⟩ := Option.ne_none_iff_exists'.mp h
  obtain ⟨hallows, _, hmatch⟩ := attempt_eq_some.mp hsome
  obtain ⟨hfits, hbuild⟩ := matches_of_matchParts hmatch
  exact ⟨hallows, args, hfits, .inl hbuild⟩

/-- What is found first is what is found at all, where only one thing can be found. -/
theorem findSome?_of_unique {α β : Type} {f : α → Option β} {l : List α} {a : α} {b : β} (ha : a ∈ l)
    (hb : f a = some b) (h : ∀ x ∈ l, f x ≠ none → x = a) : l.findSome? f = some b := by
  cases hfind : l.findSome? f with
  | none =>
    rw [List.findSome?_eq_none_iff] at hfind
    cases (hfind a ha).symm.trans hb
  | some b' =>
    obtain ⟨x, hx, hx'⟩ := List.exists_of_findSome?_eq_some hfind
    obtain rfl := h x hx (by simp [hx'])
    exact hx'.symm.trans hb

theorem mem_matchOrder {rules : List (Rule V)} {r : Rule V} : r ∈ matchOrder rules ↔ r ∈ rules := by
  by_cases h : r.Static <;> simp [matchOrder, h]

def firstMatch (rules : List (Rule V)) (hrules : ∀ r ∈ rules, r.WellFormed) : Router rules where
  route method path := (matchOrder rules).findSome? (Rule.attempt method path)
  found := by
    intro method path view args h
    obtain ⟨r, hr, hr'⟩ := List.exists_of_findSome?_eq_some h
    obtain ⟨hallows, hview, hmatch⟩ := attempt_eq_some.mp hr'
    exact ⟨r, mem_matchOrder.mp hr, hallows, hview, matches_of_matchParts hmatch⟩
  reaches := by
    intro method path r args hr hallows hmatches hrivals
    have hself : r.attempt method path = some (r.view, args) :=
      attempt_eq_some.mpr ⟨hallows, rfl, hmatches.matchParts (hrules r hr)⟩
    have hrival : ∀ r' ∈ rules, r'.attempt method path ≠ none → r' = r ∨ r.Static ∧ ¬ r'.Static := by
      intro r' hr' h
      obtain ⟨hallows', hcovers⟩ := covers_of_attempt h
      exact hrivals r' hr' hallows' hcovers
    by_cases hstatic : r.Static
    · rw [matchOrder, List.findSome?_append, findSome?_of_unique (a := r) (by simp [hr, hstatic]) hself]
      · rfl
      · intro r' hr' h
        obtain ⟨hr', hstatic'⟩ := List.mem_filter.mp hr'
        exact (hrival r' hr' h).resolve_right fun hne => hne.2 (of_decide_eq_true hstatic')
    · refine findSome?_of_unique (mem_matchOrder.mpr hr) hself fun r' hr' h => ?_
      exact (hrival r' (mem_matchOrder.mp hr') h).resolve_right fun hne => hstatic hne.1

end OdwaManager.Routing
