import OdwaManager.Account
import OdwaManager.Web.Routing

/-! The URLs of the four blueprints: which view a request reaches, and the URL that url_for
writes for a view. The router is that of the framework; the rules are such that it does not matter
which one. -/
namespace OdwaManager
open Routing

inductive View where
  | workerView | detailDestroyWorker | destroyAll
  | autoscalingIndex | apply
  | panelIndex | listWorkers | deleteData | stopManager | gotoAutoscaling | gotoManualscaling
  | manualscalingIndex | createWorker | destroyWorker | turnOn
  deriving DecidableEq, Repr

def text (s : String) : Part := .text s.toList

/-- The route of a view, behind the prefix of its blueprint. -/
def View.rule : View → Rule View
  | .workerView => ⟨.get, [text "detail", .arg], .workerView⟩
  | .detailDestroyWorker => ⟨.post, [text "detail", text "delete", .arg], .detailDestroyWorker⟩
  | .destroyAll => ⟨.post, [text "detail", text "delete", text "all"], .destroyAll⟩
  | .autoscalingIndex => ⟨.get, [text "autoscaling", text ""], .autoscalingIndex⟩
  | .apply => ⟨.post, [text "autoscaling", text "apply"], .apply⟩
  | .panelIndex => ⟨.get, [text "panel", text ""], .panelIndex⟩
  | .listWorkers => ⟨.get, [text "panel", text "workers"], .listWorkers⟩
  | .deleteData => ⟨.post, [text "panel", text "delete_data"], .deleteData⟩
  | .stopManager => ⟨.post, [text "panel", text "stop_manager"], .stopManager⟩
  | .gotoAutoscaling => ⟨.get, [text "panel", text "autoscaling"], .gotoAutoscaling⟩
  | .gotoManualscaling => ⟨.get, [text "panel", text "manualscaling"], .gotoManualscaling⟩
  | .manualscalingIndex => ⟨.get, [text "manualscaling", text ""], .manualscalingIndex⟩
  | .createWorker => ⟨.post, [text "manualscaling", text "create_worker"], .createWorker⟩
  | .destroyWorker => ⟨.post, [text "manualscaling", text "destroy_worker"], .destroyWorker⟩
  | .turnOn => ⟨.post, [text "manualscaling", text "turn_on"], .turnOn⟩

/-- The rules in the order in which they are registered. -/
def routes : List (Rule View) :=
  [.workerView, .detailDestroyWorker, .destroyAll, .autoscalingIndex, .apply, .panelIndex,
    .listWorkers, .deleteData, .stopManager, .gotoAutoscaling, .gotoManualscaling,
    .manualscalingIndex, .createWorker, .destroyWorker, .turnOn].map View.rule

/-- A view with its arguments. -/
inductive Endpoint where
  | workerView (id : InstanceId) | detailDestroyWorker (id : InstanceId) | destroyAll
  | autoscalingIndex | apply
  | panelIndex | listWorkers | deleteData | stopManager | gotoAutoscaling | gotoManualscaling
  | manualscalingIndex | createWorker | destroyWorker | turnOn
  deriving DecidableEq, Repr

def Endpoint.view : Endpoint → View
  | .workerView _ => .workerView
  | .detailDestroyWorker _ => .detailDestroyWorker
  | .destroyAll => .destroyAll
  | .autoscalingIndex => .autoscalingIndex
  | .apply => .apply
  | .panelIndex => .panelIndex
  | .listWorkers => .listWorkers
  | .deleteData => .deleteData
  | .stopManager => .stopManager
  | .gotoAutoscaling => .gotoAutoscaling
  | .gotoManualscaling => .gotoManualscaling
  | .manualscalingIndex => .manualscalingIndex
  | .createWorker => .createWorker
  | .destroyWorker => .destroyWorker
  | .turnOn => .turnOn

def Endpoint.args : Endpoint → List (List Char)
  | .workerView id | .detailDestroyWorker id => [id.toList]
  | _ => []

def Endpoint.ofMatch : View → List (List Char) → Option Endpoint
  | .workerView, [id] => some (.workerView (String.ofList id))
  | .detailDestroyWorker, [id] => some (.detailDestroyWorker (String.ofList id))
  | .destroyAll, [] => some .destroyAll
  | .autoscalingIndex, [] => some .autoscalingIndex
  | .apply, [] => some .apply
  | .panelIndex, [] => some .panelIndex
  | .listWorkers, [] => some .listWorkers
  | .deleteData, [] => some .deleteData
  | .stopManager, [] => some .stopManager
  | .gotoAutoscaling, [] => some .gotoAutoscaling
  | .gotoManualscaling, [] => some .gotoManualscaling
  | .manualscalingIndex, [] => some .manualscalingIndex
  | .createWorker, [] => some .createWorker
  | .destroyWorker, [] => some .destroyWorker
  | .turnOn, [] => some .turnOn
  | _, _ => none

def Endpoint.method (e : Endpoint) : Method := e.view.rule.method

def Endpoint.Allows (e : Endpoint) (method : Method) : Prop := e.view.rule.Allows method

instance (e : Endpoint) (method : Method) : Decidable (e.Allows method) :=
  inferInstanceAs (Decidable (e.view.rule.Allows method))

/-- The URL that url_for writes, before it quotes what has to be quoted. -/
def urlFor (e : Endpoint) : List Char := e.view.rule.build e.args

/-- The view that a request reaches, unless it is answered with an error or a redirect before. -/
def Routing.Router.resolve (R : Router routes) (method : Method) (path : List Char) : Option Endpoint :=
  (R.route method path).bind fun found => Endpoint.ofMatch found.1 found.2

theorem Endpoint.method_cases (e : Endpoint) : e.method = .get ∨ e.method = .post := by
  cases e <;> first | exact .inl rfl | exact .inr rfl

/-- What is asked for with GET or HEAD is declared for GET. -/
theorem Endpoint.Allows.method_get {e : Endpoint} {method : Method} (h : e.Allows method)
    (hm : method ≠ .post) : e.method = .get := by
  obtain rfl | ⟨_, hget⟩ := h
  · exact e.method_cases.resolve_right hm
  · exact hget

/-- A character that is written as it is in a URL. -/
def Unquoted (c : Char) : Prop := c.isAlphanum = true ∨ c ∈ ['_', '.', '-', '+']

instance (c : Char) : Decidable (Unquoted c) := inferInstanceAs (Decidable (_ ∨ _))

/-- An id that stands in a URL as it is. -/
def PlainId (id : InstanceId) : Prop := id.toList ≠ [] ∧ ∀ c ∈ id.toList, Unquoted c

instance (id : InstanceId) : Decidable (PlainId id) := inferInstanceAs (Decidable (_ ∧ _))

def Endpoint.Plain : Endpoint → Prop
  | .workerView id | .detailDestroyWorker id => PlainId id
  | _ => True

theorem PlainId.fits {id : InstanceId} {r : Rule View} (h : PlainId id)
    (hcount : r.parts.count .arg = 1) : r.Fits [id.toList] where
  count := hcount
  nonempty := by
    intro a ha
    rw [List.mem_singleton.mp ha]
    exact h.1
  noSlash := by
    intro a ha hslash
    rw [List.mem_singleton.mp ha] at hslash
    exact absurd (h.2 '/' hslash) (by decide)

theorem rule_wellFormed (v : View) : v.rule.WellFormed where
  parts_ne := by cases v <;> decide
  noSlash := by cases v <;> decide

theorem routes_wellFormed : ∀ r ∈ routes, r.WellFormed := by
  intro r hr
  obtain ⟨v, _, rfl⟩ := List.mem_map.mp hr
  exact rule_wellFormed v

/-- The router that takes the first rule that matches. -/
def flatRouter : Router routes := firstMatch routes routes_wellFormed

theorem routes_rule {r : Rule View} (h : r ∈ routes) : r = r.view.rule := by
  obtain ⟨v, _, rfl⟩ := List.mem_map.mp h
  cases v <;> rfl

theorem rule_mem (v : View) : v.rule ∈ routes := by
  refine List.mem_map_of_mem ?_
  cases v <;> decide

theorem ofMatch_eq {v : View} {args : List (List Char)} {e : Endpoint}
    (h : Endpoint.ofMatch v args = some e) : e.view = v ∧ e.args = args := by
  unfold Endpoint.ofMatch at h
  split at h <;> cases h <;> simp [Endpoint.view, Endpoint.args]

theorem ofMatch_self (e : Endpoint) : Endpoint.ofMatch e.view.rule.view e.args = some e := by
  cases e <;> simp [Endpoint.ofMatch, Endpoint.view, Endpoint.args, View.rule]

section
variable {R : Router routes} {method : Method} {e : Endpoint}

/-- A request that reaches a view has a method and the URL of the view. -/
theorem url_of_resolve {path : List Char} (h : R.resolve method path = some e) :
    e.Allows method ∧ urlFor e = '/' :: relative path := by
  obtain ⟨⟨view, args⟩, hroute, hmatch⟩ := Option.bind_eq_some_iff.mp h
  obtain ⟨r, hr, hallows, rfl, _, hbuild⟩ := R.found hroute
  obtain ⟨hview, hargs⟩ := ofMatch_eq hmatch
  have hrule : e.view.rule = r := by rw [hview, ← routes_rule hr]
  exact ⟨by rw [Endpoint.Allows, hrule]; exact hallows, by rw [urlFor, hrule, hargs, hbuild]⟩

theorem relative_urlFor (e : Endpoint) : urlFor e = '/' :: relative (urlFor e) := by
  cases e <;> simp [urlFor, Endpoint.view, Endpoint.args, View.rule, Rule.build, text, buildParts,
    List.intercalate, relative]

theorem Endpoint.Plain.matches (h : e.Plain) : e.view.rule.Matches (urlFor e) e.args := by
  refine ⟨?_, relative_urlFor e⟩
  cases e with
  | workerView id => exact PlainId.fits h rfl
  | detailDestroyWorker id => exact PlainId.fits h rfl
  | _ => exact ⟨rfl, by simp [Endpoint.args], by simp [Endpoint.args]⟩

theorem Endpoint.Plain.segments_urlFor (h : e.Plain) :
    segments (urlFor e) = buildParts e.view.rule.parts e.args :=
  splitOn_build (rule_wellFormed e.view) h.matches.1 h.matches.2

/-- No route is declared for HEAD, so two routes that allow a method are declared for the same one. -/
theorem allows_method {r r' : Rule View} (hr : r ∈ routes) (hr' : r' ∈ routes) (h : r.Allows method)
    (h' : r'.Allows method) : r.method = r'.method := by
  have hhead : ∀ r ∈ routes, r.method ≠ .head := by decide
  obtain rfl | ⟨rfl, hget⟩ := h
  · obtain h' | ⟨h', _⟩ := h'
    · exact h'
    · exact absurd h' (hhead r hr)
  · obtain h' | ⟨_, hget'⟩ := h'
    · exact absurd h'.symm (hhead r' hr')
    · exact hget.trans hget'.symm

/-- The rule does not match the segments, nor does it with a slash behind them. -/
def Misses (r : Rule View) (segs : List (List Char)) : Prop :=
  matchParts r.parts segs = none ∧ matchParts r.parts (segs ++ [[]]) = none

instance (r : Rule View) (segs : List (List Char)) : Decidable (Misses r segs) :=
  inferInstanceAs (Decidable (_ ∧ _))

/-- The page of an instance has a URL of its own, also for an instance named like a view. -/
theorem workerView_missed (id : List Char) : ∀ r ∈ routes, r.method = .get →
    Misses r ["detail".toList, id] ∨ r = View.workerView.rule := by
  intro r hr hm
  fin_cases hr <;> first
    | exact .inr rfl
    | exact .inl ⟨rfl, rfl⟩
    | cases hm

theorem destroyWorker_missed {id : List Char} (h : id ≠ "all".toList) : ∀ r ∈ routes, r.method = .post →
    Misses r ["detail".toList, "delete".toList, id] ∨ r = View.detailDestroyWorker.rule := by
  intro r hr hm
  fin_cases hr <;> first
    | exact .inr rfl
    | exact .inl ⟨rfl, rfl⟩
    | exact absurd hm (by decide)
    | simpa [Misses, View.rule, text, matchParts] using h

/-- Every rule that could take the request from the view's own misses its path, or has arguments
where the view has none. -/
theorem Endpoint.Plain.unrivalled (he : e.Plain) (hall : e ≠ .detailDestroyWorker "all") :
    ∀ r ∈ routes, r.method = e.method → Misses r (buildParts e.view.rule.parts e.args) ∨
      r = e.view.rule ∨ e.view.rule.Static ∧ ¬ r.Static := by
  cases e with
  | workerView id => exact fun r hr hm => (workerView_missed id.toList r hr hm).imp_right .inl
  | detailDestroyWorker id =>
    have hne : id.toList ≠ "all".toList := fun h => hall (by rw [String.toList_inj.mp h])
    exact fun r hr hm => (destroyWorker_missed hne r hr hm).imp_right .inl
  | _ => decide

/-- A request for the URL of a view reaches it, whatever the router; but the delete of an instance
called "all" is the delete of every worker. -/
theorem resolve_urlFor (he : e.Plain) (hall : e ≠ .detailDestroyWorker "all") (hm : e.Allows method) :
    R.resolve method (urlFor e) = some e := by
  have hroute : R.route method (urlFor e) = some (e.view.rule.view, e.args) := by
    refine R.reaches (rule_mem e.view) hm he.matches fun r hr hallows hcovers => ?_
    have hmethod : r.method = e.method := allows_method hr (rule_mem e.view) hallows hm
    obtain ⟨hmiss, hmiss'⟩ | hrival := he.unrivalled hall r hr hmethod
    · have hmatch := hcovers.matchParts (routes_wellFormed r hr)
      rw [he.segments_urlFor] at hmatch
      exact absurd hmiss (hmatch.resolve_right fun h => h hmiss')
    · exact hrival
  rw [Router.resolve, hroute]
  exact ofMatch_self e

end

/-- Whatever router it is: a request for the URL that url_for writes reaches the view that it was
written for, except that the delete of an instance with the id "all" is the delete of every worker.
The other way, a request that reaches a view was for the URL that url_for writes for it, but for
slashes at its beginning. -/
theorem url_round_trip (R : Router routes) :
    (∀ (e : Endpoint) (method : Method), e.Plain → e.Allows method → R.resolve method (urlFor e) =
      some (if e = .detailDestroyWorker "all" then .destroyAll else e)) ∧
    ∀ (method : Method) (path : List Char) (e : Endpoint),
      R.resolve method path = some e → e.Allows method ∧ urlFor e = '/' :: relative path := by
  refine ⟨fun e method he hm => ?_, fun method path e h => url_of_resolve h⟩
  by_cases hall : e = .detailDestroyWorker "all"
  · subst hall
    have hsame : urlFor (.detailDestroyWorker "all") = urlFor .destroyAll := by decide
    rw [hsame, if_pos rfl]
    exact resolve_urlFor trivial (by simp) hm
  · rw [if_neg hall]
    exact resolve_urlFor he hall hm

theorem url_round_trip_worker : PlainId "i-1" ∧
    flatRouter.resolve .post (urlFor (.detailDestroyWorker "i-1")) = some (.detailDestroyWorker "i-1") := by
  have hplain : PlainId "i-1" := by simp [PlainId, Unquoted]
  refine ⟨hplain, ?_⟩
  have h := (url_round_trip flatRouter).1 (.detailDestroyWorker "i-1") .post hplain (by decide)
  rw [if_neg (by decide)] at h
  exact h

example : urlFor (.detailDestroyWorker "i-12") = "/detail/delete/i-12".toList := by decide

end OdwaManager
