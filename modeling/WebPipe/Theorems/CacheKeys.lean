import WebPipe.Lib.Framing
import WebPipe.Middleware.Cache

/-!
# Default cache keys

A default key is the hash of the step, its config and the parts of the request, one after another. A part that the state lacks leaves no
trace, so a state with one part can be read as a state with another. `default_keys_separate_iff` is exact about it.
-/

namespace WebPipe
namespace CacheMiddleware

open Framing

/-- What two executions of `cache` steps without a template are told apart by. -/
structure Execution where
  stepId : String
  config : String
  state : Value

namespace Execution

/-- The bytes fed to the hasher for the key. -/
def stream (e : Execution) : List UInt8 := hashStream (keyParts (some e.stepId) e.config e.state)

/-- The parts of the request in the state. -/
def request (e : Execution) : List (Option Value) := [e.state.get "method", e.state.get "path", e.state.get "query", e.state.get "params"]

/-- The executions have another step, another config, or another request. -/
def Differ (e e' : Execution) : Prop := e.stepId ≠ e'.stepId ∨ e.config ≠ e'.config ∨ e.request ≠ e'.request

/-- What is read of each part of the request: a method or a path that is not a string counts as absent. -/
def readings (e : Execution) : List (Option String) :=
  [(e.state.get "method").bind Value.asStr, (e.state.get "path").bind Value.asStr, (e.state.get "query").map Value.toJson,
    (e.state.get "params").map Value.toJson]

/-- Which parts are read. -/
def pattern (e : Execution) : List Bool := e.readings.map Option.isSome

/-- The texts of the parts that are read, in order. -/
def texts (e : Execution) : List String := e.readings.filterMap id

/-- Of the method and the path, what is there and is not a string. -/
def unread (e : Execution) : List (Option Value) :=
  [(e.state.get "method").filter fun v => v.asStr.isNone, (e.state.get "path").filter fun v => v.asStr.isNone]

/-- The texts of one request can be read as those of the other: the same step and config, the same texts in order, but of other parts, or
besides a method or path that is not read. -/
def Confused (e e' : Execution) : Prop :=
  e.stepId = e'.stepId ∧ e.config = e'.config ∧ e.texts = e'.texts ∧ (e.pattern ≠ e'.pattern ∨ e.unread ≠ e'.unread)

/-- The serialisation tells two parts apart. -/
def Told (v v' : Option Value) : Prop := v.map Value.toJson = v'.map Value.toJson → v = v'

/-! ## Readings -/

theorem keyParts_eq (e : Execution) : keyParts (some e.stepId) e.config e.state = e.stepId :: e.config :: e.texts := by
  simp only [keyParts, texts, readings]
  cases (e.state.get "method").bind Value.asStr <;> cases (e.state.get "path").bind Value.asStr <;>
    cases (e.state.get "query").map Value.toJson <;> cases (e.state.get "params").map Value.toJson <;> rfl

/-- The texts that are read, and which parts they are of, determine the readings. -/
theorem eq_of_filterMap {α : Type*} {l l' : List (Option α)} (hpattern : l.map Option.isSome = l'.map Option.isSome)
    (htexts : l.filterMap id = l'.filterMap id) : l = l' := by
  induction l generalizing l' with
  | nil =>
    cases l' with
    | nil => rfl
    | cons b l' => simp at hpattern
  | cons a l ih =>
    cases l' with
    | nil => simp at hpattern
    | cons b l' =>
      rw [List.map_cons, List.map_cons, List.cons.injEq] at hpattern
      cases a with
      | none =>
        cases b with
        | none => rw [ih hpattern.2 (by simpa using htexts)]
        | some y => simp at hpattern
      | some x =>
        cases b with
        | none => simp at hpattern
        | some y =>
          simp only [List.filterMap_cons, id, List.cons.injEq] at htexts
          rw [htexts.1, ih hpattern.2 htexts.2]

/-- A part is what is read of it, or what is not read. -/
theorem part_eq {v v' : Option Value} (hread : v.bind Value.asStr = v'.bind Value.asStr)
    (hunread : (v.filter fun v => v.asStr.isNone) = v'.filter fun v => v.asStr.isNone) : v = v' := by
  have hpart : ∀ v : Option Value, v = ((v.bind Value.asStr).map Value.string).or (v.filter fun v => v.asStr.isNone) := by
    intro v
    rcases v with _ | v
    · rfl
    · cases v <;> rfl
  rw [hpart v, hpart v', hread, hunread]

/-- Two requests are the same when they read the same and the same is left unread. -/
theorem request_eq_iff {e e' : Execution} (hquery : Told (e.state.get "query") (e'.state.get "query"))
    (hparams : Told (e.state.get "params") (e'.state.get "params")) :
    e.request = e'.request ↔ e.readings = e'.readings ∧ e.unread = e'.unread := by
  simp only [request, readings, unread, List.cons.injEq, and_true]
  constructor
  · rintro ⟨hm, hp, hq, hr⟩
    rw [hm, hp, hq, hr]
    exact ⟨⟨rfl, rfl, rfl, rfl⟩, rfl, rfl⟩
  · rintro ⟨⟨hm, hp, hq, hr⟩, hum, hup⟩
    exact ⟨part_eq hm hum, part_eq hp hup, hquery hq, hparams hr⟩

end Execution

/-- Two executions that differ in the step, the config or the request feed different bytes to the hasher, unless the texts of the one
request can be read as those of the other. -/
theorem default_keys_separate_iff (e e' : Execution) (hquery : Execution.Told (e.state.get "query") (e'.state.get "query"))
    (hparams : Execution.Told (e.state.get "params") (e'.state.get "params")) :
    (e.Differ e' → e.stream ≠ e'.stream) ↔ ¬e.Confused e' := by
  have hstream : e.stream = e'.stream ↔ e.stepId = e'.stepId ∧ e.config = e'.config ∧ e.texts = e'.texts := by
    unfold Execution.stream
    rw [hashStream_inj, Execution.keyParts_eq, Execution.keyParts_eq]
    simp only [List.cons.injEq]
  have hrequest := Execution.request_eq_iff hquery hparams
  have hconfused : e.Differ e' ∧ e.stream = e'.stream ↔ e.Confused e' := by
    rw [hstream]
    unfold Execution.Differ Execution.Confused
    constructor
    · rintro ⟨hdiffer, hid, hconfig, htexts⟩
      refine ⟨hid, hconfig, htexts, ?_⟩
      by_contra hsame
      simp only [not_or, not_not] at hsame
      have hreadings : e.readings = e'.readings := Execution.eq_of_filterMap hsame.1 htexts
      rcases hdiffer with h | h | h
      · exact h hid
      · exact h hconfig
      · exact h (hrequest.mpr ⟨hreadings, hsame.2⟩)
    · rintro ⟨hid, hconfig, htexts, hother⟩
      refine ⟨Or.inr (Or.inr fun hsame => ?_), hid, hconfig, htexts⟩
      obtain ⟨hreadings, hunread⟩ := hrequest.mp hsame
      rcases hother with hpattern | hunread'
      · exact hpattern (congrArg (List.map Option.isSome) hreadings)
      · exact hunread' hunread
  rw [← hconfused, not_and]

/-- A step on a request for one article, by its query. -/
def byQuery : Execution :=
  { stepId := "app.wp:3:1#0", config := "ttl: 60", state := .object [("query", .object [("id", .string "1")])] }

/-- The same step on a request for one article, by its route. -/
def byParams : Execution :=
  { stepId := "app.wp:3:1#0", config := "ttl: 60", state := .object [("params", .object [("id", .string "1")])] }

/-- The same step on a request for another article. -/
def byOtherQuery : Execution :=
  { stepId := "app.wp:3:1#0", config := "ttl: 60", state := .object [("query", .object [("id", .string "2")])] }

/-- Two queries are told apart. -/
theorem default_keys_separate_iff_queries : byQuery.stream ≠ byOtherQuery.stream := by
  refine (default_keys_separate_iff byQuery byOtherQuery ?_ fun _ => rfl).mpr ?_ ?_
  · intro h
    exact absurd h (by decide +kernel)
  · intro h
    have htexts := h.2.2.1
    revert htexts
    decide +kernel
  · refine Or.inr (Or.inr fun h => ?_)
    simp [Execution.request, byQuery, byOtherQuery, Value.get, Value.asObject, IndexMap.get] at h

/-- A query is not told apart from the same value among the params. -/
theorem query_read_as_params :
    ¬ ∀ e e' : Execution, e.Differ e' → e.stream ≠ e'.stream := by
  intro h
  refine h byQuery byParams (Or.inr (Or.inr fun hsame => ?_)) ?_
  · simp [Execution.request, byQuery, byParams, Value.get, Value.asObject, IndexMap.get] at hsame
  · unfold Execution.stream
    rw [hashStream_inj]
    decide +kernel

end CacheMiddleware
end WebPipe
