import WebPipe.Lemmas.Regular

/-!
# How a result enters the state

Which keys a state has after a result is merged into it, replaces it or goes under `data`: a Transform result gets back the runtime
keys that it lacks, and an object that lists each key once stays one.
-/

namespace WebPipe

open IndexMap

variable {σ : Type} {env : ExecutionEnv σ}

/-- An object lists each of its keys once. -/
def Value.KeysDistinct : Value → Prop
  | .object members => Distinct members
  | _ => True

theorem get_object (members : Object) (key : String) : (Value.object members).get key = get members key := rfl

/-- Of the runtime keys that a new state lacks, the old one's come back. -/
theorem get_restored (members : Object) (c : PipelineContext) (key : String) :
    get (c.backupSystemKeys.foldl (fun m kv => if (get m kv.1).isSome then m else insert m kv.1 kv.2) members) key =
      (get members key).or (if key ∈ runtimeKeys then c.state.get key else none) := by
  unfold PipelineContext.backupSystemKeys
  generalize runtimeKeys = keys
  induction keys generalizing members with
  | nil => simp
  | cons k keys ih =>
    cases hk : c.state.get k with
    | none =>
      rw [List.filterMap_cons_none (by simp [hk]), ih]
      by_cases hkey : key = k
      · simp [hkey, hk]
      · simp [hkey]
    | some v =>
      rw [List.filterMap_cons_some (by simp [hk]; rfl), List.foldl_cons, ih]
      dsimp only
      cases hm : get members k with
      | some u =>
        rw [Option.isSome_some, if_pos rfl]
        by_cases hkey : key = k
        · simp [hkey, hm]
        · simp [hkey]
      | none =>
        rw [Option.isSome_none, if_neg (by simp)]
        by_cases hkey : key = k
        · simp [hkey, hm, hk]
        · simp [hkey, get_insert_of_ne members v hkey]

/-! ## Keys stay distinct -/

/-- The value of a result has each key once. -/
theorem keysDistinct_resultValue (s : RegularStep) {result : PipelineOutput} (h : result.state.KeysDistinct) :
    (resultValue s result).KeysDistinct := by
  unfold resultValue overrideErrorType
  cases s.condition.bind getErrorFromTagExpr with
  | none => exact h
  | some errorType =>
    revert h
    cases result.state with
    | object members => exact fun h => h.modify _ _
    | _ => exact fun _ => trivial

/-- Restored keys stand once. -/
theorem keysDistinct_restore {c : PipelineContext} {value : Value} (h : value.KeysDistinct) (backups : List (String × Value)) :
    ((c.replaceState value).restoreSystemKeys backups).state.KeysDistinct := by
  cases value with
  | object members =>
    change Distinct (backups.foldl _ members)
    induction backups generalizing members with
    | nil => exact h
    | cons kv backups ih =>
      rw [List.foldl_cons]
      refine ih _ ?_
      split
      · exact h
      · exact Distinct.insert h _ _
  | _ => trivial

/-- A state that is replaced or merged has each key once. -/
theorem keysDistinct_update {c : PipelineContext} {value : Value} (hstate : c.state.KeysDistinct) (hvalue : value.KeysDistinct)
    (behavior : StateBehavior) (isLastStep : Bool) :
    (updatePipelineState c value behavior isLastStep).state.KeysDistinct := by
  cases behavior with
  | merge =>
    unfold updatePipelineState PipelineContext.mergeState
    cases hc : c.state with
    | object current =>
      rw [hc] at hstate
      cases value with
      | object new => exact Distinct.insertAll hstate new
      | _ => trivial
    | _ => exact hvalue
  | transform =>
    unfold updatePipelineState
    dsimp only
    split
    · exact hvalue
    · exact keysDistinct_restore hvalue _
  | render => exact hvalue
  | readOnly => exact hstate

/-- So has one that a result is put in under its name. -/
theorem keysDistinct_wrap {state : Value} (hstate : state.KeysDistinct) (value : Value) (target : String) :
    (applyDataWrap state value target).KeysDistinct := by
  cases state with
  | object members => exact Distinct.insert hstate _ _
  | _ => exact List.nodup_singleton _

/-- So has the state after a step. -/
theorem keysDistinct_apply {c : PipelineContext} {value : Value} (hstate : c.state.KeysDistinct) (hvalue : value.KeysDistinct)
    (effName : String) (target : Option String) (isLastStep : Bool) :
    (applyResultToState env c effName value target isLastStep).state.KeysDistinct := by
  unfold applyResultToState
  dsimp only
  split
  · split
    · exact keysDistinct_wrap hstate _ _
    · exact keysDistinct_update hstate hvalue _ _
  · exact keysDistinct_update hstate hvalue _ _

end WebPipe
