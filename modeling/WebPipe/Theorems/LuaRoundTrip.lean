import WebPipe.JsonEquality
import WebPipe.Lemmas.LuaTables

/-!
# The round trip through Lua

A state that a `lua` step returns unchanged is unchanged exactly when it holds no empty array: the table of an empty array is
the table of an empty object, and comes back as one. Everything else comes back: numbers keep their kind, and the items of an
array their order, however the tables are enumerated.
-/

namespace WebPipe

open IndexMap

/-! ## Empty arrays -/

mutual

/-- No array in the value is empty. -/
def noEmptyArrays : Value → Bool
  | .array items => !items.isEmpty && itemsNotEmpty items
  | .object members => membersNotEmpty members
  | _ => true

def itemsNotEmpty : List Value → Bool
  | [] => true
  | v :: rest => noEmptyArrays v && itemsNotEmpty rest

def membersNotEmpty : Object → Bool
  | [] => true
  | (_, v) :: rest => noEmptyArrays v && membersNotEmpty rest

end

theorem noEmptyArrays_array (items : List Value) : noEmptyArrays (.array items) = (!items.isEmpty && items.all noEmptyArrays) := by
  have hall : ∀ l, itemsNotEmpty l = l.all noEmptyArrays := by
    intro l
    induction l with
    | nil => rfl
    | cons v rest ih => simp [itemsNotEmpty, ih]
  rw [noEmptyArrays, hall]

theorem noEmptyArrays_object (members : Object) : noEmptyArrays (.object members) = members.all fun p => noEmptyArrays p.2 := by
  have hall : ∀ l, membersNotEmpty l = l.all fun p => noEmptyArrays p.2 := by
    intro l
    induction l with
    | nil => rfl
    | cons p rest ih => simp [membersNotEmpty, ih]
  rw [noEmptyArrays, hall]

/-! ## One level -/

/-- A value within the bridge's limits, with so many levels left below it: no nulls, integers of 64 bits. The keys of an object
are distinct, as those of every JSON object. -/
def Bridgeable : Nat → Value → Prop
  | _, .null => False
  | _, .number (.int n) => -2 ^ 63 ≤ n ∧ n < 2 ^ 63
  | 0, .array items => items = []
  | levels + 1, .array items => ∀ v ∈ items, Bridgeable levels v
  | 0, .object members => members = []
  | levels + 1, .object members => Distinct members ∧ ∀ p ∈ members, Bridgeable levels p.2
  | _, _ => True

/-- What is bridgeable is not null. -/
theorem Bridgeable.ne_null {levels : Nat} {v : Value} (h : Bridgeable levels v) : v ≠ .null := by
  rintro rfl
  cases levels <;> exact h

section Levels

variable {asF64 : Int → FloatText} {levels : Nat}

/-- A value comes back equal exactly when it holds no empty array. -/
def ComesBack (asF64 : Int → FloatText) (levels : Nat) (v : Value) : Prop :=
  ∀ l, Enumerates (jsonToLua asF64 v) l → Value.same v (luaToJsonWithin levels l) = noEmptyArrays v

/-- A boolean, a number and a string come back as they are. -/
theorem scalar_back {v : Value} (hv : Bridgeable levels v) (harray : ∀ items, v ≠ .array items)
    (hobject : ∀ members, v ≠ .object members) : ComesBack asF64 (levels + 1) v := by
  intro l hl
  cases v with
  | null => exact absurd rfl hv.ne_null
  | bool b =>
    rw [jsonToLua] at hl
    obtain rfl : LuaValue.boolean b = l := by simpa [Enumerates] using hl
    simp [luaToJsonWithin, Value.same, noEmptyArrays]
  | number n =>
    cases n with
    | int n =>
      have hrange : -2 ^ 63 ≤ n ∧ n < 2 ^ 63 := by cases levels <;> exact hv
      rw [jsonToLua, if_pos hrange] at hl
      obtain rfl : LuaValue.integer n = l := by simpa [Enumerates] using hl
      simp [luaToJsonWithin, Value.same, Number.same_refl, noEmptyArrays]
    | float x =>
      rw [jsonToLua] at hl
      obtain rfl : LuaValue.number (some x) = l := by simpa [Enumerates] using hl
      simp [luaToJsonWithin, Value.same, Number.same_refl, noEmptyArrays]
  | string s =>
    rw [jsonToLua] at hl
    obtain rfl : LuaValue.string (some s) = l := by simpa [Enumerates] using hl
    simp [luaToJsonWithin, Value.same, noEmptyArrays]
  | array items => exact absurd rfl (harray items)
  | object members => exact absurd rfl (hobject members)

/-- Items come back one by one. -/
theorem items_back {items : List Value} (hitems : ∀ v ∈ items, ComesBack asF64 levels v) {ls : List LuaValue}
    (hls : List.Forall₂ Enumerates (items.map (jsonToLua asF64)) ls) :
    Value.itemsSame items (ls.map (luaToJsonWithin levels)) = items.all noEmptyArrays := by
  induction items generalizing ls with
  | nil =>
    rw [List.map_nil, List.forall₂_nil_left_iff] at hls
    subst hls
    rfl
  | cons v rest ih =>
    rw [List.map_cons, List.forall₂_cons_left_iff] at hls
    obtain ⟨l, ls, hl, hls, rfl⟩ := hls
    rw [List.map_cons, Value.itemsSame, List.all_cons, hitems v List.mem_cons_self l hl,
      ih (fun w hw => hitems w (List.mem_cons_of_mem v hw)) hls]

/-- An array comes back with its items, and as an object when it has none. -/
theorem array_back {items : List Value} (hnull : ∀ v ∈ items, v ≠ .null) (hitems : ∀ v ∈ items, ComesBack asF64 levels v) :
    ComesBack asF64 (levels + 1) (.array items) := by
  intro l hl
  rw [jsonToLua, itemsToLua_eq hnull 1 [] (by simp), List.nil_append] at hl
  cases l with
  | table pairs =>
    rw [Enumerates] at hl
    obtain ⟨pairs', hperm, hpairs⟩ := hl
    obtain ⟨ls, rfl, hls⟩ := forall₂_indexed hpairs
    rw [luaToJsonWithin, ← isSequence_perm hperm, isSequence_indexed, noEmptyArrays_array]
    cases hempty : items with
    | nil =>
      rw [hempty, List.map_nil, List.forall₂_nil_left_iff] at hls
      subst hls
      rfl
    | cons v rest =>
      have hls' : ls.isEmpty = false := by
        rw [hempty, List.map_cons, List.forall₂_cons_left_iff] at hls
        obtain ⟨_, _, _, _, rfl⟩ := hls
        rfl
      have hmap : (arrayItems pairs).map (fun p => luaToJsonWithin levels p.2) = ls.map (luaToJsonWithin levels) := by
        rw [arrayItems_of_perm hperm, ← map_snd_numbered 1 ls, List.map_map, map_snd_numbered]
        rfl
      rw [hls', Bool.not_false, if_pos rfl, hmap, Value.same, ← hempty, items_back hitems hls, hempty]
      rfl
  | _ => simp [Enumerates] at hl

/-- A pair of a table as a member of an object. -/
def backMember (levels : Nat) (p : LuaKey × LuaValue) : String × Value := (keyText p.1, luaToJsonWithin levels p.2)

/-- The members of an object, in the order in which their table was filled. -/
theorem members_back {members : Object} {pairs : List (LuaKey × LuaValue)}
    (h : PairsEnumerate (members.map (luaMember asF64)) pairs) :
    pairs.map (fun p => keyText p.1) = members.map Prod.fst ∧
      ∀ p ∈ members, ∃ l, (p.1, luaToJsonWithin levels l) ∈ pairs.map (backMember levels) ∧ Enumerates (jsonToLua asF64 p.2) l := by
  induction members generalizing pairs with
  | nil =>
    rw [List.map_nil, PairsEnumerate] at h
    subst h
    simp
  | cons p rest ih =>
    obtain ⟨k, v⟩ := p
    rw [List.map_cons, luaMember, PairsEnumerate] at h
    obtain ⟨l, pairs, rfl, hl, hrest⟩ := h
    obtain ⟨hkeys, hmembers⟩ := ih hrest
    constructor
    · rw [List.map_cons, List.map_cons, hkeys]
      rfl
    · intro q hq
      rcases List.mem_cons.mp hq with rfl | hq
      · exact ⟨l, List.mem_cons_self, hl⟩
      · obtain ⟨l', hmem, hl'⟩ := hmembers q hq
        exact ⟨l', List.mem_cons_of_mem _ hmem, hl'⟩

/-- An object comes back with its members. -/
theorem object_back {members : Object} (hdistinct : Distinct members) (hnull : ∀ p ∈ members, p.2 ≠ .null)
    (hmembers : ∀ p ∈ members, ComesBack asF64 levels p.2) : ComesBack asF64 (levels + 1) (.object members) := by
  intro l hl
  rw [jsonToLua, membersToLua_eq hnull hdistinct [] (by simp), List.nil_append] at hl
  cases l with
  | table pairs =>
    rw [Enumerates] at hl
    obtain ⟨pairs', hperm, hpairs⟩ := hl
    obtain ⟨hkeys, hback⟩ := @members_back asF64 levels members pairs' hpairs
    have hobject : isSequence pairs = false := by
      rw [← isSequence_perm hperm]
      cases members with
      | nil =>
        rw [List.map_nil, PairsEnumerate] at hpairs
        subst hpairs
        rfl
      | cons p rest =>
        rw [List.map_cons, luaMember, PairsEnumerate] at hpairs
        obtain ⟨l, rest', rfl, -⟩ := hpairs
        exact isSequence_string
    have hperm' : ((pairs.map (backMember levels)).map Prod.fst).Perm (members.map Prod.fst) := by
      rw [List.map_map, ← hkeys]
      exact (hperm.map (fun p => keyText p.1)).symm
    have hnew : Distinct (pairs.map (backMember levels)) := hperm'.nodup_iff.mpr hdistinct
    have hfold : pairs.foldl (fun members p => insert members (keyText p.1) (luaToJsonWithin levels p.2)) [] =
        pairs.map (backMember levels) := by
      rw [← List.nil_append (pairs.map (backMember levels)), ← insertAll_of_distinct hnew (by simp), insertAll, List.foldl_map]
      rfl
    have hlength : members.length = (pairs.map (backMember levels)).length := by
      simpa using hperm'.length_eq.symm
    rw [luaToJsonWithin, hobject, if_neg (by simp), hfold, Value.same, Value.membersSame_eq, noEmptyArrays_object,
      decide_eq_true hlength, Bool.true_and]
    rw [Bool.eq_iff_iff, List.all_eq_true, List.all_eq_true]
    refine forall₂_congr fun p hp => ?_
    obtain ⟨l, hmem, hl⟩ := hback p hp
    rw [(get_eq_some_iff hnew).mpr ((hperm.map (backMember levels)).mem_iff.mp hmem)]
    simp only [hmembers p hp l hl]
  | _ => simp [Enumerates] at hl

/-- Every value within the limits comes back, up to its empty arrays. -/
theorem comesBack : ∀ {levels : Nat} {v : Value}, Bridgeable levels v → ComesBack asF64 (levels + 1) v := by
  intro levels
  induction levels with
  | zero =>
    intro v hv
    cases v with
    | null => exact absurd rfl hv.ne_null
    | array items =>
      obtain rfl : items = [] := hv
      exact array_back (by simp) (by simp)
    | object members =>
      obtain rfl : members = [] := hv
      exact object_back List.nodup_nil (by simp) (by simp)
    | _ => exact scalar_back hv (by simp) (by simp)
  | succ levels ih =>
    intro v hv
    cases v with
    | null => exact absurd rfl hv.ne_null
    | array items => exact array_back (fun w hw => (hv w hw).ne_null) fun w hw => ih (hv w hw)
    | object members =>
      obtain ⟨hdistinct, hmembers⟩ := hv
      exact object_back hdistinct (fun p hp => (hmembers p hp).ne_null) fun p hp => ih (hmembers p hp)
    | _ => exact scalar_back hv (by simp) (by simp)

end Levels

/-! ## A script that returns its request -/

/-- A script returns its request, whose tables it enumerates in any order. -/
def ReturnsRequest (asF64 : Int → FloatText) (script : LuaValue → LuaValue) (v : Value) : Prop :=
  Enumerates (jsonToLua asF64 v) (script (jsonToLua asF64 v))

/-- A `lua` step that returns its request leaves the state unchanged. -/
def UnchangedByLua (asF64 : Int → FloatText) (v : Value) : Prop :=
  ∀ script, ReturnsRequest asF64 script v → Value.same v (executeLuaScript asF64 script v) = true

/-- A state within the limits of the bridge comes back exactly when no array in it is empty. -/
theorem lua_round_trip_iff (asF64 : Int → FloatText) (v : Value) (h : Bridgeable maxLuaDepth v) :
    UnchangedByLua asF64 v ↔ noEmptyArrays v = true := by
  constructor
  · intro hall
    rw [← comesBack h _ (enumerates_refl _)]
    exact hall id (enumerates_refl _)
  · intro hempty script hscript
    exact (comesBack h _ hscript).trans hempty

/-- Every integer as the float 0. -/
def zeroF64 (_ : Int) : FloatText := { text := "0.0", nonempty := by decide }

/-- A list of tags comes back. -/
theorem tags_come_back : UnchangedByLua zeroF64 (.object [("tags", .array [.string "a", .number (.int 1)])]) := by
  refine (lua_round_trip_iff zeroF64 (.object [("tags", .array [.string "a", .number (.int 1)])]) ?_).mpr (by decide)
  exact ⟨by simp [Distinct], by simp [Bridgeable]⟩

/-- An empty list of rows comes back as an object. -/
theorem empty_rows_become_object : executeLuaScript zeroF64 id (.object [("rows", .array [])]) = .object [("rows", .object [])] ∧
    ¬UnchangedByLua zeroF64 (.object [("rows", .array [])]) := by
  refine ⟨rfl, ?_⟩
  intro h
  exact absurd (h id (enumerates_refl _)) (by decide +kernel)

end WebPipe
