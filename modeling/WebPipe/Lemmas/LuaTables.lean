import WebPipe.Lib.Front
import WebPipe.Middleware.Lua

/-!
# Tables

The tables that arrays and objects become, and what a read of one finds when it enumerates the pairs in any order: an array's
table has the keys from 1 on, so the scan of its keys and the sort bring the items back in their order.
-/

namespace WebPipe

open IndexMap

/-! ## What the tables hold -/

/-- Values under the keys from an index on. -/
def indexed : Int → List LuaValue → List (LuaKey × LuaValue)
  | _, [] => []
  | i, l :: rest => (.integer i, l) :: indexed (i + 1) rest

/-- What is not nil is entered. -/
theorem setKey_of_ne_nil {l : LuaValue} (h : l ≠ .nil) (table : List (LuaKey × LuaValue)) (key : LuaKey) :
    LuaValue.setKey table key l = insert table key l := by
  cases l with
  | nil => exact absurd rfl h
  | _ => rfl

section ToLua

variable {asF64 : Int → FloatText}

/-- Only null becomes nil. -/
theorem jsonToLua_ne_nil {v : Value} (h : v ≠ .null) : jsonToLua asF64 v ≠ .nil := by
  cases v with
  | null => exact absurd rfl h
  | number n =>
    cases n with
    | int n =>
      rw [jsonToLua]
      split <;> simp
    | float x => simp [jsonToLua]
  | _ => simp [jsonToLua]

/-- The items of an array go under the keys behind those of the table. -/
theorem itemsToLua_eq {items : List Value} (hitems : ∀ v ∈ items, v ≠ .null) (i : Int) (table : List (LuaKey × LuaValue))
    (htable : ∀ p ∈ table, ∃ j < i, p.1 = .integer j) :
    itemsToLua asF64 i items table = table ++ indexed i (items.map (jsonToLua asF64)) := by
  induction items generalizing i table with
  | nil => simp [itemsToLua, indexed]
  | cons v rest ih =>
    have hnew : get table (.integer i) = none := by
      rw [get_eq_none_iff]
      intro hmem
      obtain ⟨p, hp, hkey⟩ := List.mem_map.mp hmem
      obtain ⟨j, hj, hkey'⟩ := htable p hp
      rw [hkey] at hkey'
      injection hkey' with hij
      omega
    rw [itemsToLua, setKey_of_ne_nil (jsonToLua_ne_nil (hitems v List.mem_cons_self)), insert_of_get_none hnew,
      ih (fun w hw => hitems w (List.mem_cons_of_mem v hw))]
    · simp [indexed]
    · intro p hp
      rcases List.mem_append.mp hp with hp | hp
      · obtain ⟨j, hj, hkey⟩ := htable p hp
        exact ⟨j, by omega, hkey⟩
      · rw [List.mem_singleton.mp hp]
        exact ⟨i, by omega, rfl⟩

/-- A member of an object as a pair of its table. -/
def luaMember (asF64 : Int → FloatText) (p : String × Value) : LuaKey × LuaValue := (.string (some p.1), jsonToLua asF64 p.2)

/-- The members of an object go under their keys. -/
theorem membersToLua_eq {members : Object} (hmembers : ∀ p ∈ members, p.2 ≠ .null) (hdistinct : Distinct members)
    (table : List (LuaKey × LuaValue)) (htable : ∀ p ∈ members, get table (.string (some p.1)) = none) :
    membersToLua asF64 members table = table ++ members.map (luaMember asF64) := by
  induction members generalizing table with
  | nil => simp [membersToLua]
  | cons p rest ih =>
    obtain ⟨k, v⟩ := p
    obtain ⟨hk, hrest⟩ := distinct_cons.mp hdistinct
    rw [membersToLua, setKey_of_ne_nil (jsonToLua_ne_nil (hmembers (k, v) List.mem_cons_self)),
      ih (fun p hp => hmembers p (List.mem_cons_of_mem _ hp)) hrest, insert_of_get_none (htable (k, v) List.mem_cons_self)]
    · simp [luaMember]
    · intro p hp
      have hne : p.1 ≠ k := by
        intro heq
        exact hk (List.mem_map.mpr ⟨p, hp, heq⟩)
      rw [get_insert_of_ne _ _ (by simpa using hne)]
      exact htable p (List.mem_cons_of_mem _ hp)

end ToLua

/-! ## Enumerations -/

theorem pairsEnumerate_iff {pairs pairs' : List (LuaKey × LuaValue)} :
    PairsEnumerate pairs pairs' ↔ List.Forall₂ (fun p p' => p'.1 = p.1 ∧ Enumerates p.2 p'.2) pairs pairs' := by
  induction pairs generalizing pairs' with
  | nil => rw [PairsEnumerate, List.forall₂_nil_left_iff]
  | cons p rest ih =>
    obtain ⟨k, v⟩ := p
    rw [PairsEnumerate, List.forall₂_cons_left_iff]
    constructor
    · rintro ⟨v', rest', rfl, hv, hrest⟩
      exact ⟨(k, v'), rest', ⟨rfl, hv⟩, ih.mp hrest, rfl⟩
    · rintro ⟨⟨k', v'⟩, rest', ⟨rfl, hv⟩, hrest, rfl⟩
      exact ⟨v', rest', rfl, hv, ih.mpr hrest⟩

/-- A table can be enumerated in the order in which it was filled. -/
theorem enumerates_refl : ∀ l, Enumerates l l
  | .table pairs => by
    have hpairs : PairsEnumerate pairs pairs := by
      rw [pairsEnumerate_iff, List.forall₂_same]
      intro p hp
      exact ⟨rfl, enumerates_refl p.2⟩
    rw [Enumerates]
    exact ⟨pairs, List.Perm.refl pairs, hpairs⟩
  | .nil | .boolean _ | .integer _ | .number _ | .string _ | .other => by simp [Enumerates]
termination_by l => sizeOf l
decreasing_by
  have := List.sizeOf_lt_of_mem hp
  cases p
  simp_all
  omega

/-- A value under a key keeps its key. -/
theorem forall₂_indexed {i : Int} {ls : List LuaValue} {pairs : List (LuaKey × LuaValue)}
    (h : PairsEnumerate (indexed i ls) pairs) : ∃ ls', pairs = indexed i ls' ∧ List.Forall₂ Enumerates ls ls' := by
  induction ls generalizing i pairs with
  | nil => exact ⟨[], by simpa [indexed, PairsEnumerate] using h, List.Forall₂.nil⟩
  | cons l rest ih =>
    rw [indexed, PairsEnumerate] at h
    obtain ⟨l', rest', rfl, hl, hrest⟩ := h
    obtain ⟨ls', rfl, hls⟩ := ih hrest
    exact ⟨l' :: ls', rfl, hls.cons hl⟩

/-! ## Reading a table -/

/-- One step of the scan. -/
def scanKey (found : Int × Int) (key : LuaKey) : Option (Int × Int) :=
  match key with
  | .integer i => if 0 < i then some (max found.1 i, found.2 + 1) else none
  | _ => none

theorem scanKeys_eq (keys : List LuaKey) : scanKeys keys = keys.foldlM scanKey (0, 0) := rfl

/-- The scan of keys does not depend on their order. -/
theorem scanKey_comm (found : Int × Int) (a b : LuaKey) :
    (scanKey found a).bind (scanKey · b) = (scanKey found b).bind (scanKey · a) := by
  cases a with
  | integer i =>
    cases b with
    | integer j =>
      by_cases hi : 0 < i <;> by_cases hj : 0 < j <;> simp [scanKey, hi, hj, max_assoc, max_comm i j]
    | _ => by_cases hi : 0 < i <;> simp [scanKey, hi]
  | _ =>
    cases b with
    | integer j => by_cases hj : 0 < j <;> simp [scanKey, hj]
    | _ => rfl

/-- The order of the keys does not matter to the scan. -/
theorem foldlM_scanKey_perm {keys keys' : List LuaKey} (h : keys.Perm keys') (found : Int × Int) :
    keys.foldlM scanKey found = keys'.foldlM scanKey found := by
  induction h generalizing found with
  | nil => rfl
  | cons a _ ih =>
    rw [List.foldlM_cons, List.foldlM_cons]
    exact congrArg (scanKey found a).bind (funext ih)
  | swap a b l =>
    simp only [List.foldlM_cons]
    have hcomm := congrArg (fun o => Option.bind o (fun s => l.foldlM scanKey s)) (scanKey_comm found b a)
    simp only [Option.bind_assoc] at hcomm
    exact hcomm
  | trans _ _ ih ih' => rw [ih, ih']

/-- So whether a table is a sequence does not depend on the order of its pairs. -/
theorem isSequence_perm {pairs pairs' : List (LuaKey × LuaValue)} (h : pairs.Perm pairs') : isSequence pairs = isSequence pairs' := by
  rw [isSequence, isSequence, scanKeys_eq, scanKeys_eq, foldlM_scanKey_perm (h.map Prod.fst)]

/-- The keys of a sequence are counted up. -/
theorem scan_indexed {i : Int} (hi : 0 ≤ i) (ls : List LuaValue) :
    ((indexed (i + 1) ls).map Prod.fst).foldlM scanKey (i, i) = some (i + ls.length, i + ls.length) := by
  induction ls generalizing i with
  | nil => simp [indexed]
  | cons l rest ih =>
    have hkey : scanKey (i, i) (.integer (i + 1)) = some (i + 1, i + 1) := by
      have hmax : max i (i + 1) = i + 1 := by omega
      simp only [scanKey, hmax, if_pos (show 0 < i + 1 by omega)]
    have hlength : i + ((l :: rest).length : Int) = i + 1 + (rest.length : Int) := by
      rw [List.length_cons]
      omega
    have hnext : (0 : Int) ≤ i + 1 := by omega
    rw [indexed, List.map_cons, List.foldlM_cons, hkey, hlength]
    exact ih hnext

/-- A table with the keys from 1 on is read as an array, unless it is empty. -/
theorem isSequence_indexed (ls : List LuaValue) : isSequence (indexed 1 ls) = !ls.isEmpty := by
  have hscan : scanKeys ((indexed 1 ls).map Prod.fst) = some ((ls.length : Int), (ls.length : Int)) := by
    have h := scan_indexed (le_refl 0) ls
    simpa [scanKeys_eq] using h
  rw [isSequence, hscan]
  cases ls <;> simp

/-- A table with a string for a key is read as an object. -/
theorem isSequence_string {k : LuaString} {l : LuaValue} {pairs : List (LuaKey × LuaValue)} :
    isSequence ((.string k, l) :: pairs) = false := rfl

/-- The items of an array with their keys. -/
def numbered : Int → List LuaValue → List (Int × LuaValue)
  | _, [] => []
  | i, l :: rest => (i, l) :: numbered (i + 1) rest

theorem map_snd_numbered (i : Int) (ls : List LuaValue) : (numbered i ls).map Prod.snd = ls := by
  induction ls generalizing i with
  | nil => rfl
  | cons l rest ih => simp [numbered, ih]

theorem le_of_mem_numbered {i : Int} {ls : List LuaValue} {p : Int × LuaValue} (h : p ∈ numbered i ls) : i ≤ p.1 := by
  induction ls generalizing i with
  | nil => cases h
  | cons l rest ih =>
    rcases List.mem_cons.mp h with rfl | h
    · exact le_refl _
    · have := ih h
      omega

theorem pairwise_numbered (i : Int) (ls : List LuaValue) : (numbered i ls).Pairwise fun a b => a.1 < b.1 := by
  induction ls generalizing i with
  | nil => exact List.Pairwise.nil
  | cons l rest ih =>
    refine List.pairwise_cons.mpr ⟨?_, ih (i + 1)⟩
    intro p hp
    have := le_of_mem_numbered hp
    dsimp only
    omega

/-- The items of a table, with their keys. -/
def integerPairs (pairs : List (LuaKey × LuaValue)) : List (Int × LuaValue) :=
  pairs.filterMap fun p =>
    match p.1 with
    | .integer i => some (i, p.2)
    | _ => none

/-- The integer pairs of a sequence are its numbered items. -/
theorem integerPairs_indexed (i : Int) (ls : List LuaValue) : integerPairs (indexed i ls) = numbered i ls := by
  induction ls generalizing i with
  | nil => rfl
  | cons l rest ih =>
    rw [indexed, numbered, ← ih]
    rfl

/-- The sort brings the items back in their order. -/
theorem arrayItems_of_perm {ls : List LuaValue} {pairs : List (LuaKey × LuaValue)} (h : (indexed 1 ls).Perm pairs) :
    arrayItems pairs = numbered 1 ls := by
  have hperm : (arrayItems pairs).Perm (numbered 1 ls) := by
    rw [← integerPairs_indexed]
    exact (List.perm_insertionSort _ _).trans (h.filterMap _).symm
  have hstrict := pairwise_numbered 1 ls
  have hnodup : ((numbered 1 ls).map Prod.fst).Nodup := (List.pairwise_map.mpr hstrict).imp fun hlt => ne_of_lt hlt
  refine @List.Perm.eq_of_pairwise _ (fun a b => a.1 ≤ b.1) _ _ ?_ (Front.pairwise_sorted Prod.fst _) (hstrict.imp le_of_lt) hperm
  intro a b ha hb hab hba
  exact List.inj_on_of_nodup_map hnodup (hperm.mem_iff.mp ha) hb (le_antisymm hab hba)

end WebPipe
