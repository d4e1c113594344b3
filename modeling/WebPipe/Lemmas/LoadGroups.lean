import WebPipe.Graphql.Loader
import WebPipe.Lemmas.KeyTexts

/-!
# Groups and windows

The groups of a batch hold each of its keys, under the name of its pipeline; the batch of a window holds a key for each of its loads.
-/

namespace WebPipe

/-- The keys of loads are JSON values. -/
def KeyedLoads (loads : List LoaderKey) : Prop := ∀ k ∈ loads, k.key.Keyed

namespace LoaderKey

/-- Two loads are one to a hash map when they have one name and one key. -/
theorem same_iff {a b : LoaderKey} (hb : b.key.Keyed) : a.same b = true ↔ a.pipelineName = b.pipelineName ∧ a.key = b.key := by
  unfold same
  rw [Bool.and_eq_true, Bool.and_eq_true, decide_eq_true_eq, decide_eq_true_eq]
  constructor
  · rintro ⟨⟨hname, hsame⟩, htext⟩
    exact ⟨hname, Value.eq_of_same_of_toJson hb hsame htext⟩
  · rintro ⟨hname, hkey⟩
    rw [hkey]
    exact ⟨⟨hname, Value.same_refl hb⟩, rfl⟩

end LoaderKey

/-! ## Groups -/

/-- Each of the keys is in a group, under its name; every group has its own name. -/
structure Grouped (keys : List LoaderKey) (groups : List (String × LoadGroup)) : Prop where
  distinct : IndexMap.Distinct groups
  named : ∀ p ∈ groups, ∀ k ∈ p.2.entries, k.pipelineName = p.1 ∧ k ∈ keys
  covers : ∀ k ∈ keys, ∃ p ∈ groups, p.1 = k.pipelineName ∧ k ∈ p.2.entries

/-- One key more. -/
def addToGroup (groups : List (String × LoadGroup)) (k : LoaderKey) : List (String × LoadGroup) :=
  match IndexMap.get groups k.pipelineName with
  | none => IndexMap.insert groups k.pipelineName { first := k, rest := [] }
  | some g => IndexMap.insert groups k.pipelineName (g.push k)

/-- A pushed key comes last. -/
theorem LoadGroup.entries_push (g : LoadGroup) (k : LoaderKey) : (g.push k).entries = g.entries ++ [k] := rfl

/-- The group of a name has the key as well, and the others are as they were. -/
theorem addToGroup_spec (groups : List (String × LoadGroup)) (k : LoaderKey) :
    ∃ g, addToGroup groups k = IndexMap.insert groups k.pipelineName g ∧ k ∈ g.entries ∧
      ((IndexMap.get groups k.pipelineName = none ∧ g = { first := k, rest := [] }) ∨
        ∃ g₀, IndexMap.get groups k.pipelineName = some g₀ ∧ g = g₀.push k) := by
  unfold addToGroup
  cases hget : IndexMap.get groups k.pipelineName with
  | none => exact ⟨_, rfl, List.mem_cons_self, .inl ⟨rfl, rfl⟩⟩
  | some g₀ => exact ⟨_, rfl, by simp [LoadGroup.entries_push], .inr ⟨g₀, rfl, rfl⟩⟩

/-- A key keeps groups grouped. -/
theorem Grouped.add {keys : List LoaderKey} {groups : List (String × LoadGroup)} (h : Grouped keys groups) (k : LoaderKey) :
    Grouped (keys ++ [k]) (addToGroup groups k) := by
  obtain ⟨g, heq, hk, hg⟩ := addToGroup_spec groups k
  have hdistinct : IndexMap.Distinct (addToGroup groups k) := by
    rw [heq]
    exact h.distinct.insert _ _
  have hget : ∀ name, IndexMap.get (addToGroup groups k) name =
      if name = k.pipelineName then some g else IndexMap.get groups name := by
    intro name
    rw [heq, IndexMap.get_insert]
  refine ⟨hdistinct, ?_, ?_⟩
  · rintro ⟨name, g'⟩ hp k' hk'
    have hname := (IndexMap.get_eq_some_iff hdistinct).mpr hp
    rw [hget] at hname
    split_ifs at hname with heq'
    · cases hname
      rcases hg with ⟨-, rfl⟩ | ⟨g₀, hg₀, rfl⟩
      · obtain rfl := List.mem_singleton.mp hk'
        exact ⟨heq'.symm, List.mem_append_right _ List.mem_cons_self⟩
      · rw [LoadGroup.entries_push] at hk'
        rcases List.mem_append.mp hk' with hold | hnew
        · obtain ⟨hname', hmem⟩ := h.named _ ((IndexMap.get_eq_some_iff h.distinct).mp hg₀) k' hold
          exact ⟨hname'.trans heq'.symm, List.mem_append_left _ hmem⟩
        · obtain rfl := List.mem_singleton.mp hnew
          exact ⟨heq'.symm, List.mem_append_right _ List.mem_cons_self⟩
    · obtain ⟨hname', hmem⟩ := h.named _ ((IndexMap.get_eq_some_iff h.distinct).mp hname) k' hk'
      exact ⟨hname', List.mem_append_left _ hmem⟩
  · intro k' hk'
    have hself : (k.pipelineName, g) ∈ addToGroup groups k := by
      rw [← IndexMap.get_eq_some_iff hdistinct, hget, if_pos rfl]
    rcases List.mem_append.mp hk' with hold | hnew
    · obtain ⟨⟨name, g'⟩, hp, rfl, hin⟩ := h.covers k' hold
      by_cases hname : k'.pipelineName = k.pipelineName
      · refine ⟨_, hself, hname.symm, ?_⟩
        have hg' := (IndexMap.get_eq_some_iff h.distinct).mpr hp
        rw [hname] at hg'
        rcases hg with ⟨hnone, -⟩ | ⟨g₀, hg₀, rfl⟩
        · rw [hg'] at hnone
          cases hnone
        · rw [hg'] at hg₀
          cases hg₀
          exact List.mem_append_left _ hin
      · refine ⟨(k'.pipelineName, g'), ?_, rfl, hin⟩
        rw [← IndexMap.get_eq_some_iff hdistinct, hget, if_neg hname]
        exact (IndexMap.get_eq_some_iff h.distinct).mpr hp
    · obtain rfl := List.mem_singleton.mp hnew
      exact ⟨_, hself, rfl, hk⟩

/-- So do several. -/
theorem Grouped.addAll {before : List LoaderKey} {groups : List (String × LoadGroup)} (h : Grouped before groups)
    (keys : List LoaderKey) : Grouped (before ++ keys) (keys.foldl addToGroup groups) := by
  induction keys generalizing before groups with
  | nil =>
    rw [List.append_nil]
    exact h
  | cons k keys ih =>
    have hrest := ih (h.add k)
    rw [List.append_assoc, List.singleton_append] at hrest
    exact hrest

/-- The groups of the keys of a batch. -/
theorem grouped_groupKeys (keys : List LoaderKey) : Grouped keys (groupKeys keys) :=
  have hempty : Grouped [] [] := ⟨List.nodup_nil, by simp, by simp⟩
  hempty.addAll keys

/-- Another order of the groups. -/
theorem Grouped.perm {keys : List LoaderKey} {groups groups' : List (String × LoadGroup)} (h : Grouped keys groups)
    (hperm : groups'.Perm groups) : Grouped keys groups' where
  distinct := ((hperm.map Prod.fst).nodup_iff).mpr h.distinct
  named p hp := h.named p (hperm.mem_iff.mp hp)
  covers k hk := by
    obtain ⟨p, hp, hname, hin⟩ := h.covers k hk
    exact ⟨p, hperm.mem_iff.mpr hp, hname, hin⟩

/-- The groups of keys that are loads of a window hold such loads. -/
theorem Grouped.named_loads {keys loads : List LoaderKey} {groups : List (String × LoadGroup)} (h : Grouped keys groups)
    (hfrom : ∀ k ∈ keys, k ∈ loads) : ∀ p ∈ groups, ∀ k ∈ p.2.entries, k ∈ loads ∧ k.pipelineName = p.1 := by
  intro p hp k hk
  obtain ⟨hname, hin⟩ := h.named p hp k hk
  exact ⟨hfrom k hin, hname⟩

/-- A group that stands first keeps its place and its first key. -/
theorem foldl_addToGroup_first (k : LoaderKey) (g : LoadGroup) (groups : List (String × LoadGroup)) (keys : List LoaderKey)
    (hg : g.first = k) : ∃ g' groups', keys.foldl addToGroup ((k.pipelineName, g) :: groups) = (k.pipelineName, g') :: groups' ∧
      g'.first = k := by
  induction keys generalizing g groups with
  | nil => exact ⟨g, groups, rfl, hg⟩
  | cons k' keys ih =>
    obtain ⟨g', heq, -, hcases⟩ := addToGroup_spec ((k.pipelineName, g) :: groups) k'
    rw [List.foldl_cons, heq]
    by_cases hname : k.pipelineName = k'.pipelineName
    · rw [IndexMap.insert, if_pos hname, ← hname]
      refine ih _ _ ?_
      rw [IndexMap.get, if_pos hname] at hcases
      rcases hcases with ⟨hnone, -⟩ | ⟨g₀, hg₀, rfl⟩
      · cases hnone
      · cases hg₀
        exact hg
    · rw [IndexMap.insert, if_neg hname]
      exact ih _ _ hg

/-- The first key of a batch is the first of its group. -/
theorem groupKeys_first (k : LoaderKey) (keys : List LoaderKey) :
    ∃ g groups, groupKeys (k :: keys) = (k.pipelineName, g) :: groups ∧ g.first = k :=
  foldl_addToGroup_first k { first := k, rest := [] } [] keys rfl

/-! ## Windows -/

/-- A load goes into the set, or one with its name and key is there. -/
theorem addKey_spec (keys : List LoaderKey) {k : LoaderKey} (hk : k.key.Keyed) :
    (∀ k' ∈ addKey keys k, k' ∈ keys ∨ k' = k) ∧ (∀ k' ∈ keys, k' ∈ addKey keys k) ∧
      ∃ k' ∈ addKey keys k, k'.pipelineName = k.pipelineName ∧ k'.key = k.key := by
  unfold addKey
  split_ifs with hany
  · obtain ⟨k', hk', hsame⟩ := List.any_eq_true.mp hany
    exact ⟨fun _ h => .inl h, fun _ h => h, k', hk', (LoaderKey.same_iff hk).mp hsame⟩
  · refine ⟨fun k' hk' => ?_, fun _ h => List.mem_append_left _ h, k, by simp, rfl, rfl⟩
    exact (List.mem_append.mp hk').imp_right List.mem_singleton.mp

/-- The set of several loads. -/
theorem foldl_addKey_spec (arrivals keys : List LoaderKey) (hkeyed : KeyedLoads arrivals) :
    (∀ k ∈ arrivals.foldl addKey keys, k ∈ keys ∨ k ∈ arrivals) ∧ (∀ k ∈ keys, k ∈ arrivals.foldl addKey keys) ∧
      ∀ k ∈ arrivals, ∃ k' ∈ arrivals.foldl addKey keys, k'.pipelineName = k.pipelineName ∧ k'.key = k.key := by
  induction arrivals generalizing keys with
  | nil => exact ⟨fun _ h => .inl h, fun _ h => h, by simp⟩
  | cons k arrivals ih =>
    obtain ⟨hk, hkeyed⟩ := List.forall_mem_cons.mp hkeyed
    obtain ⟨hadded, hstays, k', hk', hsame⟩ := addKey_spec keys hk
    obtain ⟨hfrom, hkept, hcovered⟩ := ih (addKey keys k) hkeyed
    refine ⟨fun k'' hk'' => ?_, fun k'' hk'' => hkept _ (hstays _ hk''), List.forall_mem_cons.mpr ⟨⟨k', hkept k' hk', hsame⟩, hcovered⟩⟩
    rcases hfrom k'' hk'' with hin | hin
    · rcases hadded k'' hin with hold | rfl
      · exact .inl hold
      · exact .inr List.mem_cons_self
    · exact .inr (List.mem_cons_of_mem _ hin)

/-- The set of a window holds loads of the window, one for each. -/
theorem Batch.holds {loads keys : List LoaderKey} (h : Batch loads keys) (hkeyed : KeyedLoads loads) :
    (∀ k ∈ keys, k ∈ loads) ∧ ∀ k ∈ loads, ∃ k' ∈ keys, k'.pipelineName = k.pipelineName ∧ k'.key = k.key := by
  obtain ⟨arrivals, hloads, hkeys⟩ := h
  obtain ⟨hfrom, -, hcovered⟩ := foldl_addKey_spec arrivals [] fun k hk => hkeyed k (hloads.mem_iff.mp hk)
  refine ⟨fun k hk => ?_, fun k hk => ?_⟩
  · rcases hfrom k (hkeys.mem_iff.mp hk) with hnil | hin
    · cases hnil
    · exact hloads.mem_iff.mp hin
  · obtain ⟨k', hk', hsame⟩ := hcovered k (hloads.mem_iff.mpr hk)
    exact ⟨k', hkeys.mem_iff.mpr hk', hsame⟩

/-- A key that stands first in the set stays there. -/
theorem foldl_addKey_first (r : LoaderKey) (arrivals keys : List LoaderKey) :
    ∃ keys', arrivals.foldl addKey (r :: keys) = r :: keys' := by
  induction arrivals generalizing keys with
  | nil => exact ⟨keys, rfl⟩
  | cons k arrivals ih =>
    rw [List.foldl_cons]
    unfold addKey
    split_ifs
    · exact ih keys
    · exact ih (keys ++ [k])

/-- A load that comes first is the first key of its batch. -/
theorem exists_batch_first {loads : List LoaderKey} {r : LoaderKey} (hr : r ∈ loads) : ∃ keys, Batch loads (r :: keys) := by
  obtain ⟨before, after, rfl⟩ := List.append_of_mem hr
  obtain ⟨keys, hkeys⟩ := foldl_addKey_first r (before ++ after) []
  refine ⟨keys, r :: (before ++ after), List.perm_middle.symm, ?_⟩
  rw [List.foldl_cons, ← hkeys]
  exact List.Perm.refl _

end WebPipe
