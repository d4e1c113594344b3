import Mathlib.Data.Finset.Card
import Mathlib.Logic.Relation

/-!
# Depth-first search with a memory

A search that keeps the nodes it is through with and the nodes it is in. It never enters a node that it is through with, and stops
at a node that it is in. So it ends; it ends at such a node exactly when there is a cycle to be reached; and otherwise it has been
through the nodes that can be reached, each once and after all it leads to.
-/

namespace Dfs

variable {ν : Type*}

/-- How a search ends: in a node that it is in, or through with nodes. -/
inductive Answer (ν : Type*) where
  | cycle
  | through (done : List ν)

/-- One search after another; the first that ends in a cycle ends all. -/
def visitAll (visit : List ν → ν → Option (Answer ν)) : List ν → List ν → Option (Answer ν)
  | done, [] => some (.through done)
  | done, v :: rest =>
    match visit done v with
    | some (.through done') => visitAll visit done' rest
    | answer => answer

/-- The search from a node, to a depth; the last node that it is through with comes first. -/
def visit [DecidableEq ν] (next : ν → List ν) : ℕ → List ν → List ν → ν → Option (Answer ν)
  | 0, _, _, _ => none
  | n + 1, stack, done, v =>
    if v ∈ done then some (.through done)
    else if v ∈ stack then some .cycle
    else
      match visitAll (visit next n (v :: stack)) done (next v) with
      | some (.through done') => some (.through (v :: done'))
      | answer => answer

/-- One search after another, without a look at where it is. -/
def gatherAll (gather : List ν → ν → Option (List ν)) : List ν → List ν → Option (List ν)
  | done, [] => some done
  | done, v :: rest => (gather done v).bind fun done' => gatherAll gather done' rest

/-- The search without a look at the nodes it is in. -/
def gather [DecidableEq ν] (next : ν → List ν) : ℕ → List ν → ν → Option (List ν)
  | 0, _, _ => none
  | n + 1, done, v =>
    if v ∈ done then some done else (gatherAll (gather next n) done (next v)).map (v :: ·)

section Graph

variable (next : ν → List ν)

/-- A node leads to another. -/
def Leads (v u : ν) : Prop := u ∈ next v

/-- A node can be reached from another. -/
def Reaches : ν → ν → Prop := Relation.ReflTransGen (Leads next)

/-- The node is on a cycle. -/
def OnCycle (v : ν) : Prop := Relation.TransGen (Leads next) v v

/-- Every node comes once, before the nodes that it leads to. -/
def Ordered : List ν → Prop
  | [] => True
  | v :: rest => (∀ u ∈ next v, u ∈ rest) ∧ v ∉ rest ∧ Ordered rest

end Graph

variable {next : ν → List ν}

/-! ## Ordered nodes -/

namespace Ordered

theorem nodup {l : List ν} (h : Ordered next l) : l.Nodup := by
  induction l with
  | nil => exact List.nodup_nil
  | cons v l ih => exact List.nodup_cons.mpr ⟨h.2.1, ih h.2.2⟩

theorem next_mem {l : List ν} (h : Ordered next l) {v u : ν} (hv : v ∈ l) (hu : u ∈ next v) : u ∈ l := by
  induction l with
  | nil => cases hv
  | cons w l ih =>
    rcases List.mem_cons.mp hv with rfl | hv
    · exact List.mem_cons_of_mem _ (h.1 u hu)
    · exact List.mem_cons_of_mem _ (ih h.2.2 hv)

/-- A closed list holds what its elements reach. -/
theorem reaches_mem {l : List ν} (h : Ordered next l) {v u : ν} (hv : v ∈ l) (hreach : Reaches next v u) : u ∈ l := by
  induction hreach with
  | refl => exact hv
  | tail _ hlead ih => exact h.next_mem ih hlead

/-- From an ordered node no cycle can be reached. -/
theorem not_onCycle {l : List ν} (h : Ordered next l) {v : ν} (hv : v ∈ l) : ¬ OnCycle next v := by
  induction l with
  | nil => cases hv
  | cons w l ih =>
    rcases List.mem_cons.mp hv with rfl | hv
    · intro hcycle
      obtain ⟨u, hlead, hback⟩ := Relation.TransGen.head'_iff.mp hcycle
      exact h.2.1 (h.2.2.reaches_mem (h.1 u hlead) hback)
    · exact ih h.2.2 hv

end Ordered

/-! ## A search that gets through -/

/-- What a search that got through did: it went on from the nodes that were done, and entered no node that it was in. -/
structure Through (next : ν → List ν) (stack done : List ν) (roots : List ν) (done' : List ν) : Prop where
  ordered : Ordered next done'
  mem : ∀ v ∈ roots, v ∈ done'
  mono : ∀ u ∈ done, u ∈ done'
  only : ∀ u ∈ done', u ∈ done ∨ ∃ v ∈ roots, Reaches next v u
  stack : ∀ u ∈ stack, u ∈ done' → u ∈ done

/-- Visiting roots goes through what they reach and nothing else. -/
theorem through_visitAll {visit : List ν → ν → Option (Answer ν)} {stack : List ν}
    (hvisit : ∀ {done v done'}, Ordered next done → visit done v = some (.through done') → Through next stack done [v] done')
    {done roots done' : List ν} (hordered : Ordered next done) (h : visitAll visit done roots = some (.through done')) :
    Through next stack done roots done' := by
  induction roots generalizing done with
  | nil =>
    cases h
    exact ⟨hordered, nofun, fun _ => id, fun _ => Or.inl, fun _ _ => id⟩
  | cons v roots ih =>
    rw [visitAll] at h
    split at h
    · next done₁ hv =>
      have hfirst := hvisit hordered hv
      have hrest := ih hfirst.ordered h
      refine ⟨hrest.ordered, fun u hu => ?_, fun u hu => hrest.mono u (hfirst.mono u hu), fun u hu => ?_, fun u hu hin => ?_⟩
      · rcases List.mem_cons.mp hu with rfl | hu
        · exact hrest.mono u (hfirst.mem u List.mem_cons_self)
        · exact hrest.mem u hu
      · rcases hrest.only u hu with hu | ⟨w, hw, hreach⟩
        · rcases hfirst.only u hu with hu | ⟨w, hw, hreach⟩
          · exact Or.inl hu
          · cases List.mem_singleton.mp hw
            exact Or.inr ⟨v, List.mem_cons_self, hreach⟩
        · exact Or.inr ⟨w, List.mem_cons_of_mem _ hw, hreach⟩
      · exact hfirst.stack u hu (hrest.stack u hu hin)
    · next answer hanswer =>
      exact absurd h (by rintro h; exact hanswer _ h)

/-- Visiting a node goes through what it reaches: induction on the fuel. -/
theorem through_visit [DecidableEq ν] {n : ℕ} {stack done done' : List ν} {v : ν} (hordered : Ordered next done)
    (h : visit next n stack done v = some (.through done')) : Through next stack done [v] done' := by
  induction n generalizing stack done done' v with
  | zero => cases h
  | succ n ih =>
    rw [visit] at h
    split at h
    · next hdone =>
      cases h
      refine ⟨hordered, fun u hu => ?_, fun _ => id, fun _ => Or.inl, fun _ _ => id⟩
      cases List.mem_singleton.mp hu
      exact hdone
    · next hdone =>
      split at h
      · cases h
      · next hstack =>
        split at h
        · next done₁ hnext =>
          cases h
          have hthrough := through_visitAll (fun ho hv => ih ho hv) hordered hnext
          -- the node was on the stack while what it leads to was visited
          have hnew : v ∉ done₁ := fun hin => hdone (hthrough.stack v List.mem_cons_self hin)
          refine ⟨⟨hthrough.mem, hnew, hthrough.ordered⟩, fun u hu => ?_, fun u hu => List.mem_cons_of_mem _ (hthrough.mono u hu),
            fun u hu => ?_, fun u hu hin => ?_⟩
          · cases List.mem_singleton.mp hu
            exact List.mem_cons_self
          · rcases List.mem_cons.mp hu with rfl | hu
            · exact Or.inr ⟨u, List.mem_cons_self, .refl⟩
            · rcases hthrough.only u hu with hu | ⟨w, hw, hreach⟩
              · exact Or.inl hu
              · exact Or.inr ⟨v, List.mem_cons_self, .head hw hreach⟩
          · rcases List.mem_cons.mp hin with rfl | hin
            · exact absurd hu hstack
            · exact hthrough.stack u (List.mem_cons_of_mem _ hu) hin
        · next answer hanswer =>
          exact absurd h (hanswer _)

/-! ## A search that ends in a cycle -/

/-- A cycle is found at some root. -/
theorem cycle_visitAll {visit : List ν → ν → Option (Answer ν)} {done roots : List ν} (h : visitAll visit done roots = some .cycle) :
    ∃ done' v, v ∈ roots ∧ visit done' v = some .cycle := by
  induction roots generalizing done with
  | nil => cases h
  | cons v roots ih =>
    rw [visitAll] at h
    split at h
    · obtain ⟨done', u, hu, hcycle⟩ := ih h
      exact ⟨done', u, List.mem_cons_of_mem _ hu, hcycle⟩
    · exact ⟨done, v, List.mem_cons_self, h⟩

/-- A search that ends in a cycle has reached one. -/
theorem cycle_visit [DecidableEq ν] {n : ℕ} {stack done : List ν} {v : ν} (hstack : ∀ u ∈ stack, Relation.TransGen (Leads next) u v)
    (h : visit next n stack done v = some .cycle) : ∃ u, Reaches next v u ∧ OnCycle next u := by
  induction n generalizing stack done v with
  | zero => cases h
  | succ n ih =>
    rw [visit] at h
    split at h
    · cases h
    · split at h
      · next hin => exact ⟨v, .refl, hstack v hin⟩
      · split at h
        · cases h
        · obtain ⟨done', u, hu, hcycle⟩ := cycle_visitAll h
          have hlead : Leads next v u := hu
          obtain ⟨w, hreach, hon⟩ := ih (fun x hx => by
            rcases List.mem_cons.mp hx with rfl | hx
            · exact .single hlead
            · exact .tail (hstack x hx) hlead) hcycle
          exact ⟨w, .head hlead hreach, hon⟩

/-! ## A search that ends -/

/-- Enough fuel for every root is enough for all. -/
theorem visitAll_ne_none {visit : List ν → ν → Option (Answer ν)} {roots : List ν}
    (hvisit : ∀ v ∈ roots, ∀ done, visit done v ≠ none) (done : List ν) : visitAll visit done roots ≠ none := by
  induction roots generalizing done with
  | nil => exact nofun
  | cons v roots ih =>
    rw [visitAll]
    split
    · exact ih (fun u hu => hvisit u (List.mem_cons_of_mem _ hu)) _
    · exact hvisit v List.mem_cons_self done

/-- A search through finitely many nodes ends: on the way down every node is entered once. -/
theorem visit_ne_none [DecidableEq ν] {nodes : Finset ν} (hclosed : ∀ v ∈ nodes, ∀ u ∈ next v, u ∈ nodes) {n : ℕ} {stack : List ν} {v : ν}
    (hv : v ∈ nodes) (hn : (nodes \ stack.toFinset).card < n) (done : List ν) : visit next n stack done v ≠ none := by
  induction n generalizing stack done v with
  | zero => cases hn
  | succ n ih =>
    rw [visit]
    split
    · exact nofun
    · split
      · exact nofun
      · next hstack =>
        have hless : (nodes \ (v :: stack).toFinset).card < n := by
          have hsub : nodes \ (v :: stack).toFinset ⊂ nodes \ stack.toFinset := by
            refine Finset.ssubset_iff_subset_ne.mpr ⟨?_, fun he => ?_⟩
            · exact Finset.sdiff_subset_sdiff (Finset.Subset.refl _) (by simp)
            · have hin : v ∈ nodes \ stack.toFinset := by simp [hv, hstack]
              rw [← he] at hin
              simp at hin
          have hcard := Finset.card_lt_card hsub
          omega
        have hall := visitAll_ne_none (fun u hu done => ih (hclosed v hv u hu) hless done) done
        split
        · exact nofun
        · exact hall

/-! ## What a search decides -/

/-- With enough depth a search ends: through with the nodes that can be reached, where there is no cycle among them, and in a cycle
otherwise. -/
theorem visit_cases [DecidableEq ν] {nodes : Finset ν} (hclosed : ∀ v ∈ nodes, ∀ u ∈ next v, u ∈ nodes) {n : ℕ} (hn : nodes.card < n) {v : ν}
    (hv : v ∈ nodes) {done : List ν} (hordered : Ordered next done) :
    (∃ done', visit next n [] done v = some (.through done') ∧ Through next [] done [v] done') ∨
      visit next n [] done v = some .cycle ∧ ∃ u, Reaches next v u ∧ OnCycle next u := by
  cases h : visit next n [] done v with
  | none => exact absurd h (visit_ne_none hclosed hv (by simpa using hn) done)
  | some answer =>
    cases answer with
    | cycle => exact Or.inr ⟨rfl, cycle_visit (fun _ hu => absurd hu List.not_mem_nil) h⟩
    | through done' => exact Or.inl ⟨done', rfl, through_visit hordered h⟩

/-- A search that gets through gets through without a look at where it is. -/
theorem gather_of_visit [DecidableEq ν] {n : ℕ} {stack done done' : List ν} {v : ν}
    (h : visit next n stack done v = some (.through done')) : gather next n done v = some done' := by
  induction n generalizing stack done done' v with
  | zero => cases h
  | succ n ih =>
    have hall : ∀ roots done done', visitAll (visit next n (v :: stack)) done roots = some (.through done') →
        gatherAll (gather next n) done roots = some done' := by
      intro roots
      induction roots with
      | nil =>
        intro done done' h
        cases h
        rfl
      | cons u roots ihr =>
        intro done done' h
        rw [visitAll] at h
        split at h
        · next done₁ hu =>
          rw [gatherAll, ih hu, Option.bind_some]
          exact ihr _ _ h
        · next answer hanswer => exact absurd h (hanswer _)
    rw [visit] at h
    rw [gather]
    split at h
    · next hdone =>
      cases h
      rw [if_pos hdone]
    · next hdone =>
      rw [if_neg hdone]
      split at h
      · cases h
      · split at h
        · next done₁ hnext =>
          cases h
          rw [hall _ _ _ hnext, Option.map_some]
        · next answer hanswer => exact absurd h (hanswer _)

/-- What is gathered is reached from some root. -/
theorem mem_gatherAll {gather : List ν → ν → Option (List ν)} (hgather : ∀ {done v done'}, gather done v = some done' →
    ∀ u ∈ done', u ∈ done ∨ Reaches next v u) {done roots done' : List ν} (h : gatherAll gather done roots = some done') :
    ∀ u ∈ done', u ∈ done ∨ ∃ v ∈ roots, Reaches next v u := by
  induction roots generalizing done with
  | nil =>
    cases h
    exact fun _ => Or.inl
  | cons v roots ih =>
    rw [gatherAll] at h
    obtain ⟨done₁, hv, hrest⟩ := Option.bind_eq_some_iff.mp h
    intro u hu
    rcases ih hrest u hu with hu | ⟨w, hw, hreach⟩
    · rcases hgather hv u hu with hu | hreach
      · exact Or.inl hu
      · exact Or.inr ⟨v, List.mem_cons_self, hreach⟩
    · exact Or.inr ⟨w, List.mem_cons_of_mem _ hw, hreach⟩

/-- A search gathers nothing but nodes that can be reached. -/
theorem mem_gather [DecidableEq ν] {n : ℕ} {done done' : List ν} {v : ν} (h : gather next n done v = some done') :
    ∀ u ∈ done', u ∈ done ∨ Reaches next v u := by
  induction n generalizing done v done' with
  | zero => cases h
  | succ n ih =>
    rw [gather] at h
    split at h
    · cases h
      exact fun _ => Or.inl
    · obtain ⟨done₁, hnext, rfl⟩ := Option.map_eq_some_iff.mp h
      intro u hu
      rcases List.mem_cons.mp hu with rfl | hu
      · exact Or.inr .refl
      · rcases mem_gatherAll ih hnext u hu with hu | ⟨w, hw, hreach⟩
        · exact Or.inl hu
        · exact Or.inr (.head hw hreach)

end Dfs
