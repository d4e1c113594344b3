import WebPipe.Lemmas.Environments
import WebPipe.Server.Partials

/-!
# The order of the module map

The modules of a tree are in a hash map, and the imports of a module in another; in which order the two are gone through is chance.
The merged program and the symbol tables of a server and of the tests do not depend on it, the numbers of the modules included: they are
those of the sorted paths. The partials do where an alias and a name stand for two texts, since the last of the two is kept.
-/

namespace WebPipe

open IndexMap

variable {tree tree' : ModuleTree}

/-- The same modules, in orders of their own. -/
structure SameModules (tree tree' : ModuleTree) : Prop where
  paths : (tree.map Prod.fst).Perm (tree'.map Prod.fst)
  program : ∀ {path info info'}, get tree path = some info → get tree' path = some info' → info.program = info'.program
  imports : ∀ {path info info'}, get tree path = some info → get tree' path = some info' → info.imports.Perm info'.imports

/-! ## Sorted paths -/

theorem Path.le_trans {a b c : Path} (h : Path.le a b = true) (h' : Path.le b c = true) : Path.le a c = true :=
  Std.TransCmp.isLE_trans h h'

theorem Path.le_antisymm {a b : Path} (h : Path.le a b = true) (h' : Path.le b a = true) : a = b :=
  Std.LawfulEqCmp.eq_of_compare (Std.OrientedCmp.isLE_antisymm h h')

theorem Path.le_total (a b : Path) : Path.le a b = true ∨ Path.le b a = true := by
  by_cases h : Path.le a b = true
  · exact Or.inl h
  · exact Or.inr (Ordering.isLE_of_eq_lt (Std.OrientedCmp.lt_of_not_isLE h))

/-- The sorted paths are sorted. -/
theorem pairwise_sortedPaths (tree : ModuleTree) : tree.sortedPaths.Pairwise fun a b => Path.le a b = true := by
  have htotal : Std.Total fun a b : Path => Path.le a b = true := ⟨Path.le_total⟩
  have htrans : IsTrans Path fun a b => Path.le a b = true := ⟨fun _ _ _ => Path.le_trans⟩
  exact List.pairwise_insertionSort _ _

namespace SameModules

/-- Having the same modules is symmetric. -/
theorem symm (h : SameModules tree tree') : SameModules tree' tree :=
  ⟨h.paths.symm, fun hinfo' hinfo => (h.program hinfo hinfo').symm, fun hinfo' hinfo => (h.imports hinfo hinfo').symm⟩

variable (h : SameModules tree tree')

include h

/-- The same modules have the same sorted paths. -/
theorem sortedPaths : tree.sortedPaths = tree'.sortedPaths := by
  refine List.Perm.eq_of_pairwise (fun a b _ _ => Path.le_antisymm) (pairwise_sortedPaths tree) (pairwise_sortedPaths tree') ?_
  exact ((List.perm_insertionSort _ _).trans h.paths).trans (List.perm_insertionSort _ _).symm

/-- So they get the same ids. -/
theorem pathToTempId : tree.pathToTempId = tree'.pathToTempId := by
  rw [ModuleTree.pathToTempId, h.sortedPaths, ModuleTree.pathToTempId]

/-- A module of one tree is a module of the other. -/
theorem exists_info {path : Path} (hpath : path ∈ tree'.sortedPaths) :
    ∃ info info', get tree path = some info ∧ get tree' path = some info' := by
  obtain ⟨info', hinfo'⟩ := ModuleTree.mem_sortedPaths.mp hpath
  rw [← h.sortedPaths] at hpath
  obtain ⟨info, hinfo⟩ := ModuleTree.mem_sortedPaths.mp hpath
  exact ⟨info, info', hinfo, hinfo'⟩

/-- What is made of the programs of the modules is the same. -/
theorem forModules {α : Type} {f : Path → ModuleInfo → ModuleId → List α}
    (hf : ∀ path info info' id, info.program = info'.program → f path info id = f path info' id) :
    tree.forModules f = tree'.forModules f := by
  unfold ModuleTree.forModules
  rw [h.sortedPaths, h.pathToTempId]
  refine List.flatMap_congr fun path hpath => ?_
  obtain ⟨info, info', hinfo, hinfo'⟩ := h.exists_info hpath
  rw [hinfo, hinfo']
  cases get tree'.pathToTempId path with
  | none => rfl
  | some id => exact hf _ _ _ _ (h.program hinfo hinfo')

/-- So their declarations are marked alike. -/
theorem marked {α : Type} (declared : Program → List α) (mark : String → ModuleId → α → α) :
    tree.marked declared mark = tree'.marked declared mark :=
  h.forModules fun path info info' id heq => by rw [heq]

/-- So they are merged into one program. -/
theorem mergeFromModuleTree (main : Program) : mergeFromModuleTree main tree = mergeFromModuleTree main tree' := by
  simp only [WebPipe.mergeFromModuleTree, h.marked]

/-- The imports of a module have the same ids. -/
theorem get_importIds {path : Path} {info info' : ModuleInfo} (hinfo : get tree path = some info) (hinfo' : get tree' path = some info')
    (hdistinct : Distinct info.imports) (name : String) : get (tree.importIds info) name = get (tree'.importIds info') name := by
  have hperm := h.imports hinfo hinfo'
  have hdistinct' : Distinct info'.imports := ((hperm.map Prod.fst).nodup_iff).mp hdistinct
  rw [ModuleTree.importIds, ModuleTree.importIds, h.pathToTempId, get_filterMap _ hdistinct, get_filterMap _ hdistinct']
  have hget : get info.imports name = get info'.imports name :=
    Option.ext fun target => by rw [get_eq_some_iff hdistinct, get_eq_some_iff hdistinct', hperm.mem_iff]
  rw [hget]

/-- The metadata of a module that resolution reads. -/
theorem moduleMetadata (hdistinct : Distinct tree) (himports : ∀ {path info}, get tree path = some info → Distinct info.imports)
    (id : ModuleId) :
    ((tree.registry.getModule id).map fun m => ({ importMap := fun name => get m.importMap name } : ModuleMetadata)) =
      (tree'.registry.getModule id).map fun m => { importMap := fun name => get m.importMap name } := by
  have hnodup : tree.sortedPaths.Nodup := ((List.perm_insertionSort _ _).nodup_iff).mpr hdistinct
  have hnodup' : tree'.sortedPaths.Nodup := h.sortedPaths ▸ hnodup
  rw [ModuleTree.getModule_registry hnodup, ModuleTree.getModule_registry hnodup', h.sortedPaths]
  cases hplace : tree'.sortedPaths[id]? with
  | none => rfl
  | some path =>
    obtain ⟨info, info', hinfo, hinfo'⟩ := h.exists_info (List.mem_of_getElem? hplace)
    simp only [Option.map_some, hinfo, hinfo', Option.elim_some, Option.some.injEq, ModuleMetadata.mk.injEq]
    exact funext fun name => h.get_importIds hinfo hinfo' (himports hinfo) name

/-- A template that one of the trees imports is imported in the other. -/
theorem mem_templates (hdistinct : Distinct tree) (hdistinct' : Distinct tree') {v : VariableDecl}
    (hv : v ∈ loadHandlebarsFromModuleTree tree) : v ∈ loadHandlebarsFromModuleTree tree' := by
  obtain ⟨⟨path, info⟩, hmodule, hv⟩ := List.mem_flatMap.mp hv
  obtain ⟨⟨ns, target⟩, himport, hv⟩ := List.mem_flatMap.mp hv
  have hsome : ∀ {path info}, get tree path = some info → ∃ info', get tree' path = some info' := by
    intro path info hinfo
    have hpath : path ∈ tree'.sortedPaths := h.sortedPaths ▸ ModuleTree.mem_sortedPaths.mpr ⟨info, hinfo⟩
    exact ModuleTree.mem_sortedPaths.mp hpath
  have hinfo := (get_eq_some_iff hdistinct).mpr hmodule
  obtain ⟨info', hinfo'⟩ := hsome hinfo
  dsimp only at hv
  cases htarget : get tree target with
  | none =>
    rw [htarget] at hv
    cases hv
  | some m =>
    obtain ⟨m', htarget'⟩ := hsome htarget
    rw [htarget, Option.elim_some, h.program htarget htarget'] at hv
    refine List.mem_flatMap.mpr ⟨(path, info'), (get_eq_some_iff hdistinct').mp hinfo', List.mem_flatMap.mpr ⟨(ns, target), ?_, ?_⟩⟩
    · exact (h.imports hinfo hinfo').mem_iff.mp himport
    · dsimp only
      rw [htarget']
      exact hv

end SameModules

/-! ## Partials -/

section Partials

variable {τ : Type} {engine : HandlebarsEngine τ}

/-- A declaration changes what is under its own name. -/
theorem registerPartial_apply (partials : String → Option τ) (v : VariableDecl) (name : String) :
    registerPartial engine partials v name =
      if v.isTemplate = true ∧ Text.trim v.name = name then (engine.compile v.value).toOption.or (partials name) else partials name := by
  unfold registerPartial
  by_cases htemplate : v.isTemplate = true
  · rw [if_pos htemplate]
    by_cases hname : Text.trim v.name = name
    · subst hname
      cases engine.compile v.value with
      | ok t => simp [htemplate, Except.toOption]
      | error e => simp [htemplate, Except.toOption]
    · cases engine.compile v.value with
      | ok t => simp [hname, Ne.symm hname]
      | error e => simp [hname]
  · simp [htemplate]

/-- Where no template of a name is declared, what is there stays. -/
theorem registerPartials_of_none {partials : String → Option τ} {declared : List VariableDecl} {name : String}
    (h : ∀ v ∈ declared, ¬ (v.isTemplate = true ∧ Text.trim v.name = name)) :
    registerPartials engine partials declared name = partials name := by
  induction declared generalizing partials with
  | nil => rfl
  | cons v declared ih =>
    change registerPartials engine (registerPartial engine partials v) declared name = _
    rw [ih fun v hv => h v (List.mem_cons_of_mem _ hv), registerPartial_apply, if_neg (h v List.mem_cons_self)]

/-- Where all templates of a name have one text, it is the partial of the name, if it compiles. -/
theorem registerPartials_of_text {partials : String → Option τ} {declared : List VariableDecl} {name text : String}
    (hall : ∀ v ∈ declared, v.isTemplate = true ∧ Text.trim v.name = name → v.value = text)
    (hsome : ∃ v ∈ declared, v.isTemplate = true ∧ Text.trim v.name = name) :
    registerPartials engine partials declared name = (engine.compile text).toOption.or (partials name) := by
  induction declared generalizing partials with
  | nil =>
    obtain ⟨v, hv, -⟩ := hsome
    cases hv
  | cons v declared ih =>
    change registerPartials engine (registerPartial engine partials v) declared name = _
    have hfirst : registerPartial engine partials v name = partials name ∨
        registerPartial engine partials v name = (engine.compile text).toOption.or (partials name) := by
      rw [registerPartial_apply]
      split
      · next hv => exact Or.inr (by rw [hall v List.mem_cons_self hv])
      · exact Or.inl rfl
    by_cases hmore : ∃ v ∈ declared, v.isTemplate = true ∧ Text.trim v.name = name
    · rw [ih (fun v hv => hall v (List.mem_cons_of_mem _ hv)) hmore]
      rcases hfirst with hfirst | hfirst
      · rw [hfirst]
      · rw [hfirst, ← Option.or_assoc, Option.or_self]
    · obtain ⟨v', hv', hname⟩ := hsome
      have hlast : v' = v := (List.mem_cons.mp hv').resolve_right fun hin => hmore ⟨v', hin, hname⟩
      subst hlast
      rw [registerPartials_of_none fun v hv hv' => hmore ⟨v, hv, hv'⟩, registerPartial_apply, if_pos hname,
        hall v' List.mem_cons_self hname]

/-- The order of the declarations does not matter where each name has one text. -/
theorem registerPartials_congr {declared declared' : List VariableDecl} (hsame : ∀ v, v ∈ declared ↔ v ∈ declared')
    (hone : ∀ v ∈ declared, ∀ v' ∈ declared, v.isTemplate = true → v'.isTemplate = true → Text.trim v.name = Text.trim v'.name →
      v.value = v'.value) (partials : String → Option τ) :
    registerPartials engine partials declared = registerPartials engine partials declared' := by
  funext name
  by_cases hsome : ∃ v ∈ declared, v.isTemplate = true ∧ Text.trim v.name = name
  · obtain ⟨v, hv, htemplate, rfl⟩ := hsome
    have hall : ∀ v' ∈ declared, v'.isTemplate = true ∧ Text.trim v'.name = Text.trim v.name → v'.value = v.value :=
      fun v' hv' h => hone v' hv' v hv h.1 htemplate h.2
    rw [registerPartials_of_text hall ⟨v, hv, htemplate, rfl⟩,
      registerPartials_of_text (fun v' hv' => hall v' ((hsame v').mpr hv')) ⟨v, (hsame v).mp hv, htemplate, rfl⟩]
  · rw [registerPartials_of_none fun v hv h => hsome ⟨v, hv, h⟩,
      registerPartials_of_none fun v hv h => hsome ⟨v, (hsame v).mpr hv, h⟩]

end Partials

/-- The templates that modules import under one alias and name have one text. -/
def OneTextPerName (tree : ModuleTree) : Prop :=
  ∀ v ∈ loadHandlebarsFromModuleTree tree, ∀ v' ∈ loadHandlebarsFromModuleTree tree, Text.trim v.name = Text.trim v'.name →
    v.value = v'.value

/-- The merged program, the symbols of the server and the symbols of the tests, over the same middleware, are the same for every order
of the maps; and so are the partials, where those that modules import under one alias and name have one text. -/
theorem module_order_is_irrelevant (hdistinct : Distinct tree) (himports : ∀ path info, get tree path = some info → Distinct info.imports)
    (h : SameModules tree tree') {σ : Type} (base : ExecutionEnv σ) (main : Program) :
    mergeFromModuleTree main tree = mergeFromModuleTree main tree' ∧
      serverEnv base main tree = serverEnv base main tree' ∧ testEnv base main tree = testEnv base main tree' ∧
      ∀ {τ : Type} (engine : HandlebarsEngine τ), OneTextPerName tree →
        programPartials engine main tree = programPartials engine main tree' := by
  have hmeta := h.moduleMetadata hdistinct (himports _ _)
  have hserver : tree.forModules serverModuleEntries = tree'.forModules serverModuleEntries :=
    h.forModules fun path info info' id heq => by rw [serverModuleEntries, heq, serverModuleEntries]
  have htest : tree.forModules testModuleEntries = tree'.forModules testModuleEntries :=
    h.forModules fun path info info' id heq => by rw [testModuleEntries, heq, testModuleEntries]
  have hvariables : tree.forModules moduleVariables = tree'.forModules moduleVariables :=
    h.forModules fun path info info' id heq => by rw [moduleVariables, heq, moduleVariables]
  have hdistinct' : Distinct tree' := (h.paths.nodup_iff).mp hdistinct
  refine ⟨h.mergeFromModuleTree main, ?_, ?_, fun engine hone => ?_⟩
  · simp only [serverEnv, buildRuntime, SymbolTables.env, h.mergeFromModuleTree, Option.elim_some, hserver, hvariables, hmeta]
  · simp only [testEnv, loadImportsForTests, SymbolTables.env, htest, hvariables, hmeta]
  · have hsame : ∀ v, v ∈ loadHandlebarsFromModuleTree tree ↔ v ∈ loadHandlebarsFromModuleTree tree' :=
      fun v => ⟨h.mem_templates hdistinct hdistinct', h.symm.mem_templates hdistinct' hdistinct⟩
    unfold programPartials registerPartials
    rw [List.foldl_append, List.foldl_append]
    exact congrArg (fun partials => main.variables.foldl (registerPartial engine) partials)
      (registerPartials_congr hsame (fun v hv v' hv' _ _ => hone v hv v' hv') fun _ => none)

/-- A tree in another order has the same modules. -/
theorem sameModules_of_perm (hdistinct : Distinct tree) (h : tree.Perm tree') : SameModules tree tree' := by
  have hdistinct' : Distinct tree' := ((h.map Prod.fst).nodup_iff).mp hdistinct
  have hsame : ∀ {path info info'}, get tree path = some info → get tree' path = some info' → info = info' := by
    intro path info info' hinfo hinfo'
    rw [get_eq_some_iff hdistinct, h.mem_iff, ← get_eq_some_iff hdistinct', hinfo'] at hinfo
    exact (Option.some.inj hinfo).symm
  exact ⟨h.map Prod.fst, fun hinfo hinfo' => by rw [hsame hinfo hinfo'], fun hinfo hinfo' => by rw [hsame hinfo hinfo']⟩

/-- A module with one template, a pipeline and a variable. -/
def cardModule (path : Path) (text : String) : ModuleInfo :=
  { path := path, program := { pipelines := [{ name := "show", pipeline := ⟨[]⟩ }], «variables» := [⟨"handlebars", "card", text⟩,
      ⟨"pg", "users", "SELECT * FROM users"⟩] }, imports := [] }

/-- A module that imports another as `ui`. -/
def pageModule (path target : Path) : ModuleInfo := { path := path, program := {}, imports := [("ui", target)] }

/-- Two modules, one of which imports the other. -/
def cardTree : ModuleTree := [(["page"], pageModule ["page"] ["card"]), (["card"], cardModule ["card"] "<b>card</b>")]

/-- The same modules in another order. -/
def cardTree' : ModuleTree := [(["card"], cardModule ["card"] "<b>card</b>"), (["page"], pageModule ["page"] ["card"])]

/-- An engine that keeps the text. -/
def textEngine : HandlebarsEngine String :=
  { compile := .ok, render := fun _ t _ => .ok t, notFound := id, defaultHasher := String.length }

/-- Two modules in both orders: the merged program, the symbols and the partials are the same. -/
theorem module_order_is_irrelevant_two :
    mergeFromModuleTree {} cardTree = mergeFromModuleTree {} cardTree' ∧
      serverEnv ({ registry := fun _ => none } : ExecutionEnv Unit) {} cardTree = serverEnv { registry := fun _ => none } {} cardTree' ∧
      testEnv ({ registry := fun _ => none } : ExecutionEnv Unit) {} cardTree = testEnv { registry := fun _ => none } {} cardTree' ∧
      programPartials textEngine {} cardTree = programPartials textEngine {} cardTree' ∧
      programPartials textEngine {} cardTree' "ui/card" = some "<b>card</b>" := by
  have hdistinct : Distinct cardTree := by
    unfold Distinct
    decide
  have himports : ∀ path info, get cardTree path = some info → Distinct info.imports := by
    intro path info hinfo
    have hin := mem_of_get hinfo
    simp only [cardTree, List.mem_cons, Prod.mk.injEq, List.not_mem_nil, or_false] at hin
    rcases hin with ⟨-, rfl⟩ | ⟨-, rfl⟩
    · exact List.nodup_singleton _
    · exact List.nodup_nil
  have hone : OneTextPerName cardTree := by
    have hload : loadHandlebarsFromModuleTree cardTree = [⟨"handlebars", "ui/card", "<b>card</b>"⟩] := by decide
    unfold OneTextPerName
    rw [hload]
    simp
  obtain ⟨hmerged, hserver, htest, hpartials⟩ := module_order_is_irrelevant hdistinct himports
    (sameModules_of_perm hdistinct (List.Perm.swap _ _ _)) ({ registry := fun _ => none } : ExecutionEnv Unit) {}
  exact ⟨hmerged, hserver, htest, hpartials textEngine hone, by decide +kernel⟩

-- two modules that import different ones as `ui`: the last to be gone through gives the partial
example :
    let rest : ModuleTree := [(["a"], cardModule ["a"] "a"), (["b"], cardModule ["b"] "b")]
    let first := (["x"], pageModule ["x"] ["a"])
    let second := (["y"], pageModule ["y"] ["b"])
    (programPartials textEngine {} (first :: second :: rest) "ui/card", programPartials textEngine {} (second :: first :: rest) "ui/card") =
      (some "b", some "a") := by
  decide +kernel

end WebPipe
