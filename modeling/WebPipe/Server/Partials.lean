import WebPipe.Middleware.Handlebars
import WebPipe.Server.Modules

/-!
# The partials of a server

The templates that the modules of a tree declare are registered as partials when a server is built, and in the same way for tests: those
of imported modules under the alias of the import, in the order in which the maps of the tree are gone through, and then those of the
program itself. The last one of a name is kept.
-/

namespace WebPipe

/-- A declaration of a Handlebars or Mustache template. -/
def VariableDecl.isTemplate (v : VariableDecl) : Bool := v.varType = "handlebars" ∨ v.varType = "mustache"

/-- The templates of a module, as one that imports it under an alias names them. -/
def Program.templatesAs (program : Program) (ns : String) : List VariableDecl :=
  (program.variables.filter VariableDecl.isTemplate).map fun v => { v with name := s!"{ns}/{v.name}" }

/-- `load_handlebars_from_module_tree`. -/
def loadHandlebarsFromModuleTree (tree : ModuleTree) : List VariableDecl :=
  tree.flatMap fun (_, info) => info.imports.flatMap fun (ns, target) =>
    (IndexMap.get tree target).elim [] fun m => m.program.templatesAs ns

section Register

variable {τ : Type} (engine : HandlebarsEngine τ)

/-- Register a declared template under its trimmed name; a text that does not compile leaves what is there. -/
def registerPartial (partials : String → Option τ) (v : VariableDecl) : String → Option τ :=
  if v.isTemplate then
    match engine.compile v.value with
    | .ok t => fun name => if name = Text.trim v.name then some t else partials name
    | .error _ => partials
  else partials

/-- The partials that `from_program_configs` registers. -/
def registerPartials (partials : String → Option τ) (declared : List VariableDecl) : String → Option τ :=
  declared.foldl (registerPartial engine) partials

/-- The partials of a program in a file, whose tree of modules is this one. -/
def programPartials (main : Program) (tree : ModuleTree) : String → Option τ :=
  registerPartials engine (fun _ => none) (loadHandlebarsFromModuleTree tree ++ main.variables)

end Register

end WebPipe
