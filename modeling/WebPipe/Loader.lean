import WebPipe.Error
import WebPipe.Lib.IndexMap
import WebPipe.Lib.Prog
import WebPipe.Program

/-!
# Loading modules

`ModuleLoader` of `loader.rs`: a program is loaded with all that it imports, each file once; a file that is loaded while it is being
loaded is a circular import. The loader calls itself for imports; `fuel` bounds the depth of these calls.
-/

namespace WebPipe

/-- An absolute canonical path, by its components. -/
abbrev Path := List String

/-- The text of a path. -/
def Path.display (path : Path) : String := "/" ++ "/".intercalate path

/-- What a loader reads files through. -/
structure FileSystem where
  /-- The files that can be read, with their content. -/
  files : List (Path × String)
  /-- The path that a spelling stands for, or why it stands for none. -/
  canonicalize : String → Except String Path
  /-- A canonical path stands for itself. -/
  canonical : ∀ {spelling : String} {path : Path}, canonicalize spelling = .ok path → canonicalize path.display = .ok path
  /-- Why a file cannot be read. -/
  readError : Path → String

/-- `ModuleLoader`. -/
structure ModuleLoader where
  /-- The programs of the files loaded so far. -/
  cache : List (Path × Program) := []
  /-- The files that are being loaded. -/
  loadingStack : List Path := []

/-- `ModuleInfo`. -/
structure ModuleInfo where
  path : Path
  program : Program
  /-- Alias to the file it stands for. -/
  imports : List (String × Path)

/-- A computation of the loader. -/
abbrev Load := Prog ModuleLoader Empty WebPipeError

/-- `format_import_cycle`: the names of the files from the target on, and of the target again. -/
def formatImportCycle (stack : List Path) (target : Path) : String :=
  " -> ".intercalate (((stack.dropWhile (· ≠ target)).map fun (p : Path) => p.getLast?.getD "?") ++ target.getLast?.toList)

section Loading

variable (fs : FileSystem) (parse : String → Except String Program)

/-- The path a spelling stands for. -/
def FileSystem.resolve (path : String) : Except WebPipeError Path :=
  (fs.canonicalize path).mapError fun e => .plain .importNotFound s!"Cannot resolve path '{path}': {e}"

/-- A path relative to a directory. -/
def Path.join (dir : Path) (path : String) : String :=
  if path.startsWith "/" then path else if dir = [] then "/" ++ path else dir.display ++ "/" ++ path

/-- `resolve_import_path`. -/
def resolveImportPath (currentFile : Path) (importPath : String) : Except WebPipeError Path :=
  if currentFile = [] then
    .error (.plain .importNotFound s!"Cannot determine parent directory of '{currentFile.display}'")
  else
    (fs.canonicalize (Path.join currentFile.dropLast importPath)).mapError fun e =>
      .plain .importNotFound s!"Cannot resolve import '{importPath}' from '{currentFile.display}': {e}"

/-- Read a file and parse it. -/
def readProgram (path : Path) : Except WebPipeError Program :=
  match IndexMap.get fs.files path with
  | none => .error (.plain .importNotFound s!"Cannot read file '{path.display}': {fs.readError path}")
  | some content => (parse content).mapError fun e => .plain .parseError s!"Failed to parse '{path.display}': {e}"

/-- Load what a file imports, in order. -/
def loadImports (load : String → Load Program) (file : Path) : List Import → Load Unit
  | [] => pure ()
  | i :: rest => do
    let importPath ← Prog.ofExcept (resolveImportPath fs file i.path)
    let _ ← load importPath.display
    loadImports load file rest

/-- `load_module`. -/
def loadModule : ℕ → String → Load Program
  | 0, _ => Prog.diverge
  | fuel + 1, path => do
    let absPath ← Prog.ofExcept (fs.resolve path)
    match ← Prog.gets fun loader => IndexMap.get loader.cache absPath with
    | some program => pure program
    | none => do
      let stack ← Prog.gets ModuleLoader.loadingStack
      if absPath ∈ stack then Prog.fail (.plain .circularImport (formatImportCycle stack absPath))
      else do
        Prog.modify fun loader => { loader with loadingStack := loader.loadingStack ++ [absPath] }
        let program ← Prog.ofExcept (readProgram fs parse absPath)
        loadImports fs (loadModule fuel) absPath program.imports
        Prog.modify fun loader =>
          { cache := IndexMap.insert loader.cache absPath program, loadingStack := loader.loadingStack.dropLast }
        pure program

/-- The modules loaded so far. -/
abbrev ModuleTree := List (Path × ModuleInfo)

/-- The import map of a module, and the modules that it imports added to the ones loaded so far. -/
def collectImports (load : ModuleTree → String → Load ModuleTree) (file : Path) :
    List Import → List (String × Path) → ModuleTree → Load (List (String × Path) × ModuleTree)
  | [], importMap, registry => pure (importMap, registry)
  | i :: rest, importMap, registry => do
    let importPath ← Prog.ofExcept (resolveImportPath fs file i.path)
    let registry ← load registry importPath.display
    collectImports load file rest (IndexMap.insert importMap i.alias importPath) registry

/-- `load_recursive`; `depth` is the fuel of `load_module`. -/
def loadRecursive (depth : ℕ) : ℕ → ModuleTree → String → Load ModuleTree
  | 0, _, _ => Prog.diverge
  | fuel + 1, registry, path => do
    let absPath ← Prog.ofExcept (fs.resolve path)
    if (IndexMap.get registry absPath).isSome then pure registry
    else do
      let program ← loadModule fs parse depth absPath.display
      let (importMap, registry) ← collectImports fs (loadRecursive depth fuel) absPath program.imports [] registry
      pure (IndexMap.insert registry absPath { path := absPath, program := program, imports := importMap })

/-- `load_module_tree`. -/
def loadModuleTree (fuel : ℕ) (rootPath : String) : Load ModuleTree := loadRecursive fs parse fuel fuel [] rootPath

end Loading

end WebPipe
