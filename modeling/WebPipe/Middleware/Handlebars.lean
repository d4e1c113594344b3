import WebPipe.Error
import WebPipe.Json
import WebPipe.Lib.Runs
import WebPipe.Lib.Text
import WebPipe.Slices

/-!
# Rendering templates

`middleware/handlebars.rs`: the templates of all requests are registered in one shared registry, each under a name made of the
hash of its text, and rendered from there. A render takes the locks three times: to look for its template, to register it, and
to render it. Other renders run in between. The handlebars crate is what compiles and renders.
-/

namespace WebPipe

/-! ## The text of a template -/

/-- A blank that indents a line. -/
def isIndent (c : Char) : Bool := c == ' ' || c == '\t'

/-- Drop at most so many blanks from the front of a line. -/
def dropIndent : Nat → List Char → List Char
  | n + 1, c :: cs => if isIndent c then dropIndent n cs else c :: cs
  | _, cs => cs

/-- `dedent_multiline`: drop the line breaks around the text and the indentation its lines have in common. -/
def dedentMultiline (input : String) : String :=
  let isBreak := fun c => c == '\n' || c == '\r'
  let trimmed := ((input.toList.dropWhile isBreak).reverse.dropWhile isBreak).reverse
  let texts := lines trimmed
  let common := (((texts.filter fun line => !(Text.trimChars line).isEmpty).map fun line =>
    (line.takeWhile isIndent).length).min?).getD 0
  if texts.isEmpty then ""
  else if common = 0 then String.ofList trimmed
  else String.ofList (List.intercalate ['\n'] (texts.map (dropIndent common)))

example : dedentMultiline "\n    hello\n      world\n" = "hello\n  world" := by decide +kernel

/-! ## The registry -/

/-- The handlebars crate: what a text compiles to, and what a compiled template renders over the registered ones. -/
structure HandlebarsEngine (τ : Type) where
  compile : String → Except String τ
  render : (String → Option τ) → τ → Value → Except String String
  /-- What is said of a name under which nothing is registered. -/
  notFound : String → String
  /-- The standard hash of a text. -/
  defaultHasher : String → Nat

/-- The shared registry, and the names the middleware has registered in it. -/
structure TemplateRegistry (τ : Type) where
  handlebars : String → Option τ
  registeredTemplates : String → Bool := fun _ => false

/-- Where a render stands between two uses of the locks. -/
inductive RenderPhase where
  | looking
  | registering
  | rendering
  | done (answer : Except WebPipeError String)

/-- A call of `render_template`. -/
structure TemplateRender where
  template : String
  data : Value
  phase : RenderPhase := .looking

/-- The renders of a server, and the registry they share. -/
structure TemplateRenders (τ : Type) where
  registry : TemplateRegistry τ
  render : Nat → TemplateRender

def TemplateRender.text (r : TemplateRender) : String := dedentMultiline r.template

/-- One render moves on. -/
def TemplateRenders.setPhase {τ : Type} (s : TemplateRenders τ) (i : Nat) (phase : RenderPhase) : TemplateRenders τ :=
  { s with render := fun j => if j = i then { s.render i with phase := phase } else s.render j }

namespace HandlebarsEngine

variable {τ : Type} (engine : HandlebarsEngine τ)

/-- The name a template is registered under. -/
def templateId (tpl : String) : String := "tpl_" ++ String.ofList (Nat.toDigits 16 (engine.defaultHasher tpl))

/-- The error of a template that does not compile. -/
def compileError (e : String) : WebPipeError := .plain .middlewareExecutionError ("Handlebars template compile error: " ++ e)

/-- What a compiled template renders over the registered ones. -/
def renderOver (handlebars : String → Option τ) (t : τ) (data : Value) : Except WebPipeError String :=
  match engine.render handlebars t data with
  | .ok text => .ok text
  | .error e => .error (.plain .middlewareExecutionError ("Handlebars render error: " ++ e))

/-- Look for a template. -/
def lookFor (registry : TemplateRegistry τ) (tpl : String) : RenderPhase :=
  if registry.registeredTemplates (engine.templateId tpl) then .rendering else .registering

/-- Register a template, unless another render has done so by now. -/
def registerTemplate (registry : TemplateRegistry τ) (tpl : String) : RenderPhase × TemplateRegistry τ :=
  if registry.registeredTemplates (engine.templateId tpl) then (.rendering, registry)
  else
    match engine.compile tpl with
    | .error e => (.done (.error (compileError e)), registry)
    | .ok t =>
      (.rendering, {
        handlebars := fun name => if name = engine.templateId tpl then some t else registry.handlebars name
        registeredTemplates := fun name => name = engine.templateId tpl || registry.registeredTemplates name })

/-- Render a template by its name. -/
def renderNamed (registry : TemplateRegistry τ) (tpl : String) (data : Value) : Except WebPipeError String :=
  match registry.handlebars (engine.templateId tpl) with
  | some t => engine.renderOver registry.handlebars t data
  | none => .error (.plain .middlewareExecutionError ("Handlebars render error: " ++ engine.notFound (engine.templateId tpl)))

/-- `render_template`: what one render does between two uses of the locks. -/
def step (s : TemplateRenders τ) (i : Nat) : TemplateRenders τ :=
  let r := s.render i
  match r.phase with
  | .looking => s.setPhase i (engine.lookFor s.registry r.text)
  | .registering =>
    let (phase, registry) := engine.registerTemplate s.registry r.text
    { s with registry := registry }.setPhase i phase
  | .rendering => s.setPhase i (.done (engine.renderNamed s.registry r.text r.data))
  | .done _ => s

/-- A render on its own: compile the text and render it over the registered partials. -/
def renderAlone (partials : String → Option τ) (r : TemplateRender) : Except WebPipeError String :=
  match engine.compile r.text with
  | .ok t => engine.renderOver partials t r.data
  | .error e => .error (compileError e)

end HandlebarsEngine

end WebPipe
