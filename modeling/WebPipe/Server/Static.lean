import WebPipe.Lib.Links

/-!
# Static files

`normalize_static_path`, `guess_content_type` and `try_serve_static` of `server.rs`. Percent-decoding is a parameter: it gives the
decoded text, or nothing where the bytes are no UTF-8. Paths are those of Unix, where none starts with a drive.
-/

namespace WebPipe

open Links

/-- What is served for a file. -/
structure StaticResponse (β : Type*) where
  contentType : String
  body : β
deriving DecidableEq, Repr

/-- The type that the extension of a file stands for. -/
def guessContentType (path : PathBuf) : String :=
  match (path.extension.getD "").toLower with
  | "html" | "htm" => "text/html; charset=utf-8"
  | "css" => "text/css; charset=utf-8"
  | "js" => "application/javascript; charset=utf-8"
  | "mjs" => "application/javascript; charset=utf-8"
  | "json" => "application/json; charset=utf-8"
  | "svg" => "image/svg+xml"
  | "png" => "image/png"
  | "jpg" | "jpeg" => "image/jpeg"
  | "gif" => "image/gif"
  | "webp" => "image/webp"
  | "ico" => "image/x-icon"
  | "woff" => "font/woff"
  | "woff2" => "font/woff2"
  | "ttf" => "font/ttf"
  | "otf" => "font/otf"
  | _ => "application/octet-stream"

section Serving

variable {β : Type*} (disk : Disk β) (publicDir : PathBuf) (percentDecode : String → Option String)

/-- The path under the public directory that a request names: decoded, without the slashes it starts with, and with no component that
leads upwards. -/
def requestedPath (requestPath : String) : Option PathBuf :=
  if requestPath.toList.head? ≠ some '/' then none
  else
    match percentDecode requestPath with
    | none => none
    | some decoded =>
      let trimmed := String.ofList (decoded.toList.dropWhile (· == '/'))
      let path := PathBuf.ofText (if trimmed = "" then "index.html" else trimmed)
      if .parentDir ∈ path.components then none else some path

/-- `normalize_static_path`. -/
def normalizeStaticPath (requestPath : String) : Option PathBuf :=
  match requestedPath percentDecode requestPath with
  | none => none
  | some rel =>
    let full := publicDir.join rel
    match disk.canonicalize full, disk.canonicalize publicDir with
    | some canonicalFull, some canonicalPublic => if canonicalPublic.isPrefixOf canonicalFull then some full else none
    | _, _ => if full.startsWith publicDir then some full else none

/-- The request ends with a slash. -/
def endsWithSlash (requestPath : String) : Bool := requestPath.toList.getLast? == some '/'

/-- The file that is read for a request, chosen as in `try_serve_static`. -/
def staticCandidate (requestPath : String) : Option PathBuf :=
  match normalizeStaticPath disk publicDir percentDecode requestPath with
  | none => none
  | some normalized =>
    let candidate := if endsWithSlash requestPath then normalized.push "index.html" else normalized
    if disk.exists candidate = false ∧ (PathBuf.ofText requestPath).extension = none then
      let idx := candidate.push "index.html"
      if disk.exists idx then some idx else some candidate
    else some candidate

/-- `try_serve_static`. -/
def tryServeStatic (requestPath : String) : Option (StaticResponse β) :=
  match staticCandidate disk publicDir percentDecode requestPath with
  | none => none
  | some candidate => (disk.read candidate).map fun data => { contentType := guessContentType candidate, body := data }

end Serving

end WebPipe
