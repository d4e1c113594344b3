import Mathlib.Data.List.Basic

/-!
# Paths and symbolic links

A disk of directories, files and symbolic links, and the walk along the segments of a path as a kernel makes it: a segment is looked up
in a directory, a link is followed from where it stands, and the walk gives up after a number of links. A place is the list of the names
that lead to it from the root, with no link among them.
-/

namespace Links

variable {β : Type*}

/-- A path as it is spelled, by the segments between its slashes. -/
structure PathBuf where
  absolute : Bool
  segments : List String
deriving DecidableEq, Repr

/-- What one segment of a path stands for. -/
inductive Component where
  | rootDir
  | curDir
  | parentDir
  | normal (name : String)
deriving DecidableEq, Repr

namespace PathBuf

/-- The path that has no text. -/
def empty : PathBuf := ⟨false, []⟩

/-- The path of a text. -/
def ofText (text : String) : PathBuf :=
  if text = "" then empty
  else ⟨text.toList.head? == some '/', (text.toList.splitOn '/').map String.ofList⟩

/-- The component a segment adds; repeated slashes and dots add none. -/
def component (segment : String) : Option Component :=
  if segment = "" ∨ segment = "." then none
  else if segment = ".." then some .parentDir
  else some (.normal segment)

def components (p : PathBuf) : List Component :=
  (if p.absolute then [.rootDir] else if p.segments.head? = some "." then [.curDir] else []) ++ p.segments.filterMap component

/-- A path under another; an absolute one replaces it. A slash too many between them is no component. -/
def join (base p : PathBuf) : PathBuf := if p.absolute then p else ⟨base.absolute, base.segments ++ p.segments⟩

/-- One more name. -/
def push (p : PathBuf) (name : String) : PathBuf := p.join ⟨false, [name]⟩

def startsWith (p base : PathBuf) : Bool := base.components.isPrefixOf p.components

/-- The name a path ends in. -/
def fileName (p : PathBuf) : Option String :=
  match p.components.getLast? with
  | some (.normal name) => some name
  | _ => none

/-- What follows the last dot of the name, where something stands before it. -/
def extension (p : PathBuf) : Option String := do
  let name ← p.fileName
  let parts := name.toList.splitOn '.'
  if (List.intercalate ['.'] parts.dropLast).isEmpty then none
  else parts.getLast?.map String.ofList

end PathBuf

/-- What stands at a place. -/
inductive Node (β : Type*) where
  | file (content : β)
  | directory
  | link (target : PathBuf)
deriving DecidableEq, Repr

/-- A disk, with the directory that relative paths start from and the number of links a walk may follow. A place is looked up in its
directory only, so what stands below a place that is no directory is never found. -/
structure Disk (β : Type*) where
  node : List String → Option (Node β)
  workingDir : List String
  maxLinks : Nat

namespace Disk

variable (disk : Disk β)

/-- Where a walk along a path starts. -/
def start (place : List String) (p : PathBuf) : List String := if p.absolute then [] else place

/-- The walk along segments, with `follow` for what is left to walk when a link is met. -/
def walkWith (follow : List String → PathBuf → List String → Option (List String)) :
    List String → List String → Option (List String)
  | place, [] => some place
  | place, segment :: rest =>
    match disk.node place with
    | some .directory =>
      if segment = "" ∨ segment = "." then walkWith follow place rest
      else if segment = ".." then walkWith follow place.dropLast rest
      else
        match disk.node (place ++ [segment]) with
        | none => none
        | some (.link target) => follow place target rest
        | some _ => walkWith follow (place ++ [segment]) rest
    | _ => none

/-- The walk that follows at most a number of links. -/
def walk : Nat → List String → List String → Option (List String)
  | 0 => disk.walkWith fun _ _ _ => none
  | links + 1 => disk.walkWith fun place target rest => walk links (start place target) (target.segments ++ rest)

/-- Full resolution: the place that a path stands for. -/
def canonicalize (p : PathBuf) : Option (List String) :=
  if p = .empty then none else disk.walk disk.maxLinks (start disk.workingDir p) p.segments

/-- The path stands for something. -/
def «exists» (p : PathBuf) : Bool := (disk.canonicalize p).isSome

/-- The content of a file. -/
def read (p : PathBuf) : Option β :=
  match (disk.canonicalize p).bind disk.node with
  | some (.file content) => some content
  | _ => none

/-! ## Walks -/

variable {disk} {place dir : List String} {links : Nat} {name : String}

/-- A name that is looked up. -/
def Proper (name : String) : Prop := name ≠ "" ∧ name ≠ "." ∧ name ≠ ".."

/-- A walk that arrives has been, on its way, where the first segments lead. -/
theorem walk_append {front back : List String} (h : disk.walk links place (front ++ back) = some dir) :
    ∃ mid rest, disk.walk links place front = some mid ∧ disk.walk rest mid back = some dir := by
  induction links generalizing place front with
  | zero =>
    induction front generalizing place with
    | nil => exact ⟨place, 0, rfl, h⟩
    | cons segment front ih =>
      simp only [walk, List.cons_append, walkWith] at h ih ⊢
      split at h <;> try contradiction
      split_ifs at h ⊢
      · exact ih h
      · exact ih h
      · split at h <;> first | contradiction | exact ih h
  | succ links ihl =>
    induction front generalizing place with
    | nil => exact ⟨place, links + 1, rfl, h⟩
    | cons segment front ih =>
      simp only [walk, List.cons_append, walkWith] at h ih ⊢
      split at h <;> try contradiction
      split_ifs at h ⊢
      · exact ih h
      · exact ih h
      · split at h
        · contradiction
        -- the rest of the way goes on behind the target of the link
        · rw [← List.append_assoc] at h
          exact ihl h
        · exact ih h

/-- One step to a name that is no link. -/
theorem walk_name (hname : Proper name) (hnode : ∀ target, disk.node (place ++ [name]) ≠ some (.link target))
    (h : disk.walk links place [name] = some dir) : dir = place ++ [name] := by
  obtain ⟨h1, h2, h3⟩ := hname
  cases links with
  | zero =>
    simp only [walk, walkWith, h1, h2, h3, or_self, if_false] at h
    split at h <;> try contradiction
    split at h <;> simp_all
  | succ links =>
    simp only [walk, walkWith, h1, h2, h3, or_self, if_false] at h
    split at h <;> try contradiction
    split at h <;> simp_all

/-- What is found under a path was found by way of the path. -/
theorem canonicalize_join {base p : PathBuf} (hbase : base ≠ .empty) (hp : p.absolute = false)
    (h : disk.canonicalize (base.join p) = some dir) :
    ∃ mid rest, disk.canonicalize base = some mid ∧ disk.walk rest mid p.segments = some dir := by
  have hjoin : base.join p = ⟨base.absolute, base.segments ++ p.segments⟩ := by simp [PathBuf.join, hp]
  rw [hjoin, canonicalize] at h
  split_ifs at h
  obtain ⟨mid, rest, hmid, hdir⟩ := walk_append h
  refine ⟨mid, rest, ?_, hdir⟩
  rw [canonicalize, if_neg hbase]
  exact hmid

theorem exists_of_join {base p : PathBuf} (hbase : base ≠ .empty) (hp : p.absolute = false)
    (h : disk.exists (base.join p) = true) : disk.exists base = true := by
  obtain ⟨dir, hdir⟩ := Option.isSome_iff_exists.mp h
  obtain ⟨mid, _, hmid, _⟩ := canonicalize_join hbase hp hdir
  simp [«exists», hmid]

theorem read_eq_some {p : PathBuf} {content : β} :
    disk.read p = some content ↔ ∃ place, disk.canonicalize p = some place ∧ disk.node place = some (.file content) := by
  unfold read
  cases disk.canonicalize p with
  | none => simp
  | some place =>
    simp only [Option.bind_some, Option.some.injEq, exists_eq_left']
    split <;> simp_all

end Disk

end Links
