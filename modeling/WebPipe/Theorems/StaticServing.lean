import WebPipe.Server.Static

/-!
# Where served files lie

The path that is checked against the public directory is not always the path that is read: a request that ends in a slash is checked as a
directory, and the `index.html` in it is read unchecked. `static_confined_iff` says that a request is answered from within the
public directory unless this index is a symbolic link that leads out of it.
-/

namespace WebPipe

open Links

variable {β : Type*} {disk : Disk β} {publicDir : PathBuf} {percentDecode : String → Option String} {request : String}

/-- When a request is answered with a file, the file that is read lies in the canonical public directory. -/
def Confined (disk : Disk β) (publicDir : PathBuf) (percentDecode : String → Option String) (request : String) : Prop :=
  ∀ candidate response, staticCandidate disk publicDir percentDecode request = some candidate →
    tryServeStatic disk publicDir percentDecode request = some response →
    ∃ root place, disk.canonicalize publicDir = some root ∧ disk.canonicalize candidate = some place ∧
      disk.node place = some (.file response.body) ∧ root <+: place

/-- The request ends in a slash, and the `index.html` of the directory it names is a symbolic link to a file elsewhere. -/
def IndexLeadsOut (disk : Disk β) (publicDir : PathBuf) (percentDecode : String → Option String) (request : String) : Prop :=
  ∃ rel root dir target place content, requestedPath percentDecode request = some rel ∧ endsWithSlash request = true ∧
    disk.canonicalize publicDir = some root ∧ disk.canonicalize (publicDir.join rel) = some dir ∧ root <+: dir ∧
    disk.node (dir ++ ["index.html"]) = some (.link target) ∧
    disk.canonicalize ((publicDir.join rel).push "index.html") = some place ∧ disk.node place = some (.file content) ∧ ¬ root <+: place

/-- The public directory is set to the empty text, and the request names a file of the working directory. -/
def Unrooted (disk : Disk β) (publicDir : PathBuf) (percentDecode : String → Option String) (request : String) : Prop :=
  publicDir = .empty ∧ ∃ rel content, requestedPath percentDecode request = some rel ∧
    disk.read (if endsWithSlash request then rel.push "index.html" else rel) = some content

/-! ## The path that is read -/

variable {rel full : PathBuf}

/-- A requested path is relative and names something. -/
theorem requestedPath_spec (h : requestedPath percentDecode request = some rel) : rel.absolute = false ∧ rel.segments ≠ [] := by
  unfold requestedPath at h
  split_ifs at h
  split at h
  · contradiction
  · rename_i decoded _
    dsimp only at h
    split_ifs at h with htrimmed
    · cases h
      exact ⟨by decide +kernel, by decide +kernel⟩
    · cases h
      have hslash : (decoded.toList.dropWhile (· == '/')).head? ≠ some '/' := by
        intro hhead
        have := List.head?_dropWhile_not (· == '/') decoded.toList
        rw [hhead] at this
        simp at this
      simp only [PathBuf.ofText, htrimmed, if_false, String.toList_ofList]
      exact ⟨by simpa using hslash, by simp⟩

/-- The checked path is the requested one under the public directory. -/
theorem normalizeStaticPath_eq (h : normalizeStaticPath disk publicDir percentDecode request = some full) :
    ∃ rel, requestedPath percentDecode request = some rel ∧ full = publicDir.join rel ∧
      ∀ dir root, disk.canonicalize full = some dir → disk.canonicalize publicDir = some root → root <+: dir := by
  unfold normalizeStaticPath at h
  split at h
  · contradiction
  · rename_i rel hrel
    refine ⟨rel, hrel, ?_⟩
    dsimp only at h
    split at h
    · rename_i dir root hdir hroot
      split_ifs at h with hprefix
      cases h
      refine ⟨rfl, fun dir' root' hdir' hroot' => ?_⟩
      rw [hdir] at hdir'
      rw [hroot] at hroot'
      cases hdir'
      cases hroot'
      exact List.isPrefixOf_iff_prefix.mp hprefix
    · rename_i hnone
      split_ifs at h
      cases h
      exact ⟨rfl, fun dir root hdir hroot => absurd hroot (hnone _ _ hdir)⟩

/-- The search for an index below a path that stands for nothing finds none, so the slash alone decides what is read. -/
theorem staticCandidate_eq (hne : full.segments ≠ [])
    (h : normalizeStaticPath disk publicDir percentDecode request = some full) :
    staticCandidate disk publicDir percentDecode request =
      some (if endsWithSlash request then full.push "index.html" else full) := by
  rw [staticCandidate, h]
  dsimp only
  generalize hcandidate : (if endsWithSlash request then full.push "index.html" else full) = candidate
  have hcne : candidate ≠ .empty := by
    intro hempty
    subst hcandidate
    split_ifs at hempty
    · simp [PathBuf.push, PathBuf.join, PathBuf.empty] at hempty
    · exact hne (congrArg PathBuf.segments hempty)
  split_ifs with hmissing hidx
  · have := Disk.exists_of_join hcne rfl hidx
    rw [hmissing.1] at this
    contradiction
  · rfl
  · rfl

theorem join_segments_ne (hrel : rel.absolute = false ∧ rel.segments ≠ []) : (publicDir.join rel).segments ≠ [] := by
  simp [PathBuf.join, hrel.1, hrel.2]

theorem empty_join (hrel : rel.absolute = false) : PathBuf.empty.join rel = rel := by
  cases rel
  simp_all [PathBuf.join, PathBuf.empty]

/-- A request that is answered was checked, and the content of the file is the answer. -/
theorem tryServeStatic_eq_some {candidate : PathBuf} {response : StaticResponse β}
    (hcandidate : staticCandidate disk publicDir percentDecode request = some candidate) :
    tryServeStatic disk publicDir percentDecode request = some response ↔
      ∃ data, disk.read candidate = some data ∧ { contentType := guessContentType candidate, body := data } = response := by
  rw [tryServeStatic, hcandidate]
  exact Option.map_eq_some_iff

/-! ## The condition -/

/-- An index that leads out is read, and so breaks the confinement. -/
theorem not_confined_of_indexLeadsOut (h : IndexLeadsOut disk publicDir percentDecode request) :
    ¬ Confined disk publicDir percentDecode request := by
  obtain ⟨rel, root, dir, target, place, content, hrel, hslash, hroot, hdir, hinside, -, hplace, hfile, hout⟩ := h
  intro hconfined
  have hnormal : normalizeStaticPath disk publicDir percentDecode request = some (publicDir.join rel) := by
    simp [normalizeStaticPath, hrel, hdir, hroot, hinside]
  have hcandidate := staticCandidate_eq (join_segments_ne (requestedPath_spec hrel)) hnormal
  rw [if_pos hslash] at hcandidate
  have hread : disk.read ((publicDir.join rel).push "index.html") = some content := Disk.read_eq_some.mpr ⟨place, hplace, hfile⟩
  obtain ⟨root', place', hroot', hplace', -, hin⟩ :=
    hconfined _ _ hcandidate ((tryServeStatic_eq_some hcandidate).mpr ⟨content, hread, rfl⟩)
  rw [hroot] at hroot'
  rw [hplace] at hplace'
  cases hroot'
  cases hplace'
  exact hout hin

/-- Without a public directory every file of the working directory is served. -/
theorem not_confined_of_unrooted (h : Unrooted disk publicDir percentDecode request) :
    ¬ Confined disk publicDir percentDecode request := by
  obtain ⟨hempty, rel, content, hrel, hread⟩ := h
  intro hconfined
  have hspec := requestedPath_spec hrel
  have hroot : disk.canonicalize publicDir = none := by simp [hempty, Disk.canonicalize]
  have hstarts : (publicDir.join rel).startsWith publicDir = true := by
    simp [hempty, PathBuf.startsWith, PathBuf.components, PathBuf.empty]
  have hnormal : normalizeStaticPath disk publicDir percentDecode request = some (publicDir.join rel) := by
    simp [normalizeStaticPath, hrel, hroot, hstarts]
  have hcandidate := staticCandidate_eq (join_segments_ne hspec) hnormal
  rw [hempty, empty_join hspec.1, ← hempty] at hcandidate
  obtain ⟨root, _, hroot', -⟩ := hconfined _ _ hcandidate ((tryServeStatic_eq_some hcandidate).mpr ⟨content, hread, rfl⟩)
  rw [hroot] at hroot'
  contradiction

/-- A file under a public directory that lies outside of it was reached through the index of the directory that was checked. -/
theorem confined_of_not {full : PathBuf} (hpublic : publicDir ≠ .empty) (hout : ¬ IndexLeadsOut disk publicDir percentDecode request)
    (hnormal : normalizeStaticPath disk publicDir percentDecode request = some full) {place : List String} {content : β}
    (hplace : disk.canonicalize (if endsWithSlash request then full.push "index.html" else full) = some place)
    (hfile : disk.node place = some (.file content)) : ∃ root, disk.canonicalize publicDir = some root ∧ root <+: place := by
  obtain ⟨rel, hrel, rfl, hchecked⟩ := normalizeStaticPath_eq hnormal
  have hspec := requestedPath_spec hrel
  have hfull : publicDir.join rel ≠ .empty := fun h => join_segments_ne hspec (congrArg PathBuf.segments h)
  by_cases hslash : endsWithSlash request = true
  · rw [if_pos hslash] at hplace
    obtain ⟨dir, links, hdir, hwalk⟩ := Disk.canonicalize_join hfull rfl hplace
    obtain ⟨root, _, hroot, -⟩ := Disk.canonicalize_join hpublic hspec.1 hdir
    have hinside := hchecked dir root hdir hroot
    refine ⟨root, hroot, ?_⟩
    by_contra hnot
    by_cases hlink : ∃ target, disk.node (dir ++ ["index.html"]) = some (.link target)
    · obtain ⟨target, hlink⟩ := hlink
      exact hout ⟨rel, root, dir, target, place, content, hrel, hslash, hroot, hdir, hinside, hlink, hplace, hfile, hnot⟩
    · have : place = dir ++ ["index.html"] :=
        Disk.walk_name (by simp [Disk.Proper]) (fun target h => hlink ⟨target, h⟩) hwalk
      subst this
      exact hnot (hinside.trans (List.prefix_append _ _))
  · rw [if_neg hslash] at hplace
    obtain ⟨root, _, hroot, -⟩ := Disk.canonicalize_join hpublic hspec.1 hplace
    exact ⟨root, hroot, hchecked place root hplace hroot⟩

/-- A request is answered from within the public directory exactly when it does not go through an index that leads out of it, and the
public directory is not the empty text. -/
theorem static_confined_iff (disk : Disk β) (publicDir : PathBuf) (percentDecode : String → Option String) (request : String) :
    Confined disk publicDir percentDecode request ↔
      ¬ IndexLeadsOut disk publicDir percentDecode request ∧ ¬ Unrooted disk publicDir percentDecode request := by
  constructor
  · intro h
    exact ⟨fun hout => not_confined_of_indexLeadsOut hout h, fun hunrooted => not_confined_of_unrooted hunrooted h⟩
  · rintro ⟨hout, hunrooted⟩ candidate response hcandidate hresponse
    obtain ⟨data, hread, rfl⟩ := (tryServeStatic_eq_some hcandidate).mp hresponse
    obtain ⟨full, hnormal⟩ : ∃ full, normalizeStaticPath disk publicDir percentDecode request = some full := by
      unfold staticCandidate at hcandidate
      split at hcandidate
      · contradiction
      · exact ⟨_, ‹_›⟩
    obtain ⟨rel, hrel, rfl, -⟩ := normalizeStaticPath_eq hnormal
    have hspec := requestedPath_spec hrel
    rw [staticCandidate_eq (join_segments_ne hspec) hnormal, Option.some.injEq] at hcandidate
    subst hcandidate
    have hpublic : publicDir ≠ .empty := by
      intro hempty
      rw [hempty, empty_join hspec.1] at hread
      exact hunrooted ⟨hempty, rel, data, hrel, hread⟩
    obtain ⟨place, hplace, hfile⟩ := Disk.read_eq_some.mp hread
    obtain ⟨root, hroot, hinside⟩ := confined_of_not hpublic hout hnormal hplace hfile
    exact ⟨root, place, hroot, hplace, hfile, hinside⟩

/-- A public directory `public/docs` whose index is a link to `/etc/passwd`. -/
def linkedDisk : Disk String where
  node place :=
    if place = ["srv", "public", "docs", "index.html"] then some (.link (PathBuf.ofText "/etc/passwd"))
    else if place = ["etc", "passwd"] then some (.file "root:x:0:0")
    else if [[], ["etc"], ["srv"], ["srv", "public"], ["srv", "public", "docs"]].contains place then some .directory
    else none
  workingDir := ["srv"]
  maxLinks := 40

/-- The link is refused by its own name, and served by the name of its directory. -/
theorem linked_index_served :
    tryServeStatic linkedDisk (.ofText "public") some "/docs/index.html" = none ∧
      (tryServeStatic linkedDisk (.ofText "public") some "/docs/").map StaticResponse.body = some "root:x:0:0" ∧
      ¬ Confined linkedDisk (.ofText "public") some "/docs/" := by
  refine ⟨by decide +kernel, by decide +kernel, ?_⟩
  refine not_confined_of_indexLeadsOut ⟨.ofText "docs/", ["srv", "public"], ["srv", "public", "docs"], .ofText "/etc/passwd",
    ["etc", "passwd"], "root:x:0:0", ?_⟩
  decide +kernel

end WebPipe
