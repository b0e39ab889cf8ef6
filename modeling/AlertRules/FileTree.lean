import AlertRules.File
import AlertRules.Path

/-!
# AlertRules.FileTree — files in memory

A tree of directories and files, with paths that lead through it.  A path is walked part by part from
the root, if it begins with a slash, or else from the place where the reader stands.  Every part but
the last must be a directory, also in front of `..`, `.` and a closing slash, so that `a/../b` leads
nowhere without a directory `a`.

**Reading** (`FileTree.read`) finds what lies under a path.  **Opening** (`FileTree.opened`) makes a
path ready for a change: directories on the way to it are created, and so is the file.
-/

namespace AlertRules

namespace FileTree

/-- A directory with what it holds by name, a file with its bytes, or a device, which stays what it is.
-/
inductive Node where
  | directory (entries : List (String × Node))
  | file (bytes : ByteArray)
  | device (content : File.Content)

/-- What lies behind these names. -/
def Node.at? (node : Node) : List String → Option Node
  | [] => some node
  | name :: place =>
    match node with
    | .directory entries =>
      match entries.lookup name with
      | some child => child.at? place
      | none => none
    | _ => none

/-- What lies at a place after `new` has been laid behind these names from there; `none` takes away what
lies there. -/
def Node.put (new : Option Node) : List String → Option Node → Option Node
  | [], _ => new
  | name :: place, some (.directory entries) =>
    let others := entries.filter (·.1 ≠ name)
    match Node.put new place (entries.lookup name) with
    | some child => some (.directory ((name, child) :: others))
    | none => some (.directory others)
  | _ :: _, node? => node?

/-- What is put into a directory lies there afterwards. -/
theorem Node.exists_put (new : Node) {place : List String} (hne : place ≠ []) {node : Node}
    {entries : List (String × Node)} (h : node.at? place.dropLast = some (.directory entries)) :
    ∃ held, Node.put (some new) place (some node) = some (.directory held) ∧
      (Node.directory held).at? place = some new := by
  induction place generalizing node with
  | nil => exact absurd rfl hne
  | cons name place ih =>
    match place, ih with
    | [], _ =>
      simp only [List.dropLast, Node.at?, Option.some.injEq] at h
      subst h
      simp [Node.put, Node.at?]
    | next :: place, ih =>
      rw [List.dropLast_cons_cons] at h
      match node with
      | .directory children =>
        unfold Node.at? at h
        match hc : children.lookup name with
        | none => simp [hc] at h
        | some child =>
          simp only [hc] at h
          obtain ⟨held, hput, hat⟩ := ih (List.cons_ne_nil _ _) h
          refine ⟨(name, .directory held) :: children.filter (·.1 ≠ name), ?_, ?_⟩
          · rw [Node.put, hc, hput]
          · unfold Node.at?
            simpa using hat
      | .file bytes => simp [Node.at?] at h
      | .device content => simp [Node.at?] at h

end FileTree

/-- What the root holds, and the place where the reader stands, by the names on the way there. -/
structure FileTree where
  entries : List (String × FileTree.Node)
  here : List String

namespace FileTree

/-- Why a path leads nowhere. -/
inductive Obstacle where
  | absent
  | exists
  | notDirectory
  | directory
  | tooLong
  | zeroByte
  deriving DecidableEq

/-- The obstacle in words, as the system puts it. -/
def Obstacle.message : Obstacle → String
  | .absent => "No such file or directory (os error 2)"
  | .exists => "File exists (os error 17)"
  | .notDirectory => "Not a directory (os error 20)"
  | .directory => "Is a directory (os error 21)"
  | .tooLong => "File name too long (os error 36)"
  | .zeroByte => "file name contained an unexpected NUL byte"

/-- What lies at a place. -/
def at? (t : FileTree) (place : List String) : Option Node :=
  (Node.directory t.entries).at? place

/-- The tree with something laid at a place, or taken away from there. -/
def put (t : FileTree) (place : List String) (new : Option Node) : FileTree :=
  match Node.put new place (some (.directory t.entries)) with
  | some (.directory entries) => { t with entries }
  | _ => t

theorem at?_put_self (t : FileTree) (new : Node) {place : List String} (hne : place ≠ [])
    {entries : List (String × Node)} (h : t.at? place.dropLast = some (.directory entries)) :
    (t.put place (some new)).at? place = some new := by
  obtain ⟨held, hput, hat⟩ := Node.exists_put new hne h
  simp only [put, hput, at?, hat]

/-! ## Walking along a path -/

/-- The place where a path begins. -/
def start (t : FileTree) (path : String) : List String :=
  if path.toList.head? = some '/' then [] else t.here

/-- The place that a part of a path names, as seen from a directory. -/
def beside (place : List String) (part : String) : List String :=
  if Path.isIdle part then place
  else if part = ".." then place.dropLast
  else place ++ [part]

/-- One part of a path, walked. -/
def step (t : FileTree) (place : List String) (part : String) : Except Obstacle (List String) :=
  match t.at? place with
  | none => .error .absent
  | some (.directory _) =>
    if part.utf8ByteSize ≤ Path.maxNameLength then .ok (beside place part) else .error .tooLong
  | some _ => .error .notDirectory

/-- The path, if the system takes it for one at all. -/
def checked (path : String) : Except Obstacle Unit :=
  if Path.hasZero path then .error .zeroByte
  else if path.utf8ByteSize ≤ Path.maxLength then .ok () else .error .tooLong

/-- The place to which a path leads; there may be nothing yet. -/
def locate (t : FileTree) (path : String) : Except Obstacle (List String) := do
  checked path
  if path = "" then .error .absent else (Path.parts path).foldlM t.step (t.start path)

/-! ## Reading -/

/-- What can be read at a place. -/
def contentOf : Option Node → File.Content
  | none => .missing
  | some (.directory _) => .blocked Obstacle.directory.message
  | some (.file bytes) => .present bytes
  | some (.device content) => content

/-- What lies under a path. -/
def read (t : FileTree) (path : String) : File.Content :=
  match t.locate path with
  | .error _ => .missing
  | .ok place => contentOf (t.at? place)

/-! ## Opening and writing -/

/-- Directories created along these names, up to the first obstacle. -/
def makeDirectories (t : FileTree) (place : List String) :
    List String → Except Obstacle Unit × FileTree
  | [] => (.ok (), t)
  | name :: names =>
    match t.step place name with
    | .error obstacle => (.error obstacle, t)
    | .ok next =>
      match t.at? next with
      | some (.directory _) => t.makeDirectories next names
      | some _ => (.error .exists, t)
      | none => (t.put next (some (.directory []))).makeDirectories next names

/-- The directories on the way to a path, created where they are missing. -/
def makeParent (t : FileTree) (path : String) : Except Obstacle Unit × FileTree :=
  match checked (Path.parent path) with
  | .error obstacle => (.error obstacle, t)
  | .ok () => t.makeDirectories (t.start path) (Path.names path).dropLast

/-- What lies under a path once it has been opened for a change, and the tree then. -/
def opened (t : FileTree) (path : String) : File.Content × FileTree :=
  match t.makeParent path with
  | (.error obstacle, t) => (.blocked obstacle.message, t)
  | (.ok (), t) =>
    match t.locate path with
    | .error obstacle => (.blocked obstacle.message, t)
    | .ok place =>
      match contentOf (t.at? place) with
      | .missing => (.present .empty, t.put place (some (.file .empty)))
      | c => (c, t)

/-- The bytes put into the file to which a path leads. -/
def write (t : FileTree) (path : String) (bytes : ByteArray) : FileTree :=
  match t.locate path with
  | .error _ => t
  | .ok place =>
    match t.at? place with
    | some (.device _) => t
    | _ => t.put place (some (.file bytes))

/-- The file to which a path leads taken away. -/
def remove (t : FileTree) (path : String) : FileTree :=
  match t.locate path with
  | .error _ => t
  | .ok place => t.put place none

end FileTree

end AlertRules
