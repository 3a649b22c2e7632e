import FlatLisp.Error

/-!
# Sources

Program text is loaded by path. Where it comes from is up to the embedder; there are loaders for
sources in memory and for trees of files, and one that refuses every path. A path in a tree is
followed component by component, as a file system does it.
-/

namespace FlatLisp

/-- What stands at a place in a tree of files. -/
inductive FileNode where
  | directory
  | file (content : ByteArray)

/-- A tree of files: the entries below the base directory by their components. The directories on
the way to an entry need not be listed. -/
abbrev FileTree := List (List String × FileNode)

namespace FileTree

/-- The node at a place. The base is a directory, and so is every place on the way to an entry. -/
def node? (tree : FileTree) (place : List String) : Option FileNode :=
  match tree.find? fun entry => entry.1 == place with
  | some entry => some entry.2
  | none =>
    if place.isEmpty || tree.any (fun entry => place.isPrefixOf entry.1) then some .directory
    else none

/-- Follow the components of a path from the directory `place`, or from a directory outside of the
base if there is no place. An empty component and `.` stay where they are, and `..` goes up; all
three need a directory. Outside of the base there are directories on the way up and nothing else. -/
def follow (tree : FileTree) :
    (place : Option (List String)) → List String → Except SourceFault (Option (List String))
  | place, [] => .ok place
  | none, component :: rest =>
    if component = "" ∨ component = "." ∨ component = ".." then follow tree none rest
    else .error .noSuchFile
  | some place, component :: rest =>
    match tree.node? place with
    | none => .error .noSuchFile
    | some (.file _) => .error .notADirectory
    | some .directory =>
      if component = "" ∨ component = "." then follow tree (some place) rest
      else if component = ".." then
        follow tree (if place.isEmpty then none else some place.dropLast) rest
      else follow tree (some (place ++ [component])) rest

/-- The text of the file at a path. A path that starts with a slash starts outside of the base. -/
def load (tree : FileTree) (path : String) : Except SourceFault String := do
  match ← tree.follow (if path.startsWith "/" then none else some []) (path.splitOn "/") with
  | none => .error .isADirectory
  | some place =>
    match tree.node? place with
    | none => .error .noSuchFile
    | some .directory => .error .isADirectory
    | some (.file content) =>
      match String.fromUTF8? content with
      | some text => .ok text
      | none => .error .invalidEncoding

end FileTree

/-- Where a session takes sources from. A loader is a part of the embedder: for each path it has a
text, at all times the same, or a failure. -/
structure Loader where
  load : String → Except Error String
  /-- All that a loader reports is that a source is unavailable. -/
  unavailable : ∀ {path : String} {e : Error}, load path = .error e → e.IsUnavailable

namespace Loader

/-- The loader with the texts that `read` finds. A failure names the path that was asked for. -/
def ofRead (read : String → Except SourceFault String) : Loader where
  load path := (read path).mapError (.sourceUnavailable path)
  unavailable := by
    intro path e h
    cases hread : read path with
    | error fault =>
      rw [hread] at h
      cases h
      exact trivial
    | ok text =>
      rw [hread] at h
      cases h

/-- Refuses every path. -/
def disabled : Loader :=
  ofRead fun _ => .error .disabled

/-- Sources in memory, by path. -/
def memory (sources : List (String × String)) : Loader :=
  ofRead fun path => (sources.lookup path).elim (.error .unknown) .ok

/-- Files below a base directory, which the empty path names. -/
def files (tree : FileTree) : Loader :=
  ofRead tree.load

/-- Files below the working directory, where the empty path names nothing. -/
def workingDirectory (tree : FileTree) : Loader :=
  ofRead fun path => if path = "" then .error .noSuchFile else tree.load path

/-- What a file system has answered so far, by path. -/
def recorded (answers : List (String × Except SourceFault String)) : Loader :=
  ofRead fun path => (answers.lookup path).getD (.error .noSuchFile)

end Loader

end FlatLisp
