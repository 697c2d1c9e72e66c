import Mathlib.Data.List.Infix

/-! Files in a tree of directories. A file can be made only in a directory that is
there; there are no other faults. -/

namespace GoDB.Lib
open Function

inductive FileNode where
  | directory
  | file (content : String)
deriving DecidableEq

inductive FileError where
  | notExist
  | notDirectory
  | isDirectory
deriving DecidableEq

abbrev Path := List String

structure FileSystem where
  node : Path → Option FileNode
  parents : ∀ dir name, (node (dir ++ [name])).isSome → node dir = some .directory

namespace FileSystem

/-- Why there is nothing at a path: something on the way to it is a file, or it is
just not there. -/
def missing (fs : FileSystem) (path : Path) : FileError :=
  if path.inits.any fun ancestor => (fs.node ancestor).any (· ≠ .directory) then .notDirectory else .notExist

def readFile (fs : FileSystem) (path : Path) : Except FileError String :=
  match fs.node path with
  | some (.file content) => .ok content
  | some .directory => .error .isDirectory
  | none => .error (fs.missing path)

variable {fs : FileSystem} {path : Path}

theorem parents_of_kept {later : Path → Option FileNode}
    (inside : ∀ dir name, path = dir ++ [name] → fs.node dir = some .directory)
    (added : ∀ other, (later other).isSome → other = path ∨ (fs.node other).isSome)
    (kept : ∀ dir, fs.node dir = some .directory → later dir = some .directory) :
    ∀ dir name, (later (dir ++ [name])).isSome → later dir = some .directory := by
  intro dir name present
  apply kept
  rcases added _ present with same | before
  · exact inside dir name same.symm
  · exact fs.parents dir name before

def Takes (fs : FileSystem) (path : Path) : Prop :=
  fs.node path ≠ some .directory ∧ path ≠ [] ∧ fs.node path.dropLast = some .directory

instance (fs : FileSystem) (path : Path) : Decidable (fs.Takes path) := inferInstanceAs (Decidable (_ ∧ _ ∧ _))

theorem Takes.inside (takes : fs.Takes path) : ∀ dir name, path = dir ++ [name] → fs.node dir = some .directory := by
  rintro dir name rfl
  simpa using takes.2.2

theorem Takes.parents_write (takes : fs.Takes path) (content : String) :
    ∀ dir name, (update fs.node path (some (.file content)) (dir ++ [name])).isSome →
      update fs.node path (some (.file content)) dir = some .directory := by
  refine parents_of_kept takes.inside (fun other present => ?_) fun dir there => ?_
  · by_cases same : other = path
    · exact .inl same
    · rw [update_of_ne same] at present
      exact .inr present
  · have other : dir ≠ path := by
      rintro rfl
      exact takes.1 there
    rw [update_of_ne other, there]

theorem Takes.parents_move {old new : Path} {content : String} (takes : fs.Takes new)
    (found : fs.node old = some (.file content)) :
    ∀ dir name, (update (update fs.node old none) new (some (.file content)) (dir ++ [name])).isSome →
      update (update fs.node old none) new (some (.file content)) dir = some .directory := by
  refine parents_of_kept takes.inside (fun other present => ?_) fun dir there => ?_
  · by_cases same : other = new
    · exact .inl same
    · rw [update_of_ne same] at present
      by_cases gone : other = old
      · simp [gone] at present
      · rw [update_of_ne gone] at present
        exact .inr present
  · have other : dir ≠ new := by
      rintro rfl
      exact takes.1 there
    have another : dir ≠ old := by
      rintro rfl
      simp [found] at there
    rw [update_of_ne other, update_of_ne another, there]

def refusal (fs : FileSystem) (path : Path) : FileError :=
  if fs.node path = some .directory ∨ path = [] then .isDirectory else fs.missing path

def writeFile (fs : FileSystem) (path : Path) (content : String) : Except FileError FileSystem :=
  if takes : fs.Takes path then
    .ok ⟨update fs.node path (some (.file content)), takes.parents_write content⟩
  else .error (fs.refusal path)

def rename (fs : FileSystem) (old new : Path) : Except FileError FileSystem :=
  match found : fs.node old with
  | none => .error (fs.missing old)
  | some .directory => .error .isDirectory
  | some (.file content) =>
    if old = new then .ok fs
    else if takes : fs.Takes new then
      .ok ⟨update (update fs.node old none) new (some (.file content)), takes.parents_move found⟩
    else .error (fs.refusal new)

end FileSystem
end GoDB.Lib
