/-!
Places on a disk. A place keeps its depth beside its names, so that places of different depth are told apart at once.
-/
namespace Gridbook

structure Location where
  depth : Nat
  /-- The names of the place and of the folders above it, up to the root. -/
  names : List String
  length_names : names.length = depth
  deriving DecidableEq

namespace Location

theorem eq_of_names {a b : Location} (same : a.names = b.names) : a = b := by
  obtain ⟨_, _, rfl⟩ := a
  obtain ⟨_, _, rfl⟩ := b
  cases same
  rfl

def root : Location := ⟨0, [], rfl⟩

def child (folder : Location) (name : String) : Location :=
  ⟨folder.depth + 1, name :: folder.names, by simp [folder.length_names]⟩

/-- The folder that a place lies in. Above the root is the root. -/
def above (location : Location) : Location :=
  ⟨location.depth - 1, location.names.tail, by simp [location.length_names]⟩

def name? (location : Location) : Option String := location.names.head?

/-- The place that names lead to from the root. -/
def ofNames (names : List String) : Location := names.foldl child root

@[simp] theorem above_child (folder : Location) (name : String) : (folder.child name).above = folder :=
  eq_of_names rfl

@[simp] theorem name?_child (folder : Location) (name : String) : (folder.child name).name? = some name := rfl

end Location
end Gridbook
