import Staging.FileSystem.Memory

/-!
A file tree in memory that remembers. It keeps the tree as it was before each call that may change
it, so that a pass over it tells every tree that stopping the pass could leave.
-/
namespace Staging

structure History where
  /-- The tree before each call so far, the first one first. -/
  past : List Memory
  now : Memory

namespace History

def ofMemory (st : Memory) : History := ⟨[], st⟩

/-- The tree after so many calls that may change it, or after all of them. -/
def after (h : History) (calls : Nat) : Memory := (h.past ++ [h.now]).getD calls h.now

/-- A call that changes nothing. -/
def look {α : Type} (call : StateM Memory α) : StateM History α := fun h => ((call h.now).1, h)

/-- A call that may change the tree, and does so at once. -/
def mutate {α : Type} (call : StateM Memory α) : StateM History α := fun h =>
  ((call h.now).1, ⟨h.past ++ [h.now], (call h.now).2⟩)

instance : FileSystem (StateM History) where
  read p := look (FileSystem.read p)
  write p content := mutate (FileSystem.write p content)
  copy source target := mutate (FileSystem.copy source target)
  removeFile p := mutate (FileSystem.removeFile p)
  rename source target := mutate (FileSystem.rename source target)
  createDirs p := mutate (FileSystem.createDirs p)
  isPresent p := look (FileSystem.isPresent p)
  isFile p := look (FileSystem.isFile p)
  isDir p := look (FileSystem.isDir p)
  modified p := look (FileSystem.modified p)
  list p := look (FileSystem.list p)
  isCancelled := look FileSystem.isCancelled
  depth := look FileSystem.depth

end History
end Staging
