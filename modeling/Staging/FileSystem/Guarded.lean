import Staging.FileSystem

/-!
A file system with faults. Some calls on some paths fail without being made, and one call can
raise the cancel flag the moment it is made. Copying and renaming go by their source.
-/
namespace Staging

structure Guard where
  cancelled : Bool := false
  cancelOn : Option (Call × Path) := none
  faults : List (Call × Path) := []

namespace Guard

def isFor (call : Call) (p : Path) (entry : Call × Path) : Bool :=
  entry.1 == call && entry.2.same p

/-- What the guard knows after a call has been announced. -/
def announce (g : Guard) (call : Call) (p : Path) : Guard :=
  { g with cancelled := g.cancelled || g.cancelOn.any (isFor call p) }

variable {m : Type → Type} [Monad m]

/-- Announces a call, and makes it unless it is to fail. -/
def through {α : Type} (call : Call) (p : Path) (run : m (Except FsError α)) :
    StateT Guard m (Except FsError α) := fun g => do
  let g := g.announce call p
  if g.faults.any (isFor call p) then return (.error (.injected call p), g)
  return (← run, g)

instance [FileSystem m] : FileSystem (StateT Guard m) where
  read p := through .read p (FileSystem.read p)
  write p content := through .write p (FileSystem.write p content)
  copy source target := through .copy source (FileSystem.copy source target)
  removeFile p := through .removeFile p (FileSystem.removeFile p)
  rename source target := through .rename source (FileSystem.rename source target)
  createDirs p := through .createDirs p (FileSystem.createDirs p)
  isPresent p := StateT.lift (FileSystem.isPresent p)
  isFile p := StateT.lift (FileSystem.isFile p)
  isDir p := StateT.lift (FileSystem.isDir p)
  modified p := through .modified p (FileSystem.modified p)
  list p := through .list p (FileSystem.list p)
  isCancelled := fun g => return (g.cancelled || (← FileSystem.isCancelled), g)
  depth := StateT.lift FileSystem.depth

end Guard
end Staging
