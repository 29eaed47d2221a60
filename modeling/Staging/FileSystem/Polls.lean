import Staging.FileSystem

/-!
A cancel flag with a schedule. It says of every poll whether the poll finds the flag raised. The
polls are counted, and so are the directories listed, so that a pass over any file system tells which
of its polls was the first to find the flag raised and what it had polled for by then.
-/
namespace Staging

structure Polls where
  /-- Whether the poll of this number finds the flag raised. -/
  raised : Nat → Bool
  /-- The polls so far. -/
  made : Nat := 0
  /-- The listings so far. -/
  listed : Nat := 0

namespace Polls

/-- After so many more polls and listings. -/
def after (p : Polls) (polls : Nat) (listings : Nat := 0) : Polls :=
  { p with made := p.made + polls, listed := p.listed + listings }

variable {m : Type → Type} [Monad m]

instance [FileSystem m] : FileSystem (StateT Polls m) where
  read p := StateT.lift (FileSystem.read p)
  write p content := StateT.lift (FileSystem.write p content)
  copy source target := StateT.lift (FileSystem.copy source target)
  removeFile p := StateT.lift (FileSystem.removeFile p)
  rename source target := StateT.lift (FileSystem.rename source target)
  createDirs p := StateT.lift (FileSystem.createDirs p)
  isPresent p := StateT.lift (FileSystem.isPresent p)
  isFile p := StateT.lift (FileSystem.isFile p)
  isDir p := StateT.lift (FileSystem.isDir p)
  modified p := StateT.lift (FileSystem.modified p)
  list path := fun p => return (← FileSystem.list path, p.after 0 1)
  isCancelled := fun p => return (p.raised p.made, p.after 1)
  depth := StateT.lift FileSystem.depth

end Polls
end Staging
