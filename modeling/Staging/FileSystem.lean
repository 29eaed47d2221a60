import Staging.Path
import Staging.Text.Utf8

/-!
What a pass asks of the files around it. Every call may fail, and a failure is a value; nothing is
assumed about what the calls do, so a pass runs unchanged over a tree in memory, a disk, or either
of them with faults put in.
-/
namespace Staging

/-- The calls that can fail, by kind. -/
inductive Call where
  | read
  | write
  | copy
  | removeFile
  | rename
  | createDirs
  | modified
  | list
  deriving DecidableEq, Repr

def Call.name : Call → String
  | read => "read"
  | write => "write"
  | copy => "copy"
  | removeFile => "remove_file"
  | rename => "rename"
  | createDirs => "create_dir_all"
  | modified => "modified"
  | list => "read_dir"

def Call.all : List Call :=
  [read, write, copy, removeFile, rename, createDirs, modified, list]

/-- What the operating system refuses with. -/
inductive SystemFault where
  | notFound
  | busy
  | alreadyThere
  | notDirectory
  | isDirectory
  | invalid
  | nameTooLong
  | notEmpty
  | nulInName
  | notRegular
  | notUtf8
  /-- The file system takes no such name. -/
  | notName
  /-- A refusal known only by its text. -/
  | other (text : String)
  deriving DecidableEq, Repr

def SystemFault.message : SystemFault → String
  | notFound => "No such file or directory (os error 2)"
  | busy => "Device or resource busy (os error 16)"
  | alreadyThere => "File exists (os error 17)"
  | notDirectory => "Not a directory (os error 20)"
  | isDirectory => "Is a directory (os error 21)"
  | invalid => "Invalid argument (os error 22)"
  | nameTooLong => "File name too long (os error 36)"
  | notEmpty => "Directory not empty (os error 39)"
  | nulInName => "file name contained an unexpected NUL byte"
  | notRegular => "the source path is neither a regular file nor a symlink to a regular file"
  | notUtf8 => "stream did not contain valid UTF-8"
  | notName => "Invalid or incomplete multibyte or wide character (os error 84)"
  | other text => text

/-- The fault with a number that the system gives it. -/
def SystemFault.ofNumber (number : Nat) (text : String) : SystemFault :=
  match number with
  | 2 => notFound
  | 16 => busy
  | 17 => alreadyThere
  | 20 => notDirectory
  | 21 => isDirectory
  | 22 => invalid
  | 36 => nameTooLong
  | 39 => notEmpty
  | 84 => notName
  | _ => other (text ++ " (os error " ++ toString number ++ ")")

/-- What was being done to the disk when it failed. -/
inductive Action where
  | readingFile (p : Path)
  | creatingFile (p : Path)
  | copying (source target : Path)
  | removingFile (p : Path)
  | moving (source target : Path)
  | creatingDir (p : Path)
  | readingTime (p : Path)
  | readingDir (p : Path)
  deriving DecidableEq, Repr

def Action.message : Action → String
  | readingFile p => "reading file " ++ p.quoted
  | creatingFile p => "creating file " ++ p.quoted
  | copying source target => "copying " ++ source.quoted ++ " to " ++ target.quoted
  | removingFile p => "removing file " ++ p.quoted
  | moving source target => "renaming " ++ source.quoted ++ " to " ++ target.quoted
  | creatingDir p => "creating dir " ++ p.quoted
  | readingTime p => "reading modification time of " ++ p.quoted
  | readingDir p => "reading dir " ++ p.quoted

/-- Why a call failed. -/
inductive FsError where
  | denied (p : Path)
  | isDirectory (p : Path)
  | notFound (p : Path)
  | notDirectory (p : Path)
  | notListable (p : Path)
  | movesDirectory (p : Path)
  | injected (call : Call) (p : Path)
  | system (action : Action) (fault : SystemFault)
  deriving DecidableEq, Repr

/-- The failure without its cause. -/
def FsError.summary : FsError → String
  | denied p => "Permission denied: " ++ p.quoted
  | isDirectory p => "Is a directory: " ++ p.quoted
  | notFound p => "File not found: " ++ p.quoted
  | notDirectory p => "Not a directory: " ++ p.quoted
  | notListable p => "Not a directory or not found: " ++ p.quoted
  | movesDirectory p => "Renaming directories is not supported: " ++ p.quoted
  | injected call p => "injected " ++ call.name ++ " failure: " ++ p.quoted
  | system action _ => action.message

/-- What the system said, or the failure itself where no system was asked. -/
def FsError.fault : FsError → SystemFault
  | system _ fault => fault
  | e => .other e.summary

/-- The failure with its cause. -/
def FsError.message : FsError → String
  | system action fault => action.message ++ ": " ++ fault.message
  | e => e.summary

class FileSystem (m : Type → Type) where
  read : Path → m (Except FsError Bytes)
  /-- Writes a file, with the directories above it. -/
  write : Path → Bytes → m (Except FsError Unit)
  /-- Copies a file, with the directories above the copy. -/
  copy : (source target : Path) → m (Except FsError Unit)
  removeFile : Path → m (Except FsError Unit)
  rename : (source target : Path) → m (Except FsError Unit)
  /-- Creates a directory and those above it, as far as they are missing. -/
  createDirs : Path → m (Except FsError Unit)
  isPresent : Path → m Bool
  isFile : Path → m Bool
  isDir : Path → m Bool
  /-- Modification time in milliseconds since the epoch. -/
  modified : Path → m (Except FsError Int64)
  /-- The entries of a directory, in no particular order. -/
  list : Path → m (Except FsError (List Path))
  /-- Whether the pass has been asked to stop. -/
  isCancelled : m Bool
  /-- A bound on how many directories lie inside one another. -/
  depth : m Nat

/-- What a program asks of the machine beside its files. -/
class Host (m : Type → Type) where
  /-- The one spelling of an existing path without dots and links. -/
  canonical : Path → m (Option Path)
  workingDir : m (Option Path)

end Staging
