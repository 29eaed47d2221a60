import Staging.Casing
import Staging.SortedMap

/-!
Sets of output paths up to case. A set keeps one spelling for each comparison key, the one put in
last, and lists its spellings in key order.
-/
namespace Staging

structure PathSet where
  casing : Casing
  /-- Spellings by comparison key. -/
  entries : SortedMap String String
  deriving DecidableEq

namespace PathSet

def empty (casing : Casing) : PathSet := ⟨casing, .empty⟩

def contains (s : PathSet) (path : String) : Bool := s.entries.contains (s.casing.key path)

def insert (s : PathSet) (path : String) : PathSet :=
  { s with entries := s.entries.insert (s.casing.key path) path }

/-- Puts a path in, and says whether no spelling of it was there. -/
def add (s : PathSet) (path : String) : PathSet × Bool :=
  (s.insert path, (s.entries.get? (s.casing.key path)).isNone)

def ofList (casing : Casing) (paths : List String) : PathSet := paths.foldl insert (empty casing)

/-- The spellings in key order. -/
def toList (s : PathSet) : List String := s.entries.values

def size (s : PathSet) : Nat := s.entries.size

def isEmpty (s : PathSet) : Bool := s.entries.isEmpty

/-- The paths of `s` that `t` does not have. Sets of one casing are compared by key; if the casings
differ, each path of `s` is looked up in `t` as `t` compares. -/
def difference (s t : PathSet) : List String :=
  (s.entries.toList.filter fun (key, path) =>
    if t.casing = s.casing then !t.entries.contains key else !t.contains path).map (·.2)

/-- The same spellings under another casing. -/
def withCasing (s : PathSet) (casing : Casing) : PathSet := ofList casing s.toList

/-- Equal as sets: the same casing and the same keys, whatever the spellings. -/
def same (s t : PathSet) : Bool :=
  s.casing == t.casing && s.size == t.size && s.entries.keys.all t.entries.contains

end PathSet
end Staging
