import Staging.Toml.Value

/-!
Tables under construction. A table may be spread over a document, and what may still be added to
it depends on how it came to be. A table is defined once: by its own header, or by dotted keys in
one place.
-/
namespace Staging.Toml

/-- How a table came to be. -/
inductive Origin where
  /-- By a header or braces of its own. -/
  | own
  /-- By the header of a table below it. -/
  | implied
  /-- By a dotted key. -/
  | dotted
  deriving DecidableEq, Repr

/-- What a key holds. Of a series of tables only the last can still grow. -/
inductive Node where
  | leaf (v : Value)
  | table (origin : Origin) (entries : List (String × Node))
  | series (done : List Value) (entries : List (String × Node))

abbrev Entries := List (String × Node)

mutual

def Node.value : Node → Value
  | .leaf v => v
  | .table _ entries => .table (entryValues entries)
  | .series done entries => .array (done ++ [.table (entryValues entries)])

def entryValues : List (String × Node) → List (String × Value)
  | [] => []
  | (key, node) :: rest => (key, node.value) :: entryValues rest

end

namespace Entries

/-- Puts a node under a key, in the place of the one before or at the end. -/
def put (key : String) (node : Node) : Entries → Entries
  | [] => [(key, node)]
  | (k, n) :: rest => if k = key then (k, node) :: rest else (k, n) :: put key node rest

/-- Changes the table that a path of keys leads to, making the tables that are missing on the
way. A dotted key does not lead through a table with a header of its own. -/
def within (made : Origin) (change : Origin → Entries → Except Fault Entries) :
    (path : List String) → Origin → Entries → Except Fault Entries
  | [], origin, entries => change origin entries
  | key :: path, _, entries =>
    match entries.lookup key with
    | none => do
      let inner ← within made change path made []
      return put key (.table made inner) entries
    | some (.table origin inner) => do
      if made = .dotted ∧ origin = .own then throw (.redefined key)
      let inner ← within made change path origin inner
      return put key (.table origin inner) entries
    | some (.series done inner) => do
      let inner ← within made change path .own inner
      return put key (.series done inner) entries
    | some (.leaf _) => .error (.notTable key)

/-- Adds one pair to a table. A plain key goes into a table that was not made by dotted keys, and
the last key of a dotted one into a table that was. -/
def addPair (entries : Entries) (path : List String) (key : String) (v : Value) :
    Except Fault Entries :=
  within .dotted (fun origin inner =>
    if (origin = .dotted) = (path = []) ∨ (inner.lookup key).isSome then .error (.redefined key)
    else .ok (put key (.leaf v) inner)) path .own entries

end Entries

/-- A key and the keys before its dots. -/
structure Key where
  path : List String
  last : String
  deriving DecidableEq, Repr

def Entries.addPairs (entries : Entries) (pairs : List (Key × Value)) : Except Fault Entries :=
  pairs.foldlM (fun entries (key, v) => entries.addPair key.path key.last v) entries

/-- The value in braces. -/
def inlineTable (pairs : List (Key × Value)) : Except Fault Value :=
  (Entries.addPairs [] pairs).map fun entries => .table (entryValues entries)

structure Header where
  key : Key
  /-- Written in double brackets: one table more for a series. -/
  isSeries : Bool
  deriving DecidableEq, Repr

/-- The pairs below one header; those before the first header have none. -/
structure Section where
  header : Option Header
  pairs : List (Key × Value)

/-- The table of a section, which may have been implied by the header of a table below it. -/
def Section.place (s : Section) (key : String) (parent : Entries) : Except Fault Entries :=
  match parent.lookup key with
  | none => return parent.put key (.table .own (← Entries.addPairs [] s.pairs))
  | some (.table .implied inner) =>
    return parent.put key (.table .own (← Entries.addPairs inner s.pairs))
  | some _ => .error (.redefined key)

/-- The next table of a series. -/
def Section.append (s : Section) (key : String) (parent : Entries) : Except Fault Entries :=
  match parent.lookup key with
  | none => return parent.put key (.series [] (← Entries.addPairs [] s.pairs))
  | some (.series done inner) =>
    return parent.put key
      (.series (done ++ [.table (entryValues inner)]) (← Entries.addPairs [] s.pairs))
  | some _ => .error (.redefined key)

def Entries.addSection (root : Entries) (s : Section) : Except Fault Entries :=
  match s.header with
  | none => root.addPairs s.pairs
  | some h =>
    within .implied (fun _ parent =>
      if h.isSeries then s.append h.key.last parent else s.place h.key.last parent)
      h.key.path .own root

end Staging.Toml
