import Staging.Toml.Moment
import Staging.Toml.Number

/-!
Typed reading of TOML values. A record is a table with a known set of fields; it may also be
written as an array of its leading fields in order. Of what is in a table but no field, the numbers
still have to be within range; the items of an array past the last field are not looked at.
-/
namespace Staging.Toml

/-- The key under which a date or a time stands where a table is wanted. -/
def momentKey : String := "$__toml_private_datetime"

/-- The entries of a value that can stand for a table. A date or a time stands for one entry. -/
def Value.entries? : Value → Option (List (String × Value))
  | .table entries => some entries
  | .moment m => some [(momentKey, .string m.render)]
  | _ => none

mutual

/-- Refuses a value with a number in it that is out of range. -/
def Value.check : Value → Except Fault Unit
  | .number written =>
    if (Number.read written).isSome then .ok () else .error (.outOfRange written)
  | .array items => checkItems items
  | .table entries => checkEntries entries
  | _ => .ok ()

def checkItems : List Value → Except Fault Unit
  | [] => .ok ()
  | v :: rest => do
    v.check
    checkItems rest

def checkEntries : List (String × Value) → Except Fault Unit
  | [] => .ok ()
  | (_, v) :: rest => do
    v.check
    checkEntries rest

end

/-- The fields of a record that are given. -/
abbrev Record := List (String × Value)

namespace Record

def ofEntries (fields : List String) (entries : List (String × Value)) : Except Fault Record := do
  checkEntries (entries.filter fun (name, _) => name ∉ fields)
  return entries

/-- The record that a value stands for, by the names of its fields in order. -/
def ofValue (fields : List String) (v : Value) : Except Fault Record :=
  match v, v.entries? with
  | .array items, _ => .ok (fields.zip items)
  | _, some entries => ofEntries fields entries
  | _, none => .error (.mismatch "a table")

/-- A field that may be left out. -/
def optional {α : Type} (r : Record) (field : String) (read : Value → Except Fault α) :
    Except Fault (Option α) :=
  match r.lookup field with
  | some v => (read v).map some
  | none => .ok none

def withDefault {α : Type} (r : Record) (field : String) (read : Value → Except Fault α)
    (default : α) : Except Fault α :=
  (r.optional field read).map (·.getD default)

def required {α : Type} (r : Record) (field : String) (read : Value → Except Fault α) :
    Except Fault α :=
  match r.lookup field with
  | some v => read v
  | none => .error (.missing field)

end Record

namespace Value

def asString : Value → Except Fault String
  | .string s => .ok s
  | _ => .error (.mismatch "a string")

def asBool : Value → Except Fault Bool
  | .boolean b => .ok b
  | _ => .error (.mismatch "a boolean")

def asList {α : Type} (read : Value → Except Fault α) : Value → Except Fault (List α)
  | .array items => items.mapM read
  | _ => .error (.mismatch "an array")

/-- The entries of a table whose keys are free. -/
def asEntries {α : Type} (read : Value → Except Fault α) (v : Value) :
    Except Fault (List (String × α)) :=
  match v.entries? with
  | some entries => entries.mapM fun (key, v) => return (key, ← read v)
  | none => .error (.mismatch "a table")

/-- Nothing: an empty array or an empty table. -/
def isEmpty : Value → Bool
  | .array items => items.isEmpty
  | .table entries => entries.isEmpty
  | _ => false

/-- One of some names, written as a string or as a table with the name over nothing. -/
def asName {α : Type} (names : List (String × α)) : Value → Except Fault α
  | .string s =>
    match names.lookup s with
    | some a => .ok a
    | none => .error (.mismatch "one of the known names")
  | .table [(s, v)] =>
    match names.lookup s, v.isEmpty with
    | some a, true => .ok a
    | _, _ => .error (.mismatch "one of the known names")
  | _ => .error (.mismatch "a string")

end Value
end Staging.Toml
