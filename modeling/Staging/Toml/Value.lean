/-!
Values of TOML documents, and what can be wrong with a document.
-/
namespace Staging.Toml

structure Date where
  year : Nat
  month : Nat
  day : Nat
  deriving DecidableEq, Repr

structure Time where
  hour : Nat
  minute : Nat
  second : Nat := 0
  nanosecond : Nat := 0
  deriving DecidableEq, Repr

/-- How far local time is from UTC. A letter says that it is UTC itself, and no difference in
minutes is written with that letter, not even zero. -/
inductive Offset where
  | utc
  | minutes (n : Int)
  deriving DecidableEq, Repr

/-- A date, a time of day, or both, with or without an offset from UTC. -/
structure Moment where
  date : Option Date := none
  time : Option Time := none
  offset : Option Offset := none
  deriving DecidableEq, Repr

inductive Value where
  | string (text : String)
  /-- A number as it is written. What it amounts to matters only to those who read it. -/
  | number (written : String)
  | boolean (b : Bool)
  | moment (m : Moment)
  | array (items : List Value)
  | table (entries : List (String × Value))
  deriving Inhabited, Repr

inductive Fault where
  | unexpected (found : Option Char)
  | control (c : Char)
  | unclosedString
  | badEscape
  | badValue (text : String)
  | outOfRange (text : String)
  | redefined (key : String)
  | notTable (key : String)
  | tooDeep
  | mismatch (wanted : String)
  | missing (field : String)
  deriving DecidableEq, Repr

def Fault.message : Fault → String
  | unexpected none => "unexpected end of the document"
  | unexpected (some c) => "unexpected character '" ++ String.singleton c ++ "'"
  | control c => "control character " ++ toString c.toNat ++ " is not allowed here"
  | unclosedString => "unclosed string"
  | badEscape => "no such escape sequence"
  | badValue text => "'" ++ text ++ "' is no value"
  | outOfRange text => "'" ++ text ++ "' is out of range"
  | redefined key => "duplicate key '" ++ key ++ "'"
  | notTable key => "key '" ++ key ++ "' holds no table that can be extended"
  | tooDeep => "values are nested too deeply"
  | mismatch wanted => "expected " ++ wanted
  | missing field => "missing field '" ++ field ++ "'"

end Staging.Toml
