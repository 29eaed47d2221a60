import Staging.Bytes.Blake3
import Staging.Ledger

/-!
The ledger as a file: a version, the units with their paths, and a BLAKE3 checksum of everything
before it. Numbers have four bytes in two's complement, highest byte first; a string is its length
in bytes and its UTF-8 form. Any departure rejects the whole file.
-/
namespace Staging.Ledger

def formatVersion : Nat := 1

def checksumLength : Nat := 32

/-- Why a file is no ledger. -/
inductive Fault where
  | versionMismatch (actual : Int)
  | truncated (offset : Nat)
  | checksumMismatch
  | negativeLength (value : Int) (offset : Nat)
  | invalidUtf8 (offset : Nat)
  | trailingBytes (count : Nat)
  deriving DecidableEq, Repr

def Fault.message : Fault → String
  | versionMismatch actual =>
    "format version mismatch: expected " ++ toString formatVersion ++ ", got " ++ toString actual
  | truncated offset => "cache file truncated at byte " ++ toString offset
  | checksumMismatch => "checksum mismatch"
  | negativeLength value offset =>
    "negative length " ++ toString value ++ " at byte " ++ toString offset
  | invalidUtf8 offset => "invalid UTF-8 string at byte " ++ toString offset
  | trailingBytes count => toString count ++ " unexpected bytes after the last unit"

def number (n : Nat) : Bytes := Bytes.bigEndian 4 n

def text (s : String) : Bytes := number (Utf8.encode s).length ++ Utf8.encode s

def unitEntry (entry : String × PathSet) : Bytes :=
  text entry.1 ++ number entry.2.size ++ entry.2.toList.flatMap text

/-- Everything the checksum covers. -/
def body (units : SortedMap String PathSet) : Bytes :=
  number formatVersion ++ number units.size ++ units.toList.flatMap unitEntry

def encode (units : SortedMap String PathSet) : Bytes :=
  body units ++ Blake3.hash (body units)

/-- The bytes not read yet and the place of the first of them. -/
structure Cursor where
  offset : Nat
  rest : Bytes

abbrev Reader (α : Type) := StateT Cursor (Except Fault) α

def readBytes (n : Nat) : Reader Bytes := fun c =>
  if n ≤ c.rest.length then .ok (c.rest.take n, ⟨c.offset + n, c.rest.drop n⟩)
  else .error (.truncated c.offset)

def readNumber : Reader Int := do
  return Bytes.signed 32 (Bytes.ofBigEndian (← readBytes 4))

def readLength : Reader Nat := do
  let offset := (← get).offset
  match ← readNumber with
  | .ofNat n => return n
  | value => throw (.negativeLength value offset)

def readText : Reader String := do
  let length ← readLength
  let offset := (← get).offset
  match Utf8.decode? (← readBytes length) with
  | some s => return s
  | none => throw (.invalidUtf8 offset)

/-- Reads so many paths into a set. -/
def readPaths : (count : Nat) → PathSet → Reader PathSet
  | 0, paths => return paths
  | count + 1, paths => do readPaths count (paths.insert (← readText))

/-- Reads so many units into a map; a repeated unit replaces the one before. -/
def readUnits (casing : Casing) :
    (count : Nat) → SortedMap String PathSet → Reader (SortedMap String PathSet)
  | 0, units => return units
  | count + 1, units => do
    let unit ← readText
    let paths ← readPaths (← readLength) (.empty casing)
    readUnits casing count (units.insert unit paths)

def readBody (casing : Casing) : Reader (SortedMap String PathSet) := do
  let units ← readUnits casing (← readLength) .empty
  match (← get).rest.length with
  | 0 => return units
  | count => throw (.trailingBytes count)

/-- Reads a file. The version is looked at first, so that files of other versions say so. -/
def decode (bytes : Bytes) (casing : Casing) : Except Fault (SortedMap String PathSet) := do
  let (version, _) ← readNumber.run ⟨0, bytes⟩
  if version ≠ formatVersion then throw (.versionMismatch version)
  if bytes.length < 4 + checksumLength then throw (.truncated bytes.length)
  let covered := bytes.take (bytes.length - checksumLength)
  if Blake3.hash covered ≠ bytes.drop (bytes.length - checksumLength) then
    throw .checksumMismatch
  let (units, _) ← (readBody casing).run ⟨4, covered.drop 4⟩
  return units

end Staging.Ledger
