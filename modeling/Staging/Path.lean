import Staging.Text.Spelling

/-!
File paths as they are spelled, and the parts they name. A spelling may repeat separators or hold
`.` parts, which name nothing; two spellings with the same parts are the same path (`Path.same`),
and paths are ordered part by part. Only the bytes of separators and dots are looked at, so a path
need not be text.
-/
namespace Staging

/-- One part of a path. -/
inductive Part where
  | root
  | here
  | up
  | name (spelling : Spelling)
  deriving DecidableEq, Repr

namespace Part

/-- Parts of different kinds are ordered by kind. -/
def rank : Part → Nat
  | root => 0
  | here => 1
  | up => 2
  | name _ => 3

def spelling : Part → Spelling
  | root => "/"
  | here => "."
  | up => ".."
  | name s => s

instance : Ord Part := ⟨compareLex (compareOn rank) (compareOn spelling)⟩

instance : Std.TransOrd Part :=
  inferInstanceAs (Std.TransCmp (compareLex (compareOn rank) (compareOn spelling)))

instance : Std.LawfulEqOrd Part where
  eq_of_compare {a b} h := by
    have h : (compareLex (compareOn rank) (compareOn spelling)) a b = .eq := h
    simp only [compareLex, compareOn, Ordering.then_eq_eq, Std.LawfulEqOrd.compare_eq_iff_eq] at h
    cases a <;> cases b <;> simp_all [rank, spelling]

end Part

structure Path where
  ofSpelling ::
  spelling : Spelling
  deriving DecidableEq, Repr

namespace Path

instance : Inhabited Path := ⟨⟨""⟩⟩

/-- The path that a text spells. -/
def mk (text : String) : Path := ⟨text⟩

abbrev bytes (p : Path) : Bytes := p.spelling.bytes

/-- The path as text, with losses if it is none. -/
def text (p : Path) : String := p.spelling.shown

def slash : UInt8 := 0x2f

def dot : UInt8 := 0x2e

/-- The pieces between separators. -/
def splitSlash : Bytes → List Bytes
  | [] => [[]]
  | b :: bs =>
    if b = slash then [] :: splitSlash bs
    else
      match splitSlash bs with
      | [] => [[b]]
      | piece :: pieces => (b :: piece) :: pieces

def joinSlash : List Bytes → Bytes
  | [] => []
  | [piece] => piece
  | piece :: pieces => piece ++ slash :: joinSlash pieces

/-- What a piece after the first one names, if anything. -/
def partOf (piece : Bytes) : Option Part :=
  if piece = [] ∨ piece = [dot] then none
  else if piece = [dot, dot] then some .up
  else some (.name ⟨piece⟩)

/-- What the first piece names: an empty piece before a separator is the root, and only here does
a dot count. -/
def firstPart (piece : Bytes) (more : Bool) : Option Part :=
  if piece = [] then (if more then some .root else none)
  else if piece = [dot] then some .here
  else partOf piece

/-- The pieces, each with the part it names. -/
def labelled (p : Path) : List (Bytes × Option Part) :=
  match splitSlash p.bytes with
  | [] => []
  | piece :: pieces =>
    (piece, firstPart piece !pieces.isEmpty) :: pieces.map fun q => (q, partOf q)

def parts (p : Path) : List Part := p.labelled.filterMap (·.2)

/-- The same file for every operation that looks paths up. -/
def same (p q : Path) : Bool := p.parts == q.parts

def isAbsolute (p : Path) : Bool :=
  p.bytes.head? == some slash

/-- The spelling of labelled pieces. A lone root piece is spelled as the separator. -/
def spell (pieces : List (Bytes × Option Part)) : Path :=
  match pieces with
  | [(_, some .root)] => ⟨"/"⟩
  | pieces => ⟨⟨joinSlash (pieces.map (·.1))⟩⟩

/-- Drops pieces at the end that name nothing. -/
def trimBack (pieces : List (Bytes × Option Part)) : List (Bytes × Option Part) :=
  (pieces.reverse.dropWhile (·.2.isNone)).reverse

/-- The path without its last part, unless it is empty or the root. -/
def parent (p : Path) : Option Path :=
  match (trimBack p.labelled).reverse with
  | [] => none
  | (_, some .root) :: _ => none
  | _ :: front => some (spell (trimBack front.reverse))

/-- The last part, if it is a name. -/
def fileName (p : Path) : Option Spelling :=
  match p.parts.getLast? with
  | some (.name s) => some s
  | _ => none

/-- What follows the last dot of the file name; a leading dot starts no extension. -/
def extension (p : Path) : Option Spelling :=
  p.fileName.bind fun s =>
    let back := s.bytes.reverse
    match back.dropWhile (· ≠ dot) with
    | _ :: _ :: _ => some ⟨(back.takeWhile (· ≠ dot)).reverse⟩
    | _ => none

/-- `q` seen from `p`: an absolute `q` stands alone. -/
def join (p : Path) (q : Spelling) : Path :=
  if Path.isAbsolute ⟨q⟩ then ⟨q⟩
  else
    match p.bytes.getLast? with
    | none => ⟨q⟩
    | some b => ⟨⟨p.bytes ++ (if b = slash then q.bytes else slash :: q.bytes)⟩⟩

/-- The path beside `p` with another file name. -/
def withFileName (p : Path) (name : Spelling) : Path :=
  match p.fileName, p.parent with
  | some _, some dir => dir.join name
  | _, _ => p.join name

def startsWith (p base : Path) : Bool := base.parts.isPrefixOf p.parts

/-- Drops the pieces that name the first `n` parts, and the nameless ones after them. -/
def dropParts : Nat → List (Bytes × Option Part) → List (Bytes × Option Part)
  | _, [] => []
  | 0, pieces => pieces.dropWhile (·.2.isNone)
  | n + 1, (_, none) :: rest => dropParts (n + 1) rest
  | n + 1, (_, some _) :: rest => dropParts n rest

/-- The spelling of what lies below `base`, if `p` lies there. -/
def stripPrefix (p base : Path) : Option Path :=
  if p.startsWith base then
    let pieces := trimBack p.labelled
    some (spell (if base.parts = [] then pieces else dropParts base.parts.length pieces))
  else none

/-- The path in quotes, as messages show it. -/
def quoted (p : Path) : String := p.spelling.quoted

end Path
end Staging
