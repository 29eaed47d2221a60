/-!
UTF-8 over lists of bytes. Reading takes one character at a time; where the bytes are ill formed
it takes the longest start of a character that could still have been completed, so that lossy
reading puts one replacement character for each such piece.
-/
namespace Staging

abbrev Bytes := List UInt8

namespace Utf8

/-- The one to four bytes of a character. -/
def encodeChar (c : Char) : Bytes :=
  let n := c.toNat
  if n < 0x80 then [UInt8.ofNat n]
  else if n < 0x800 then [UInt8.ofNat (0xc0 + n / 64), UInt8.ofNat (0x80 + n % 64)]
  else if n < 0x10000 then
    [UInt8.ofNat (0xe0 + n / 4096), UInt8.ofNat (0x80 + n / 64 % 64), UInt8.ofNat (0x80 + n % 64)]
  else
    [UInt8.ofNat (0xf0 + n / 262144), UInt8.ofNat (0x80 + n / 4096 % 64),
      UInt8.ofNat (0x80 + n / 64 % 64), UInt8.ofNat (0x80 + n % 64)]

def encodeChars (cs : List Char) : Bytes := cs.flatMap encodeChar

def encode (s : String) : Bytes := encodeChars s.toList

/-- The six payload bits of a following byte that lies between `lo` and `hi`, and what comes
after it. -/
def follow (lo hi : Nat) : Bytes → Option (Nat × Bytes)
  | [] => none
  | b :: bs => if lo ≤ b.toNat ∧ b.toNat ≤ hi then some (b.toNat - 0x80, bs) else none

/-- The character led in by `b`, or `none` for an ill-formed piece, and how many of the following
bytes belong to it. The narrower bounds after some leads leave out overlong forms, surrogates and
points past the last one. -/
def next (b : UInt8) (bs : Bytes) : Option Char × Nat :=
  let n := b.toNat
  if n < 0x80 then (some (Char.ofNat n), 0)
  else if n < 0xc2 then (none, 0)
  else if n < 0xe0 then
    match follow 0x80 0xbf bs with
    | none => (none, 0)
    | some (x, _) => (some (Char.ofNat ((n - 0xc0) * 64 + x)), 1)
  else if n < 0xf0 then
    match follow (if n = 0xe0 then 0xa0 else 0x80) (if n = 0xed then 0x9f else 0xbf) bs with
    | none => (none, 0)
    | some (x, bs) =>
      match follow 0x80 0xbf bs with
      | none => (none, 1)
      | some (y, _) => (some (Char.ofNat ((n - 0xe0) * 4096 + x * 64 + y)), 2)
  else if n < 0xf5 then
    match follow (if n = 0xf0 then 0x90 else 0x80) (if n = 0xf4 then 0x8f else 0xbf) bs with
    | none => (none, 0)
    | some (x, bs) =>
      match follow 0x80 0xbf bs with
      | none => (none, 1)
      | some (y, bs) =>
        match follow 0x80 0xbf bs with
        | none => (none, 2)
        | some (z, _) =>
          (some (Char.ofNat ((n - 0xf0) * 262144 + x * 4096 + y * 64 + z)), 3)
  else (none, 0)

/-- The characters of the bytes, with `none` for each ill-formed piece. -/
def scan : Bytes → List (Option Char)
  | [] => []
  | b :: bs => (next b bs).1 :: scan (bs.drop (next b bs).2)
termination_by bs => bs.length
decreasing_by
  simp only [List.length_drop, List.length_cons]
  omega

/-- The characters, if the bytes are well formed throughout. -/
def decodeChars? (bs : Bytes) : Option (List Char) := (scan bs).mapM id

def decode? (bs : Bytes) : Option String := (decodeChars? bs).map String.ofList

def replacement : Char := '\ufffd'

/-- Each ill-formed piece becomes one replacement character. -/
def decodeLossy (bs : Bytes) : List Char := (scan bs).map (·.getD replacement)

end Utf8
end Staging
