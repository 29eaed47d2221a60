/-!
White space as Unicode's White_Space property has it, and trimming by it.
-/
namespace Staging.Text

/-- The characters with the White_Space property. -/
def isBlank (c : Char) : Bool :=
  let n := c.toNat
  (0x9 ≤ n && n ≤ 0xd) || n == 0x20 || n == 0x85 || n == 0xa0 || n == 0x1680 ||
    (0x2000 ≤ n && n ≤ 0x200a) || n == 0x2028 || n == 0x2029 || n == 0x202f || n == 0x205f ||
    n == 0x3000

def trimStart (cs : List Char) : List Char := cs.dropWhile isBlank

def trimEnd (cs : List Char) : List Char := (cs.reverse.dropWhile isBlank).reverse

def trim (cs : List Char) : List Char := trimEnd (trimStart cs)

/-- Nothing but white space, or nothing at all. -/
def isBlankText (s : String) : Bool := s.toList.all isBlank

theorem trimStart_cons_of_not_blank {c : Char} {cs : List Char} (h : isBlank c = false) :
    trimStart (c :: cs) = c :: cs := by
  simp [trimStart, h]

theorem trimStart_cons_of_blank {c : Char} {cs : List Char} (h : isBlank c = true) :
    trimStart (c :: cs) = trimStart cs := by
  simp [trimStart, h]

end Staging.Text
