import Staging.Bytes.Blake3
import Staging.SortedMap

/-!
Property sets: the keys and values that filtering substitutes. A set is its last-write-wins
association, so its fingerprint does not depend on how it was built.
-/
namespace Staging

abbrev PropertySet := SortedMap String String

namespace PropertySet

/-- One pair as the fingerprint sees it. -/
def line (pair : String × String) : String := pair.1 ++ "->" ++ pair.2

/-- The lines of a set, in byte order. -/
def sortedLines (p : PropertySet) : List String :=
  (p.toList.map line).mergeSort fun a b => decide (a ≤ b)

/-- What the fingerprint hashes: every line after its length in bytes. -/
def stream (p : PropertySet) : Bytes :=
  p.sortedLines.flatMap fun l =>
    let bytes := Utf8.encode l
    Bytes.littleEndian 8 bytes.length ++ bytes

/-- A digest of the whole set, 64 bits wide. -/
def fingerprint (p : PropertySet) : UInt64 :=
  UInt64.ofNat (Bytes.ofLittleEndian ((Blake3.hash p.stream).take 8))

end PropertySet
end Staging
