import Staging.Bytes.Word

/-!
Stamps: everything about an item that decides its output. Its written form is seventeen bytes, the
two numbers highest byte first, and reading accepts exactly what writing produces.
-/
namespace Staging

structure Stamp where
  /-- Modification time of the source in milliseconds since the epoch. -/
  time : Int64
  filtered : Bool
  /-- The fingerprint of the properties in force. -/
  properties : UInt64
  deriving DecidableEq, Repr

namespace Stamp

/-- Stands for a time that could not be read. -/
def unknownTime : Int64 := Int64.minValue

def isKnown (s : Stamp) : Bool := s.time != unknownTime

def encodedLength : Nat := 17

def encode (s : Stamp) : Bytes :=
  Bytes.bigEndian 8 s.time.toUInt64.toNat ++ [if s.filtered then 1 else 0] ++
    Bytes.bigEndian 8 s.properties.toNat

inductive Fault where
  | tooShort
  | badFlag (byte : UInt8)
  deriving DecidableEq, Repr

def Fault.message : Fault → String
  | tooShort => "failed to fill whole buffer"
  | badFlag byte => "invalid filtered flag " ++ toString byte.toNat

/-- The stamp that bytes start with, and the bytes after it. -/
def decode (bs : Bytes) : Except Fault (Stamp × Bytes) :=
  match bs.drop 8 with
  | [] => .error .tooShort
  | flag :: rest =>
    if rest.length < 8 then .error .tooShort
    else
      let stamp (filtered : Bool) : Stamp :=
        ⟨(UInt64.ofNat (Bytes.ofBigEndian (bs.take 8))).toInt64, filtered,
          UInt64.ofNat (Bytes.ofBigEndian (rest.take 8))⟩
      if flag = 0 then .ok (stamp false, rest.drop 8)
      else if flag = 1 then .ok (stamp true, rest.drop 8)
      else .error (.badFlag flag)

end Stamp
end Staging
