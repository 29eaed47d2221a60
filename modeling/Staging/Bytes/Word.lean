import Staging.Text.Utf8

/-!
Fixed-width whole numbers as bytes, in both orders, and bytes as hexadecimal text. Reading a
number back gives it modulo the width; `ofBigEndian_bigEndian` is the form the file formats use.
-/
namespace Staging.Bytes

/-- The `count` low-order bytes of a number, lowest first. -/
def littleEndian : (count value : Nat) → Bytes
  | 0, _ => []
  | count + 1, value => UInt8.ofNat value :: littleEndian count (value / 256)

def ofLittleEndian : Bytes → Nat
  | [] => 0
  | b :: bs => b.toNat + 256 * ofLittleEndian bs

def bigEndian (count value : Nat) : Bytes := (littleEndian count value).reverse

def ofBigEndian (bs : Bytes) : Nat := ofLittleEndian bs.reverse

/-- The number that a two's complement pattern of `bits` bits stands for. -/
def signed (bits value : Nat) : Int :=
  if value < 1 <<< (bits - 1) then value else value - (1 <<< bits : Nat)

@[simp] theorem littleEndian_length (count value : Nat) :
    (littleEndian count value).length = count := by
  induction count generalizing value with
  | zero => rfl
  | succ count ih => simp [littleEndian, ih]

theorem ofLittleEndian_littleEndian (count value : Nat) :
    ofLittleEndian (littleEndian count value) = value % 1 <<< (8 * count) := by
  induction count generalizing value with
  | zero => simp [littleEndian, ofLittleEndian, Nat.mod_one]
  | succ count ih =>
    have step : (UInt8.ofNat value).toNat = value % 256 := by simp
    have scale : 1 <<< (8 * (count + 1)) = 256 * 1 <<< (8 * count) := by
      rw [Nat.mul_succ, Nat.shiftLeft_add]
      omega
    rw [littleEndian, ofLittleEndian, ih, step, scale, Nat.mod_mul]

theorem littleEndian_ofLittleEndian (bs : Bytes) :
    littleEndian bs.length (ofLittleEndian bs) = bs := by
  induction bs with
  | nil => rfl
  | cons b bs ih =>
    have low : UInt8.ofNat (b.toNat + 256 * ofLittleEndian bs) = b := by
      apply UInt8.toNat_inj.mp
      simp
    have high : (b.toNat + 256 * ofLittleEndian bs) / 256 = ofLittleEndian bs := by
      have := b.toNat_lt
      omega
    simp only [List.length_cons, littleEndian, ofLittleEndian, low, high, ih]

@[simp] theorem bigEndian_length (count value : Nat) : (bigEndian count value).length = count := by
  simp [bigEndian]

theorem ofBigEndian_bigEndian (count value : Nat) :
    ofBigEndian (bigEndian count value) = value % 1 <<< (8 * count) := by
  simp [ofBigEndian, bigEndian, ofLittleEndian_littleEndian]

theorem bigEndian_ofBigEndian (bs : Bytes) : bigEndian bs.length (ofBigEndian bs) = bs := by
  have h := littleEndian_ofLittleEndian bs.reverse
  rw [List.length_reverse] at h
  simp [bigEndian, ofBigEndian, h]

/-- Two lower-case hexadecimal digits a byte. -/
def hex (bs : Bytes) : List Char :=
  bs.flatMap fun b => [Nat.digitChar (b.toNat / 16), Nat.digitChar (b.toNat % 16)]

end Staging.Bytes
