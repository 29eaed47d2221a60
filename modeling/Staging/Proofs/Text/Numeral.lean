import Mathlib.Algebra.Ring.Nat
import Staging.Text.Numeral

/-!
Hexadecimal numerals: which texts are one, and what number they stand for.
-/
namespace Staging.Text

/-- The digits in the order of their values. -/
def hexAlphabet : List Char := "0123456789abcdef".toList

/-- A hexadecimal digit, in either case. -/
def IsHex (c : Char) : Prop := c.toLower ∈ hexAlphabet

instance (c : Char) : Decidable (IsHex c) := inferInstanceAs (Decidable (_ ∈ _))

/-- Goes through the digits and not through all characters. -/
instance (digits : List Char) : Decidable (∀ d ∈ digits, IsHex d) := List.decidableBAll IsHex digits

def hexDigitValue (c : Char) : Nat := hexAlphabet.idxOf c.toLower

/-- The number that digits stand for after a number already read. -/
def hexValueFrom (seen : Nat) (digits : List Char) : Nat :=
  digits.foldl (fun n d => 16 * n + hexDigitValue d) seen

def hexValue (digits : List Char) : Nat := hexValueFrom 0 digits

/-- A numeral without the plus sign that it may have in front. -/
def unsigned : List Char → List Char
  | '+' :: digits => digits
  | digits => digits

theorem IsHex.toNat_lt {c : Char} (h : IsHex c) : c.toNat < 128 := by
  by_contra large
  have upper : ¬(c.val ≥ 'A'.val ∧ c.val ≤ 'Z'.val) := by
    intro range
    have bound : c.toNat ≤ 'Z'.toNat := range.2
    exact large (Nat.lt_of_le_of_lt bound (by decide))
  have lower : c.toLower = c := dif_neg upper
  have small : hexAlphabet.all (·.toNat < 128) = true := by decide
  have bound := List.all_eq_true.mp small _ h
  rw [lower] at bound
  exact large (of_decide_eq_true bound)

theorem IsHex.value_lt {c : Char} (h : IsHex c) : hexDigitValue c < 16 :=
  List.idxOf_lt_length_of_mem h

theorem digitIn_sixteen (c : Char) :
    digitIn 16 c = if IsHex c then some (hexDigitValue c) else none := by
  by_cases ascii : c.toNat < 128
  · have all : ∀ n < 128, digitIn 16 (Char.ofNat n) =
        if IsHex (Char.ofNat n) then some (hexDigitValue (Char.ofNat n)) else none := by
      decide +kernel
    simpa using all c.toNat ascii
  · have other : digitValue c = none := by
      simp only [digitValue]
      repeat rw [if_neg (by omega)]
    rw [if_neg fun hex => ascii hex.toNat_lt, digitIn, other, Option.filter_none]

theorem readDigits_eq_some_iff (seen n : Nat) (digits : List Char) :
    readDigits 16 seen digits = some n ↔
      (∀ d ∈ digits, IsHex d) ∧ hexValueFrom seen digits = n := by
  induction digits generalizing seen with
  | nil => simp [readDigits, hexValueFrom]
  | cons d digits ih =>
    rw [readDigits, digitIn_sixteen]
    by_cases hex : IsHex d
    · simp [hex, ih, hexValueFrom, Nat.mul_comm]
    · simp [hex]

theorem readUnsigned_eq (base : Nat) (digits : List Char) :
    readUnsigned base digits = readNumeral base (unsigned digits) := by
  fun_cases unsigned digits with
  | case1 digits => rfl
  | case2 digits bare =>
    rw [readUnsigned]
    exact bare

theorem readUnsigned_eq_some_iff (n : Nat) (digits : List Char) :
    readUnsigned 16 digits = some n ↔
      unsigned digits ≠ [] ∧ (∀ d ∈ unsigned digits, IsHex d) ∧ hexValue (unsigned digits) = n := by
  rw [readUnsigned_eq]
  cases unsigned digits with
  | nil => simp [readNumeral]
  | cons d digits =>
    rw [readNumeral, readDigits_eq_some_iff]
    · simp [hexValue]
    · exact List.cons_ne_nil d digits

theorem unsigned_of_hex {digits : List Char} (hex : ∀ d ∈ digits, IsHex d) :
    unsigned digits = digits := by
  unfold unsigned
  split
  · exact absurd (hex '+' List.mem_cons_self) (by decide)
  · rfl

/-- Only a sign makes a numeral longer than its digits. -/
theorem unsigned_of_length {digits : List Char} (h : digits.length ≤ (unsigned digits).length) :
    unsigned digits = digits := by
  unfold unsigned at h ⊢
  split
  · simp only [List.length_cons] at h
    omega
  · rfl

theorem hexValueFrom_lt {digits : List Char} (hex : ∀ d ∈ digits, IsHex d) {seen bound : Nat}
    (h : seen < bound) : hexValueFrom seen digits < bound * 16 ^ digits.length := by
  induction digits generalizing seen bound with
  | nil => simpa [hexValueFrom] using h
  | cons d digits ih =>
    have digit := (hex d List.mem_cons_self).value_lt
    have next : 16 * seen + hexDigitValue d < bound * 16 := by omega
    have rest := ih (fun x mem => hex x (List.mem_cons_of_mem d mem)) next
    rwa [Nat.mul_assoc, ← Nat.pow_succ'] at rest

theorem hexValue_lt {digits : List Char} (hex : ∀ d ∈ digits, IsHex d) :
    hexValue digits < 16 ^ digits.length := by
  have bounded := hexValueFrom_lt hex Nat.one_pos
  rwa [Nat.one_mul] at bounded

end Staging.Text
