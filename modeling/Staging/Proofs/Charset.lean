import Staging.Charset
import Staging.Proofs.Text.Utf8

/-!
Reading bytes in a charset and writing them again. Latin-1 gives all bytes back, ASCII those below
128, and UTF-8 the bytes of a text; any other bytes come back changed.
-/
namespace Staging

namespace Utf8

/-- The bytes of a character are those that strings have it in. -/
theorem encodeChar_eq (c : Char) : encodeChar c = String.utf8EncodeChar c := by
  have last : c.toNat < 0x110000 := by
    have := toNat_ranges c
    omega
  rw [encodeChar, String.utf8EncodeChar]
  simp only [Char.toNat_val]
  generalize c.toNat = n at last ⊢
  by_cases one : n < 0x80
  · rw [if_pos one, if_pos (show n ≤ 0x7f by omega)]
  rw [if_neg one, if_neg (show ¬n ≤ 0x7f by omega)]
  by_cases two : n < 0x800
  · have lead : n / 64 % 0x20 + 0xc0 = 0xc0 + n / 64 := by omega
    rw [if_pos two, if_pos (show n ≤ 0x7ff by omega), lead, Nat.add_comm (n % 64)]
  rw [if_neg two, if_neg (show ¬n ≤ 0x7ff by omega)]
  by_cases three : n < 0x10000
  · have lead : n / 4096 % 0x10 + 0xe0 = 0xe0 + n / 4096 := by omega
    rw [if_pos three, if_pos (show n ≤ 0xffff by omega), lead, Nat.add_comm (n / 64 % 64),
      Nat.add_comm (n % 64)]
  · have lead : n / 262144 % 0x08 + 0xf0 = 0xf0 + n / 262144 := by omega
    rw [if_neg three, if_neg (show ¬n ≤ 0xffff by omega), lead, Nat.add_comm (n / 4096 % 64),
      Nat.add_comm (n / 64 % 64), Nat.add_comm (n % 64)]

theorem isValidUTF8_iff (bs : Bytes) :
    bs.toByteArray.IsValidUTF8 ↔ ∃ cs, encodeChars cs = bs := by
  have written (cs : List Char) : cs.utf8Encode = (encodeChars cs).toByteArray := by
    simp only [List.utf8Encode, encodeChars, funext encodeChar_eq]
  constructor
  · rintro ⟨cs, same⟩
    rw [written, List.toByteArray_inj] at same
    exact ⟨cs, same.symm⟩
  · rintro ⟨cs, rfl⟩
    exact .intro cs (written cs).symm

end Utf8

namespace Charset

/-- The bytes that texts in the charset are made of. -/
def WellFormed : Charset → Bytes → Prop
  | utf8, bs => bs.toByteArray.IsValidUTF8
  | latin1, _ => True
  | ascii, bs => ∀ b ∈ bs, b.toNat < 0x80

theorem encode_decode_utf8_iff (bs : Bytes) :
    utf8.encode (utf8.decode bs) = bs ↔ bs.toByteArray.IsValidUTF8 := by
  simp only [encode, decode, Utf8.isValidUTF8_iff]
  constructor
  · intro same
    exact ⟨_, same⟩
  · rintro ⟨cs, rfl⟩
    rw [Utf8.decodeLossy_encodeChars]

theorem toNat_ofNat_byte (b : UInt8) : (Char.ofNat b.toNat).toNat = b.toNat := by
  have small := b.toNat_lt
  exact Utf8.toNat_ofNat_of_ranges (.inl (by omega))

theorem encode_decode_latin1 (bs : Bytes) : latin1.encode (latin1.decode bs) = bs := by
  have each (b : UInt8) : b.toNat < 0x100 := b.toNat_lt
  simp [encode, decode, Function.comp_def, toNat_ofNat_byte, each]

theorem map_eq_self_iff {f : UInt8 → UInt8} {bs : Bytes} : bs.map f = bs ↔ ∀ b ∈ bs, f b = b := by
  induction bs with
  | nil => simp
  | cons b bs ih => rw [List.map_cons, List.cons.injEq, ih, List.forall_mem_cons]

/-- A byte past ASCII is read as the replacement character, which is written as a question mark. -/
theorem encode_decode_ascii_iff (bs : Bytes) :
    ascii.encode (ascii.decode bs) = bs ↔ ∀ b ∈ bs, b.toNat < 0x80 := by
  rw [encode, decode, List.map_map, map_eq_self_iff]
  refine forall₂_congr fun b _ => ?_
  by_cases plain : b.toNat < 0x80
  · simp [plain, toNat_ofNat_byte]
  · have mark : questionMark ≠ b := by
      rintro rfl
      exact plain (by decide)
    have wide : ¬Utf8.replacement.toNat < 0x80 := by decide
    simp [plain, wide, mark]

/-- Bytes come back as they were exactly if they are well formed. -/
theorem encode_decode_iff (charset : Charset) (bs : Bytes) :
    charset.encode (charset.decode bs) = bs ↔ charset.WellFormed bs := by
  cases charset with
  | utf8 => exact encode_decode_utf8_iff bs
  | latin1 => exact iff_of_true (encode_decode_latin1 bs) trivial
  | ascii => exact encode_decode_ascii_iff bs

end Charset
end Staging
