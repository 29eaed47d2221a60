import Staging.Stamp

/-!
Stamps as bytes. A written stamp is read back from in front of any other bytes, and nothing else is
read as a stamp: what is read was written in the seventeen bytes that reading took.
-/
namespace Staging.Stamp

theorem length_encode (s : Stamp) : s.encode.length = 17 := by
  simp [encode]

/-- A number of 64 bits fits into eight bytes. -/
theorem ofBigEndian_word (n : UInt64) : Bytes.ofBigEndian (Bytes.bigEndian 8 n.toNat) = n.toNat := by
  rw [Bytes.ofBigEndian_bigEndian]
  exact Nat.mod_eq_of_lt n.toNat_lt

/-- Eight bytes are those of a number of 64 bits. -/
theorem bigEndian_word {bs : Bytes} (length : bs.length = 8) :
    Bytes.bigEndian 8 (UInt64.ofNat (Bytes.ofBigEndian bs)).toNat = bs := by
  have back := Bytes.bigEndian_ofBigEndian bs
  rw [length] at back
  have bound : Bytes.ofBigEndian bs < 2 ^ 64 := by
    rw [← back, Bytes.ofBigEndian_bigEndian]
    exact Nat.mod_lt _ (by decide)
  rw [UInt64.toNat_ofNat', Nat.mod_eq_of_lt bound, back]

/-- The byte of the flag lies between eight bytes and eight more. -/
theorem decode_layout {high low : Bytes} (first : high.length = 8) (last : low.length = 8)
    (flag : UInt8) (rest : Bytes) :
    decode (high ++ flag :: (low ++ rest)) =
      let stamp (filtered : Bool) : Stamp :=
        ⟨(UInt64.ofNat (Bytes.ofBigEndian high)).toInt64, filtered,
          UInt64.ofNat (Bytes.ofBigEndian low)⟩
      if flag = 0 then .ok (stamp false, rest)
      else if flag = 1 then .ok (stamp true, rest)
      else .error (.badFlag flag) := by
  have enough : ¬(low ++ rest).length < 8 := by
    rw [List.length_append]
    omega
  simp only [decode, List.drop_left' first, List.take_left' first, List.drop_left' last,
    List.take_left' last, if_neg enough]

theorem exists_layout {bs : Bytes} (enough : 17 ≤ bs.length) :
    ∃ high flag low rest, high.length = 8 ∧ low.length = 8 ∧ high ++ flag :: (low ++ rest) = bs := by
  have split : bs.drop 8 = bs[8] :: bs.drop 9 := List.drop_eq_getElem_cons (by omega)
  refine ⟨bs.take 8, bs[8], (bs.drop 9).take 8, (bs.drop 9).drop 8, ?_, ?_, ?_⟩
  · rw [List.length_take]
    omega
  · rw [List.length_take, List.length_drop]
    omega
  · rw [List.take_append_drop, ← split, List.take_append_drop]

theorem decode_of_short {bs : Bytes} (short : bs.length < 17) : decode bs = .error .tooShort := by
  rw [decode]
  split
  · rfl
  · rename_i flag rest eq
    have length := congrArg List.length eq
    rw [List.length_drop, List.length_cons] at length
    rw [if_pos (by omega)]

theorem encode_append (s : Stamp) (rest : Bytes) :
    s.encode ++ rest = Bytes.bigEndian 8 s.time.toUInt64.toNat ++
      (if s.filtered then 1 else 0) :: (Bytes.bigEndian 8 s.properties.toNat ++ rest) := by
  simp [encode]

/-- The stamp that stands in two times eight bytes is written in them. -/
theorem encode_layout {high low : Bytes} (first : high.length = 8) (last : low.length = 8)
    (filtered : Bool) (rest : Bytes) :
    encode ⟨(UInt64.ofNat (Bytes.ofBigEndian high)).toInt64, filtered,
        UInt64.ofNat (Bytes.ofBigEndian low)⟩ ++ rest =
      high ++ (if filtered then 1 else 0) :: (low ++ rest) := by
  simp only [encode_append, UInt64.toUInt64_toInt64, bigEndian_word first, bigEndian_word last]

theorem decode_encode (s : Stamp) (rest : Bytes) : decode (s.encode ++ rest) = .ok (s, rest) := by
  rw [encode_append, decode_layout (Bytes.bigEndian_length _ _) (Bytes.bigEndian_length _ _),
    ofBigEndian_word, ofBigEndian_word]
  obtain ⟨time, filtered, properties⟩ := s
  cases filtered <;> simp

/-- What is read as a stamp are the bytes of that stamp, with what is left behind them. -/
theorem decode_eq_ok_iff {bs rest : Bytes} {s : Stamp} :
    decode bs = .ok (s, rest) ↔ s.encode ++ rest = bs := by
  constructor
  · intro read
    have enough : 17 ≤ bs.length := by
      apply Nat.le_of_not_lt
      intro short
      rw [decode_of_short short] at read
      cases read
    obtain ⟨high, flag, low, rest, first, last, rfl⟩ := exists_layout enough
    rw [decode_layout first last] at read
    simp only at read
    split at read
    · rename_i clear
      cases read
      rw [clear]
      exact encode_layout first last false rest
    · split at read
      · rename_i set
        cases read
        rw [set]
        exact encode_layout first last true rest
      · cases read
  · rintro rfl
    exact decode_encode s rest

/-- Enough bytes, and a flag that is one. -/
theorem decodes_iff (bs : Bytes) :
    (∃ s rest, decode bs = .ok (s, rest)) ↔
      17 ≤ bs.length ∧ (bs[8]? = some 0 ∨ bs[8]? = some 1) := by
  by_cases enough : 17 ≤ bs.length
  · obtain ⟨high, flag, low, rest, first, last, rfl⟩ := exists_layout enough
    have ninth : (high ++ flag :: (low ++ rest))[8]? = some flag := by
      rw [List.getElem?_append_right (by omega), first]
      rfl
    rw [decode_layout first last, ninth, eq_true enough, true_and]
    by_cases clear : flag = 0
    · simp [clear]
    · by_cases set : flag = 1 <;> simp [clear, set]
  · simp [decode_of_short (Nat.lt_of_not_le enough), enough]

/-- A written stamp is read back and leaves what follows it. Bytes are read as a stamp exactly if
there are seventeen of them with a zero or a one in the ninth place, and then the stamp is written
in those seventeen. -/
theorem decode_exact :
    (∀ (s : Stamp) (rest : Bytes), decode (s.encode ++ rest) = .ok (s, rest)) ∧
    ∀ bs : Bytes,
      ((∃ s rest, decode bs = .ok (s, rest)) ↔
        17 ≤ bs.length ∧ (bs[8]? = some 0 ∨ bs[8]? = some 1)) ∧
      ∀ s rest, decode bs = .ok (s, rest) → s.encode = bs.take 17 ∧ rest = bs.drop 17 := by
  refine ⟨decode_encode, fun bs => ⟨decodes_iff bs, fun s rest read => ?_⟩⟩
  obtain rfl := decode_eq_ok_iff.mp read
  exact ⟨(List.take_left' (length_encode s)).symm, (List.drop_left' (length_encode s)).symm⟩

/-- The unknown time, written and read with two bytes behind it. -/
theorem decode_exact_unknown :
    let s : Stamp := ⟨unknownTime, true, 0xdeadbeef01020304⟩
    let bs : Bytes := [0x80, 0, 0, 0, 0, 0, 0, 0, 1, 0xde, 0xad, 0xbe, 0xef, 1, 2, 3, 4, 7, 9]
    decode bs = .ok (s, [7, 9]) ∧ s.encode = bs.take 17 := by
  intro s bs
  have read : decode bs = .ok (s, [7, 9]) := decode_eq_ok_iff.mpr (by decide +kernel)
  exact ⟨read, ((decode_exact.2 bs).2 s [7, 9] read).1⟩

end Staging.Stamp
