import Mathlib.Logic.Function.Defs
import Staging.Text.Utf8

/-!
Reading back what was written in UTF-8: each character is read from its own bytes, whatever
follows them, and nothing else is read as that character. A byte below 0x80 stands for itself
wherever it is, so bytes can be cut there and read piece by piece.
-/
namespace Staging.Utf8

theorem toNat_ofNat {n : Nat} (small : n < 256) : (UInt8.ofNat n).toNat = n := by
  rw [UInt8.toNat_ofNat']
  omega

theorem follow_ofNat {lo hi n : Nat} (small : n < 256) (lower : lo ≤ n) (upper : n ≤ hi)
    (bs : Bytes) : follow lo hi (UInt8.ofNat n :: bs) = some (n - 0x80, bs) := by
  rw [follow, toNat_ofNat small, if_pos ⟨lower, upper⟩]

theorem ofNat_eq {c : Char} {n : Nat} (h : n = c.toNat) : Char.ofNat n = c := by
  rw [h, Char.ofNat_toNat]

/-- No character is a surrogate, and none is past the last one. -/
theorem toNat_ranges (c : Char) : c.toNat < 0xd800 ∨ 0xdfff < c.toNat ∧ c.toNat < 0x110000 :=
  c.valid

theorem next_one {c : Char} (h : c.toNat < 0x80) (bs : Bytes) :
    next (UInt8.ofNat c.toNat) bs = (some c, 0) := by
  have lead := toNat_ofNat (n := c.toNat) (by omega)
  simp only [next, lead]
  rw [if_pos h, Char.ofNat_toNat]

theorem next_two {c : Char} (above : 0x80 ≤ c.toNat) (below : c.toNat < 0x800) (bs : Bytes) :
    next (UInt8.ofNat (0xc0 + c.toNat / 64)) (UInt8.ofNat (0x80 + c.toNat % 64) :: bs) =
      (some c, 1) := by
  have lead := toNat_ofNat (n := 0xc0 + c.toNat / 64) (by omega)
  simp only [next, lead]
  rw [if_neg (by omega), if_neg (by omega), if_pos (by omega),
    follow_ofNat (by omega) (by omega) (by omega)]
  simp only
  rw [ofNat_eq (c := c) (by omega)]

theorem next_three {c : Char} (above : 0x800 ≤ c.toNat) (below : c.toNat < 0x10000)
    (bs : Bytes) :
    next (UInt8.ofNat (0xe0 + c.toNat / 4096)) (UInt8.ofNat (0x80 + c.toNat / 64 % 64) ::
      UInt8.ofNat (0x80 + c.toNat % 64) :: bs) = (some c, 2) := by
  have ranges := toNat_ranges c
  have lead := toNat_ofNat (n := 0xe0 + c.toNat / 4096) (by omega)
  simp only [next, lead]
  rw [if_neg (by omega), if_neg (by omega), if_neg (by omega), if_pos (by omega),
    follow_ofNat (by omega) (by split <;> omega) (by split <;> omega)]
  simp only
  rw [follow_ofNat (by omega) (by omega) (by omega)]
  simp only
  rw [ofNat_eq (c := c) (by omega)]

theorem next_four {c : Char} (above : 0x10000 ≤ c.toNat) (bs : Bytes) :
    next (UInt8.ofNat (0xf0 + c.toNat / 262144)) (UInt8.ofNat (0x80 + c.toNat / 4096 % 64) ::
      UInt8.ofNat (0x80 + c.toNat / 64 % 64) :: UInt8.ofNat (0x80 + c.toNat % 64) :: bs) =
      (some c, 3) := by
  have ranges := toNat_ranges c
  have lead := toNat_ofNat (n := 0xf0 + c.toNat / 262144) (by omega)
  simp only [next, lead]
  rw [if_neg (by omega), if_neg (by omega), if_neg (by omega), if_neg (by omega),
    if_pos (by omega), follow_ofNat (by omega) (by split <;> omega) (by split <;> omega)]
  simp only
  rw [follow_ofNat (by omega) (by omega) (by omega)]
  simp only
  rw [follow_ofNat (by omega) (by omega) (by omega)]
  simp only
  rw [ofNat_eq (c := c) (by omega)]

theorem scan_encodeChar (c : Char) (rest : Bytes) :
    scan (encodeChar c ++ rest) = some c :: scan rest := by
  rw [encodeChar]
  split
  · rename_i one
    rw [List.singleton_append, scan, next_one one, List.drop_zero]
  · split
    · rename_i above below
      rw [List.cons_append, List.singleton_append, scan, next_two (by omega) below]
      rfl
    · split
      · rename_i above below
        rw [List.cons_append, List.cons_append, List.singleton_append, scan,
          next_three (by omega) below]
        rfl
      · rename_i above
        rw [List.cons_append, List.cons_append, List.cons_append, List.singleton_append, scan,
          next_four (by omega)]
        rfl

theorem scan_encodeChars (cs : List Char) : scan (encodeChars cs) = cs.map some := by
  induction cs with
  | nil =>
    rw [encodeChars, List.flatMap_nil, scan]
    rfl
  | cons c cs ih =>
    rw [encodeChars, List.flatMap_cons, scan_encodeChar]
    exact congrArg (some c :: ·) ih

theorem mapM_id_eq_some_iff {os : List (Option Char)} {cs : List Char} :
    os.mapM id = some cs ↔ os = cs.map some := by
  induction os generalizing cs with
  | nil => cases cs <;> simp
  | cons o os ih =>
    rw [List.mapM_cons]
    cases o with
    | none => cases cs <;> simp
    | some c =>
      simp only [id, bind, pure, Option.bind_some, Option.bind_eq_some_iff, ih]
      constructor
      · rintro ⟨rest, rfl, ⟨⟩⟩
        rfl
      · intro same
        obtain ⟨_, rest, rfl, ⟨⟩, after⟩ := List.map_eq_cons_iff.mp same.symm
        exact ⟨rest, after.symm, rfl⟩

theorem decode?_encode (s : String) : decode? (encode s) = some s := by
  have chars := mapM_id_eq_some_iff.mpr (scan_encodeChars s.toList)
  rw [decode?, decodeChars?, encode, chars, Option.map_some, String.ofList_toList]

theorem encode_injective : Function.Injective encode := by
  intro s t same
  have decoded := congrArg decode? same
  rw [decode?_encode, decode?_encode] at decoded
  exact Option.some.inj decoded

theorem decodeLossy_encodeChars (cs : List Char) : decodeLossy (encodeChars cs) = cs := by
  simp [decodeLossy, scan_encodeChars, Function.comp_def]

/-! What is read is what would have been written -/

theorem follow_eq_some {lo hi x : Nat} {bs rest : Bytes} (low : 0x80 ≤ lo)
    (h : follow lo hi bs = some (x, rest)) :
    lo ≤ 0x80 + x ∧ 0x80 + x ≤ hi ∧ bs = UInt8.ofNat (0x80 + x) :: rest := by
  cases bs with
  | nil => simp [follow] at h
  | cons b bs =>
    rw [follow] at h
    split at h
    · rename_i within
      simp only [Option.some.injEq, Prod.mk.injEq] at h
      obtain ⟨payload, rfl⟩ := h
      have value : 0x80 + x = b.toNat := by omega
      rw [value, UInt8.ofNat_toNat]
      exact ⟨within.1, within.2, rfl⟩
    · simp at h

theorem toNat_ofNat_of_ranges {n : Nat} (h : n < 0xd800 ∨ 0xdfff < n ∧ n < 0x110000) :
    (Char.ofNat n).toNat = n := by
  rw [Char.ofNat, dif_pos h]
  rfl

theorem encodeChar_two {n x : Nat} (lower : 0xc2 ≤ n) (upper : n < 0xe0) (first : x < 0x40) :
    encodeChar (Char.ofNat ((n - 0xc0) * 64 + x)) =
      [UInt8.ofNat n, UInt8.ofNat (0x80 + x)] := by
  rw [encodeChar, toNat_ofNat_of_ranges (by omega)]
  rw [if_neg (by omega), if_pos (by omega)]
  congr 2 <;> congr 1 <;> omega

theorem encodeChar_three {n x y : Nat} (lower : 0xe0 ≤ n) (upper : n < 0xf0) (first : x < 0x40)
    (second : y < 0x40) (least : n = 0xe0 → 0x20 ≤ x) (scalar : n = 0xed → x < 0x20) :
    encodeChar (Char.ofNat ((n - 0xe0) * 4096 + x * 64 + y)) =
      [UInt8.ofNat n, UInt8.ofNat (0x80 + x), UInt8.ofNat (0x80 + y)] := by
  rw [encodeChar, toNat_ofNat_of_ranges (by omega)]
  rw [if_neg (by omega), if_neg (by omega), if_pos (by omega)]
  congr 2
  · omega
  · congr 1; omega
  · congr 2; omega

theorem encodeChar_four {n x y z : Nat} (lower : 0xf0 ≤ n) (upper : n < 0xf5) (first : x < 0x40)
    (second : y < 0x40) (third : z < 0x40) (least : n = 0xf0 → 0x10 ≤ x)
    (last : n = 0xf4 → x < 0x10) :
    encodeChar (Char.ofNat ((n - 0xf0) * 262144 + x * 4096 + y * 64 + z)) =
      [UInt8.ofNat n, UInt8.ofNat (0x80 + x), UInt8.ofNat (0x80 + y),
        UInt8.ofNat (0x80 + z)] := by
  rw [encodeChar, toNat_ofNat_of_ranges (by omega)]
  rw [if_neg (by omega), if_neg (by omega), if_neg (by omega)]
  congr 2
  · omega
  · congr 1; omega
  · congr 2
    · congr 1; omega
    · congr 1; congr 1; omega

/-- The bytes that make up a character are the bytes of that character. -/
theorem encodeChar_of_next {b : UInt8} {bs : Bytes} {c : Char} {k : Nat}
    (h : next b bs = (some c, k)) : encodeChar c = b :: bs.take k := by
  have lead : UInt8.ofNat b.toNat = b := UInt8.ofNat_toNat
  rw [next] at h
  generalize b.toNat = n at h lead
  subst lead
  split at h
  · rename_i one
    simp only [Prod.mk.injEq, Option.some.injEq] at h
    obtain ⟨rfl, rfl⟩ := h
    rw [encodeChar, toNat_ofNat_of_ranges (by omega), if_pos one, List.take_zero]
  split at h
  · simp at h
  split at h
  · split at h
    · simp at h
    · rename_i first
      obtain ⟨-, below, rfl⟩ := follow_eq_some (by omega) first
      simp only [Prod.mk.injEq, Option.some.injEq] at h
      obtain ⟨rfl, rfl⟩ := h
      exact encodeChar_two (by omega) (by omega) (by omega)
  split at h
  · split at h
    · simp at h
    rename_i first
    obtain ⟨least, scalar, rfl⟩ := follow_eq_some (by split <;> omega) first
    split at h
    · simp at h
    rename_i second
    obtain ⟨-, below, rfl⟩ := follow_eq_some (by omega) second
    simp only [Prod.mk.injEq, Option.some.injEq] at h
    obtain ⟨rfl, rfl⟩ := h
    refine encodeChar_three (by omega) (by omega) ?_ (by omega) ?_ ?_ <;>
      (split at least <;> split at scalar <;> omega)
  split at h
  · split at h
    · simp at h
    rename_i first
    obtain ⟨least, last, rfl⟩ := follow_eq_some (by split <;> omega) first
    split at h
    · simp at h
    rename_i second
    obtain ⟨-, below, rfl⟩ := follow_eq_some (by omega) second
    split at h
    · simp at h
    rename_i third
    obtain ⟨-, below', rfl⟩ := follow_eq_some (by omega) third
    simp only [Prod.mk.injEq, Option.some.injEq] at h
    obtain ⟨rfl, rfl⟩ := h
    refine encodeChar_four (by omega) (by omega) ?_ (by omega) (by omega) ?_ ?_ <;>
      (split at least <;> split at last <;> omega)
  · simp at h

theorem encodeChars_of_scan {bs : Bytes} {cs : List Char} (h : scan bs = cs.map some) :
    encodeChars cs = bs := by
  induction bs using scan.induct generalizing cs with
  | case1 =>
    rw [scan] at h
    obtain rfl := List.map_eq_nil_iff.mp h.symm
    rfl
  | case2 b bs ih =>
    rw [scan] at h
    obtain ⟨c, rest, rfl, char, after⟩ := List.map_eq_cons_iff.mp h.symm
    have own := encodeChar_of_next (Prod.ext char.symm rfl : next b bs = (some c, (next b bs).2))
    have others : encodeChars rest = bs.drop (next b bs).2 := ih after.symm
    rw [encodeChars, List.flatMap_cons, own, List.cons_append]
    rw [encodeChars] at others
    rw [others, List.take_append_drop]

/-- Bytes that read as a text are the bytes of that text: no other bytes do. -/
theorem encode_of_decode? {bs : Bytes} {s : String} (h : decode? bs = some s) : encode s = bs := by
  rw [decode?, Option.map_eq_some_iff] at h
  obtain ⟨cs, chars, rfl⟩ := h
  rw [encode, String.toList_ofList]
  exact encodeChars_of_scan (mapM_id_eq_some_iff.mp chars)

theorem encodeChar_ne_nil (c : Char) : encodeChar c ≠ [] := by
  unfold encodeChar
  simp only
  repeat' split
  all_goals exact List.cons_ne_nil _ _

/-! Bytes below 0x80 -/

/-- Such a byte is all of its character. -/
theorem encodeChar_of_mem {c : Char} {b : UInt8} (mem : b ∈ encodeChar c) (low : b.toNat < 0x80) :
    c.toNat = b.toNat ∧ encodeChar c = [b] := by
  have ranges := toNat_ranges c
  unfold encodeChar at mem ⊢
  simp only at mem ⊢
  split at mem
  · rename_i one
    obtain rfl := List.mem_singleton.mp mem
    rw [if_pos one]
    exact ⟨(toNat_ofNat (by omega)).symm, rfl⟩
  · -- the other forms have no byte below 0x80
    exfalso
    repeat' split at mem
    all_goals
      simp only [List.mem_cons, List.not_mem_nil, or_false] at mem
      rcases mem with rfl | rfl | rfl | rfl
      all_goals
        rw [toNat_ofNat (by omega)] at low
        omega

theorem encodeChar_ofNat {b : UInt8} (low : b.toNat < 0x80) :
    encodeChar (Char.ofNat b.toNat) = [b] := by
  rw [encodeChar, toNat_ofNat_of_ranges (by omega), if_pos low, UInt8.ofNat_toNat]

/-- No more bytes are taken than there are. -/
theorem next_snd_le (b : UInt8) (bs : Bytes) : (next b bs).2 ≤ bs.length := by
  unfold next
  simp only
  split
  · exact Nat.zero_le _
  split
  · exact Nat.zero_le _
  split
  · split
    · exact Nat.zero_le _
    · rename_i first
      obtain ⟨-, -, rfl⟩ := follow_eq_some (by omega) first
      simp
  split
  · split
    · exact Nat.zero_le _
    rename_i first
    obtain ⟨-, -, rfl⟩ := follow_eq_some (by split <;> omega) first
    split
    · simp
    rename_i second
    obtain ⟨-, -, rfl⟩ := follow_eq_some (by omega) second
    simp
  split
  · split
    · exact Nat.zero_le _
    rename_i first
    obtain ⟨-, -, rfl⟩ := follow_eq_some (by split <;> omega) first
    split
    · simp
    rename_i second
    obtain ⟨-, -, rfl⟩ := follow_eq_some (by omega) second
    split
    · simp
    rename_i third
    obtain ⟨-, -, rfl⟩ := follow_eq_some (by omega) third
    simp
  · exact Nat.zero_le _

section
variable {x : UInt8} (low : x.toNat < 0x80)
include low

theorem follow_append {lo hi : Nat} (least : 0x80 ≤ lo) (bs rest : Bytes) :
    follow lo hi (bs ++ x :: rest) =
      (follow lo hi bs).map fun found => (found.1, found.2 ++ x :: rest) := by
  cases bs with
  | nil =>
    have other : ¬(lo ≤ x.toNat ∧ x.toNat ≤ hi) := by omega
    simp [follow, other]
  | cons b bs =>
    rw [List.cons_append, follow, follow]
    split <;> rfl

/-- A byte below 0x80 ends the piece before it as the end of the bytes does. -/
theorem next_append (b : UInt8) (bs rest : Bytes) : next b (bs ++ x :: rest) = next b bs := by
  have three : 0x80 ≤ if b.toNat = 0xe0 then 0xa0 else 0x80 := by split <;> omega
  have four : 0x80 ≤ if b.toNat = 0xf0 then 0x90 else 0x80 := by split <;> omega
  have more (bs : Bytes) : follow 0x80 0xbf (bs ++ x :: rest) =
      (follow 0x80 0xbf bs).map fun found => (found.1, found.2 ++ x :: rest) :=
    follow_append low (Nat.le_refl _) bs rest
  simp only [next, follow_append low three, follow_append low four, more]
  refine ite_congr rfl (fun _ => rfl) fun _ => ite_congr rfl (fun _ => rfl) fun _ =>
    ite_congr rfl (fun _ => ?_) fun _ => ite_congr rfl (fun _ => ?_) fun _ =>
      ite_congr rfl (fun _ => ?_) fun _ => rfl
  · cases follow 0x80 0xbf bs <;> rfl
  · rcases follow _ _ bs with _ | ⟨v, bs⟩
    · rfl
    · simp only [Option.map_some, more]
      cases follow 0x80 0xbf bs <;> rfl
  · rcases follow _ _ bs with _ | ⟨v, bs⟩
    · rfl
    · simp only [Option.map_some, more]
      rcases follow 0x80 0xbf bs with _ | ⟨v, bs⟩
      · rfl
      · simp only [Option.map_some, more]
        cases follow 0x80 0xbf bs <;> rfl

theorem scan_append (a b : Bytes) :
    scan (a ++ x :: b) = scan a ++ some (Char.ofNat x.toNat) :: scan b := by
  induction a using scan.induct with
  | case1 =>
    have own : next x b = (some (Char.ofNat x.toNat), 0) := by rw [next, if_pos low]
    have first : scan (x :: b) = (next x b).1 :: scan (b.drop (next x b).2) := by rw [scan]
    rw [List.nil_append, first, own, scan]
    rfl
  | case2 c bs ih =>
    have within := next_snd_le c bs
    rw [List.cons_append, scan, next_append low, scan, List.drop_append_of_le_length within, ih]
    rfl

end

end Staging.Utf8
