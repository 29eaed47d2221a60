import Staging.Ledger.Format
import Staging.Proofs.PathSet
import Staging.Proofs.Text.Utf8

/-!
The readers of ledger files against what the files say. A reader that takes a piece off the front
takes it off whatever follows, and where it gives a value, the piece that it took is that value as
it is written. Numbers have four bytes with a sign, so counts and lengths stay below `1 <<< 31`.
-/
namespace Staging.Ledger

/-- A unit as it stands in a file: its name and its paths, repetitions included. -/
def listed (entry : String × List String) : Bytes :=
  text entry.1 ++ number entry.2.length ++ entry.2.flatMap text

/-- A unit whose lengths the file format can hold. -/
structure Listable (entry : String × List String) : Prop where
  name : (Utf8.encode entry.1).length < 1 <<< 31
  size : entry.2.length < 1 <<< 31
  paths : ∀ path ∈ entry.2, (Utf8.encode path).length < 1 <<< 31

instance (entry : String × List String) : Decidable (Listable entry) :=
  decidable_of_iff
    ((Utf8.encode entry.1).length < 1 <<< 31 ∧ entry.2.length < 1 <<< 31 ∧
      ∀ path ∈ entry.2, (Utf8.encode path).length < 1 <<< 31)
    ⟨fun ⟨a, b, c⟩ => ⟨a, b, c⟩, fun ⟨a, b, c⟩ => ⟨a, b, c⟩⟩

/-- The units with the listed ones put in, one after another. -/
def gathered (casing : Casing) (units : SortedMap String PathSet)
    (entries : List (String × List String)) : SortedMap String PathSet :=
  entries.foldl (fun units entry => units.insert entry.1 (PathSet.ofList casing entry.2)) units

variable {α β : Type}

theorem run_bind_ok {r : Reader α} {c c' : Cursor} {a : α} (h : r.run c = .ok (a, c'))
    (f : α → Reader β) : (r >>= f).run c = (f a).run c' := by
  rw [StateT.run_bind, h]
  rfl

theorem run_get_bind (f : Cursor → Reader β) (c : Cursor) :
    ((get : Reader Cursor) >>= f).run c = (f c).run c := rfl

theorem run_bind_inversion {r : Reader α} {f : α → Reader β} {c c'' : Cursor} {b : β}
    (h : (r >>= f).run c = .ok (b, c'')) :
    ∃ a c', r.run c = .ok (a, c') ∧ (f a).run c' = .ok (b, c'') := by
  rw [StateT.run_bind] at h
  cases run : r.run c with
  | error e =>
    rw [run] at h
    cases h
  | ok result =>
    rw [run] at h
    exact ⟨result.1, result.2, rfl, h⟩

/-- The reader takes these bytes off the front, whatever follows, and gives this value. -/
def Reads (r : Reader α) (bytes : Bytes) (a : α) : Prop :=
  ∀ offset rest, r.run ⟨offset, bytes ++ rest⟩ = .ok (a, ⟨offset + bytes.length, rest⟩)

namespace Reads

theorem pure (a : α) : Reads (pure a) [] a := fun _ _ => rfl

theorem bind {r : Reader α} {f : α → Reader β} {front back : Bytes} {a : α} {b : β}
    (h : Reads r front a) (next : Reads (f a) back b) : Reads (r >>= f) (front ++ back) b := by
  intro offset rest
  rw [List.append_assoc, run_bind_ok (h offset _), next, List.length_append, Nat.add_assoc]

end Reads

theorem reads_bytes (bytes : Bytes) : Reads (readBytes bytes.length) bytes bytes := by
  intro offset rest
  change readBytes bytes.length ⟨offset, bytes ++ rest⟩ = _
  rw [readBytes, if_pos (by simp), List.take_left, List.drop_left]

theorem number_length (n : Nat) : (number n).length = 4 := Bytes.bigEndian_length 4 n

theorem signed_number {n : Nat} (small : n < 1 <<< 31) :
    Bytes.signed 32 (Bytes.ofBigEndian (number n)) = n := by
  have value : Bytes.ofBigEndian (number n) = n := by
    rw [number, Bytes.ofBigEndian_bigEndian]
    exact Nat.mod_eq_of_lt (by omega)
  rw [value, Bytes.signed, if_pos small]

theorem reads_number {n : Nat} (small : n < 1 <<< 31) : Reads readNumber (number n) (n : Int) := by
  intro offset rest
  have read := reads_bytes (number n) offset rest
  rw [number_length] at read
  rw [readNumber, run_bind_ok read, signed_number small, number_length]
  rfl

theorem reads_length {n : Nat} (small : n < 1 <<< 31) : Reads readLength (number n) n := by
  intro offset rest
  rw [readLength, run_get_bind, run_bind_ok (reads_number small offset rest)]
  rfl

theorem reads_text {s : String} (small : (Utf8.encode s).length < 1 <<< 31) :
    Reads readText (text s) s := by
  intro offset rest
  have length := reads_length small offset (Utf8.encode s ++ rest)
  have bytes := reads_bytes (Utf8.encode s) (offset + (number (Utf8.encode s).length).length) rest
  rw [readText, text, List.append_assoc, run_bind_ok length, run_get_bind, run_bind_ok bytes,
    Utf8.decode?_encode, List.length_append, ← Nat.add_assoc]
  rfl

theorem reads_paths {paths : List String}
    (small : ∀ path ∈ paths, (Utf8.encode path).length < 1 <<< 31) (set : PathSet) :
    Reads (readPaths paths.length set) (paths.flatMap text) (paths.foldl PathSet.insert set) := by
  induction paths generalizing set with
  | nil => exact Reads.pure set
  | cons path paths ih =>
    exact (reads_text (small path List.mem_cons_self)).bind
      (ih (fun q mem => small q (List.mem_cons_of_mem path mem)) (set.insert path))

theorem reads_units (casing : Casing) {entries : List (String × List String)}
    (listable : ∀ entry ∈ entries, Listable entry) (units : SortedMap String PathSet) :
    Reads (readUnits casing entries.length units) (entries.flatMap listed)
      (gathered casing units entries) := by
  induction entries generalizing units with
  | nil => exact Reads.pure units
  | cons entry entries ih =>
    obtain ⟨first, others⟩ := List.forall_mem_cons.mp listable
    have name := reads_text first.name
    have size := reads_length first.size
    have set := reads_paths first.paths (.empty casing)
    have rest := ih others (units.insert entry.1 (PathSet.ofList casing entry.2))
    have whole := name.bind (f := fun unit => do
      let paths ← readPaths (← readLength) (.empty casing)
      readUnits casing entries.length (units.insert unit paths))
      (size.bind (f := fun count => do
        let paths ← readPaths count (.empty casing)
        readUnits casing entries.length (units.insert entry.1 paths)) (set.bind rest))
    rw [List.flatMap_cons, listed]
    simp only [List.append_assoc] at whole ⊢
    exact whole

/-- The body behind the version, with nothing after it. -/
theorem run_readBody {entries : List (String × List String)} (few : entries.length < 1 <<< 31)
    (listable : ∀ entry ∈ entries, Listable entry) (casing : Casing) (offset : Nat) :
    ∃ c, (readBody casing).run ⟨offset, number entries.length ++ entries.flatMap listed⟩ =
      .ok (gathered casing .empty entries, c) := by
  have count := reads_length few offset (entries.flatMap listed)
  have read := reads_units casing listable .empty (offset + (number entries.length).length) []
  rw [List.append_nil] at read
  rw [readBody, run_bind_ok count, run_bind_ok read]
  exact ⟨_, rfl⟩

section
variable {c c' : Cursor}

theorem taken_of_readBytes {n : Nat} {bytes : Bytes}
    (h : (readBytes n).run c = .ok (bytes, c')) :
    bytes.length = n ∧ c.rest = bytes ++ c'.rest := by
  change readBytes n c = _ at h
  rw [readBytes] at h
  split at h
  · rename_i enough
    cases h
    exact ⟨List.length_take_of_le enough, (List.take_append_drop n c.rest).symm⟩
  · cases h

/-- Four bytes that stand for a number that is not negative are the bytes of that number. -/
theorem number_of_signed {bytes : Bytes} {n : Nat} (four : bytes.length = 4)
    (value : Bytes.signed 32 (Bytes.ofBigEndian bytes) = n) :
    n < 1 <<< 31 ∧ bytes = number n := by
  have back := Bytes.bigEndian_ofBigEndian bytes
  rw [four] at back
  have bound : Bytes.ofBigEndian bytes < 1 <<< 32 := by
    rw [← back, Bytes.ofBigEndian_bigEndian]
    exact Nat.mod_lt _ (by decide)
  rw [Bytes.signed] at value
  split at value
  · rename_i small
    obtain rfl := Int.ofNat.inj value
    exact ⟨small, back.symm⟩
  · omega

theorem taken_of_readNumber {value : Int} (h : readNumber.run c = .ok (value, c')) :
    ∃ bytes : Bytes, bytes.length = 4 ∧ Bytes.signed 32 (Bytes.ofBigEndian bytes) = value ∧
      c.rest = bytes ++ c'.rest := by
  obtain ⟨bytes, _, read, ⟨⟩⟩ := run_bind_inversion h
  obtain ⟨four, front⟩ := taken_of_readBytes read
  exact ⟨bytes, four, rfl, front⟩

theorem taken_of_readLength {n : Nat} (h : readLength.run c = .ok (n, c')) :
    n < 1 <<< 31 ∧ c.rest = number n ++ c'.rest := by
  rw [readLength, run_get_bind] at h
  obtain ⟨value, _, read, h⟩ := run_bind_inversion h
  obtain ⟨bytes, four, same, front⟩ := taken_of_readNumber read
  split at h
  · cases h
    obtain ⟨small, rfl⟩ := number_of_signed four same
    exact ⟨small, front⟩
  · cases h

theorem taken_of_readText {s : String} (h : readText.run c = .ok (s, c')) :
    (Utf8.encode s).length < 1 <<< 31 ∧ c.rest = text s ++ c'.rest := by
  obtain ⟨n, c₁, length, h⟩ := run_bind_inversion h
  rw [run_get_bind] at h
  obtain ⟨bytes, c₂, read, decoded⟩ := run_bind_inversion h
  obtain ⟨small, front⟩ := taken_of_readLength length
  obtain ⟨rfl, behind⟩ := taken_of_readBytes read
  split at decoded
  · rename_i same
    cases decoded
    rw [text, Utf8.encode_of_decode? same, List.append_assoc, ← behind]
    exact ⟨small, front⟩
  · cases decoded

theorem taken_of_readPaths {count : Nat} {set read : PathSet}
    (h : (readPaths count set).run c = .ok (read, c')) :
    ∃ paths : List String, paths.length = count ∧
      (∀ path ∈ paths, (Utf8.encode path).length < 1 <<< 31) ∧
      c.rest = paths.flatMap text ++ c'.rest ∧ read = paths.foldl PathSet.insert set := by
  induction count generalizing set c with
  | zero =>
    cases h
    exact ⟨[], rfl, nofun, rfl, rfl⟩
  | succ count ih =>
    obtain ⟨path, _, first, h⟩ := run_bind_inversion h
    obtain ⟨small, front⟩ := taken_of_readText first
    obtain ⟨paths, rfl, others, behind, rfl⟩ := ih h
    refine ⟨path :: paths, rfl, List.forall_mem_cons.mpr ⟨small, others⟩, ?_, rfl⟩
    rw [front, behind, List.flatMap_cons, List.append_assoc]

theorem taken_of_readUnits {casing : Casing} {count : Nat} {units read : SortedMap String PathSet}
    (h : (readUnits casing count units).run c = .ok (read, c')) :
    ∃ entries : List (String × List String), entries.length = count ∧
      (∀ entry ∈ entries, Listable entry) ∧
      c.rest = entries.flatMap listed ++ c'.rest ∧ read = gathered casing units entries := by
  induction count generalizing units c with
  | zero =>
    cases h
    exact ⟨[], rfl, nofun, rfl, rfl⟩
  | succ count ih =>
    obtain ⟨name, _, first, h⟩ := run_bind_inversion h
    obtain ⟨size, _, length, h⟩ := run_bind_inversion h
    obtain ⟨set, _, read, h⟩ := run_bind_inversion h
    obtain ⟨shortName, front⟩ := taken_of_readText first
    obtain ⟨shortSet, next⟩ := taken_of_readLength length
    obtain ⟨paths, rfl, shortPaths, middle, rfl⟩ := taken_of_readPaths read
    obtain ⟨entries, rfl, listable, behind, rfl⟩ := ih h
    refine ⟨(name, paths) :: entries, rfl,
      List.forall_mem_cons.mpr ⟨⟨shortName, shortSet, shortPaths⟩, listable⟩, ?_, rfl⟩
    simp only [front, next, middle, behind, List.flatMap_cons, listed, List.append_assoc]

end

/-- A body that is read to its end lists the units of the result. -/
theorem taken_of_readBody {casing : Casing} {c c' : Cursor} {units : SortedMap String PathSet}
    (h : (readBody casing).run c = .ok (units, c')) :
    ∃ entries : List (String × List String), entries.length < 1 <<< 31 ∧
      (∀ entry ∈ entries, Listable entry) ∧
      c.rest = number entries.length ++ entries.flatMap listed ∧
      units = gathered casing .empty entries := by
  obtain ⟨count, _, length, h⟩ := run_bind_inversion h
  obtain ⟨_, _, read, h⟩ := run_bind_inversion h
  rw [run_get_bind] at h
  obtain ⟨small, front⟩ := taken_of_readLength length
  obtain ⟨entries, rfl, listable, behind, rfl⟩ := taken_of_readUnits read
  split at h
  · rename_i ended
    cases h
    rw [behind, List.eq_nil_of_length_eq_zero ended, List.append_nil] at front
    exact ⟨entries, small, listable, front, rfl⟩
  · cases h

end Staging.Ledger
