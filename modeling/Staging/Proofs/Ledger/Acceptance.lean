import Staging.Proofs.Ledger.Reading

/-!
Which bytes are a ledger file. A file is accepted if and only if it is a list of units written down
and sealed with its checksum; what is read is that list put into a map in its order. Whatever does
not end in its own checksum is rejected before the units are looked at.
-/
namespace Staging.Ledger

/-- Some bytes with their checksum behind them. -/
def sealed (covered : Bytes) : Bytes := covered ++ Blake3.hash covered

section
variable (covered : Bytes)

theorem length_sealed : (sealed covered).length = covered.length + checksumLength := by
  rw [sealed, List.length_append, Blake3.hash_length, checksumLength]

theorem take_sealed :
    (sealed covered).take ((sealed covered).length - checksumLength) = covered := by
  rw [length_sealed, Nat.add_sub_cancel, sealed, List.take_left]

theorem drop_sealed :
    (sealed covered).drop ((sealed covered).length - checksumLength) = Blake3.hash covered := by
  rw [length_sealed, Nat.add_sub_cancel, sealed, List.drop_left]

end

/-- Decoding as a chain of checks, and the body behind them. -/
theorem decode_eq (bytes : Bytes) (casing : Casing) : decode bytes casing =
    (readNumber.run ⟨0, bytes⟩).bind fun (version, _) =>
      let covered := bytes.take (bytes.length - checksumLength)
      if version ≠ formatVersion then .error (.versionMismatch version)
      else if bytes.length < 4 + checksumLength then .error (.truncated bytes.length)
      else if Blake3.hash covered ≠ bytes.drop (bytes.length - checksumLength) then
        .error .checksumMismatch
      else ((readBody casing).run ⟨4, covered.drop 4⟩).map (·.1) := by
  rw [decode]
  refine congrArg (Except.bind _) (funext fun (version, _) => ?_)
  by_cases same : version = formatVersion <;>
    by_cases long : bytes.length < 4 + checksumLength <;>
      by_cases checked : Blake3.hash (bytes.take (bytes.length - checksumLength)) =
        bytes.drop (bytes.length - checksumLength) <;>
      simp [same, long, checked, bind, Except.bind, Except.map, pure, Except.pure, throw,
        throwThe, MonadExceptOf.throw]

/-- A sealed file of this version is read like its body. -/
theorem decode_sealed (rest : Bytes) (casing : Casing) :
    decode (sealed (number formatVersion ++ rest)) casing =
      ((readBody casing).run ⟨4, rest⟩).map (·.1) := by
  have version := reads_number (n := formatVersion) (by decide) 0
    (rest ++ Blake3.hash (number formatVersion ++ rest))
  rw [← List.append_assoc] at version
  change readNumber.run ⟨0, sealed (number formatVersion ++ rest)⟩ = _ at version
  have long : ¬(sealed (number formatVersion ++ rest)).length < 4 + checksumLength := by
    rw [length_sealed, List.length_append, number_length]
    omega
  have behind : (number formatVersion ++ rest).drop 4 = rest :=
    List.drop_left' (number_length formatVersion)
  simp [decode_eq, take_sealed, drop_sealed, version, behind, long, Except.bind]

theorem truncated_of_readNumber {c : Cursor} {fault : Fault}
    (h : readNumber.run c = .error fault) : fault = .truncated c.offset := by
  change (readBytes 4 c).bind _ = _ at h
  rw [readBytes] at h
  split at h
  · cases h
  · cases h
    rfl

/-- A file that is rejected for its version, its length or its checksum, its units unread. -/
def Refused (bytes : Bytes) (casing : Casing) : Prop :=
  (∃ actual, decode bytes casing = .error (.versionMismatch actual)) ∨
    (∃ offset, decode bytes casing = .error (.truncated offset)) ∨
      decode bytes casing = .error .checksumMismatch

/-- Past the three checks a file is sealed, with the version in front. -/
theorem refused_or_sealed (bytes : Bytes) (casing : Casing) :
    Refused bytes casing ∨ ∃ rest, bytes = sealed (number formatVersion ++ rest) := by
  rw [Refused, decode_eq]
  cases version : readNumber.run ⟨0, bytes⟩ with
  | error fault =>
    obtain rfl := truncated_of_readNumber version
    exact .inl (.inr (.inl ⟨0, rfl⟩))
  | ok result =>
    obtain ⟨front, four, value, split⟩ := taken_of_readNumber version
    simp only [Except.bind]
    split_ifs with other short broken
    · exact .inl (.inl ⟨result.1, rfl⟩)
    · exact .inl (.inr (.inl ⟨bytes.length, rfl⟩))
    · exact .inl (.inr (.inr rfl))
    · rw [not_not] at other broken
      obtain ⟨-, rfl⟩ := number_of_signed four (value.trans other)
      have start : (bytes.take (bytes.length - checksumLength)).take 4 = number formatVersion := by
        rw [List.take_take, Nat.min_eq_left (by omega)]
        exact (congrArg (List.take 4) split).trans (List.take_left' four)
      refine .inr ⟨(bytes.take (bytes.length - checksumLength)).drop 4, ?_⟩
      rw [← start, List.take_append_drop, sealed, broken, List.take_append_drop]

/-- The file that lists these units: the version, their count, each of them with its name, the
count of its paths and its paths, and the checksum of all that. Numbers are not negative. -/
structure FileOf (entries : List (String × List String)) (bytes : Bytes) : Prop where
  few : entries.length < 1 <<< 31
  listable : ∀ entry ∈ entries, Listable entry
  bytes_eq : bytes =
    sealed (number formatVersion ++ (number entries.length ++ entries.flatMap listed))

theorem decode_of_fileOf {entries : List (String × List String)} {bytes : Bytes}
    (file : FileOf entries bytes) (casing : Casing) :
    decode bytes casing = .ok (gathered casing .empty entries) := by
  obtain ⟨c, body⟩ := run_readBody file.few file.listable casing 4
  rw [file.bytes_eq, decode_sealed, body, Except.map]

theorem fileOf_of_decode {bytes : Bytes} {casing : Casing} {units : SortedMap String PathSet}
    (h : decode bytes casing = .ok units) :
    ∃ entries, FileOf entries bytes ∧ units = gathered casing .empty entries := by
  rcases refused_or_sealed bytes casing with refused | ⟨rest, rfl⟩
  · rw [Refused, h] at refused
    simp at refused
  · rw [decode_sealed] at h
    cases body : (readBody casing).run ⟨4, rest⟩ with
    | error fault =>
      rw [body] at h
      cases h
    | ok result =>
      rw [body] at h
      cases h
      obtain ⟨entries, few, listable, rfl, same⟩ := taken_of_readBody body
      exact ⟨entries, ⟨few, listable, rfl⟩, same⟩

/-- The map of listed units: a name stands for the paths that it is last listed with, and these
are a set up to case. -/
structure Gathers (casing : Casing) (entries : List (String × List String))
    (units : SortedMap String PathSet) : Prop where
  unlisted : ∀ name, (∀ entry ∈ entries, entry.1 ≠ name) → units.get? name = none
  last : ∀ before name paths after, entries = before ++ (name, paths) :: after →
    (∀ entry ∈ after, entry.1 ≠ name) → ∃ set, units.get? name = some set ∧
      set.Collects casing paths

theorem get?_gathered_of_unlisted (casing : Casing) (units : SortedMap String PathSet)
    {entries : List (String × List String)} {name : String}
    (unlisted : ∀ entry ∈ entries, entry.1 ≠ name) :
    (gathered casing units entries).get? name = units.get? name := by
  induction entries generalizing units with
  | nil => rfl
  | cons entry entries ih =>
    obtain ⟨other, rest⟩ := List.forall_mem_cons.mp unlisted
    exact (ih (units.insert entry.1 (PathSet.ofList casing entry.2)) rest).trans
      (SortedMap.get?_insert_of_ne _ _ other.symm)

theorem gathers_gathered (casing : Casing) (entries : List (String × List String)) :
    Gathers casing entries (gathered casing .empty entries) where
  unlisted name unlisted := get?_gathered_of_unlisted casing .empty unlisted
  last before name paths after split unlisted := by
    refine ⟨PathSet.ofList casing paths, ?_, PathSet.collects_ofList casing paths⟩
    rw [split, gathered, List.foldl_append, List.foldl_cons]
    exact (get?_gathered_of_unlisted casing _ unlisted).trans (SortedMap.get?_insert_self _ _ _)

/-- A file is accepted if and only if it lists units, and then what is read is these units put in
one after another: the last of several with one name, each with its paths up to case. Bytes that do
not end in the checksum of what is before it are rejected for their version, their length or their
checksum. -/
theorem accepted_iff_fileOf (bytes : Bytes) (policy : CasePolicy) :
    ((∃ units, decode bytes policy.resolve = .ok units) ↔ ∃ entries, FileOf entries bytes) ∧
      (∀ entries, FileOf entries bytes → ∃ units, decode bytes policy.resolve = .ok units ∧
        units = .ofList (entries.map fun entry =>
          (entry.1, PathSet.ofList policy.resolve entry.2)) ∧
        Gathers policy.resolve entries units) ∧
      (bytes.drop (bytes.length - checksumLength) ≠
          Blake3.hash (bytes.take (bytes.length - checksumLength)) →
        Refused bytes policy.resolve) := by
  refine ⟨⟨fun ⟨units, read⟩ => ?_, fun ⟨entries, file⟩ => ?_⟩, fun entries file => ?_,
    fun broken => ?_⟩
  · obtain ⟨entries, file, -⟩ := fileOf_of_decode read
    exact ⟨entries, file⟩
  · exact ⟨_, decode_of_fileOf file policy.resolve⟩
  · refine ⟨_, decode_of_fileOf file policy.resolve, ?_, gathers_gathered policy.resolve entries⟩
    rw [SortedMap.ofList, List.foldl_map, gathered]
  · rcases refused_or_sealed bytes policy.resolve with refused | ⟨rest, rfl⟩
    · exact refused
    · rw [drop_sealed, take_sealed] at broken
      exact absurd rfl broken

/-- A unit that is listed twice, the second time with one path in two spellings. -/
def Sample.entries : List (String × List String) :=
  [("app", ["out/old.txt"]), ("läden", []), ("app", ["out/A.txt", "OUT/a.txt"])]

def Sample.file : Bytes :=
  sealed (number formatVersion ++
    (number Sample.entries.length ++ Sample.entries.flatMap listed))

/-- The second list of the repeated unit is the one that is read. With one byte changed nothing is
read. -/
theorem accepted_iff_fileOf_sample :
    FileOf Sample.entries Sample.file ∧
      decode Sample.file CasePolicy.insensitive.resolve =
        .ok (.ofList [("app", .ofList .insensitive ["OUT/a.txt"]),
          ("läden", .empty .insensitive)]) ∧
      Refused (Sample.file.set 11 0x62) CasePolicy.insensitive.resolve := by
  have file : FileOf Sample.entries Sample.file :=
    ⟨by decide, by decide +kernel, rfl⟩
  obtain ⟨-, read, -⟩ := accepted_iff_fileOf Sample.file .insensitive
  obtain ⟨units, decoded, same, -⟩ := read Sample.entries file
  have units_eq : units = .ofList [("app", .ofList .insensitive ["OUT/a.txt"]),
      ("läden", .empty .insensitive)] := same.trans (by decide +kernel)
  obtain ⟨-, -, refused⟩ := accepted_iff_fileOf (Sample.file.set 11 0x62) .insensitive
  exact ⟨file, units_eq ▸ decoded, refused (by decide +kernel)⟩

end Staging.Ledger
