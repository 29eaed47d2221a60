import Staging.Proofs.Ledger.Acceptance
import Staging.Proofs.Ledger.Recording

/-!
Ledger files read back. The file of a ledger lists its units with the spellings of their sets, so
what is read are the same units, keyed as the reader keys them.
-/
namespace Staging

namespace Ledger

/-- Counts and lengths that the file format can hold. -/
structure Fits (units : SortedMap String PathSet) : Prop where
  count : units.size < 1 <<< 31
  names : ∀ entry ∈ units.toList, (Utf8.encode entry.1).length < 1 <<< 31
  sizes : ∀ entry ∈ units.toList, entry.2.size < 1 <<< 31
  paths : ∀ entry ∈ units.toList, ∀ path ∈ entry.2.toList, (Utf8.encode path).length < 1 <<< 31

instance (units : SortedMap String PathSet) : Decidable (Fits units) :=
  decidable_of_iff
    (units.size < 1 <<< 31 ∧ (∀ entry ∈ units.toList, (Utf8.encode entry.1).length < 1 <<< 31) ∧
      (∀ entry ∈ units.toList, entry.2.size < 1 <<< 31) ∧
      ∀ entry ∈ units.toList, ∀ path ∈ entry.2.toList, (Utf8.encode path).length < 1 <<< 31)
    ⟨fun ⟨a, b, c, d⟩ => ⟨a, b, c, d⟩, fun ⟨a, b, c, d⟩ => ⟨a, b, c, d⟩⟩

/-- The units with their sets keyed as the reader keys them. -/
def rekeyed (casing : Casing) (units : SortedMap String PathSet)
    (entries : List (String × PathSet)) : SortedMap String PathSet :=
  entries.foldl (fun units entry => units.insert entry.1 (entry.2.withCasing casing)) units

theorem size_eq_length (s : PathSet) : s.size = s.toList.length := by
  rw [PathSet.size, PathSet.toList, SortedMap.size, SortedMap.values, List.length_map]

theorem listed_toList (entry : String × PathSet) :
    listed (entry.1, entry.2.toList) = unitEntry entry := by
  rw [listed, unitEntry, size_eq_length]

theorem gathered_toList (casing : Casing) (units : SortedMap String PathSet)
    (entries : List (String × PathSet)) :
    gathered casing units (entries.map fun entry => (entry.1, entry.2.toList)) =
      rekeyed casing units entries := by
  rw [gathered, List.foldl_map]
  rfl

theorem get?_rekeyed (casing : Casing) {entries : List (String × PathSet)}
    (increasing : Increasing entries) (units : SortedMap String PathSet) (name : String) :
    (rekeyed casing units entries).get? name =
      ((SortedMap.lookup name entries).map (·.withCasing casing)).or (units.get? name) := by
  induction entries generalizing units with
  | nil => rfl
  | cons entry entries ih =>
    rw [rekeyed, List.foldl_cons]
    have rest := ih (List.Pairwise.of_cons increasing)
      (units.insert entry.1 (entry.2.withCasing casing))
    rw [rekeyed] at rest
    rw [rest, SortedMap.get?_insert]
    obtain ⟨first, set⟩ := entry
    rw [SortedMap.lookup]
    by_cases same : compare name first = .eq
    · obtain rfl := SortedMap.compare_eq_iff.mp same
      have unlisted : SortedMap.lookup name entries = none := by
        rw [Option.eq_none_iff_forall_ne_some]
        intro found later
        have mem := (SortedMap.lookup_eq_some_iff (List.Pairwise.of_cons increasing) _ _).mp later
        have below := List.rel_of_pairwise_cons increasing mem
        simp [Std.ReflCmp.compare_self] at below
      simp [unlisted]
    · simp [same]

theorem fileOf_encode {units : SortedMap String PathSet} (fits : Fits units) :
    FileOf (units.toList.map fun entry => (entry.1, entry.2.toList)) (encode units) where
  few := by
    rw [List.length_map]
    exact fits.count
  listable := by
    simp only [List.forall_mem_map]
    intro entry mem
    have size := fits.sizes entry mem
    rw [size_eq_length] at size
    exact ⟨fits.names entry mem, size, fits.paths entry mem⟩
  bytes_eq := by
    rw [List.length_map, List.flatMap_map, List.flatMap_congr fun entry _ => listed_toList entry,
      ← List.append_assoc]
    rfl

/-- What is read back from the file of some units: the same units, each with the paths it had. -/
theorem decode_encode {units : SortedMap String PathSet} (fits : Fits units) (casing : Casing) :
    ∃ read, decode (encode units) casing = .ok read ∧
      ∀ name, read.get? name = (units.get? name).map (·.withCasing casing) := by
  refine ⟨_, decode_of_fileOf (fileOf_encode fits) casing, fun name => ?_⟩
  rw [gathered_toList, get?_rekeyed casing units.increasing, SortedMap.get?_empty, Option.or_none]
  rfl

/-- Units read back from their file are the same units, each with the spellings of its set keyed
under the casing of the reader. Where that is the casing of all sets, nothing has changed. -/
theorem rekeyed_of_encoded {units : SortedMap String PathSet}
    (built : ∀ entry ∈ units.toList, entry.2.Built) (fits : Fits units) (policy : CasePolicy) :
    decode (encode units) policy.resolve =
        .ok (units.mapValues (·.withCasing policy.resolve)) ∧
      ((∀ entry ∈ units.toList, entry.2.casing = policy.resolve) →
        decode (encode units) policy.resolve = .ok units) := by
  obtain ⟨read, decoded, same⟩ := decode_encode fits policy.resolve
  have rekeyed : read = units.mapValues (·.withCasing policy.resolve) := by
    apply SortedMap.ext_get?
    intro name
    rw [same, SortedMap.get?_mapValues]
  subst rekeyed
  refine ⟨decoded, fun casing => ?_⟩
  rw [decoded]
  congr 1
  apply SortedMap.ext_toList
  refine (List.map_congr_left fun entry mem => ?_).trans (List.map_id _)
  have kept := (built entry mem).keyed.withCasing_self
  rw [casing entry mem] at kept
  exact Prod.ext rfl kept

/-- Two units, one of them with outputs that differ in case only, and one without outputs. -/
def Sample.units : SortedMap String PathSet :=
  .ofList [("läden", .ofList .insensitive ["out/b.txt", "out/A.txt", "OUT/a.txt"]),
    ("empty", .empty .insensitive)]

/-- Under their own casing the two units come back as they were, and otherwise with other keys. -/
theorem rekeyed_of_encoded_sample :
    (∀ entry ∈ Sample.units.toList, entry.2.Built) ∧ Fits Sample.units ∧
      (∀ entry ∈ Sample.units.toList, entry.2.casing = CasePolicy.insensitive.resolve) ∧
      decode (encode Sample.units) CasePolicy.auto.resolve =
        .ok (Sample.units.mapValues (·.withCasing .sensitive)) ∧
      decode (encode Sample.units) CasePolicy.insensitive.resolve = .ok Sample.units := by
  have listed : Sample.units.toList =
      [("empty", .empty .insensitive),
        ("läden", .ofList .insensitive ["out/b.txt", "out/A.txt", "OUT/a.txt"])] := by
    decide +kernel
  have built : ∀ entry ∈ Sample.units.toList, entry.2.Built := by
    simp only [listed, List.forall_mem_cons]
    exact ⟨.empty _, PathSet.built_ofList _ _, nofun⟩
  have fits : Fits Sample.units := by decide +kernel
  have casing : ∀ entry ∈ Sample.units.toList,
      entry.2.casing = CasePolicy.insensitive.resolve := by decide +kernel
  exact ⟨built, fits, casing, (rekeyed_of_encoded built fits .auto).1,
    (rekeyed_of_encoded built fits .insensitive).2 casing⟩

/-- A uniform ledger is what its file says. -/
theorem ofBytes_encode {l : Ledger} (uniform : l.Uniform) (fits : Fits l.units) :
    ofBytes l.casing (encode l.units) = l := by
  obtain ⟨read, decoded, same⟩ := decode_encode fits l.casing
  rw [ofBytes, decoded]
  refine ext_get? rfl fun name => ?_
  change read.get? name = l.get? name
  rw [same]
  cases found : l.units.get? name with
  | none => exact found.symm
  | some set =>
    obtain ⟨casing, keyed⟩ := uniform name set found
    rw [Option.map_some, ← casing, keyed.withCasing_self]
    exact found.symm

theorem uniform_gathered {casing : Casing} {units : SortedMap String PathSet}
    (uniform : Uniform ⟨casing, units⟩) (entries : List (String × List String)) :
    Uniform ⟨casing, gathered casing units entries⟩ := by
  induction entries generalizing units with
  | nil => exact uniform
  | cons entry entries ih =>
    refine ih fun name found eq => ?_
    have set := PathSet.collects_ofList casing entry.2
    by_cases this : name = entry.1
    · subst this
      cases (SortedMap.get?_insert_self units entry.1 _).symm.trans eq
      exact ⟨set.casing_eq, set.keyed⟩
    · exact uniform name found ((SortedMap.get?_insert_of_ne units _ this).symm.trans eq)

theorem casing_ofBytes (casing : Casing) (bytes : Bytes) :
    (ofBytes casing bytes).casing = casing := by
  rw [ofBytes]
  split <;> rfl

/-- A ledger that comes from a file is uniform, whatever the file. -/
theorem uniform_ofBytes (casing : Casing) (bytes : Bytes) : (ofBytes casing bytes).Uniform := by
  rw [ofBytes]
  cases decoded : decode bytes casing with
  | error e => exact uniform_empty casing
  | ok units =>
    obtain ⟨entries, -, rfl⟩ := fileOf_of_decode decoded
    exact uniform_gathered (uniform_empty casing) entries

end Ledger
end Staging
