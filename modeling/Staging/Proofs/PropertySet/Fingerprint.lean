import Mathlib.Data.List.Infix
import Staging.FileSystem.Memory
import Staging.Proofs.Discovery.Sources
import Staging.Proofs.SortedMap
import Staging.Proofs.Text.Utf8

/-!
What a fingerprint tells apart. The hashed bytes give back the lines of a set, each with its length
before it, but a line does not give back its pair: the arrow may also stand in a key or in a value.
-/
namespace Staging

namespace PropertySet

/-- A line as it is hashed. -/
def framed (l : String) : Bytes := Bytes.littleEndian 8 (Utf8.encode l).length ++ Utf8.encode l

/-- The length of the line can be written down. -/
def Short (l : String) : Prop := (Utf8.encode l).length < 1 <<< 64

/-- The lines have lengths that can be written down. -/
def Fits (p : PropertySet) : Prop := ∀ pair ∈ p.toList, Short (line pair)

/-- The arrow that a line puts between key and value stands nowhere in the key. -/
def Plain (key : String) : Prop := ¬['-', '>'] <:+: key.toList

instance (l : String) : Decidable (Short l) := inferInstanceAs (Decidable (_ < _))

instance (p : PropertySet) : Decidable p.Fits :=
  inferInstanceAs (Decidable (∀ pair ∈ p.toList, Short (line pair)))

instance (key : String) : Decidable (Plain key) := inferInstanceAs (Decidable (¬_))

theorem framed_append_inj {l l' : String} (short : Short l) (short' : Short l')
    {rest rest' : Bytes} (h : framed l ++ rest = framed l' ++ rest') : l = l' ∧ rest = rest' := by
  rw [framed, framed, List.append_assoc, List.append_assoc] at h
  obtain ⟨lengths, h⟩ := List.append_inj h (by simp)
  have same := congrArg Bytes.ofLittleEndian lengths
  rw [Bytes.ofLittleEndian_littleEndian, Bytes.ofLittleEndian_littleEndian,
    Nat.mod_eq_of_lt short, Nat.mod_eq_of_lt short'] at same
  obtain ⟨bytes, rest⟩ := List.append_inj h same
  exact ⟨Utf8.encode_injective bytes, rest⟩

theorem framed_ne_nil (l : String) : framed l ≠ [] := by
  intro h
  have length := congrArg List.length h
  simp [framed] at length

theorem flatMap_framed_inj {ls ls' : List String} (short : ∀ l ∈ ls, Short l)
    (short' : ∀ l ∈ ls', Short l) (h : ls.flatMap framed = ls'.flatMap framed) : ls = ls' := by
  induction ls generalizing ls' with
  | nil =>
    cases ls' with
    | nil => rfl
    | cons l' ls' => simp [framed_ne_nil] at h
  | cons l ls ih =>
    cases ls' with
    | nil => simp [framed_ne_nil] at h
    | cons l' ls' =>
      rw [List.flatMap_cons, List.flatMap_cons] at h
      obtain ⟨rfl, rest⟩ :=
        framed_append_inj (short l List.mem_cons_self) (short' l' List.mem_cons_self) h
      rw [ih (fun x mem => short x (List.mem_cons_of_mem l mem))
        (fun x mem => short' x (List.mem_cons_of_mem l mem)) rest]

theorem sorted_mergeSort (ls : List String) :
    (ls.mergeSort fun a b => decide (a ≤ b)).Pairwise (· ≤ ·) := by
  have trans (a b c : String) (h : decide (a ≤ b) = true) (h' : decide (b ≤ c) = true) :
      decide (a ≤ c) = true :=
    decide_eq_true (String.le_trans (of_decide_eq_true h) (of_decide_eq_true h'))
  have total (a b : String) : (decide (a ≤ b) || decide (b ≤ a)) = true := by
    simpa using String.le_total a b
  exact (List.pairwise_mergeSort trans total _).imp of_decide_eq_true

/-- Sorting forgets the order, and nothing else. -/
theorem mergeSort_eq_iff (ls ls' : List String) :
    ls.mergeSort (fun a b => decide (a ≤ b)) = ls'.mergeSort (fun a b => decide (a ≤ b)) ↔
      ls.Perm ls' := by
  constructor
  · intro same
    exact ((List.mergeSort_perm ls _).symm.trans (.of_eq same)).trans (List.mergeSort_perm ls' _)
  · intro perm
    refine List.Perm.eq_of_pairwise (fun a b _ _ h h' => String.le_antisymm h h')
      (sorted_mergeSort ls) (sorted_mergeSort ls') ?_
    exact ((List.mergeSort_perm ls _).trans perm).trans (List.mergeSort_perm ls' _).symm

theorem sortedLines_eq_iff (p q : PropertySet) :
    p.sortedLines = q.sortedLines ↔ (p.toList.map line).Perm (q.toList.map line) :=
  mergeSort_eq_iff _ _

theorem Fits.short {p : PropertySet} (h : p.Fits) : ∀ l ∈ p.sortedLines, Short l := by
  intro l mem
  obtain ⟨pair, entry, rfl⟩ := List.mem_map.mp (List.mem_mergeSort.mp mem)
  exact h pair entry

/-- The hashed bytes tell the lines, and nothing else. -/
theorem stream_eq_iff {p q : PropertySet} (hp : p.Fits) (hq : q.Fits) :
    p.stream = q.stream ↔ (p.toList.map line).Perm (q.toList.map line) := by
  rw [← sortedLines_eq_iff]
  exact ⟨flatMap_framed_inj hp.short hq.short, congrArg (List.flatMap framed)⟩

theorem toList_line (pair : String × String) :
    (line pair).toList = pair.1.toList ++ '-' :: '>' :: pair.2.toList := by
  simp [line]

theorem value_of_line {k v w : String} (h : line (k, v) = line (k, w)) : v = w := by
  have chars := congrArg String.toList h
  rw [toList_line, toList_line] at chars
  have tails := List.append_cancel_left chars
  simp only [List.cons.injEq, true_and] at tails
  exact String.toList_inj.mp tails

/-- What a longer key adds to a shorter one begins with the arrow. -/
theorem arrow_of_longer {front value value' : List Char}
    (h : '-' :: '>' :: value = front ++ '-' :: '>' :: value') :
    front = [] ∨ ['-', '>'] <+: front := by
  match front with
  | [] => exact .inl rfl
  | [c] => simp at h
  | c :: d :: front =>
    simp only [List.cons_append, List.cons.injEq] at h
    obtain ⟨rfl, rfl, -⟩ := h
    exact .inr ⟨front, rfl⟩

theorem key_of_longer {key key' value value' front : List Char} (longer : key' = key ++ front)
    (plain : ¬['-', '>'] <:+: key')
    (h : '-' :: '>' :: value = front ++ '-' :: '>' :: value') : key = key' := by
  subst longer
  rcases arrow_of_longer h with rfl | starts
  · rw [List.append_nil]
  · exact absurd (starts.isInfix.trans (List.suffix_append key front).isInfix) plain

theorem key_of_line {k k' v v' : String} (plain : Plain k) (plain' : Plain k')
    (h : line (k, v) = line (k', v')) : k = k' := by
  have chars := congrArg String.toList h
  rw [toList_line, toList_line] at chars
  apply String.toList_inj.mp
  rcases List.append_eq_append_iff.mp chars with ⟨front, longer, rest⟩ | ⟨front, longer, rest⟩
  · exact key_of_longer longer plain' rest
  · exact (key_of_longer longer plain rest).symm

/-- A line of one set is a line of the other if the lines are the same. -/
theorem line_of_perm {p q : PropertySet} (perm : (p.toList.map line).Perm (q.toList.map line))
    {k v : String} (found : p.get? k = some v) :
    ∃ k' v', q.get? k' = some v' ∧ line (k', v') = line (k, v) := by
  have entry := (p.get?_eq_some_iff k v).mp found
  obtain ⟨⟨k', v'⟩, mem, same⟩ := List.mem_map.mp (perm.subset (List.mem_map_of_mem entry))
  exact ⟨k', v', (q.get?_eq_some_iff k' v').mpr mem, same⟩

theorem get?_of_plain {p q : PropertySet} (plain : ∀ k, k ∈ p.keys ∨ k ∈ q.keys → Plain k)
    (perm : (p.toList.map line).Perm (q.toList.map line)) {k v : String}
    (found : p.get? k = some v) : q.get? k = some v := by
  obtain ⟨k', v', found', same⟩ := line_of_perm perm found
  have known : k ∈ p.keys := (p.mem_keys_iff k).mpr (found ▸ rfl)
  have known' : k' ∈ q.keys := (q.mem_keys_iff k').mpr (found' ▸ rfl)
  obtain rfl : k' = k := key_of_line (plain k' (.inr known')) (plain k (.inl known)) same
  rw [found', value_of_line same]

theorem eq_of_plain {p q : PropertySet} (plain : ∀ k, k ∈ p.keys ∨ k ∈ q.keys → Plain k)
    (perm : (p.toList.map line).Perm (q.toList.map line)) : p = q := by
  refine SortedMap.ext_get? fun k => Option.ext fun v => ?_
  exact ⟨get?_of_plain plain perm, get?_of_plain (fun x mem => plain x mem.symm) perm.symm⟩

/-- The line of one key, if the set has that key. -/
def linesOf (p : PropertySet) (k : String) : List String :=
  (p.toList.filter fun pair => compare k pair.1 == .eq).map line

theorem linesOf_perm (p : PropertySet) (k : String) :
    (p.linesOf k ++ (p.erase k).toList.map line).Perm (p.toList.map line) := by
  have all := (List.filter_append_perm (fun pair => compare k pair.1 == .eq) p.toList).map line
  rwa [List.map_append] at all

theorem mem_linesOf (p : PropertySet) (k l : String) :
    l ∈ p.linesOf k ↔ ∃ v, p.get? k = some v ∧ line (k, v) = l := by
  rw [linesOf, List.mem_map]
  constructor
  · rintro ⟨⟨k', v⟩, mem, same⟩
    obtain ⟨entry, key⟩ := List.mem_filter.mp mem
    obtain rfl : k = k' := SortedMap.compare_eq_iff.mp (eq_of_beq key)
    exact ⟨v, (p.get?_eq_some_iff k v).mpr entry, same⟩
  · rintro ⟨v, found, same⟩
    refine ⟨(k, v), List.mem_filter.mpr ⟨(p.get?_eq_some_iff k v).mp found, ?_⟩, same⟩
    exact beq_iff_eq.mpr Std.ReflCmp.compare_self

/-- Where two sets differ in one key only, the line of that key tells them apart. -/
theorem get?_of_differing {p q : PropertySet} {k v : String}
    (others : ∀ x, x ≠ k → p.get? x = q.get? x)
    (perm : (p.toList.map line).Perm (q.toList.map line)) (found : p.get? k = some v) :
    q.get? k = some v := by
  have rest : p.erase k = q.erase k := by
    refine SortedMap.ext_get? fun x => ?_
    rw [SortedMap.get?_erase, SortedMap.get?_erase]
    split
    · rfl
    · rename_i ne
      exact others x ne
  have here : (p.linesOf k).Perm (q.linesOf k) := by
    have all := ((p.linesOf_perm k).trans perm).trans (q.linesOf_perm k).symm
    rwa [rest, List.perm_append_right_iff] at all
  have listed := here.subset ((p.mem_linesOf k _).mpr ⟨v, found, rfl⟩)
  obtain ⟨w, found', same⟩ := (q.mem_linesOf k _).mp listed
  rw [found', value_of_line same]

theorem eq_of_differing {p q : PropertySet} {k : String}
    (others : ∀ x, x ≠ k → p.get? x = q.get? x)
    (perm : (p.toList.map line).Perm (q.toList.map line)) : p = q := by
  refine SortedMap.ext_get? fun x => ?_
  by_cases key : x = k
  · subst key
    refine Option.ext fun v => ?_
    exact ⟨get?_of_differing others perm,
      get?_of_differing (fun y ne => (others y ne).symm) perm.symm⟩
  · exact others x key

/-- Different bytes are hashed to the same fingerprint. -/
def Collides (p q : PropertySet) : Prop := p.stream ≠ q.stream ∧ p.fingerprint = q.fingerprint

theorem fingerprint_eq_iff (p q : PropertySet) :
    p.fingerprint = q.fingerprint ↔ Collides p q ∨ p.stream = q.stream := by
  constructor
  · intro same
    by_cases bytes : p.stream = q.stream
    · exact .inr bytes
    · exact .inl ⟨bytes, same⟩
  · rintro (collides | bytes)
    · exact collides.2
    · rw [fingerprint, bytes, fingerprint]

section
variable (m : Type → Type) {σ : Type} [Monad m] [LawfulMonad m] [Stateful m σ] [FileSystem m]

/-- Two sets are hashed from the same bytes exactly when they have the same lines. They are then
one set if no key has an arrow in it, and also if they differ at most in one key. Candidates of two
sets have stamps with one fingerprint only if the lines are the same or the hashes collide. -/
theorem told_by_stream {p q : PropertySet} (hp : p.Fits) (hq : q.Fits) :
    (p.stream = q.stream ↔ (p.toList.map line).Perm (q.toList.map line)) ∧
    ((∀ k, k ∈ p.keys ∨ k ∈ q.keys → Plain k) → (p.stream = q.stream ↔ p = q)) ∧
    (∀ k, (∀ x, x ≠ k → p.get? x = q.get? x) → (p.stream = q.stream ↔ p = q)) ∧
    ∀ c c' : Candidate, Discovery.Finds m c → Discovery.Finds m c' →
      c.properties = p → c'.properties = q →
      (c.stamp.properties = c'.stamp.properties ↔
        Collides p q ∨ (p.toList.map line).Perm (q.toList.map line)) := by
  refine ⟨stream_eq_iff hp hq, fun plain => ?_, fun k others => ?_, ?_⟩
  · exact ⟨fun same => eq_of_plain plain ((stream_eq_iff hp hq).mp same), congrArg stream⟩
  · exact ⟨fun same => eq_of_differing others ((stream_eq_iff hp hq).mp same), congrArg stream⟩
  · rintro c c' found found' rfl rfl
    rw [found.fingerprint_eq, found'.fingerprint_eq, fingerprint_eq_iff, stream_eq_iff hp hq]

end

/-- Two values of one key. -/
theorem told_by_stream_sample :
    let p : PropertySet := .ofList [("user", "one"), ("mode", "x")]
    let q : PropertySet := .ofList [("user", "two"), ("mode", "x")]
    p.Fits ∧ q.Fits ∧ p ≠ q ∧ p.stream ≠ q.stream := by
  intro p q
  have hp : p.Fits := by decide +kernel
  have hq : q.Fits := by decide +kernel
  have plain : ∀ k, k ∈ p.keys ∨ k ∈ q.keys → Plain k := by
    have all : ∀ k ∈ p.keys ++ q.keys, Plain k := by decide +kernel
    exact fun k mem => all k (List.mem_append.mpr mem)
  have different : p ≠ q := by decide +kernel
  obtain ⟨-, tells, -⟩ := told_by_stream (StateM Memory) hp hq
  exact ⟨hp, hq, different, mt (tells plain).mp different⟩

/-- With an arrow in a key two sets can have one line. -/
theorem stream_of_arrow :
    ¬∀ p q : PropertySet, p.Fits → q.Fits → p ≠ q → p.stream ≠ q.stream := by
  intro tells
  let p : PropertySet := .ofList [("a", "b->c")]
  let q : PropertySet := .ofList [("a->b", "c")]
  have different := tells p q (by decide +kernel) (by decide +kernel) (by decide +kernel)
  exact different (by decide +kernel)

end PropertySet
end Staging
