import Staging.Proofs.Execution
import Staging.Selection

/-!
Reading patterns. With any library, a list is accepted if every pattern is a glob and the library
takes the globs together; the first pattern that is no glob is named, and a refusal of globs that are
all well formed names none. With the library that programs are run with, what a list accepts is
accepted on its own, so one bad pattern spoils the selection that it belongs to, wherever it stands.
-/
namespace Staging

section
variable {α β ε : Type} {f : α → Except ε β} {xs : List α}

theorem mapM_eq_ok_iff {ys : List β} :
    xs.mapM f = .ok ys ↔ List.Forall₂ (fun x y => f x = .ok y) xs ys := by
  induction xs generalizing ys with
  | nil => simp [pure, Except.pure, eq_comm]
  | cons x xs ih =>
    rw [List.mapM_cons]
    constructor
    · intro read
      cases here : f x with
      | error e =>
        rw [here] at read
        cases read
      | ok y =>
        cases later : xs.mapM f with
        | error e =>
          rw [here, later] at read
          cases read
        | ok rest =>
          rw [here, later] at read
          cases read
          exact .cons here (ih.mp later)
    · intro related
      cases related with
      | cons here later =>
        rw [here, ih.mpr later]
        rfl

/-- A list fails by the first of its elements that does. -/
theorem mapM_eq_error_iff {e : ε} :
    xs.mapM f = .error e ↔ ∃ front x back, xs = front ++ x :: back ∧
      (∀ y ∈ front, ∃ b, f y = .ok b) ∧ f x = .error e := by
  induction xs with
  | nil => simp [pure, Except.pure]
  | cons x xs ih =>
    rw [List.mapM_cons]
    cases here : f x with
    | error e' =>
      constructor
      · intro failed
        cases failed
        exact ⟨[], x, xs, rfl, List.forall_mem_nil _, here⟩
      · rintro ⟨front, y, back, place, before, failed⟩
        rcases List.cons_eq_append_iff.mp place with ⟨rfl, same⟩ | ⟨front', rfl, -⟩
        · obtain ⟨rfl, -⟩ := List.cons.inj same
          cases here.symm.trans failed
          rfl
        · obtain ⟨b, ok⟩ := before x List.mem_cons_self
          cases here.symm.trans ok
    | ok b =>
      have rest : (do let ys ← xs.mapM f; pure (b :: ys)) = .error e ↔ xs.mapM f = .error e := by
        cases xs.mapM f <;> simp [bind, Except.bind, pure, Except.pure]
      refine rest.trans (ih.trans ?_)
      constructor
      · rintro ⟨front, y, back, rfl, before, failed⟩
        exact ⟨x :: front, y, back, rfl, List.forall_mem_cons.mpr ⟨⟨b, here⟩, before⟩, failed⟩
      · rintro ⟨front, y, back, place, before, failed⟩
        rcases List.cons_eq_append_iff.mp place with ⟨rfl, same⟩ | ⟨front', rfl, same⟩
        · obtain ⟨rfl, -⟩ := List.cons.inj same
          cases here.symm.trans failed
        · exact ⟨front', y, back, same, fun z mem => before z (List.mem_cons_of_mem x mem), failed⟩

end

namespace GlobLibrary

variable {L : GlobLibrary} {patterns includes excludes : List String} {pattern : String}
  {globs : List L.Glob} {set : L.GlobSet} {e : BadPatterns L.Fault} {s : PatternMatcher L}

/-- The pattern is read as the glob. -/
def Reads (L : GlobLibrary) (pattern : String) (g : L.Glob) : Prop :=
  L.build (Selection.normalize pattern) = .ok g

/-- What a list of patterns is refused for. -/
inductive Blames (L : GlobLibrary) (patterns : List String) : BadPatterns L.Fault → Prop
  /-- The first pattern that is no glob. -/
  | malformed {front back : List String} {pattern : String} {fault : L.Fault}
      (place : patterns = front ++ pattern :: back) (before : ∀ q ∈ front, ∃ g, L.Reads q g)
      (bad : L.build (Selection.normalize pattern) = .error fault) :
      Blames L patterns (.malformed pattern fault)
  /-- All are globs, and the library does not take them together. -/
  | ungathered {globs : List L.Glob} {fault : L.Fault} (reads : List.Forall₂ L.Reads patterns globs)
      (refused : L.gather globs = .error fault) : Blames L patterns (.ungathered fault)

theorem readPattern_eq_ok_iff {g : L.Glob} : L.readPattern pattern = .ok g ↔ L.Reads pattern g :=
  mapError_eq_ok

theorem mapM_readPattern_eq_ok_iff :
    patterns.mapM L.readPattern = .ok globs ↔ List.Forall₂ L.Reads patterns globs := by
  simp only [mapM_eq_ok_iff, readPattern_eq_ok_iff]

theorem readPattern_eq_error_iff :
    L.readPattern pattern = .error e ↔
      ∃ fault, L.build (Selection.normalize pattern) = .error fault ∧ .malformed pattern fault = e :=
  mapError_eq_error

theorem mapM_readPattern_eq_error_iff :
    patterns.mapM L.readPattern = .error e ↔ ∃ front pattern back,
      patterns = front ++ pattern :: back ∧ (∀ q ∈ front, ∃ g, L.Reads q g) ∧
        ∃ fault, L.build (Selection.normalize pattern) = .error fault ∧
          .malformed pattern fault = e := by
  simp only [mapM_eq_error_iff, readPattern_eq_ok_iff, readPattern_eq_error_iff]

theorem readList_eq_ok_iff :
    L.readList patterns = .ok set ↔
      ∃ globs, List.Forall₂ L.Reads patterns globs ∧ L.gather globs = .ok set := by
  simp only [← mapM_readPattern_eq_ok_iff]
  cases read : patterns.mapM L.readPattern with
  | error e => simp [readList, read, bind, Except.bind]
  | ok globs => simp [readList, read, bind, Except.bind, mapError_eq_ok]

theorem readList_eq_error_iff : L.readList patterns = .error e ↔ L.Blames patterns e := by
  constructor
  · intro failed
    cases read : patterns.mapM L.readPattern with
    | error e' =>
      rw [readList, read] at failed
      cases failed
      obtain ⟨front, pattern, back, place, before, fault, bad, rfl⟩ :=
        mapM_readPattern_eq_error_iff.mp read
      exact .malformed place before bad
    | ok globs =>
      rw [readList, read] at failed
      obtain ⟨fault, refused, rfl⟩ := mapError_eq_error.mp failed
      exact .ungathered (mapM_readPattern_eq_ok_iff.mp read) refused
  · intro blames
    cases blames with
    | malformed place before bad =>
      rw [readList, mapM_readPattern_eq_error_iff.mpr ⟨_, _, _, place, before, _, bad, rfl⟩]
      rfl
    | ungathered reads refused =>
      rw [readList, mapM_readPattern_eq_ok_iff.mpr reads]
      exact mapError_eq_error.mpr ⟨_, refused, rfl⟩

theorem compile_eq_ok_iff :
    L.compile includes excludes = .ok s ↔ L.readList (Selection.orDefault includes) = .ok s.includes ∧
      (excludes = [] ∧ s.excludes = none ∨
        excludes ≠ [] ∧ ∃ set, L.readList excludes = .ok set ∧ s.excludes = some set) := by
  obtain ⟨included, excluded⟩ := s
  rw [compile]
  cases L.readList (Selection.orDefault includes) with
  | error e => simp [bind, Except.bind]
  | ok first =>
    cases excludes with
    | nil => simp [bind, Except.bind, pure, Except.pure, eq_comm]
    | cons p rest =>
      cases L.readList (p :: rest) <;> simp [bind, Except.bind, pure, Except.pure, eq_comm]

/-- The include list decides first; nothing is read of an empty exclude list. -/
theorem compile_eq_error_iff :
    L.compile includes excludes = .error e ↔ L.readList (Selection.orDefault includes) = .error e ∨
      (∃ set, L.readList (Selection.orDefault includes) = .ok set) ∧ excludes ≠ [] ∧
        L.readList excludes = .error e := by
  rw [compile]
  cases L.readList (Selection.orDefault includes) with
  | error e => simp [bind, Except.bind]
  | ok first =>
    cases excludes with
    | nil => simp [bind, Except.bind, pure, Except.pure]
    | cons p rest => cases L.readList (p :: rest) <;> simp [bind, Except.bind, pure, Except.pure]

end GlobLibrary

namespace Selection

variable {patterns includes excludes : List String} {pattern : String} {globs : List Glob}

/-- Globs that lie flat together do so alone. -/
theorem deepest?_singleton {g : Glob} (shallow : Glob.deepest? globs = none) (mem : g ∈ globs) :
    Glob.deepest? [g] = none := by
  rw [Glob.deepest?] at shallow
  split at shallow
  · cases shallow
  · rename_i extensions
    rw [List.find?_eq_none] at extensions
    have extension := extensions g mem
    rw [decide_eq_true_eq] at extension
    rw [Option.map_eq_none_iff, List.findIdx?_eq_none_iff] at shallow
    rw [Glob.deepest?, List.find?_singleton, decide_eq_false extension]
    by_cases free : g.shape = .free
    · have quiet := shallow g (List.mem_filter.mpr ⟨mem, decide_eq_true free⟩)
      simp [free, quiet]
    · simp [free]

theorem gather_eq_ok_iff {set : List Glob} :
    Glob.gather globs = .ok set ↔ Glob.deepest? globs = none ∧ globs = set := by
  rw [Glob.gather]
  cases Glob.deepest? globs <;> simp

/-- What a list accepts is accepted on its own. -/
theorem readList_singleton (h : readList patterns = .ok globs) (mem : pattern ∈ patterns) :
    ∃ g, readList [pattern] = .ok [g] := by
  obtain ⟨found, reads, together⟩ := GlobLibrary.readList_eq_ok_iff.mp h
  obtain ⟨shallow, rfl⟩ := gather_eq_ok_iff.mp together
  obtain ⟨g, known, read⟩ := mem_of_forall₂ reads.flip mem
  refine ⟨g, GlobLibrary.readList_eq_ok_iff.mpr ⟨[g], .cons read .nil, ?_⟩⟩
  exact gather_eq_ok_iff.mpr ⟨deepest?_singleton shallow known, rfl⟩

/-- The pattern is refused, also when it stands alone. -/
def Refused (pattern : String) : Prop := ∃ e, readList [pattern] = .error e

/-- One refused pattern, in either list, and there is no selection. -/
theorem compile_of_refused (mem : pattern ∈ includes ++ excludes) (refused : Refused pattern) :
    ∃ e, compile includes excludes = .error e := by
  obtain ⟨e, alone⟩ := refused
  cases compiled : compile includes excludes with
  | error e => exact ⟨e, rfl⟩
  | ok s =>
    obtain ⟨ins, outs⟩ := GlobLibrary.compile_eq_ok_iff.mp compiled
    have accepted : ∃ g, readList [pattern] = .ok [g] := by
      rcases List.mem_append.mp mem with mem | mem
      · rw [orDefault, List.isEmpty_eq_false_iff.mpr (List.ne_nil_of_mem mem)] at ins
        exact readList_singleton ins mem
      · rcases outs with ⟨rfl, -⟩ | ⟨-, set, outs, -⟩
        · cases mem
        · exact readList_singleton outs mem
    obtain ⟨g, accepted⟩ := accepted
    rw [accepted] at alone
    cases alone

end Selection
end Staging
