import Staging.Proofs.Discovery.Units

/-!
Discovery only looks: it leaves the files as they are, and two file systems that answer alike in
the resource trees and for the property files give the same candidates. How deep a file system says
directories may lie does not matter as long as the walk fits in it. Times may be told otherwise on
the two sides, and then it is the stamps of the candidates that differ, and only in their times.
-/
namespace Staging

section
variable {m n : Type → Type} {σ τ : Type} [Monad m] [Monad n] [Stateful m σ] [Stateful n τ]
variable {α β γ δ ε : Type}

/-- Two programs that leave the states they start from and give related results. -/
def Alike (R : α → β → Prop) (s : σ) (t : τ) (x : m α) (y : n β) : Prop :=
  ∃ a b, exec x s = (a, s) ∧ exec y t = (b, t) ∧ R a b

/-- The same failure, one of those that `E` allows, or related results. -/
inductive SameOutcome (E : ε → Prop) (R : α → β → Prop) : Except ε α → Except ε β → Prop
  | error {e : ε} : E e → SameOutcome E R (.error e) (.error e)
  | ok {a : α} {b : β} : R a b → SameOutcome E R (.ok a) (.ok b)

/-- Programs that may fail, with the same failure on both sides. -/
def AlikeRun (E : ε → Prop) (R : α → β → Prop) (s : σ) (t : τ) (x : ExceptT ε m α)
    (y : ExceptT ε n β) : Prop :=
  Alike (SameOutcome E R) s t x.run y.run

variable {E : ε → Prop} {R : α → β → Prop} {Q : γ → δ → Prop} {s : σ} {t : τ}

theorem Alike.pure {a : α} {b : β} (h : R a b) :
    Alike R s t (pure a : m α) (pure b : n β) :=
  ⟨a, b, exec_pure a s, exec_pure b t, h⟩

theorem Alike.bind {x : m α} {y : n β} {f : α → m γ} {g : β → n δ} (h : Alike R s t x y)
    (rest : ∀ a b, R a b → Alike Q s t (f a) (g b)) : Alike Q s t (x >>= f) (y >>= g) := by
  obtain ⟨a, b, hx, hy, related⟩ := h
  obtain ⟨c, d, hf, hg, related⟩ := rest a b related
  refine ⟨c, d, ?_, ?_, related⟩
  · rw [exec_bind, hx, hf]
  · rw [exec_bind, hy, hg]

theorem AlikeRun.pure {a : α} {b : β} (h : R a b) :
    AlikeRun E R s t (pure a : ExceptT ε m α) (pure b : ExceptT ε n β) :=
  Alike.pure (.ok h)

theorem AlikeRun.throw {e : ε} (h : E e) :
    AlikeRun E R s t (throw e : ExceptT ε m α) (throw e : ExceptT ε n β) :=
  Alike.pure (.error h)

theorem AlikeRun.bind {x : ExceptT ε m α} {y : ExceptT ε n β} {f : α → ExceptT ε m γ}
    {g : β → ExceptT ε n δ} (h : AlikeRun E R s t x y)
    (rest : ∀ a b, R a b → AlikeRun E Q s t (f a) (g b)) : AlikeRun E Q s t (x >>= f) (y >>= g) := by
  refine Alike.bind h ?_
  rintro _ _ (allowed | related)
  · exact Alike.pure (.error allowed)
  · exact rest _ _ related

variable [LawfulMonad m] [LawfulMonad n]

theorem AlikeRun.lift {x : m α} {y : n β} (h : Alike R s t x y) :
    AlikeRun E R s t (liftM x : ExceptT ε m α) (liftM y : ExceptT ε n β) := by
  obtain ⟨a, b, hx, hy, related⟩ := h
  refine ⟨.ok a, .ok b, ?_, ?_, .ok related⟩
  · rw [exec_run_lift, hx]
  · rw [exec_run_lift, hy]

theorem AlikeRun.adapt {ε' : Type} {e : ε → ε'} {E' : ε' → Prop} {x : ExceptT ε m α}
    {y : ExceptT ε n β} (h : AlikeRun E R s t x y) (allowed : ∀ a, E a → E' (e a)) :
    AlikeRun E' R s t (x.adapt e) (y.adapt e) := by
  obtain ⟨_, _, hx, hy, outcome⟩ := h
  refine ⟨_, _, (exec_map _ x.run s).trans (by rw [hx]), (exec_map _ y.run t).trans (by rw [hy]), ?_⟩
  cases outcome with
  | error h => exact .error (allowed _ h)
  | ok related => exact .ok related

theorem AlikeRun.mapM {ι : Type} {f : ι → ExceptT ε m α} {g : ι → ExceptT ε n β} {xs : List ι}
    (h : ∀ x ∈ xs, AlikeRun E R s t (f x) (g x)) :
    AlikeRun E (List.Forall₂ R) s t (xs.mapM f) (xs.mapM g) := by
  induction xs with
  | nil => exact AlikeRun.pure .nil
  | cons x xs ih =>
    rw [List.mapM_cons, List.mapM_cons]
    refine AlikeRun.bind (h x List.mem_cons_self) fun a b hab => ?_
    refine AlikeRun.bind (ih fun y hy => h y (List.mem_cons_of_mem x hy)) fun as bs hall => ?_
    exact AlikeRun.pure (.cons hab hall)

end

section
variable (m n : Type → Type) {σ τ : Type} [Monad m] [Monad n] [Stateful m σ] [Stateful n τ]
variable [FileSystem m] [FileSystem n]

/-- Nobody has asked for the pass to stop. -/
def Uncancelled (s : σ) : Prop := exec (FileSystem.isCancelled : m Bool) s = (false, s)

/-- Everything a walk asks about a path has the same answer, and times are related. -/
structure AnswersAlike (T : Int64 → Int64 → Prop) (s : σ) (t : τ) (p : Path) : Prop where
  isDir : Alike Eq s t (FileSystem.isDir p : m _) (FileSystem.isDir p : n _)
  isFile : Alike Eq s t (FileSystem.isFile p : m _) (FileSystem.isFile p : n _)
  modified : Alike (fun a b => T (a.toOption.getD Stamp.unknownTime)
      (b.toOption.getD Stamp.unknownTime)) s t
    (FileSystem.modified p : m _) (FileSystem.modified p : n _)
  list : Alike Eq s t (FileSystem.list p : m _) (FileSystem.list p : n _)

/-- A set of paths, closed under listing, where both file systems answer alike. `fits i j p` says
that walks of at most `i` and at most `j` levels from `p` end in the same way. -/
structure SameTree (T : Int64 → Int64 → Prop) (s : σ) (t : τ) (inside : Path → Prop)
    (fits : Nat → Nat → Path → Prop) : Prop where
  answers : ∀ p, inside p → AnswersAlike m n T s t p
  listed : ∀ p entries, inside p → exec (FileSystem.list p : m _) s = (.ok entries, s) →
    ∀ q ∈ entries, inside q
  zero : ∀ i j p, fits i j p → (i = 0 ↔ j = 0)
  next : ∀ i j p entries, inside p → fits (i + 1) (j + 1) p →
    exec (FileSystem.list p : m _) s = (.ok entries, s) →
    ∀ q ∈ entries, exec (FileSystem.isDir q : m _) s = (true, s) → fits i j q

/-- A property file has the same content, or is unreadable on both sides. -/
def SameContent : Except FsError Bytes → Except FsError Bytes → Prop
  | .ok a, .ok b => a = b
  | .error _, .error _ => True
  | _, _ => False

/-- Everything that the candidates of a unit depend on is the same. -/
structure SameInputs (T : Int64 → Int64 → Prop) (s : σ) (t : τ) (u : BuildUnit) : Prop where
  filters : ∀ p ∈ u.filters,
    Alike SameContent s t (FileSystem.read p : m _) (FileSystem.read p : n _)
  trees : ∀ pair ∈ Discovery.treesOf u, ∃ inside fits, SameTree m n T s t inside fits ∧
    inside pair.2.directory ∧
    Alike (fun i j => fits (i + 1) (j + 1) pair.2.directory) s t
      (FileSystem.depth : m _) (FileSystem.depth : n _)

end

namespace Candidate

/-- The same candidate, but for the time in its stamp. -/
structure Redated (T : Int64 → Int64 → Prop) (c c' : Candidate) : Prop where
  time : T c.stamp.time c'.stamp.time
  rest : c' = { c with stamp := { c.stamp with time := c'.stamp.time } }

theorem Redated.eq {c c' : Candidate} (h : Redated Eq c c') : c = c' := by
  rw [h.rest, ← h.time]

section
variable {T : Int64 → Int64 → Prop} {c c' : Candidate} (h : Redated T c c')
include h

theorem Redated.output : c'.output = c.output := by rw [h.rest]

theorem Redated.source : c'.source = c.source := by rw [h.rest]

end

variable {m n : Type → Type} {σ τ : Type} [Monad m] [Monad n] [LawfulMonad m] [LawfulMonad n]
variable [Stateful m σ] [Stateful n τ] [FileSystem m] [FileSystem n] {s : σ} {t : τ}
variable {T : Int64 → Int64 → Prop}

theorem poll_alike (hs : Uncancelled m s) (ht : Uncancelled n t) :
    AlikeRun (· ≠ .cancelled) Eq s t (poll : ExceptT WalkStop m Unit) (poll : ExceptT WalkStop n Unit) := by
  refine AlikeRun.bind (R := fun a b => a = false ∧ b = false)
    (AlikeRun.lift ⟨false, false, hs, ht, rfl, rfl⟩) ?_
  rintro _ _ ⟨rfl, rfl⟩
  exact AlikeRun.pure rfl

omit [LawfulMonad m] [LawfulMonad n] in
theorem visitFile_alike (spec : TreeSpec) {p : Path} (h : AnswersAlike m n T s t p) :
    Alike (List.Forall₂ (Redated T)) s t (visitFile spec p : m _) (visitFile spec p : n _) := by
  unfold visitFile
  split
  · exact Alike.pure .nil
  · split
    · refine Alike.bind h.modified ?_
      intro time time' related
      exact Alike.pure (.cons ⟨related, rfl⟩ .nil)
    · exact Alike.pure .nil

theorem visit_alike (spec : TreeSpec) {p : Path} (hs : Uncancelled m s) (ht : Uncancelled n t)
    (h : AnswersAlike m n T s t p) {f : Path → ExceptT WalkStop m (List Candidate)}
    {g : Path → ExceptT WalkStop n (List Candidate)}
    (descend : exec (FileSystem.isDir p : m _) s = (true, s) →
      AlikeRun (· ≠ .cancelled) (List.Forall₂ (Redated T)) s t (f p) (g p)) :
    AlikeRun (· ≠ .cancelled) (List.Forall₂ (Redated T)) s t (visit spec f p) (visit spec g p) := by
  obtain ⟨answer, _, hm, hn, rfl⟩ := h.isDir
  refine AlikeRun.bind (R := fun c d => c = answer ∧ d = answer)
    (AlikeRun.lift ⟨answer, answer, hm, hn, rfl, rfl⟩) ?_
  rintro _ _ ⟨rfl, rfl⟩
  rename_i answer
  cases answer with
  | true => exact descend hm
  | false =>
    refine AlikeRun.bind (AlikeRun.lift h.isFile) ?_
    rintro isFile _ rfl
    cases isFile with
    | true =>
      refine AlikeRun.bind (poll_alike hs ht) ?_
      rintro _ _ -
      exact AlikeRun.lift (visitFile_alike spec h)
    | false => exact AlikeRun.pure .nil

theorem walk_alike (spec : TreeSpec) (hs : Uncancelled m s) (ht : Uncancelled n t)
    {inside : Path → Prop} {fits : Nat → Nat → Path → Prop} (same : SameTree m n T s t inside fits)
    {i j : Nat} {dir : Path} (here : inside dir) (enough : fits i j dir) :
    AlikeRun (· ≠ .cancelled) (List.Forall₂ (Redated T)) s t
      (walk spec i dir : ExceptT WalkStop m _) (walk spec j dir : ExceptT WalkStop n _) := by
  induction i generalizing j dir with
  | zero =>
    obtain rfl := (same.zero _ _ _ enough).mp rfl
    exact AlikeRun.throw nofun
  | succ i ih =>
    cases j with
    | zero => exact absurd ((same.zero _ _ _ enough).mpr rfl) (Nat.succ_ne_zero i)
    | succ j =>
      refine AlikeRun.bind (poll_alike hs ht) ?_
      rintro _ _ -
      obtain ⟨listing, _, hm, hn, rfl⟩ := (same.answers dir here).list
      refine AlikeRun.bind (R := fun c d => c = listing ∧ d = listing)
        (AlikeRun.lift ⟨listing, listing, hm, hn, rfl, rfl⟩) ?_
      rintro _ _ ⟨rfl, rfl⟩
      rename_i listing
      cases listing with
      | error e => exact AlikeRun.throw nofun
      | ok entries =>
        have each : ∀ q ∈ entries.mergeSort nameOrder,
            AlikeRun (· ≠ .cancelled) (List.Forall₂ (Redated T)) s t
              (visit spec (walk spec i) q : ExceptT WalkStop m _)
              (visit spec (walk spec j) q : ExceptT WalkStop n _) := by
          intro q sorted
          have listed := List.mem_mergeSort.mp sorted
          have below := same.listed dir entries here hm q listed
          exact visit_alike spec hs ht (same.answers q below) fun isDir =>
            ih below (same.next i j dir entries here enough hm q listed isDir)
        refine AlikeRun.bind (AlikeRun.mapM each) ?_
        intro found found' all
        exact AlikeRun.pure (List.rel_flatten all)

theorem collect_alike (spec : TreeSpec) (hs : Uncancelled m s) (ht : Uncancelled n t)
    {inside : Path → Prop} {fits : Nat → Nat → Path → Prop} (same : SameTree m n T s t inside fits)
    (here : inside spec.root)
    (depth : Alike (fun i j => fits (i + 1) (j + 1) spec.root) s t
      (FileSystem.depth : m _) (FileSystem.depth : n _)) :
    AlikeRun (· ≠ .cancelled) (List.Forall₂ (Redated T)) s t
      (collect spec : ExceptT WalkStop m _) (collect spec : ExceptT WalkStop n _) := by
  refine AlikeRun.bind (AlikeRun.lift (same.answers _ here).isDir) ?_
  rintro isDir _ rfl
  cases isDir with
  | true =>
    refine AlikeRun.bind (AlikeRun.lift depth) ?_
    intro i j enough
    exact walk_alike spec hs ht same here enough
  | false => exact AlikeRun.pure .nil

end Candidate

namespace Discovery
open Candidate (Redated)

/-- The same discovery of a unit, but for the times in the stamps. -/
structure SameUnit (T : Int64 → Int64 → Prop) (e e' : UnitDiscovery) : Prop where
  unit : e.unit = e'.unit
  readiness : e.readiness = e'.readiness
  candidates : List.Forall₂ (Redated T) e.candidates e'.candidates

theorem SameUnit.eq {e e' : UnitDiscovery} (h : SameUnit Eq e e') : e = e' := by
  obtain ⟨unit, readiness, redated⟩ := h
  have candidates : e.candidates = e'.candidates := by
    rw [← List.forall₂_eq_eq_eq]
    exact redated.imp fun _ _ => Redated.eq
  cases e
  cases e'
  simp_all

variable {m n : Type → Type} {σ τ : Type} [Monad m] [Monad n] [LawfulMonad m] [LawfulMonad n]
variable [Stateful m σ] [Stateful n τ] [FileSystem m] [FileSystem n] {s : σ} {t : τ}
variable {T : Int64 → Int64 → Prop}

omit [LawfulMonad m] [LawfulMonad n] in
/-- Which files were unreadable may be told in other words, but the properties are the same. -/
theorem load_alike {paths : List Path}
    (h : ∀ p ∈ paths, Alike SameContent s t (FileSystem.read p : m _) (FileSystem.read p : n _)) :
    Alike (fun f g => f.properties = g.properties) s t
      (FilterFiles.load paths : m _) (FilterFiles.load paths : n _) := by
  suffices all : ∀ f g : FilterFiles, f.properties = g.properties →
      Alike (fun f g => f.properties = g.properties) s t
        (paths.foldlM (fun f p => return f.add p (← FileSystem.read p)) f : m _)
        (paths.foldlM (fun f p => return f.add p (← FileSystem.read p)) g : n _) from
    all _ _ rfl
  induction paths with
  | nil =>
    intro f g same
    exact Alike.pure same
  | cons p rest ih =>
    intro f g same
    rw [List.foldlM_cons, List.foldlM_cons]
    refine Alike.bind (Alike.bind (h p List.mem_cons_self) ?_)
      (ih fun q hq => h q (List.mem_cons_of_mem p hq))
    rintro (e | bytes) (e' | bytes') related
    · exact Alike.pure same
    · exact related.elim
    · exact related.elim
    · cases related
      exact Alike.pure (congrArg (·.overlay (FilterFiles.ofBytes bytes)) same)

theorem ofWalk_ne_cancelled (u : BuildUnit) (tree : ResourceTree) (stop : WalkStop)
    (h : stop ≠ .cancelled) : UnitStop.ofWalk u tree stop ≠ .cancelled := by
  cases stop with
  | cancelled => exact absurd rfl h
  | unlisted e => nofun
  | tooDeep => nofun

theorem ofTree_alike (u : BuildUnit) (properties : PropertySet) (fingerprint : UInt64)
    (hs : Uncancelled m s) (ht : Uncancelled n t) (h : SameInputs m n T s t u)
    {pair : Path × ResourceTree} (mem : pair ∈ treesOf u) :
    AlikeRun (· ≠ .cancelled) (List.Forall₂ (Redated T)) s t
      (ofTree u properties fingerprint pair : ExceptT UnitStop m _)
      (ofTree u properties fingerprint pair : ExceptT UnitStop n _) := by
  obtain ⟨inside, fits, same, here, depth⟩ := h.trees pair mem
  obtain ⟨destination, tree⟩ := pair
  unfold ofTree
  simp only
  split
  · exact AlikeRun.throw nofun
  · exact (Candidate.collect_alike _ hs ht same here depth).adapt (ofWalk_ne_cancelled u tree)

theorem pollUnit_alike (hs : Uncancelled m s) (ht : Uncancelled n t) :
    AlikeRun (fun _ => False) Eq s t (pollUnit : ExceptT Cancelled m Unit)
      (pollUnit : ExceptT Cancelled n Unit) := by
  refine AlikeRun.bind (R := fun a b => a = false ∧ b = false)
    (AlikeRun.lift ⟨false, false, hs, ht, rfl, rfl⟩) ?_
  rintro _ _ ⟨rfl, rfl⟩
  exact AlikeRun.pure rfl

theorem ofUnit_alike {u : BuildUnit} (hs : Uncancelled m s) (ht : Uncancelled n t)
    (h : SameInputs m n T s t u) :
    AlikeRun (fun _ => False) (fun a b => SameUnit T a.1 b.1) s t
      (ofUnit u : ExceptT Cancelled m _) (ofUnit u : ExceptT Cancelled n _) := by
  unfold ofUnit
  split
  · refine AlikeRun.bind (AlikeRun.lift (load_alike h.filters)) fun files files' same => ?_
    simp only [same]
    have trees := AlikeRun.mapM fun pair mem => ofTree_alike u (u.properties.overlay
      files'.properties) (PropertySet.fingerprint (u.properties.overlay files'.properties))
      hs ht h mem
    refine AlikeRun.bind (AlikeRun.lift trees) ?_
    rintro _ _ (allowed | all)
    · rename_i stop
      cases stop with
      | cancelled => exact absurd rfl allowed
      | failed why => exact AlikeRun.pure ⟨rfl, rfl, .nil⟩
    · exact AlikeRun.pure ⟨rfl, rfl, List.rel_flatten all⟩
  · exact AlikeRun.pure ⟨rfl, rfl, .nil⟩

/-- Discoveries in inputs that are the same but for times find candidates that are the same but for
times, and do not stop. -/
theorem ofProject_redated {p : Project} {scope : Scope} (hs : Uncancelled m s)
    (ht : Uncancelled n t) (h : ∀ u ∈ p.covered scope, SameInputs m n T s t u) :
    ∃ d d', exec (ofProject p scope : ExceptT Cancelled m _).run s = (.ok d, s) ∧
      exec (ofProject p scope : ExceptT Cancelled n _).run t = (.ok d', t) ∧
      List.Forall₂ (SameUnit T) d.units d'.units := by
  have each : ∀ u ∈ p.covered scope, AlikeRun (fun _ => False) (fun a b => SameUnit T a.1 b.1) s t
      (do pollUnit; ofUnit u : ExceptT Cancelled m _)
      (do pollUnit; ofUnit u : ExceptT Cancelled n _) := by
    intro u mem
    refine AlikeRun.bind (pollUnit_alike hs ht) ?_
    rintro _ _ -
    exact ofUnit_alike hs ht (h u mem)
  have whole : AlikeRun (fun _ => False)
      (fun d d' : Discovery => List.Forall₂ (SameUnit T) d.units d'.units) s t
      (ofProject p scope : ExceptT Cancelled m _) (ofProject p scope : ExceptT Cancelled n _) := by
    refine AlikeRun.bind (AlikeRun.mapM each) fun found found' all => AlikeRun.pure ?_
    rw [List.forall₂_map_left_iff, List.forall₂_map_right_iff]
    exact all
  obtain ⟨_, _, hm, hn, outcome⟩ := whole
  cases outcome with
  | error h => exact h.elim
  | ok same => exact ⟨_, _, hm, hn, same⟩

/-- Discoveries in the same inputs find the same candidates in every unit, and do not stop. -/
theorem ofProject_alike {p : Project} {scope : Scope} (hs : Uncancelled m s)
    (ht : Uncancelled n t) (h : ∀ u ∈ p.covered scope, SameInputs m n Eq s t u) :
    ∃ d d', exec (ofProject p scope : ExceptT Cancelled m _).run s = (.ok d, s) ∧
      exec (ofProject p scope : ExceptT Cancelled n _).run t = (.ok d', t) ∧
      d.units = d'.units := by
  obtain ⟨d, d', found, found', same⟩ := ofProject_redated hs ht h
  refine ⟨d, d', found, found', ?_⟩
  rw [← List.forall₂_eq_eq_eq]
  exact same.imp fun _ _ => SameUnit.eq

end Discovery
end Staging
