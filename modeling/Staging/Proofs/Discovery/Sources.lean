import Mathlib.Logic.Relation
import Staging.Plan
import Staging.Proofs.Discovery.Units
import Staging.Proofs.Path.Relative

/-!
Where candidates come from. Whatever the file system answers, every candidate is a file that was
reached by listings from the root of one of the trees of its unit, with its path below that root for
an output and the time that was told for it in its stamp.
-/
namespace Staging

section
variable (m : Type → Type) {σ : Type} [Monad m] [Stateful m σ] [FileSystem m]

/-- The calls of a discovery lead from states with `inv` to states with `inv`. -/
structure Looks (inv : σ → Prop) : Prop where
  isCancelled : Gives inv (fun _ => True) (FileSystem.isCancelled : m _)
  depth : Gives inv (fun _ => True) (FileSystem.depth : m _)
  isDir (p : Path) : Gives inv (fun _ => True) (FileSystem.isDir p : m _)
  isFile (p : Path) : Gives inv (fun _ => True) (FileSystem.isFile p : m _)
  modified (p : Path) : Gives inv (fun _ => True) (FileSystem.modified p : m _)
  list (p : Path) : Gives inv (fun _ => True) (FileSystem.list p : m _)
  read (p : Path) : Gives inv (fun _ => True) (FileSystem.read p : m _)

/-- Some state with `inv` lists `q` in `p`. -/
def Lists (inv : σ → Prop) (p q : Path) : Prop :=
  ∃ s entries, inv s ∧ (exec (FileSystem.list p : m _) s).1 = .ok entries ∧ q ∈ entries

/-- How a candidate came about. -/
structure Candidate.Arises (inv : σ → Prop) (spec : TreeSpec) (c : Candidate) : Prop where
  listed : Relation.TransGen (Lists m inv) spec.root c.source
  output : ∃ rel, relative spec.root c.source = some rel ∧
    c.output = outputPath spec.destination rel
  time : ∃ s, inv s ∧ c.stamp.time =
    (exec (FileSystem.modified c.source : m _) s).1.toOption.getD Stamp.unknownTime
  flag : c.stamp.filtered = c.filtered
  properties : c.properties = spec.properties
  fingerprint : c.stamp.properties = spec.fingerprint

theorem Looks.any : Looks m (fun _ : σ => True) := by
  constructor <;> intros <;> exact fun _ _ => ⟨trivial, trivial⟩

end

variable {m : Type → Type} {σ : Type} [Monad m] [LawfulMonad m] [Stateful m σ] [FileSystem m]
variable {inv : σ → Prop}

namespace Candidate

variable {spec : TreeSpec}

theorem prefix_of_relative {root p : Path} {rel : String} (h : relative root p = some rel) :
    root.parts <+: p.parts := by
  obtain ⟨q, stripped, -⟩ := Option.map_eq_some_iff.mp h
  rw [Path.parts_of_stripPrefix stripped]
  exact List.prefix_append _ _

omit [LawfulMonad m] in
theorem Arises.within {c : Candidate} (h : Arises m inv spec c) :
    spec.root.parts <+: c.source.parts := by
  obtain ⟨rel, below, -⟩ := h.output
  exact prefix_of_relative below

omit [LawfulMonad m] in
theorem arises_visitFile (looks : Looks m inv) {p : Path}
    (reached : Relation.TransGen (Lists m inv) spec.root p) :
    Gives inv (fun items => ∀ c ∈ items, Arises m inv spec c) (visitFile spec p : m _) := by
  unfold visitFile
  split
  · exact .pure nofun
  · rename_i rel below
    split
    · refine .bind (looks.modified p).seen ?_
      rintro _ ⟨-, s, holds, rfl⟩
      refine .pure ?_
      intro c mem
      rw [List.mem_singleton] at mem
      subst mem
      exact ⟨reached, ⟨rel, below, rfl⟩, ⟨s, holds, rfl⟩, rfl, rfl, rfl⟩
    · exact .pure nofun

theorem gives_poll (looks : Looks m inv) :
    GivesOk inv (fun _ => True) (poll : ExceptT WalkStop m Unit) := by
  refine .bind (.lift looks.isCancelled) fun cancelled _ => ?_
  split
  · exact .throw _
  · exact .pure trivial

theorem arises_visit (looks : Looks m inv) {p : Path}
    {descend : Path → ExceptT WalkStop m (List Candidate)}
    (reached : Relation.TransGen (Lists m inv) spec.root p)
    (deeper : GivesOk inv (fun items => ∀ c ∈ items, Arises m inv spec c) (descend p)) :
    GivesOk inv (fun items => ∀ c ∈ items, Arises m inv spec c) (visit spec descend p) := by
  refine .bind (.lift (looks.isDir p)) fun isDir _ => ?_
  split
  · exact deeper
  · refine .bind (.lift (looks.isFile p)) fun isFile _ => ?_
    split
    · exact .bind (gives_poll looks) fun _ _ => .lift (arises_visitFile looks reached)
    · exact .pure nofun

theorem arises_walk (looks : Looks m inv) {levels : Nat} {dir : Path}
    (reached : Relation.ReflTransGen (Lists m inv) spec.root dir) :
    GivesOk inv (fun items => ∀ c ∈ items, Arises m inv spec c)
      (walk spec levels dir : ExceptT WalkStop m _) := by
  induction levels generalizing dir with
  | zero => exact .throw _
  | succ levels ih =>
    refine .bind (gives_poll looks) fun _ _ => ?_
    refine .bind (.lift (looks.list dir).seen) ?_
    rintro (e | entries) ⟨-, s, holds, listing⟩
    · exact .throw _
    · refine .bind (Q := List.Forall₂ (fun _ items => ∀ c ∈ items, Arises m inv spec c)
        (entries.mergeSort nameOrder)) (.mapM fun p sorted => ?_) fun found each => .pure ?_
      · have lists : Lists m inv dir p := ⟨s, entries, holds, listing, List.mem_mergeSort.mp sorted⟩
        have below := Relation.TransGen.tail' reached lists
        exact arises_visit looks below (ih below.to_reflTransGen)
      · intro c mem
        obtain ⟨items, part, mem⟩ := List.mem_flatten.mp mem
        obtain ⟨_, -, all⟩ := mem_of_forall₂ each part
        exact all c mem

theorem arises_collect (looks : Looks m inv) :
    GivesOk inv (fun items => ∀ c ∈ items, Arises m inv spec c)
      (collect spec : ExceptT WalkStop m _) := by
  refine .bind (.lift (looks.isDir spec.root)) fun isDir _ => ?_
  split
  · exact .bind (.lift looks.depth) fun depth _ => arises_walk looks .refl
  · exact .pure nofun

end Candidate

namespace Discovery
open Candidate

/-- The candidate arises in one of the trees of a unit. -/
def ArisesIn (m : Type → Type) {σ : Type} [Monad m] [Stateful m σ] [FileSystem m] (inv : σ → Prop)
    (u : BuildUnit) (c : Candidate) : Prop :=
  ∃ pair ∈ treesOf u, ∃ spec : TreeSpec, spec.root = pair.2.directory ∧
    spec.destination = pair.1 ∧ spec.fingerprint = spec.properties.fingerprint ∧
    Arises m inv spec c

theorem arises_ofTree (looks : Looks m inv) (u : BuildUnit) (properties : PropertySet)
    {pair : Path × ResourceTree} (mem : pair ∈ treesOf u) :
    GivesOk inv (fun items => ∀ c ∈ items, ArisesIn m inv u c)
      (ofTree u properties properties.fingerprint pair : ExceptT UnitStop m _) := by
  obtain ⟨destination, tree⟩ := pair
  unfold ofTree
  simp only
  split
  · exact .throw _
  · refine .adapt _ (Gives.mono (arises_collect looks) ?_)
    intro _ each items found c item
    refine ⟨_, mem, _, rfl, rfl, ?_, each items found c item⟩
    rfl

omit [LawfulMonad m] in
theorem gives_load (looks : Looks m inv) (paths : List Path) :
    Gives inv (fun _ => True) (FilterFiles.load paths : m _) := by
  refine .foldlM (fun f p _ _ => ?_) trivial
  exact .bind (looks.read p) fun _ _ => .pure trivial

theorem arises_ofUnit (looks : Looks m inv) (u : BuildUnit) :
    GivesOk inv (fun e => ∀ c ∈ e.1.candidates, ArisesIn m inv u c)
      (ofUnit u : ExceptT Cancelled m _) := by
  unfold ofUnit
  split
  · refine .bind (.lift (gives_load looks u.filters)) fun files _ => ?_
    have trees : GivesOk inv (List.Forall₂ (fun _ items => ∀ c ∈ items, ArisesIn m inv u c)
        (treesOf u)) ((treesOf u).mapM (ofTree u (u.properties.overlay files.properties)
          (PropertySet.fingerprint (u.properties.overlay files.properties))) :
          ExceptT UnitStop m _) :=
      .mapM fun pair mem => arises_ofTree looks u _ mem
    refine .bind (.lift trees) ?_
    rintro (stop | found) result
    · cases stop with
      | cancelled => exact .throw _
      | failed why => exact .pure nofun
    · refine .pure ?_
      intro c mem
      obtain ⟨items, part, mem⟩ := List.mem_flatten.mp mem
      obtain ⟨_, -, all⟩ := mem_of_forall₂ (result found rfl) part
      exact all c mem
  · exact .pure nofun

theorem gives_pollUnit (looks : Looks m inv) :
    GivesOk inv (fun _ => True) (pollUnit : ExceptT Cancelled m Unit) := by
  refine .bind (.lift looks.isCancelled) fun cancelled _ => ?_
  split
  · exact .throw _
  · exact .pure trivial

theorem arises_ofProject (looks : Looks m inv) (p : Project) (scope : Scope) :
    GivesOk inv (fun d => ∀ e ∈ d.units, ∃ u ∈ p.covered scope,
        ∀ c ∈ e.candidates, ArisesIn m inv u c)
      (ofProject p scope : ExceptT Cancelled m _) := by
  refine .bind (Q := List.Forall₂ (fun u e => ∀ c ∈ e.1.candidates, ArisesIn m inv u c)
    (p.covered scope)) (.mapM fun u _ => ?_) fun found each => .pure ?_
  · exact .bind (gives_pollUnit looks) fun _ _ => arises_ofUnit looks u
  · intro e mem
    obtain ⟨pair, part, rfl⟩ := List.mem_map.mp mem
    exact mem_of_forall₂ each part

/-- Every candidate of a plan arises in one of the trees that the pass covers. -/
theorem arises_of_candidate (looks : Looks m inv) {p : Project} {scope : Scope} {d : Discovery}
    {s t : σ} (start : inv s) (l : Ledger)
    (h : exec (ofProject p scope : ExceptT Cancelled m _).run s = (.ok d, t)) {c : Candidate}
    (mem : c ∈ (Plan.ofDiscovery l d).candidates) :
    ∃ u ∈ p.covered scope, ArisesIn m inv u c := by
  have each := (arises_ofProject looks p scope s start).2
  rw [h] at each
  obtain ⟨plan, planned, mem⟩ := List.mem_flatMap.mp mem
  obtain ⟨e, found, rfl⟩ := List.mem_map.mp planned
  obtain ⟨u, covered, all⟩ := each d rfl e found
  refine ⟨u, covered, all c ?_⟩
  rw [UnitPlan.ofDiscovery] at mem
  split at mem
  · cases mem
  · exact mem

/-- Every candidate of a plan comes from one of the trees that the pass covers. -/
theorem source_of_candidate {p : Project} {scope : Scope} {d : Discovery} {s t : σ} (l : Ledger)
    (h : exec (ofProject p scope : ExceptT Cancelled m _).run s = (.ok d, t)) {c : Candidate}
    (mem : c ∈ (Plan.ofDiscovery l d).candidates) :
    ∃ u ∈ p.covered scope, ∃ pair ∈ treesOf u, pair.2.directory.parts <+: c.source.parts := by
  obtain ⟨u, covered, pair, tree, spec, root, -, -, arises⟩ :=
    arises_of_candidate (.any m) trivial l h mem
  exact ⟨u, covered, pair, tree, root ▸ arises.within⟩

/-- A discovery in some state of the files finds the candidate. -/
def Finds (m : Type → Type) {σ : Type} [Monad m] [Stateful m σ] [FileSystem m] (c : Candidate) :
    Prop :=
  ∃ (p : Project) (scope : Scope) (s t : σ) (d : Discovery),
    exec (ofProject p scope : ExceptT Cancelled m _).run s = (.ok d, t) ∧
    ∃ e ∈ d.units, c ∈ e.candidates

/-- A stamp has the fingerprint of the properties that the candidate is filtered with. -/
theorem Finds.fingerprint_eq {c : Candidate} (h : Finds m c) :
    c.stamp.properties = c.properties.fingerprint := by
  obtain ⟨p, scope, s, t, d, ran, e, found, mem⟩ := h
  have each := (arises_ofProject (.any m) p scope s trivial).2
  rw [ran] at each
  obtain ⟨u, -, all⟩ := each d rfl e found
  obtain ⟨_, -, spec, -, -, stamped, arises⟩ := all c mem
  rw [arises.fingerprint, stamped, arises.properties]

end Discovery
end Staging
