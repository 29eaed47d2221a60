import Staging.FileSystem.Guarded
import Staging.Proofs.Discovery.Outputs
import Staging.Proofs.Pass.Record
import Staging.Proofs.Selection

/-!
Units are discovered apart from one another. Where the calls of a discovery leave the files as they
are, what is found in a unit depends on no other unit; and a unit in which anything is wrong is
misconfigured, however deep in its trees the fault lies and whatever was found before it.
-/
namespace Staging

namespace Sample

def pair : Project :=
  ⟨[{ name := "app", output := some ⟨"out"⟩,
      resources := [{ directory := ⟨"first"⟩ }, { directory := ⟨"res"⟩ }] },
    { name := "web", output := some ⟨"pub"⟩, resources := [{ directory := ⟨"web"⟩ }] }]⟩

def deepTree : Memory :=
  ((Memory.empty.addFile ⟨"first/a.txt"⟩ [97]).addFile ⟨"res/sub/deep/b.txt"⟩ [98]).addFile
    ⟨"web/w.txt"⟩ [119]

def unlistable : Guard := { faults := [(.list, ⟨"res/sub/deep"⟩)] }

end Sample

namespace Project

/-- The project without the units of a name. -/
def without (p : Project) (name : String) : Project := ⟨p.units.filter (·.name != name)⟩

theorem covered_without (p : Project) (name : String) (scope : Scope) :
    (p.without name).covered scope = (p.covered scope).filter (·.name != name) := by
  rw [covered, covered, without, List.filter_filter, List.filter_filter]
  congr 1
  funext u
  exact Bool.and_comm _ _

end Project

section
variable (m : Type → Type) {σ : Type} [Monad m] [Stateful m σ] [FileSystem m]

/-- A walk from the root gets to the directory, if every directory on the way can be listed. -/
inductive Reached (st : σ) (root : Path) : Path → Prop
  | root : (exec (FileSystem.isDir root : m Bool) st).1 = true → Reached st root root
  | listed {dir p : Path} {entries : List Path} : Reached st root dir →
      (exec (FileSystem.list dir : m _) st).1 = .ok entries → p ∈ entries →
      (exec (FileSystem.isDir p : m Bool) st).1 = true → Reached st root p

/-- What can be wrong with a unit: a tree that has nowhere to go, a pattern that is refused, or a
directory that cannot be listed. -/
inductive Faulty (st : σ) (u : BuildUnit) : Prop
  | unplaced (purpose : Purpose) : u.treesFor purpose ≠ [] → u.outputFor purpose = none →
      Faulty st u
  | refused (purpose : Purpose) (tree : ResourceTree) (pattern : String) :
      tree ∈ u.treesFor purpose → pattern ∈ tree.includes ++ tree.excludes →
      Selection.Refused pattern → Faulty st u
  | unlisted (purpose : Purpose) (tree : ResourceTree) (dir : Path) (e : FsError) :
      tree ∈ u.treesFor purpose → Reached m st tree.directory dir →
      (exec (FileSystem.list dir : m _) st).1 = .error e → Faulty st u

end

variable {m : Type → Type} {σ : Type} [Monad m] [LawfulMonad m] [Stateful m σ] [FileSystem m]
variable {st t : σ}

/-! Faults that are put in -/

namespace Guard

/-- A guard that watches for no call to cancel on stays as it is. -/
theorem announce_of_none {g : Guard} (quiet : g.cancelOn = none) (call : Call) (p : Path) :
    g.announce call p = g := by
  cases g
  simp_all [announce]

omit [FileSystem m] in
theorem exec_through {α : Type} {g : Guard} (quiet : g.cancelOn = none) (call : Call) (p : Path)
    (run : m (Except FsError α)) (st : σ) :
    exec (through call p run) (g, st) =
      if g.faults.any (isFor call p) then (.error (.injected call p), g, st)
      else ((exec run st).1, g, (exec run st).2) := by
  have body : through call p run g =
      if g.faults.any (isFor call p) then pure (.error (.injected call p), g)
      else run >>= fun result => pure (result, g) := by
    simp only [through, announce_of_none quiet]
  simp only [exec, body]
  split
  · simp
  · simp [exec_map]

omit [FileSystem m] in
theorem gives_through {α : Type} {g : Guard} (quiet : g.cancelOn = none) (call : Call) (p : Path)
    {run : m (Except FsError α)} (stays : Gives (· = st) (fun _ => True) run) :
    Gives (· = (g, st)) (fun _ => True) (through call p run) := by
  rintro _ rfl
  rw [exec_through quiet]
  split
  · exact ⟨rfl, trivial⟩
  · exact ⟨Prod.ext rfl (stays st rfl).1, trivial⟩

omit [FileSystem m] in
theorem gives_lift {α : Type} {g : Guard} {call : m α}
    (stays : Gives (· = st) (fun _ => True) call) :
    Gives (· = (g, st)) (fun _ => True) (StateT.lift call : StateT Guard m α) := by
  rintro _ rfl
  refine ⟨?_, trivial⟩
  simpa [exec, StateT.lift, exec_map] using (stays st rfl).1

/-- Faults put into a discovery leave the files as they are. -/
theorem looks {g : Guard} (quiet : g.cancelOn = none) (h : Looks m (· = st)) :
    Looks (StateT Guard m) (· = (g, st)) where
  isCancelled := by
    rintro _ rfl
    refine ⟨?_, trivial⟩
    have polled : (FileSystem.isCancelled : StateT Guard m Bool) g =
        (FileSystem.isCancelled : m Bool) >>= fun raised => pure (g.cancelled || raised, g) := rfl
    simpa [exec, polled, exec_map] using (h.isCancelled st rfl).1
  depth := gives_lift h.depth
  isDir p := gives_lift (h.isDir p)
  isFile p := gives_lift (h.isFile p)
  modified p := gives_through quiet .modified p (h.modified p)
  list p := gives_through quiet .list p (h.list p)
  read p := gives_through quiet .read p (h.read p)

end Guard

/-! Walks -/

namespace Candidate

variable {spec : TreeSpec} {dir : Path}

/-- A walk that has a result has listed its directory, and has a result in each directory there. -/
theorem walk_inversion (looks : Looks m (· = st))
    (below : Relation.ReflTransGen (Lists m (· = st)) spec.root dir) {levels : Nat}
    {items : List Candidate}
    (walked : exec (walk spec levels dir : ExceptT WalkStop m _).run st = (.ok items, t)) :
    ∃ n entries, levels = n + 1 ∧ (exec (FileSystem.list dir : m _) st).1 = .ok entries ∧
      ∀ p ∈ entries, (exec (FileSystem.isDir p : m Bool) st).1 = true →
        ∃ found, exec (walk spec n p : ExceptT WalkStop m _).run st = (.ok found, st) := by
  cases levels with
  | zero =>
    rw [walk, ExceptT.run_throw, exec_pure] at walked
    cases walked
  | succ n =>
    obtain ⟨_, r, polled, walked⟩ := exec_run_bind_ok walked
    obtain rfl : st = r := congrArg Prod.snd ((gives_poll looks).stays.symm.trans polled)
    obtain ⟨listing, q, listed, walked⟩ := exec_run_bind_ok walked
    rw [exec_run_lift, (looks.list dir).stays] at listed
    cases listed
    cases listing : (exec (FileSystem.list dir : m _) st).1 with
    | error e =>
      rw [listing, ExceptT.run_throw, exec_pure] at walked
      cases walked
    | ok entries =>
      rw [listing] at walked
      refine ⟨n, entries, rfl, rfl, fun p mem isDir => ?_⟩
      obtain ⟨found, _, each, -⟩ := exec_run_bind_ok walked
      have stays : ∀ x ∈ entries.mergeSort nameOrder,
          ∃ result, exec (visit spec (walk spec n) x : ExceptT WalkStop m _).run st =
            (result, st) := by
        intro x sorted
        have lists : Lists m (· = st) dir x :=
          ⟨st, entries, rfl, listing, List.mem_mergeSort.mp sorted⟩
        have reached := Relation.TransGen.tail' below lists
        exact ⟨_, (arises_visit looks reached (arises_walk looks reached.to_reflTransGen)).stays⟩
      have visited := (exec_mapM_stays stays each).2
      obtain ⟨y, -, visit⟩ := mem_of_forall₂ visited.flip (List.mem_mergeSort.mpr mem)
      obtain ⟨b, r, asked, descended⟩ := exec_run_bind_ok visit
      rw [exec_run_lift, (looks.isDir p).stays, isDir] at asked
      cases asked
      exact ⟨y, descended⟩

/-- A walk that has a result has listed every directory that it gets to. -/
theorem listed_of_walked (looks : Looks m (· = st)) {levels : Nat} {items : List Candidate}
    (walked : exec (walk spec levels spec.root : ExceptT WalkStop m _).run st = (.ok items, st))
    (reached : Reached m st spec.root dir) :
    ∃ entries, (exec (FileSystem.list dir : m _) st).1 = .ok entries := by
  suffices deeper : Relation.ReflTransGen (Lists m (· = st)) spec.root dir ∧
      ∃ n found, exec (walk spec n dir : ExceptT WalkStop m _).run st = (.ok found, st) by
    obtain ⟨below, n, found, walked⟩ := deeper
    obtain ⟨_, entries, -, listed, -⟩ := walk_inversion looks below walked
    exact ⟨entries, listed⟩
  induction reached with
  | root isDir => exact ⟨.refl, levels, items, walked⟩
  | @listed dir p entries _ listed mem isDir ih =>
    obtain ⟨below, n, found, walked⟩ := ih
    obtain ⟨n', entries', -, same, each⟩ := walk_inversion looks below walked
    cases same.symm.trans listed
    exact ⟨below.tail ⟨st, entries, rfl, listed, mem⟩, n', each p mem isDir⟩

omit [LawfulMonad m] in
theorem isDir_of_reached {root : Path} (reached : Reached m st root dir) :
    (exec (FileSystem.isDir root : m Bool) st).1 = true := by
  induction reached with
  | root isDir => exact isDir
  | listed _ _ _ _ ih => exact ih

theorem listed_of_collected (looks : Looks m (· = st)) {items : List Candidate}
    (collected : exec (collect spec : ExceptT WalkStop m _).run st = (.ok items, t))
    (reached : Reached m st spec.root dir) :
    ∃ entries, (exec (FileSystem.list dir : m _) st).1 = .ok entries := by
  obtain ⟨b, r, asked, collected⟩ := exec_run_bind_ok collected
  rw [exec_run_lift, (looks.isDir spec.root).stays, isDir_of_reached reached] at asked
  cases asked
  obtain ⟨depth, q, asked, walked⟩ := exec_run_bind_ok collected
  rw [exec_run_lift, looks.depth.stays] at asked
  cases asked
  have walks : GivesOk (· = st) _ (walk spec ((exec (FileSystem.depth : m _) st).1 + 1) spec.root :
    ExceptT WalkStop m _) := arises_walk looks .refl
  have stays := walks.stays
  obtain rfl : st = t := congrArg Prod.snd (stays.symm.trans walked)
  exact listed_of_walked looks walked reached

end Candidate

namespace Discovery
open Candidate

/-! A unit with a fault -/

/-- An error about the unit. -/
def Blames (u : BuildUnit) (message : Message) : Prop :=
  message.severity = .error ∧ message.unit = some u.name

theorem mem_treesOf {u : BuildUnit} {purpose : Purpose} {destination : Path} {tree : ResourceTree}
    (placed : u.outputFor purpose = some destination) (mem : tree ∈ u.treesFor purpose) :
    (destination, tree) ∈ treesOf u := by
  refine List.mem_flatMap.mpr ⟨purpose, purpose.mem_all, ?_⟩
  rw [placed]
  exact List.mem_map_of_mem mem

/-- Unless the unit has resources and nowhere to put them, every tree has a destination. -/
theorem placed_of_mem {u : BuildUnit} (nothing : u.missingOutputs = []) {purpose : Purpose}
    (some : u.treesFor purpose ≠ []) : ∃ destination, u.outputFor purpose = .some destination := by
  rw [BuildUnit.missingOutputs, List.filter_eq_nil_iff] at nothing
  have here := nothing purpose purpose.mem_all
  cases placed : u.outputFor purpose with
  | none => simp [placed, some] at here
  | some destination => exact ⟨destination, rfl⟩

/-- A tree has a pattern that is refused, or it comes to what collecting from it comes to. -/
theorem ofTree_cases (u : BuildUnit) (properties : PropertySet) (fingerprint : UInt64)
    (destination : Path) (tree : ResourceTree) (st : σ) :
    (∃ e, Selection.compile tree.includes tree.excludes = .error e ∧
      exec (ofTree u properties fingerprint (destination, tree) : ExceptT UnitStop m _).run st =
        (.error (.failed (badPattern u tree e)), st)) ∨
    ∃ selection, Selection.compile tree.includes tree.excludes = .ok selection ∧
      let collected := exec (collect ⟨u.name, tree.directory, destination, selection, tree.filtered,
        properties, fingerprint⟩ : ExceptT WalkStop m _).run st
      exec (ofTree u properties fingerprint (destination, tree) : ExceptT UnitStop m _).run st =
        (collected.1.mapError (UnitStop.ofWalk u tree), collected.2) := by
  unfold ofTree
  simp only
  cases compiled : Selection.compile tree.includes tree.excludes with
  | error e =>
    left
    refine ⟨e, rfl, ?_⟩
    rw [ExceptT.run_throw, exec_pure]
  | ok selection =>
    right
    refine ⟨selection, rfl, ?_⟩
    simp only [ExceptT.run_adapt, exec_map]

/-- What fails in a tree is told as an error about the unit. -/
theorem blames_of_ofTree {u : BuildUnit} {properties : PropertySet}
    {fingerprint : UInt64} {pair : Path × ResourceTree} {why : Message}
    (failed : exec (ofTree u properties fingerprint pair : ExceptT UnitStop m _).run st =
      (.error (.failed why), t)) : Blames u why := by
  obtain ⟨destination, tree⟩ := pair
  rcases ofTree_cases (m := m) u properties fingerprint destination tree st with
    ⟨e, -, bad⟩ | ⟨selection, -, walked⟩
  · cases bad.symm.trans failed
    exact ⟨rfl, rfl⟩
  · have result := congrArg Prod.fst (walked.symm.trans failed)
    simp only at result
    generalize (exec (collect _ : ExceptT WalkStop m _).run st).1 = outcome at result
    rcases outcome with (_ | e | _) | items
    · cases result
    · cases result
      exact ⟨rfl, rfl⟩
    · cases result
      exact ⟨rfl, rfl⟩
    · cases result

/-- A tree that has candidates has patterns that are all accepted, and was walked to the end. -/
theorem collected_of_ofTree {u : BuildUnit} {properties : PropertySet} {fingerprint : UInt64}
    {destination : Path} {tree : ResourceTree} {items : List Candidate}
    (ran : exec (ofTree u properties fingerprint (destination, tree) : ExceptT UnitStop m _).run st =
      (.ok items, t)) :
    ∃ selection, Selection.compile tree.includes tree.excludes = .ok selection ∧
      exec (collect ⟨u.name, tree.directory, destination, selection, tree.filtered, properties,
        fingerprint⟩ : ExceptT WalkStop m _).run st = (.ok items, t) := by
  rcases ofTree_cases (m := m) u properties fingerprint destination tree st with
    ⟨e, -, bad⟩ | ⟨selection, compiled, walked⟩
  · cases bad.symm.trans ran
  · refine ⟨selection, compiled, ?_⟩
    have result := walked.symm.trans ran
    rcases collected : exec (collect ⟨u.name, tree.directory, destination, selection, tree.filtered,
      properties, fingerprint⟩ : ExceptT WalkStop m _).run st with ⟨stop | found, r⟩
    · rw [collected] at result
      cases result
    · rw [collected] at result
      cases result
      rfl

/-- The trees of a faulty unit have no candidates together. -/
theorem not_faulty_of_trees (looks : Looks m (· = st)) {u : BuildUnit}
    (nothing : u.missingOutputs = []) {properties : PropertySet} {found : List (List Candidate)}
    (walked : exec ((treesOf u).mapM (ofTree u properties properties.fingerprint) :
      ExceptT UnitStop m _).run st = (.ok found, t)) : ¬Faulty m st u := by
  have each := (exec_mapM_stays
    (fun _ mem => ⟨_, (arises_ofTree looks u properties mem).stays⟩) walked).2
  have one {purpose : Purpose} {tree : ResourceTree} (mem : tree ∈ u.treesFor purpose) :
      ∃ destination items, exec (ofTree u properties properties.fingerprint (destination, tree) :
        ExceptT UnitStop m _).run st = (.ok items, st) := by
    obtain ⟨destination, placed⟩ := placed_of_mem nothing (List.ne_nil_of_mem mem)
    obtain ⟨items, -, ran⟩ := mem_of_forall₂ each.flip (mem_treesOf placed mem)
    exact ⟨destination, items, ran⟩
  intro faulty
  cases faulty with
  | unplaced purpose some none =>
    obtain ⟨_, placed⟩ := placed_of_mem nothing some
    rw [none] at placed
    cases placed
  | refused purpose tree pattern mem among refused =>
    obtain ⟨destination, items, ran⟩ := one mem
    obtain ⟨selection, compiled, -⟩ := collected_of_ofTree ran
    obtain ⟨e, none⟩ := Selection.compile_of_refused among refused
    cases compiled.symm.trans none
  | unlisted purpose tree dir e mem reached failed =>
    obtain ⟨destination, items, ran⟩ := one mem
    obtain ⟨selection, -, collected⟩ := collected_of_ofTree ran
    obtain ⟨entries, listed⟩ := listed_of_collected looks collected reached
    cases listed.symm.trans failed

theorem misconfigured_of_faulty (looks : Looks m (· = st)) {u : BuildUnit}
    (faulty : Faulty m st u) {e : UnitDiscovery} {messages : List Message}
    (ran : exec (ofUnit u : ExceptT Cancelled m _).run st = (.ok (e, messages), t)) :
    e = ⟨u.name, .misconfigured, []⟩ ∧ ∃ message ∈ messages, Blames u message := by
  unfold ofUnit at ran
  split at ran
  · rename_i nothing
    obtain ⟨files, r, loaded, ran⟩ := exec_run_bind_ok ran
    rw [exec_run_lift, (gives_load looks u.filters).stays] at loaded
    cases loaded
    obtain ⟨found, q, walked, ran⟩ := exec_run_bind_ok ran
    rw [exec_run_lift] at walked
    generalize SortedMap.overlay u.properties _ = properties at walked
    rcases trees : exec ((treesOf u).mapM (ofTree u properties
      (PropertySet.fingerprint properties)) : ExceptT UnitStop m _).run st with ⟨stop | items, r⟩
    · rw [trees] at walked
      cases walked
      cases stop with
      | cancelled =>
        simp only [ExceptT.run_throw, exec_pure] at ran
        cases ran
      | failed why =>
        simp only [ExceptT.run_pure, exec_pure] at ran
        cases ran
        obtain ⟨pair, -, a, b, failed⟩ := exec_mapM_error trees
        exact ⟨rfl, why, by simp, blames_of_ofTree failed⟩
    · exact absurd faulty (not_faulty_of_trees looks nothing trees)
  · rename_i missing
    rw [ExceptT.run_pure, exec_pure] at ran
    cases ran
    obtain ⟨purpose, mem⟩ := List.exists_mem_of_ne_nil _ missing
    exact ⟨rfl, missingOutput u purpose, List.mem_map_of_mem mem, rfl, rfl⟩

/-! One unit beside the others -/

/-- What a discovery finds in a unit, and what there is to say about it. -/
def alone (m : Type → Type) {σ : Type} [Monad m] [Stateful m σ] [FileSystem m] (st : σ)
    (u : BuildUnit) : UnitDiscovery × List Message :=
  match (exec (ofUnit u : ExceptT Cancelled m _).run st).1 with
  | .ok told => told
  | .error _ => (⟨u.name, .misconfigured, []⟩, [])

theorem ofUnit_of_polled (looks : Looks m (· = st)) {u : BuildUnit}
    {told : UnitDiscovery × List Message}
    (ran : exec (do pollUnit; ofUnit u : ExceptT Cancelled m _).run st = (.ok told, t)) :
    exec (ofUnit u : ExceptT Cancelled m _).run st = (.ok told, t) := by
  obtain ⟨_, r, calm, ran⟩ := exec_run_bind_ok ran
  obtain rfl : st = r := congrArg Prod.snd ((gives_pollUnit looks).stays.symm.trans calm)
  exact ran

/-- Each unit that is covered has been discovered as if it were alone. -/
theorem units_alone (looks : Looks m (· = st)) {p : Project} {scope : Scope} {d : Discovery}
    (discovered : exec (ofProject p scope : ExceptT Cancelled m _).run st = (.ok d, t)) :
    (∀ u ∈ p.covered scope, exec (do pollUnit; ofUnit u : ExceptT Cancelled m _).run st =
      (.ok (alone m st u), st)) ∧
    d.units = (p.covered scope).map (fun u => (alone m st u).1) ∧
    ∀ u ∈ p.covered scope, (alone m st u).2 ⊆ d.messages := by
  obtain ⟨found, r, each, rest⟩ := exec_run_bind_ok discovered
  rw [ExceptT.run_pure, exec_pure] at rest
  cases rest
  have polled (u : BuildUnit) : exec (do pollUnit; ofUnit u : ExceptT Cancelled m _).run st =
      ((exec (do pollUnit; ofUnit u : ExceptT Cancelled m _).run st).1, st) :=
    (GivesOk.bind (gives_pollUnit looks) fun _ _ => arises_ofUnit looks u).stays
  have all := (exec_mapM_stays (fun u _ => ⟨_, polled u⟩) each).2
  have same : ∀ u ∈ p.covered scope, exec (do pollUnit; ofUnit u : ExceptT Cancelled m _).run st =
      (.ok (alone m st u), st) := by
    intro u mem
    obtain ⟨e, -, ran⟩ := mem_of_forall₂ all.flip mem
    rw [ran, alone, ofUnit_of_polled looks ran]
  have whole : found = (p.covered scope).map (alone m st) := by
    have mapped := exec_mapM_map same
    exact Except.ok.inj (congrArg Prod.fst (each.symm.trans mapped))
  refine ⟨same, ?_, fun u mem message told => ?_⟩
  · rw [whole, List.map_map]
    rfl
  · rw [whole]
    refine List.mem_append_right _ (List.mem_flatMap.mpr ?_)
    exact ⟨alone m st u, List.mem_map_of_mem mem, told⟩

/-- A discovery of some of the units finds in them what a discovery of all of them does. -/
theorem discovered_part (looks : Looks m (· = st)) {p q : Project} {scope scope' : Scope}
    {d : Discovery} (keep : String → Bool)
    (part : q.covered scope' = (p.covered scope).filter fun u => keep u.name)
    (discovered : exec (ofProject p scope : ExceptT Cancelled m _).run st = (.ok d, t)) :
    ∃ d', exec (ofProject q scope' : ExceptT Cancelled m _).run st = (.ok d', st) ∧
      d'.units = d.units.filter fun e => keep e.unit := by
  obtain ⟨each, units, -⟩ := units_alone looks discovered
  have each' : ∀ u ∈ q.covered scope', exec (do pollUnit; ofUnit u :
      ExceptT Cancelled m _).run st = (.ok (alone m st u), st) :=
    fun u mem => each u (List.mem_of_mem_filter (part ▸ mem))
  have whole := exec_mapM_map each'
  rw [Project.covered] at whole
  unfold ofProject
  simp only
  rw [exec_run_bind, whole]
  refine ⟨_, exec_pure _ _, ?_⟩
  simp only
  rw [← Project.covered, part, units, List.map_map, List.filter_map]
  congr 1
  refine List.filter_congr fun u covered => ?_
  have name : (alone m st u).1.unit = u.name :=
    unit_of_ofUnit (ofUnit_of_polled looks (each u covered))
  rw [Function.comp_apply, name]

/-- A faulty unit has nothing to do in the plan and an error to its name. The plans of the other
units are those of the project without it. -/
theorem isolated_of_faulty (looks : Looks m (· = st)) {p : Project} (distinct : p.unitNames.Nodup)
    {scope : Scope} {d : Discovery}
    (discovered : exec (ofProject p scope : ExceptT Cancelled m _).run st = (.ok d, t))
    {u : BuildUnit} (mem : u ∈ p.units) (covered : scope.covers u.name = true)
    (faulty : Faulty m st u) (l : Ledger) :
    (Plan.ofDiscovery l d).unit? u.name = some ⟨u.name, .misconfigured, [], none, []⟩ ∧
    (∃ message ∈ (Plan.ofDiscovery l d).messages, Blames u message) ∧
    ∃ d', exec (ofProject (p.without u.name) scope : ExceptT Cancelled m _).run st = (.ok d', st) ∧
      (Plan.ofDiscovery l d').units =
        (Plan.ofDiscovery l d).units.filter (·.unit != u.name) := by
  have among := Project.mem_covered.mpr ⟨mem, covered⟩
  obtain ⟨each, units, messages⟩ := units_alone looks discovered
  obtain ⟨entry, message, said, blames⟩ :=
    misconfigured_of_faulty looks faulty (ofUnit_of_polled looks (each u among))
  refine ⟨?_, ⟨message, messages u among said, blames⟩, ?_⟩
  · have nodup : (d.units.map (·.unit)).Nodup := by
      rw [units_ofProject discovered]
      exact Project.nodup_covered distinct scope
    have found : (⟨u.name, .misconfigured, []⟩ : UnitDiscovery) ∈ d.units := by
      rw [units, ← entry]
      exact List.mem_map_of_mem among
    exact Plan.unit?_ofDiscovery l nodup found
  · obtain ⟨d', apart, units'⟩ := discovered_part looks (· != u.name)
      (Project.covered_without p u.name scope) discovered
    exact ⟨d', apart, Plan.units_part l (· != u.name) units'⟩

/-- One directory below the root cannot be listed; the other unit is planned as if it were alone. -/
theorem isolated_of_faulty_sample :
    let start := (Sample.unlistable, Sample.deepTree)
    (exec (ofProject Sample.pair .all : ExceptT Cancelled (StateT Guard (StateM Memory)) _).run
      start).1.toOption.map (fun d =>
        (d.units.map fun e => (e.unit, e.readiness, e.candidates.map (·.output)))) =
        some [("app", .misconfigured, []), ("web", .ready, ["pub/w.txt"])] ∧
    ∃ d, exec (ofProject Sample.pair .all :
        ExceptT Cancelled (StateT Guard (StateM Memory)) _).run start = (.ok d, start) ∧
      let plan := Plan.ofDiscovery Sample.stager.ledger d
      plan.unit? "app" = some ⟨"app", .misconfigured, [], none, []⟩ ∧
      (∃ message ∈ plan.messages, Blames Sample.pair.units[0] message) ∧
      ∃ d', exec (ofProject (Sample.pair.without "app") .all :
          ExceptT Cancelled (StateT Guard (StateM Memory)) _).run start = (.ok d', start) ∧
        (Plan.ofDiscovery Sample.stager.ledger d').units =
          plan.units.filter (·.unit != "app") := by
  intro start
  have looks : Looks (StateT Guard (StateM Memory)) (· = start) :=
    Guard.looks rfl (Memory.looks _)
  have found : (exec (ofProject Sample.pair .all :
      ExceptT Cancelled (StateT Guard (StateM Memory)) _).run start).1.toOption.map (fun d =>
        (d.units.map fun e => (e.unit, e.readiness, e.candidates.map (·.output)))) =
      some [("app", .misconfigured, []), ("web", .ready, ["pub/w.txt"])] := by
    decide +kernel
  refine ⟨found, ?_⟩
  have faulty : Faulty (StateT Guard (StateM Memory)) start Sample.pair.units[0] := by
    have top : Reached (StateT Guard (StateM Memory)) start ⟨"res"⟩ ⟨"res"⟩ :=
      .root (by decide +kernel)
    have listed : (exec (FileSystem.list ⟨"res"⟩ : StateT Guard (StateM Memory) _) start).1 =
        .ok [⟨"res/sub"⟩] := by
      decide +kernel
    have listed' : (exec (FileSystem.list ⟨"res/sub"⟩ : StateT Guard (StateM Memory) _) start).1 =
        .ok [⟨"res/sub/deep"⟩] := by
      decide +kernel
    have sub := top.listed listed List.mem_cons_self (by decide +kernel)
    have deep := sub.listed listed' List.mem_cons_self (by decide +kernel)
    exact .unlisted .main ⟨⟨"res"⟩, false, [], []⟩ ⟨"res/sub/deep"⟩
      (.injected .list ⟨"res/sub/deep"⟩) (by decide) deep (by decide +kernel)
  have stays := (arises_ofProject looks Sample.pair .all).stays
  cases result : (exec (ofProject Sample.pair .all :
      ExceptT Cancelled (StateT Guard (StateM Memory)) _).run start).1 with
  | error stop =>
    rw [result] at found
    cases found
  | ok d =>
    rw [result] at stays
    exact ⟨d, stays, isolated_of_faulty looks (by decide) stays List.mem_cons_self rfl faulty _⟩

end Discovery

end Staging
