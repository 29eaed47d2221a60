import Staging.Proofs.Discovery.Isolation
import Staging.Proofs.PropertySet.Building

/-!
Where the properties of a unit come from. Of the property files that can be read the last one that
defines a key gives its value, and after all files comes what the unit says itself. A file that
cannot be read gives a warning and nothing else; the unit goes on to its trees as it would have.
-/
namespace Staging

namespace Sample

/-- The third file defines a key of its own and one of the others, and cannot be read. -/
def filterFiles : Memory :=
  ((((Memory.empty.addFile ⟨"one.properties"⟩ (Utf8.encode "a=1\nb=1\na=2")).addFile
    ⟨"two.properties"⟩ (Utf8.encode "b : 2\nc 3")).addFile
    ⟨"off.properties"⟩ (Utf8.encode "b=4\ne=4")).makeUnreadable ⟨"off.properties"⟩).addFile
    ⟨"res/f.txt"⟩ [102]

def filtering : BuildUnit where
  name := "app"
  output := some ⟨"out"⟩
  resources := [{ directory := ⟨"res"⟩ }]
  filters := [⟨"one.properties"⟩, ⟨"off.properties"⟩, ⟨"two.properties"⟩, ⟨"off.properties"⟩]
  properties := .ofList [("a", "0"), ("d", "0")]

end Sample

namespace FilterFiles

/-- A property file with what reading it gave. -/
abbrev Reading := Path × Except FsError Bytes

/-- The value that a file with these bytes has last for the key. -/
def defined (key : String) (bytes : Bytes) : Option String :=
  SortedMap.lastValue key (PropertySet.readPairs (Charset.latin1.decode bytes))

/-- The value in the last file that could be read and defines the key. -/
def lastDefined (key : String) (readings : List Reading) : Option String :=
  readings.reverse.findSome? fun reading => reading.2.toOption.bind (defined key)

/-- The files that could not be read, once for each time that one is named. -/
def unread (readings : List Reading) : List (Path × FsError) :=
  readings.filterMap fun reading =>
    match reading.2 with
    | .ok _ => none
    | .error e => some (reading.1, e)

/-- What a reading adds to the properties. -/
def step (reading : Reading) : Option PropertySet.Step :=
  reading.2.toOption.map fun bytes => .overlay (ofBytes bytes)

theorem foldl_add (f : FilterFiles) (readings : List Reading) :
    readings.foldl (fun f reading => f.add reading.1 reading.2) f =
      ⟨(readings.filterMap step).foldl PropertySet.Step.apply f.properties,
        f.failures ++ unread readings⟩ := by
  induction readings generalizing f with
  | nil => simp [unread]
  | cons reading readings ih =>
    obtain ⟨p, result⟩ := reading
    rw [List.foldl_cons, ih]
    cases result with
    | ok bytes => simp [add, step, unread, Except.toOption, PropertySet.Step.apply]
    | error e => simp [add, step, unread, Except.toOption, List.filterMap_cons]

theorem lastWritten_step (key : String) (readings : List Reading) :
    PropertySet.lastWritten key (readings.filterMap step) = lastDefined key readings := by
  have written : ∀ reading : Reading, (step reading).bind (PropertySet.Step.written key) =
      reading.2.toOption.bind (defined key) := by
    rintro ⟨p, e | bytes⟩
    · rfl
    · exact SortedMap.get?_ofList _ key
  simp only [PropertySet.lastWritten, lastDefined, ← List.filterMap_reverse,
    ← List.head?_filterMap, List.filterMap_filterMap, written]

/-- The properties of a unit that has some of its own. -/
def active (own : PropertySet) (readings : List Reading) : PropertySet :=
  own.overlay (PropertySet.build (readings.filterMap step))

theorem get?_active (own : PropertySet) (readings : List Reading) (key : String) :
    (active own readings).get? key = (lastDefined key readings).or (own.get? key) := by
  rw [active, SortedMap.get?_overlay, PropertySet.get?_build, lastWritten_step]

section
variable {m : Type → Type} {σ : Type} [Monad m] [LawfulMonad m] [Stateful m σ] [FileSystem m]

/-- Reads the files in order, whatever comes of it. -/
def readAll {m : Type → Type} [Monad m] [FileSystem m] (paths : List Path) : m (List Reading) :=
  paths.mapM fun p => return (p, ← FileSystem.read p)

omit [Stateful m σ] in
theorem load_eq (paths : List Path) :
    (load paths : m FilterFiles) = do
      let readings ← readAll paths
      return readings.foldl (fun f reading => f.add reading.1 reading.2) {} := by
  unfold load readAll
  generalize ({} : FilterFiles) = f
  induction paths generalizing f with
  | nil => simp
  | cons p paths ih =>
    simp only [List.foldlM_cons, List.mapM_cons, List.foldl_cons, bind_assoc, pure_bind, ih]

theorem exec_load {paths : List Path} {s after : σ} {readings : List Reading}
    (read : exec (readAll paths : m _) s = (readings, after)) :
    exec (load paths : m FilterFiles) s =
      (⟨PropertySet.build (readings.filterMap step), unread readings⟩, after) := by
  rw [load_eq, exec_bind, read, exec_pure, foldl_add, List.nil_append]
  rfl

/-- Every file is read once for each time that it is named. -/
theorem paths_readAll {paths : List Path} {s after : σ} {readings : List Reading}
    (read : exec (readAll paths : m _) s = (readings, after)) :
    readings.map (·.1) = paths := by
  induction paths generalizing s readings with
  | nil =>
    rw [readAll, List.mapM_nil, exec_pure] at read
    cases read
    rfl
  | cons p paths ih =>
    rw [readAll, List.mapM_cons, exec_bind, exec_bind, exec_bind, exec_pure, exec_pure] at read
    cases read
    rw [List.map_cons]
    exact congrArg (p :: ·) (ih rfl)

end

end FilterFiles

namespace Discovery
open FilterFiles Candidate

variable {m : Type → Type} {σ : Type} [Monad m] [LawfulMonad m] [Stateful m σ] [FileSystem m]

/-- What discovering a unit comes to, by what its trees come to. -/
def outcome (u : BuildUnit) (warnings : List Message) :
    Except UnitStop (List (List Candidate)) → Except Cancelled (UnitDiscovery × List Message)
  | .ok found => .ok (⟨u.name, .ready, found.flatten⟩, warnings)
  | .error (.failed why) => .ok (⟨u.name, .misconfigured, []⟩, warnings ++ [why])
  | .error .cancelled => .error {}

/-- The trees are gone through after the files, whether or not these could be read. -/
theorem exec_ofUnit {u : BuildUnit} (placed : u.missingOutputs = []) {s after : σ}
    {readings : List Reading} (read : exec (readAll u.filters : m _) s = (readings, after)) :
    let properties := active u.properties readings
    let trees := exec ((treesOf u).mapM (ofTree u properties properties.fingerprint) :
      ExceptT UnitStop m _).run after
    exec (ofUnit u : ExceptT Cancelled m _).run s =
      (outcome u ((unread readings).map (unreadFilter u)) trees.1, trees.2) := by
  intro properties trees
  unfold ofUnit
  rw [placed]
  simp only
  rw [exec_run_bind, exec_run_lift, exec_load read]
  simp only
  rw [exec_run_bind, exec_run_lift]
  simp only [trees, properties, active]
  generalize exec (List.mapM _ (treesOf u) : ExceptT UnitStop m _).run after = ran
  rcases ran with ⟨(_ | why) | found, t⟩
  · exact exec_pure _ _
  · exact exec_pure _ _
  · exact exec_pure _ _

omit [LawfulMonad m] in
theorem exec_ofUnit_of_missing {u : BuildUnit} (missing : u.missingOutputs ≠ []) (s : σ) :
    exec (ofUnit u : ExceptT Cancelled m _).run s =
      (.ok (⟨u.name, .misconfigured, []⟩, u.missingOutputs.map (missingOutput u)), s) := by
  unfold ofUnit
  split
  · contradiction
  · rw [ExceptT.run_pure, exec_pure]

theorem properties_of_ofTree {u : BuildUnit} {properties : PropertySet} {fingerprint : UInt64}
    {pair : Path × ResourceTree} {items : List Candidate} {s t : σ}
    (ran : exec (ofTree u properties fingerprint pair : ExceptT UnitStop m _).run s =
      (.ok items, t)) : ∀ c ∈ items, c.properties = properties := by
  obtain ⟨selection, -, collected⟩ := collected_of_ofTree ran
  intro c mem
  have each := (arises_collect (.any m) s trivial).2 items (congrArg Prod.fst collected)
  exact (each c mem).properties

theorem properties_of_trees {u : BuildUnit} {properties : PropertySet} {fingerprint : UInt64}
    {found : List (List Candidate)} {s t : σ}
    (ran : exec ((treesOf u).mapM (ofTree u properties fingerprint) : ExceptT UnitStop m _).run s =
      (.ok found, t)) : ∀ c ∈ found.flatten, c.properties = properties := by
  intro c mem
  obtain ⟨items, part, mem⟩ := List.mem_flatten.mp mem
  obtain ⟨pair, -, a, b, tree⟩ := mem_of_forall₂ (exec_mapM_ok ran) part
  exact properties_of_ofTree tree c mem

/-- What stops the trees is told as an error. -/
theorem warnings_of_outcome {u : BuildUnit} {properties : PropertySet} {fingerprint : UInt64}
    {failures : List (Path × FsError)} {s : σ} {told : UnitDiscovery × List Message}
    (ran : outcome u (failures.map (unreadFilter u)) (exec ((treesOf u).mapM
      (ofTree u properties fingerprint) : ExceptT UnitStop m _).run s).1 = .ok told) :
    (∀ c ∈ told.1.candidates, c.properties = properties) ∧
    told.2.filter (·.severity == .warning) = failures.map (unreadFilter u) := by
  have all : (failures.map (unreadFilter u)).filter (·.severity == .warning) =
      failures.map (unreadFilter u) := by
    rw [List.filter_eq_self, List.forall_mem_map]
    exact fun _ _ => rfl
  rcases trees : exec ((treesOf u).mapM (ofTree u properties fingerprint) :
    ExceptT UnitStop m _).run s with ⟨(_ | why) | found, t⟩
  · rw [trees] at ran
    cases ran
  · rw [trees] at ran
    cases ran
    obtain ⟨pair, -, a, b, failed⟩ := exec_mapM_error trees
    have error : why.severity = .error := (blames_of_ofTree failed).1
    exact ⟨nofun, by simp [all, error]⟩
  · rw [trees] at ran
    cases ran
    exact ⟨properties_of_trees trees, all⟩

/-- A unit that has a place for all its trees filters them with the value that the last readable
property file gives each key, or else with its own; each time that a file cannot be read is a
warning, and the unit comes to what its trees come to. The files of any other unit are not read. -/
theorem active_of_unit (u : BuildUnit) {s after : σ} {readings : List Reading}
    (read : exec (readAll u.filters : m _) s = (readings, after)) :
    readings.map (·.1) = u.filters ∧
    (u.missingOutputs = [] →
      let properties := active u.properties readings
      let warnings := (unread readings).map (unreadFilter u)
      let trees := exec ((treesOf u).mapM (ofTree u properties properties.fingerprint) :
        ExceptT UnitStop m _).run after
      (∀ key, properties.get? key = (lastDefined key readings).or (u.properties.get? key)) ∧
      exec (ofUnit u : ExceptT Cancelled m _).run s = (outcome u warnings trees.1, trees.2) ∧
      ∀ e messages t, exec (ofUnit u : ExceptT Cancelled m _).run s = (.ok (e, messages), t) →
        (∀ c ∈ e.candidates, c.properties = properties) ∧
        messages.filter (·.severity == .warning) = warnings) ∧
    (u.missingOutputs ≠ [] → exec (ofUnit u : ExceptT Cancelled m _).run s =
      (.ok (⟨u.name, .misconfigured, []⟩, u.missingOutputs.map (missingOutput u)), s)) := by
  refine ⟨paths_readAll read, fun placed => ?_, fun missing => exec_ofUnit_of_missing missing s⟩
  intro properties warnings trees
  have ran := exec_ofUnit placed read
  refine ⟨get?_active u.properties readings, ran, fun e messages t told => ?_⟩
  exact warnings_of_outcome (congrArg Prod.fst (ran.symm.trans told))

/-- A file that cannot be read and is named twice, between files that share a key. -/
theorem active_of_unit_sample :
    Sample.filtering.missingOutputs = [] ∧
    ∃ e messages, exec (ofUnit Sample.filtering : ExceptT Cancelled (StateM Memory) _).run
        Sample.filterFiles = (.ok (e, messages), Sample.filterFiles) ∧
      e.candidates.map (·.output) = ["out/f.txt"] ∧
      (∀ c ∈ e.candidates, ["a", "b", "c", "d", "e"].map c.properties.get? =
        [some "2", some "2", some "3", some "0", none]) ∧
      messages.filter (·.severity == .warning) = List.replicate 2 (unreadFilter Sample.filtering
        (⟨"off.properties"⟩, .denied ⟨"off.properties"⟩)) := by
  have placed : Sample.filtering.missingOutputs = [] := by decide
  have read : exec (readAll Sample.filtering.filters : StateM Memory _) Sample.filterFiles =
      (Sample.filtering.filters.map fun p => (p, Sample.filterFiles.read p),
        Sample.filterFiles) := rfl
  have stays := (arises_ofUnit (Memory.looks (· = Sample.filterFiles)) Sample.filtering).stays
  have found : (exec (ofUnit Sample.filtering : ExceptT Cancelled (StateM Memory) _).run
      Sample.filterFiles).1.toOption.map (fun told => told.1.candidates.map (·.output)) =
        some ["out/f.txt"] := by
    decide +kernel
  rcases ran : (exec (ofUnit Sample.filtering : ExceptT Cancelled (StateM Memory) _).run
    Sample.filterFiles).1 with stop | ⟨e, messages⟩
  · rw [ran] at found
    cases found
  · rw [ran] at found stays
    obtain ⟨-, processed, -⟩ := active_of_unit Sample.filtering read
    obtain ⟨value, -, told⟩ := processed placed
    obtain ⟨properties, warnings⟩ := told e messages _ stays
    refine ⟨placed, e, messages, stays, Option.some.inj found, fun c mem => ?_, ?_⟩
    · rw [properties c mem]
      simp only [List.map_cons, List.map_nil, value]
      decide +kernel
    · rw [warnings]
      decide +kernel

/-- The property files of a unit without a place for its trees are not even read. -/
theorem unread_of_unplaced :
    ¬∀ (u : BuildUnit) (st : Memory) (e : UnitDiscovery) (messages : List Message) (t : Memory),
      exec (ofUnit u : ExceptT Cancelled (StateM Memory) _).run st = (.ok (e, messages), t) →
      messages.filter (·.severity == .warning) =
        (unread (exec (readAll u.filters : StateM Memory _) st).1).map (unreadFilter u) := by
  intro warned
  let u : BuildUnit :=
    { name := "app", resources := [{ directory := ⟨"res"⟩ }], filters := [⟨"off.properties"⟩] }
  have silent := warned u .empty _ _ _ rfl
  revert silent
  decide +kernel

end Discovery

end Staging
