import Staging.Proofs.Discovery.Units

/-!
What a discovery has to say. Whatever the file system answers, every message is about a name in scope
that no unit has, or about a unit in scope: an output directory, a property file, a pattern or a tree
of it.
-/
namespace Staging.Discovery

variable {m : Type → Type} {σ : Type} [Monad m] [LawfulMonad m] [Stateful m σ] [FileSystem m]

/-- What there can be to say about one unit. -/
inductive Tells (u : BuildUnit) : Message → Prop
  | missingOutput (p : Purpose) : p ∈ u.missingOutputs → Tells u (missingOutput u p)
  | unreadFilter (failure : Path × FsError) : failure.1 ∈ u.filters →
    Tells u (unreadFilter u failure)
  | badPattern (pair : Path × ResourceTree) (e : PatternError) : pair ∈ treesOf u →
    Selection.compile pair.2.includes pair.2.excludes = .error e →
    Tells u (badPattern u pair.2 e)
  | unlistedTree (pair : Path × ResourceTree) (why : String) : pair ∈ treesOf u →
    Tells u (unlistedTree u pair.2 why)

theorem failsWith_ofTree {u : BuildUnit} (properties : PropertySet) (fingerprint : UInt64)
    {pair : Path × ResourceTree} (mem : pair ∈ treesOf u) :
    FailsWith (fun stop => ∀ message, stop = .failed message → Tells u message)
      (ofTree u properties fingerprint pair : ExceptT UnitStop m _) := by
  obtain ⟨destination, tree⟩ := pair
  unfold ofTree
  simp only
  split
  · rename_i e refused
    refine .throw ?_
    rintro _ ⟨⟩
    exact .badPattern _ e mem refused
  · refine .adapt ?_
    rintro s stop -
    cases stop with
    | cancelled => exact nofun
    | unlisted e =>
      rintro _ ⟨⟩
      exact .unlistedTree _ _ mem
    | tooDeep =>
      rintro _ ⟨⟩
      exact .unlistedTree _ _ mem

omit [LawfulMonad m] in
/-- Every file that could not be read is one of those to read. -/
theorem gives_failures (paths : List Path) :
    Gives (fun _ : σ => True) (fun f => ∀ failure ∈ f.failures, failure.1 ∈ paths)
      (FilterFiles.load paths : m _) := by
  refine .foldlM (fun f p mem known => ?_) nofun
  refine .bind (.any _) fun result _ => .pure ?_
  cases result with
  | ok bytes => exact known
  | error e =>
    intro failure listed
    rcases List.mem_append.mp listed with old | new
    · exact known failure old
    · rw [List.mem_singleton.mp new]
      exact mem

theorem tells_ofUnit (u : BuildUnit) :
    GivesOk (fun _ : σ => True) (fun e => ∀ message ∈ e.2, Tells u message)
      (ofUnit u : ExceptT Cancelled m _) := by
  unfold ofUnit
  split
  · refine .bind (.lift (gives_failures u.filters)) fun files failures => ?_
    have warnings : ∀ message ∈ files.failures.map (unreadFilter u), Tells u message := by
      intro message mem
      obtain ⟨failure, known, rfl⟩ := List.mem_map.mp mem
      exact .unreadFilter failure (failures failure known)
    refine .bind (.lift (FailsWith.gives (.mapM fun pair mem => failsWith_ofTree _ _ mem))) ?_
    rintro (stop | found) result
    · cases stop with
      | cancelled => exact .throw _
      | failed why =>
        refine .pure ?_
        exact List.forall_mem_append.mpr ⟨warnings, by simpa using result _ rfl why rfl⟩
    · exact .pure warnings
  · rename_i missing _
    refine .pure ?_
    intro message mem
    obtain ⟨p, known, rfl⟩ := List.mem_map.mp mem
    exact .missingOutput p known

/-- What there can be to say about a project. -/
inductive Says (project : Project) (scope : Scope) : Message → Prop
  | unknownUnit (name : String) : name ∈ scope.names → project.unit? name = none →
    Says project scope (unknownUnit name)
  | unit (u : BuildUnit) (message : Message) : u ∈ project.covered scope → Tells u message →
    Says project scope message

theorem says_ofProject (project : Project) (scope : Scope) :
    GivesOk (fun _ : σ => True) (fun d => ∀ message ∈ d.messages, Says project scope message)
      (ofProject project scope : ExceptT Cancelled m _) := by
  refine .bind (Q := List.Forall₂ (fun u e => ∀ message ∈ e.2, Tells u message)
    (project.covered scope)) (.mapM fun u _ => ?_) fun found each => .pure ?_
  · exact .bind (fun _ _ => ⟨trivial, fun _ _ => trivial⟩) fun _ _ => tells_ofUnit u
  · intro message mem
    rcases List.mem_append.mp mem with unknown | known
    · obtain ⟨name, listed, rfl⟩ := List.mem_map.mp unknown
      obtain ⟨named, missing⟩ := List.mem_filter.mp listed
      exact .unknownUnit name named (Option.isNone_iff_eq_none.mp missing)
    · obtain ⟨e, part, told⟩ := List.mem_flatMap.mp known
      obtain ⟨u, covered, all⟩ := mem_of_forall₂ each part
      exact .unit u message covered (all message told)

end Staging.Discovery
