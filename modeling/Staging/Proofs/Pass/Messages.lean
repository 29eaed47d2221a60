import Staging.Proofs.Discovery.Messages
import Staging.Proofs.Memory.Steps
import Staging.Proofs.Pass.Run
import Staging.Proofs.ProjectFile.Checking

/-!
What a pass has to say, whatever the file system answers, and what it never says of a project file
that was accepted: that a pattern is bad or that a charset is unsupported.
-/
namespace Staging.Pass

variable {m : Type → Type} {σ τ : Type} [Monad m] [LawfulMonad m] [Stateful m σ] [FileSystem m]

/-- The charset that an item is refused for, if it is, is the one that its source is looked up
under. -/
def Refuses (s : Stager τ) (item : Candidate) (e : ItemError) : Prop :=
  ∀ name, e = .unsupportedCharset name → Charset.ofName (s.charsetFor item.source) = .error name

/-- What there can be to say about a pass. -/
inductive Says (s : Stager τ) (project : Project) (scope : Scope) : Message → Prop
  | discovered {message : Message} : Discovery.Says project scope message →
    Says s project scope message
  | undeleted (target : Path) (e : FsError) : Says s project scope (undeleted target e)
  | unprocessed (item : Candidate) (e : ItemError) : Refuses s item e →
    Says s project scope (unprocessed item e)
  | forgotten (unit : String) : Says s project scope (forgotten unit)
  | unsaved (p : Path) (e : Ledger.SaveError) : Says s project scope (unsaved p e)

omit [FileSystem m] in
theorem failsWith_calling {α : Type} {P : ItemError → Prop} (call : m (Except FsError α))
    {wrap : FsError → ItemError} (h : ∀ e, P (wrap e)) :
    FailsWith P (calling call wrap : ExceptT ItemError m α) :=
  .adapt fun _ e _ => h e

theorem failsWith_fill (s : Stager τ) (item : Candidate) :
    FailsWith (Refuses s item) (fill s item : ExceptT ItemError m Unit) := by
  unfold fill
  simp only
  split
  · split
    · rename_i name unknown
      refine .throw ?_
      rintro _ ⟨⟩
      exact unknown
    · exact .bind (failsWith_calling _ nofun) fun bytes => failsWith_calling _ nofun
  · exact failsWith_calling _ nofun

theorem failsWith_stageItem (s : Stager τ) (item : Candidate) :
    FailsWith (Refuses s item) (stageItem s item : ExceptT ItemError m Unit) := by
  rw [stageItem_eq]
  split
  · exact .bind (failsWith_calling _ nofun) fun _ => failsWith_fill s item
  · exact failsWith_fill s item

omit [LawfulMonad m] in
/-- What every step keeps, a sweep keeps. -/
theorem gives_sweep {α ω : Type} {R : ω → Prop} {step : ω → α → m ω}
    (h : ∀ w x, R w → Gives (fun _ : σ => True) R (step w x)) (xs : List α) {w : ω} (start : R w) :
    Gives (fun _ : σ => True) (fun r => R r.1) (sweep step xs w) := by
  induction xs generalizing w with
  | nil => exact .pure start
  | cons x xs ih =>
    rw [sweep]
    refine .bind (.any _) fun cancelled _ => ?_
    split
    · exact .pure start
    · exact .bind (h w x start) fun w' next => ih next

variable [Tracker τ] (s : Stager τ) (project : Project) (scope : Scope)

/-- All that has been said so far can be said. -/
def Accounted (w : Applied τ) : Prop := ∀ message ∈ w.messages, Says s project scope message

variable {w : Applied τ}

omit [LawfulMonad m] in
theorem gives_deleteStep (told : Accounted s project scope w) (path : String) :
    Gives (fun _ : σ => True) (Accounted s project scope) (deleteStep w path : m _) := by
  unfold deleteStep
  refine .bind (.any _) fun present _ => ?_
  split
  · refine .bind (.any _) fun removed _ => ?_
    split
    · exact .pure told
    · refine .pure (List.forall_mem_append.mpr ⟨told, ?_⟩)
      exact List.forall_mem_singleton.mpr (.undeleted _ _)
  · exact .pure told

theorem gives_stageStep (told : Accounted s project scope w) (item : Candidate) :
    Gives (fun _ : σ => True) (Accounted s project scope) (stageStep s w item : m _) := by
  unfold stageStep
  refine .bind (.any _) fun current _ => ?_
  split
  · exact .pure told
  · refine .bind (failsWith_stageItem s item).gives fun result failure => ?_
    split
    · exact .pure told
    · refine .pure (List.forall_mem_append.mpr ⟨told, ?_⟩)
      exact List.forall_mem_singleton.mpr (.unprocessed item _ (failure _ rfl))

theorem gives_apply (plan : Plan) :
    Gives (fun _ : σ => True) (fun r => Accounted s project scope r.1) (apply s plan : m _) := by
  have start : Accounted s project scope { tracker := s.tracker } := nofun
  refine .bind (gives_sweep (fun w path told => gives_deleteStep s project scope told path)
    plan.deletions start) fun result told => ?_
  obtain ⟨w, stopped⟩ := result
  simp only
  split
  · exact .pure told
  · exact gives_sweep (fun w item told => gives_stageStep s project scope told item)
      plan.candidates told

/-- Every message of a pass is one of these. -/
theorem says_run :
    Gives (fun _ : σ => True) (fun r => ∀ message ∈ r.1.messages, Says s project scope message)
      (run s project scope : m _) := by
  unfold run
  refine .bind (Discovery.says_ofProject project scope) fun found told => ?_
  split
  · exact .pure nofun
  · rename_i discovery
    refine .bind (gives_apply s project scope _) fun result applied => ?_
    obtain ⟨w, stopped⟩ := result
    simp only
    split
    · exact .pure nofun
    · unfold finish
      refine .bind (.any _) fun saved _ => .pure ?_
      simp only [List.forall_mem_append, List.forall_mem_map]
      refine ⟨⟨⟨?_, applied⟩, fun unit _ => .forgotten unit⟩, ?_⟩
      · intro message mem
        exact .discovered (told discovery rfl message mem)
      · cases saved with
        | ok => exact nofun
        | error e => exact List.forall_mem_singleton.mpr (.unsaved _ e)

/-! Texts -/

/-- The text begins with these characters. -/
def Begins (start text : String) : Prop := start.toList <+: text.toList

namespace Begins

variable {a b x y : String}

theorem refl (a : String) : Begins a a := List.prefix_refl a.toList

theorem append (h : Begins a x) (y : String) : Begins a (x ++ y) := by
  rw [Begins, String.toList_append]
  exact h.trans (List.prefix_append _ _)

/-- Texts that begin differently are different. -/
theorem ne (h : Begins a x) (h' : Begins b y)
    (apart : ¬a.toList <+: b.toList ∧ ¬b.toList <+: a.toList) : x ≠ y := by
  rintro rfl
  exact (List.prefix_or_prefix_of_prefix h h').elim apart.1 apart.2

end Begins

/-- How a text begins that says what was being done to a disk. -/
def actionWords : List String :=
  ["reading file ", "creating file ", "copying ", "removing file ", "renaming ", "creating dir ",
    "reading modification time of ", "reading dir "]

theorem begins_action (action : Action) :
    ∃ start ∈ actionWords, Begins start action.message := by
  unfold actionWords
  cases action with
  | readingFile p => exact ⟨"reading file ", by simp, (Begins.refl _).append _⟩
  | creatingFile p => exact ⟨"creating file ", by simp, (Begins.refl _).append _⟩
  | copying source target =>
    exact ⟨"copying ", by simp, (((Begins.refl _).append _).append _).append _⟩
  | removingFile p => exact ⟨"removing file ", by simp, (Begins.refl _).append _⟩
  | moving source target =>
    exact ⟨"renaming ", by simp, (((Begins.refl _).append _).append _).append _⟩
  | creatingDir p => exact ⟨"creating dir ", by simp, (Begins.refl _).append _⟩
  | readingTime p => exact ⟨"reading modification time of ", by simp, (Begins.refl _).append _⟩
  | readingDir p => exact ⟨"reading dir ", by simp, (Begins.refl _).append _⟩

/-- No failure of the files reads like an unsupported charset. -/
theorem message_ne_unsupported (e : FsError) (name : String) :
    e.message ≠ Charset.unsupportedMessage name := by
  have unsupported := (Begins.refl "unsupported charset: ").append name
  have other : ∀ start, Begins start e.message →
      (¬start.toList <+: "unsupported charset: ".toList ∧
        ¬"unsupported charset: ".toList <+: start.toList) →
      e.message ≠ Charset.unsupportedMessage name :=
    fun start begins apart => begins.ne unsupported apart
  cases e with
  | denied p => exact other "Permission denied: " ((Begins.refl _).append _) (by decide +kernel)
  | isDirectory p => exact other "Is a directory: " ((Begins.refl _).append _) (by decide +kernel)
  | notFound p => exact other "File not found: " ((Begins.refl _).append _) (by decide +kernel)
  | notDirectory p => exact other "Not a directory: " ((Begins.refl _).append _) (by decide +kernel)
  | notListable p =>
    exact other "Not a directory or not found: " ((Begins.refl _).append _) (by decide +kernel)
  | movesDirectory p =>
    exact other "Renaming directories is not supported: " ((Begins.refl _).append _)
      (by decide +kernel)
  | injected call p =>
    exact other "injected " ((((Begins.refl _).append _).append _).append _) (by decide +kernel)
  | system action fault =>
    have apart : ∀ start ∈ actionWords, ¬start.toList <+: "unsupported charset: ".toList ∧
        ¬"unsupported charset: ".toList <+: start.toList := by
      decide +kernel
    obtain ⟨start, known, begins⟩ := begins_action action
    exact other start ((begins.append _).append _) (apart start known)

/-- How a text begins that says that a pattern is bad. -/
def patternWords : List String :=
  ["Invalid pattern ", "error parsing glob '", "error parsing pattern "]

theorem begins_fault (fault : Glob.Fault) : ∃ start ∈ patternWords, Begins start fault.message := by
  unfold patternWords
  cases fault with
  | malformed glob fault =>
    exact ⟨"error parsing glob '", by simp, (((Begins.refl _).append _).append _).append _⟩
  | deepExpression expression =>
    exact ⟨"error parsing glob '", by simp, ((Begins.refl _).append _).append _⟩
  | deepPattern place => exact ⟨"error parsing pattern ", by simp, (Begins.refl _).append _⟩

theorem begins_patternError (e : PatternError) :
    ∃ start ∈ patternWords, Begins start e.message := by
  cases e with
  | malformed pattern fault =>
    refine ⟨"Invalid pattern ", by simp [patternWords], ?_⟩
    exact (((Begins.refl _).append _).append _).append _
  | ungathered fault => exact begins_fault fault

/-- The message says neither that a pattern is bad nor that a charset is unsupported. -/
structure Harmless (message : Message) : Prop where
  pattern : ∀ e : PatternError, message.text ≠ e.message
  charset : ∀ item name, message.text ≠ (unprocessed item (.unsupportedCharset name)).text

theorem ne_patternError {start text : String} (begins : Begins start text)
    (apart : ∀ other ∈ patternWords,
      ¬start.toList <+: other.toList ∧ ¬other.toList <+: start.toList) (e : PatternError) :
    text ≠ e.message := by
  obtain ⟨other, known, begins'⟩ := begins_patternError e
  exact begins.ne begins' (apart other known)

/-- Whatever begins in another way is harmless. -/
theorem harmless_of_begins {message : Message} {start : String}
    (begins : Begins start message.text)
    (apart : ∀ other ∈ "cannot process resource file: " :: patternWords,
      ¬start.toList <+: other.toList ∧ ¬other.toList <+: start.toList) : Harmless message where
  pattern := ne_patternError begins fun other known => apart other (List.mem_cons_of_mem _ known)
  charset _ _ :=
    begins.ne ((Begins.refl "cannot process resource file: ").append _)
      (apart _ List.mem_cons_self)

theorem harmless_unprocessed {item : Candidate} {e : ItemError}
    (known : ∀ name, e ≠ .unsupportedCharset name) : Harmless (unprocessed item e) where
  pattern := ne_patternError ((Begins.refl "cannot process resource file: ").append e.message)
    (by decide +kernel)
  charset _ name same := by
    have message : e.message = Charset.unsupportedMessage name :=
      (String.append_right_inj _).mp same
    cases e with
    | call e => exact message_ne_unsupported e name message
    | unsupportedCharset plain => exact known plain rfl
    | writing output e =>
      exact Begins.ne ((((Begins.refl "writing filtered output ").append _).append _).append _)
        ((Begins.refl "unsupported charset: ").append _) (by decide +kernel) message

omit [Tracker τ] in
/-- Where every pattern is read and every charset known, all messages are harmless. -/
theorem harmless_of_says {message : Message} (said : Says s project scope message)
    (patterns : ∀ u ∈ project.units, ∀ pair ∈ Discovery.treesOf u,
      ∃ selection, Selection.compile pair.2.includes pair.2.excludes = .ok selection)
    (charsets : ∀ source, ∃ charset, Charset.ofName (s.charsetFor source) = .ok charset) :
    Harmless message := by
  cases said with
  | discovered found =>
    cases found with
    | unknownUnit name =>
      exact harmless_of_begins ((Begins.refl "Unit not found: ").append _) (by decide +kernel)
    | unit u _ covered told =>
      cases told with
      | missingOutput p =>
        have begins := (Begins.refl "output directory is not specified for ").append p.name
        exact harmless_of_begins (((begins.append _).append _).append _) (by decide +kernel)
      | unreadFilter failure =>
        exact harmless_of_begins ((Begins.refl "cannot read the filter: ").append _)
          (by decide +kernel)
      | badPattern pair e declared refused =>
        obtain ⟨selection, compiled⟩ := patterns u (Project.mem_covered.mp covered).1 pair declared
        rw [refused] at compiled
        cases compiled
      | unlistedTree pair why =>
        exact harmless_of_begins ((Begins.refl "cannot list resources: ").append _)
          (by decide +kernel)
  | undeleted target e =>
    exact harmless_of_begins ((Begins.refl "cannot delete obsolete output: ").append _)
      (by decide +kernel)
  | unprocessed item e refused =>
    refine harmless_unprocessed fun name same => ?_
    obtain ⟨charset, found⟩ := charsets item.source
    rw [refused name same] at found
    cases found
  | forgotten unit =>
    exact harmless_of_begins (((Begins.refl "forgot outputs of removed unit '").append _).append _)
      (by decide +kernel)
  | unsaved p e =>
    exact harmless_of_begins ((Begins.refl "cannot save output cache: ").append _)
      (by decide +kernel)

/-- A pass over the project of an accepted file, with the charsets of that file, says of no pattern
that it is bad and of no charset that it is unsupported: all patterns are read, and no item fails
for its charset. -/
theorem harmless_of_checked {f : ProjectFile} (accepted : f.check = .ok ()) (root : Path)
    (scope : Scope) (s : Stager τ) (st : σ) :
    let s := { s with charsetFor := f.encodings.forSource }
    let report := (exec (run s (f.toProject root) scope : m _) st).1.1
    (∀ message ∈ report.messages, Harmless message) ∧
      (∀ u ∈ (f.toProject root).units, ∀ pair ∈ Discovery.treesOf u,
        ∃ selection, Selection.compile pair.2.includes pair.2.excludes = .ok selection) ∧
      ∀ item st' name, (exec (stageItem s item : ExceptT ItemError m Unit).run st').1 ≠
        .error (.unsupportedCharset name) := by
  intro s report
  have sound := (ProjectFile.check_eq_ok_iff f).mp accepted
  have patterns : ∀ u ∈ (f.toProject root).units, ∀ pair ∈ Discovery.treesOf u,
      ∃ selection, Selection.compile pair.2.includes pair.2.excludes = .ok selection :=
    fun u unit pair mem => sound.compile_of_treesOf unit mem
  refine ⟨fun message told => ?_, patterns, fun item st' name failed => ?_⟩
  · have said := (says_run s (f.toProject root) scope st trivial).2 message told
    exact harmless_of_says s (f.toProject root) scope said patterns sound.forSource
  · have refused := failsWith_stageItem s item st' _ failed name rfl
    obtain ⟨charset, found⟩ := sound.forSource item.source
    rw [show Charset.ofName (f.encodings.forSource item.source) = .error name from refused] at found
    cases found

/-- A file with a filtered tree, whose charset is spelled with accidents. -/
def Sample.declared : ProjectFile where
  encodings := { general := " UTF_8 " }
  units := .ofList [("app", {
    output := some "out"
    resources := [{ directory := "res", filtered := true, includes := ["**/*.txt"] }] })]

/-- A stager with a charset that does not exist. -/
def Sample.unchecked : Stager NoTracking where
  ledgerPath := ⟨"ledger.bin"⟩
  ledger := .empty .sensitive
  filter := .placeholders
  charsetFor _ := "ebcdic"
  tracker := ⟨⟩

/-- The pass stages the filtered file, and all there is to say is that no unit has the other name. -/
theorem harmless_of_checked_sample :
    Sample.declared.check = .ok () ∧
      let report := (exec (run
        { Sample.unchecked with charsetFor := Sample.declared.encodings.forSource }
        (Sample.declared.toProject ⟨"root"⟩) (.only ["app", "other"]) : StateM Memory _)
        (Memory.empty.addFile ⟨"root/res/f.txt"⟩ [120])).1.1
      report.processed.map (·.output) = ["root/out/f.txt"] ∧
        report.messages = [Discovery.unknownUnit "other"] ∧
        ∀ message ∈ report.messages, Harmless message := by
  have accepted : Sample.declared.check = .ok () := by decide +kernel
  refine ⟨accepted, by decide +kernel, by decide +kernel, ?_⟩
  exact (harmless_of_checked accepted ⟨"root"⟩ (.only ["app", "other"]) Sample.unchecked _).1

end Staging.Pass
