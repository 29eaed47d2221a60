import Staging.FileSystem.History
import Staging.Proofs.Pass.Deletion
import Staging.Proofs.Pass.Repetition

/-!
Where a pass can stop. A pass over a tree with a history does what it does over the tree alone, and
the trees that it puts on record are known: some deletions are done, or all deletions and some
candidates, perhaps with the directories of the next one, or the scratch file of the ledger is
written.
-/
namespace Staging

namespace History
open Memory Pass

variable {P : Memory → Prop} {st : Memory} {α β ε : Type}

/-- A program does to the tree what another does without a history, with the same result, and every
tree that it puts on record has a property. -/
def Follows (P : Memory → Prop) (st : Memory) (x : StateM Memory α) (y : StateM History α) : Prop :=
  ∀ past, ∃ more, exec y ⟨past, st⟩ = ((exec x st).1, ⟨past ++ more, (exec x st).2⟩) ∧
    ∀ t ∈ more, P t

namespace Follows

theorem pure (a : α) : Follows P st (Pure.pure a) (Pure.pure a) := fun past =>
  ⟨[], by rw [exec_pure, exec_pure, List.append_nil], nofun⟩

theorem bind {x : StateM Memory α} {y : StateM History α} {f : α → StateM Memory β}
    {g : α → StateM History β} (h : Follows P st x y)
    (rest : Follows P (exec x st).2 (f (exec x st).1) (g (exec x st).1)) :
    Follows P st (x >>= f) (y >>= g) := by
  intro past
  obtain ⟨more, run, holds⟩ := h past
  obtain ⟨more', run', holds'⟩ := rest (past ++ more)
  refine ⟨more ++ more', ?_, fun t mem => (List.mem_append.mp mem).elim (holds t) (holds' t)⟩
  rw [exec_bind, run, exec_bind, ← List.append_assoc]
  exact run'

theorem map {x : StateM Memory α} {y : StateM History α} (f : α → β) (h : Follows P st x y) :
    Follows P st (f <$> x) (f <$> y) := by
  rw [map_eq_pure_bind, map_eq_pure_bind]
  exact h.bind (.pure _)

theorem look {call : StateM Memory α} (stays : (exec call st).2 = st) :
    Follows P st call (History.look call) := by
  refine fun _ => ⟨[], ?_, nofun⟩
  rw [List.append_nil, stays]
  rfl

theorem mutate {call : StateM Memory α} (now : P st) : Follows P st call (History.mutate call) :=
  fun _ => ⟨[st], rfl, fun _ mem => List.mem_singleton.mp mem ▸ now⟩

theorem bindRun {x : ExceptT ε (StateM Memory) α} {y : ExceptT ε (StateM History) α}
    {f : α → ExceptT ε (StateM Memory) β} {g : α → ExceptT ε (StateM History) β}
    (h : Follows P st x.run y.run)
    (rest : ∀ a, (exec x.run st).1 = .ok a → Follows P (exec x.run st).2 (f a).run (g a).run) :
    Follows P st (x >>= f).run (y >>= g).run := by
  rw [ExceptT.run_bind, ExceptT.run_bind]
  refine h.bind ?_
  split
  · rename_i a ok
    exact rest a ok
  · exact .pure _

end Follows

variable {τ : Type} {s : Stager τ}

theorem follows_calling {x : StateM Memory (Except FsError α)}
    {y : StateM History (Except FsError α)} (wrap : FsError → ItemError) (h : Follows P st x y) :
    Follows P st (calling x wrap).run (calling y wrap).run :=
  h.map (Except.mapError wrap)

/-- The tree is put on record before the directories are made, and with them before the output is
written. -/
theorem follows_stageItem (item : Candidate) (now : P st)
    (opened : ¬st.Blocked ⟨item.output⟩ → P (st.openedFor ⟨item.output⟩)) :
    Follows P st (stageItem s item : ExceptT ItemError (StateM Memory) Unit).run
      (stageItem s item : ExceptT ItemError (StateM History) Unit).run := by
  have filled : (¬st.Blocked ⟨item.output⟩) → Follows P (st.openedFor ⟨item.output⟩)
      (fill s item : ExceptT ItemError (StateM Memory) Unit).run
      (fill s item : ExceptT ItemError (StateM History) Unit).run := by
    intro free
    unfold fill
    simp only
    split
    · split
      · exact .pure _
      · refine .bindRun (follows_calling _ (.look rfl)) fun bytes _ => ?_
        exact follows_calling _ (.mutate (opened free))
    · exact follows_calling _ (.mutate (opened free))
  rw [stageItem_eq, stageItem_eq]
  cases up : (⟨item.output⟩ : Path).parent with
  | none =>
    have free : ¬st.Blocked ⟨item.output⟩ := by
      rintro ⟨dir, found, -⟩
      rw [up] at found
      cases found
    have same : st.openedFor ⟨item.output⟩ = st := by rw [openedFor, up]
    have filled := filled free
    rwa [same] at filled
  | some dir =>
    refine .bindRun (follows_calling _ (.mutate now)) fun _ done => ?_
    rw [exec_calling] at done ⊢
    rcases exec_createDirs st dir with ⟨file, made⟩ | ⟨free, made⟩
    · rw [made] at done
      cases done
    · rw [made]
      have unblocked : ¬st.Blocked ⟨item.output⟩ := by
        rintro ⟨dir', found, file⟩
        cases up.symm.trans found
        exact free file
      have filled := filled unblocked
      rwa [openedFor, up] at filled

section
variable [Tracker τ]

theorem follows_deleteStep (w : Applied τ) (path : String) (now : P st) :
    Follows P st (deleteStep w path) (deleteStep w path) := by
  refine .bind (.look rfl) ?_
  change Follows P st (if st.isPresent ⟨path⟩ = true then _ else _)
    (if st.isPresent ⟨path⟩ = true then _ else _)
  split
  · refine .bind (.mutate now) ?_
    split
    · exact .pure _
    · exact .pure _
  · exact .pure _

theorem follows_stageStep (w : Applied τ) (item : Candidate) (now : P st)
    (opened : ¬st.Blocked ⟨item.output⟩ → P (st.openedFor ⟨item.output⟩)) :
    Follows P st (stageStep s w item) (stageStep s w item) := by
  refine .bind (x := isCurrent w item) (y := isCurrent w item) ?_ ?_
  · unfold isCurrent
    split
    · exact .look rfl
    · exact .pure _
  · have stays : (exec (isCurrent w item : StateM Memory _) st).2 = st := by
      unfold isCurrent
      split <;> rfl
    rw [stays]
    split
    · exact .pure _
    · refine .bind (follows_stageItem item now opened) ?_
      split
      · exact .pure _
      · exact .pure _

theorem follows_sweep {ω : Type} {step : ω → α → StateM Memory ω} {step' : ω → α → StateM History ω}
    {xs : List α} {w : ω}
    (each : ∀ done x rest, xs = done ++ x :: rest →
      Follows P (sweepFrom step done w st).2 (step (sweepFrom step done w st).1 x)
        (step' (sweepFrom step done w st).1 x)) :
    Follows P st (sweep step xs w) (sweep step' xs w) := by
  induction xs generalizing w st with
  | nil => exact .pure _
  | cons x xs ih =>
    refine .bind (.look rfl) ?_
    refine .bind (each [] x xs rfl) (ih fun done y rest whole => ?_)
    exact each (x :: done) y rest (congrArg (x :: ·) whole)

theorem follows_save (l : Ledger) (p : Path) (now : P st) (drafted : P (st.drafted l p)) :
    Follows P st (l.save p) (l.save p) := by
  unfold Ledger.save
  rw [drafted_eq] at drafted
  -- The scratch path is a long computation that nothing below looks into.
  generalize Ledger.scratchFor p = scratch, Ledger.encode l.units = bytes at drafted ⊢
  refine .bind (.mutate now) ?_
  rcases exec_write st scratch bytes with ⟨-, written⟩ | ⟨-, written⟩
  · rw [written]
    exact .pure _
  · rw [written]
    refine .bind (.mutate drafted) ?_
    split
    · exact .pure _
    · exact .pure _

theorem follows_apply (plan : Plan)
    (deleting : ∀ done rest, plan.deletions = done ++ rest →
      P (sweepFrom (deleteStep : Applied τ → String → StateM Memory _) done
        { tracker := s.tracker } st).2)
    (staging : ∀ done rest, plan.candidates = done ++ rest → P (stagedUpTo s plan st done).2)
    (opened : ∀ done item rest, plan.candidates = done ++ item :: rest →
      ¬(stagedUpTo s plan st done).2.Blocked ⟨item.output⟩ →
      P ((stagedUpTo s plan st done).2.openedFor ⟨item.output⟩)) :
    Follows P st (apply s plan) (apply s plan) := by
  refine .bind (follows_sweep fun done x rest whole => ?_) ?_
  · exact follows_deleteStep _ x (deleting done (x :: rest) whole)
  · rw [exec_sweep calm]
    simp only [Bool.false_eq_true, if_false]
    refine follows_sweep fun done item rest whole => ?_
    exact follows_stageStep _ item (staging done (item :: rest) whole) (opened done item rest whole)

end

theorem sameInputs (h : History) (u : BuildUnit) :
    SameInputs (StateM History) (StateM Memory) Eq h h.now u where
  filters p _ := by
    refine ⟨_, _, rfl, rfl, ?_⟩
    change SameContent (h.now.read p) (h.now.read p)
    cases h.now.read p with
    | ok bytes => exact rfl
    | error e => exact trivial
  trees pair _ := by
    refine ⟨fun _ => True, fun i j _ => i = j, ⟨fun p _ => ?_, ?_, ?_, ?_⟩, trivial,
      ⟨_, _, rfl, rfl, rfl⟩⟩
    · exact ⟨⟨_, _, rfl, rfl, rfl⟩, ⟨_, _, rfl, rfl, rfl⟩, ⟨_, _, rfl, rfl, rfl⟩,
        ⟨_, _, rfl, rfl, rfl⟩⟩
    · exact fun _ _ _ _ _ _ => trivial
    · rintro i _ _ rfl
      exact Iff.rfl
    · rintro i j _ _ _ same _ _ _ _
      exact Nat.succ.inj same

end History

namespace Pass
open Memory History

variable {τ : Type} [Tracker τ]

/-- The trees that a pass can stop at before it is through. -/
inductive Halted (s : Stager τ) (project : Project) (plan : Plan) (st : Memory) : Memory → Prop
  | deleting (done rest : List String) : plan.deletions = done ++ rest →
    Halted s project plan st (sweepFrom (deleteStep : Applied τ → String → StateM Memory _) done
      { tracker := s.tracker } st).2
  | staging (done rest : List Candidate) : plan.candidates = done ++ rest →
    Halted s project plan st (stagedUpTo s plan st done).2
  | opened (done : List Candidate) (item : Candidate) (rest : List Candidate) :
    plan.candidates = done ++ item :: rest →
    ¬(stagedUpTo s plan st done).2.Blocked ⟨item.output⟩ →
    Halted s project plan st ((stagedUpTo s plan st done).2.openedFor ⟨item.output⟩)
  | drafted : Halted s project plan st
    ((stagedUpTo s plan st plan.candidates).2.drafted (renewed s project plan) s.ledgerPath)

/-- A pass over a tree with a history ends with the tree that it makes without one, and has put on
record trees that it can stop at. -/
theorem halted_of_history (s : Stager τ) (project : Project) (scope : Scope) (st : Memory)
    {d : Discovery} (discovered : exec (Discovery.ofProject project scope :
      ExceptT Cancelled (StateM Memory) _).run st = (.ok d, st)) (past : List Memory) :
    ∃ more, (exec (run s project scope : StateM History _) ⟨past, st⟩).2 =
        ⟨past ++ more, (exec (run s project scope : StateM Memory _) st).2⟩ ∧
      ∀ t ∈ more, Halted s project (Plan.ofDiscovery s.ledger d) st t := by
  obtain ⟨d', _, found', found, units⟩ := Discovery.ofProject_alike (m := StateM History)
    (n := StateM Memory) (p := project) (s := ⟨past, st⟩) (t := st) rfl (calm st)
    fun u _ => History.sameInputs ⟨past, st⟩ u
  cases discovered.symm.trans found
  obtain ⟨_, found, same⟩ := exec_run s project scope st
  cases discovered.symm.trans found
  rw [same, exec_finish, applied_eq]
  -- What there is to say about property files may differ, but nothing is done about it.
  have units := Plan.units_congr s.ledger units
  rw [run, exec_bind, found']
  simp only
  generalize Plan.ofDiscovery s.ledger d = plan, Plan.ofDiscovery s.ledger d' = plan' at units ⊢
  have sameApply : (apply s plan' : StateM History _) = apply s plan := by
    rw [apply, apply, Plan.deletions, Plan.deletions, Plan.candidates, Plan.candidates, units]
  obtain ⟨more, ran, holds⟩ := follows_apply (P := Halted s project plan st) (s := s) plan
    .deleting .staging .opened past
  rw [exec_bind, sameApply, ran, exec_apply calm]
  simp only [Bool.false_eq_true, if_false]
  rw [exec_finish, renewed_congr s project units, applied_eq]
  obtain ⟨more', saved, holds'⟩ := follows_save (renewed s project plan) s.ledgerPath
    (Halted.staging plan.candidates [] (List.append_nil _).symm) (Halted.drafted) (past ++ more)
  refine ⟨more ++ more', ?_, fun t mem => (List.mem_append.mp mem).elim (holds t) (holds' t)⟩
  rw [← List.append_assoc]
  exact congrArg Prod.snd saved

end Pass
end Staging
