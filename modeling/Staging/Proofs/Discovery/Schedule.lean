import Staging.Proofs.Discovery.Polling

/-!
The schedule of the cancel flag decides whether a discovery is stopped, and nothing else: two
discoveries of the same files that are not stopped find the same and leave the files alike, however
the flag was watched.
-/
namespace Staging.Polls

section
variable {m : Type → Type} {σ α β ε ε' : Type} [Monad m] [Stateful m σ]

/-- The program does the same over every schedule. -/
def Blind (x : StateT Polls m α) : Prop :=
  ∀ (p q : Polls) (st : σ), (exec x (p, st)).1 = (exec x (q, st)).1 ∧
    (exec x (p, st)).2.2 = (exec x (q, st)).2.2

namespace Blind

theorem pure (a : α) : Blind (pure a : StateT Polls m α) := fun p q st => by simp

theorem call (x : m α) : Blind (StateT.lift x : StateT Polls m α) := fun p q st => by
  simp only [exec_lift, and_self]

theorem list [FileSystem m] (dir : Path) : Blind (FileSystem.list dir : StateT Polls m _) :=
  fun p q st => by simp only [exec_list, and_self]

theorem bind {x : StateT Polls m α} {f : α → StateT Polls m β} (h : Blind x)
    (rest : ∀ a, Blind (f a)) : Blind (x >>= f) := by
  intro p q st
  obtain ⟨result, files⟩ := h p q st
  rw [exec_bind, exec_bind]
  rcases first : exec x (p, st) with ⟨a, p', st'⟩
  rcases second : exec x (q, st) with ⟨b, q', st''⟩
  rw [first, second] at result files
  cases result
  cases files
  exact rest a p' q' st'

theorem foldlM {f : β → α → StateT Polls m β} (h : ∀ b a, Blind (f b a)) (xs : List α) (b : β) :
    Blind (xs.foldlM f b) := by
  induction xs generalizing b with
  | nil => exact .pure b
  | cons x xs ih =>
    rw [List.foldlM_cons]
    exact .bind (h b x) ih

end Blind

/-- How two runs from the same files compare: they come to the same, or one of them was stopped. -/
inductive Level (stop : ε → Prop) : Except ε α × Polls × σ → Except ε α × Polls × σ → Prop
  | same (result : Except ε α) (p q : Polls) (st : σ) : Level stop (result, p, st) (result, q, st)
  | left (e : ε) (t : Polls × σ) (other : Except ε α × Polls × σ) : stop e →
      Level stop (.error e, t) other
  | right (e : ε) (t : Polls × σ) (other : Except ε α × Polls × σ) : stop e →
      Level stop other (.error e, t)

/-- A program that the schedule can only stop. -/
def Steady (stop : ε → Prop) (x : ExceptT ε (StateT Polls m) α) : Prop :=
  ∀ (p q : Polls) (st : σ), Level stop (exec x.run (p, st)) (exec x.run (q, st))

namespace Steady

variable {stop : ε → Prop} {stop' : ε' → Prop}

theorem pure (a : α) : Steady stop (pure a : ExceptT ε (StateT Polls m) α) := by
  intro p q st
  simp only [ExceptT.run_pure, exec_pure]
  exact .same _ p q st

theorem throw (e : ε) : Steady stop (throw e : ExceptT ε (StateT Polls m) α) := by
  intro p q st
  simp only [ExceptT.run_throw, exec_pure]
  exact .same _ p q st

theorem bind {x : ExceptT ε (StateT Polls m) α} {f : α → ExceptT ε (StateT Polls m) β}
    (h : Steady stop x) (rest : ∀ a, Steady stop (f a)) : Steady stop (x >>= f) := by
  intro p q st
  have first := h p q st
  rw [exec_run_bind, exec_run_bind]
  generalize exec x.run (p, st) = r, exec x.run (q, st) = r' at first
  cases first with
  | same result p' q' st' =>
    cases result with
    | error e => exact .same _ p' q' st'
    | ok a => exact rest a p' q' st'
  | left e t _ stopped => exact .left e t _ stopped
  | right e t _ stopped => exact .right e t _ stopped

variable [LawfulMonad m]

theorem lift {x : StateT Polls m α} (h : Blind x) :
    Steady stop (liftM x : ExceptT ε (StateT Polls m) α) := by
  intro p q st
  obtain ⟨result, files⟩ := h p q st
  rw [exec_run_lift, exec_run_lift]
  rcases first : exec x (p, st) with ⟨a, p', st'⟩
  rcases second : exec x (q, st) with ⟨b, q', st''⟩
  rw [first, second] at result files
  cases result
  cases files
  exact .same _ p' q' st'

/-- A program goes on from the result of another, which stopped it if it stopped itself. -/
theorem handle {x : ExceptT ε (StateT Polls m) α}
    {f : Except ε α → ExceptT ε' (StateT Polls m) β} (h : Steady stop x)
    (rest : ∀ r, Steady stop' (f r))
    (stopped : ∀ e, stop e → ∃ e', stop' e' ∧ f (.error e) = MonadExcept.throw e') :
    Steady stop' (liftM x.run >>= f) := by
  intro p q st
  have first := h p q st
  rw [exec_run_bind, exec_run_bind, exec_run_lift, exec_run_lift]
  generalize exec x.run (p, st) = r, exec x.run (q, st) = r' at first
  cases first with
  | same result p' q' st' => exact rest result p' q' st'
  | left e t _ told =>
    obtain ⟨e', told', same⟩ := stopped e told
    simp only [same, ExceptT.run_throw, exec_pure]
    exact .left e' t _ told'
  | right e t _ told =>
    obtain ⟨e', told', same⟩ := stopped e told
    simp only [same, ExceptT.run_throw, exec_pure]
    exact .right e' t _ told'

theorem adapt (wrap : ε → ε') {x : ExceptT ε (StateT Polls m) α} (h : Steady stop x)
    (told : ∀ e, stop e → stop' (wrap e)) : Steady stop' (x.adapt wrap) := by
  intro p q st
  have first := h p q st
  rw [ExceptT.run_adapt, exec_map, exec_map]
  generalize exec x.run (p, st) = r, exec x.run (q, st) = r' at first
  cases first with
  | same result p' q' st' => exact .same _ p' q' st'
  | left e t _ stopped => exact .left (wrap e) t _ (told e stopped)
  | right e t _ stopped => exact .right (wrap e) t _ (told e stopped)

theorem mapM {f : β → ExceptT ε (StateT Polls m) α} {xs : List β}
    (h : ∀ x ∈ xs, Steady stop (f x)) : Steady stop (xs.mapM f) := by
  induction xs with
  | nil => exact .pure []
  | cons x xs ih =>
    rw [List.mapM_cons]
    refine .bind (h x List.mem_cons_self) fun y => ?_
    exact .bind (ih fun z mem => h z (List.mem_cons_of_mem x mem)) fun ys => .pure _

/-- The only thing that a poll can do is to stop. -/
theorem poll [FileSystem m] {e : ε} (told : stop e) :
    Steady stop (do if ← (FileSystem.isCancelled : StateT Polls m Bool) then MonadExcept.throw e :
      ExceptT ε (StateT Polls m) Unit) := by
  intro p q st
  simp only [exec_run_bind, exec_run_lift, exec_isCancelled]
  cases p.raised p.made with
  | true =>
    simp only [if_true, ExceptT.run_throw, exec_pure]
    exact .left e _ _ told
  | false =>
    cases q.raised q.made with
    | true =>
      simp only [if_true, ExceptT.run_throw, exec_pure]
      exact .right e _ _ told
    | false =>
      simp only [Bool.false_eq_true, if_false, ExceptT.run_pure, exec_pure]
      exact .same _ _ _ st

end Steady
end

variable {m : Type → Type} {σ : Type} [Monad m] [LawfulMonad m] [Stateful m σ] [FileSystem m]

section
open Candidate

variable {spec : TreeSpec}

omit [LawfulMonad m] in
theorem blind_visitFile (p : Path) : Blind (visitFile spec p : StateT Polls m _) := by
  unfold visitFile
  split
  · exact .pure _
  · split
    · exact .bind (.call _) fun time => .pure _
    · exact .pure _

theorem steady_visit {descend : Path → ExceptT WalkStop (StateT Polls m) (List Candidate)}
    {p : Path} (deeper : Steady (· = .cancelled) (descend p)) :
    Steady (· = .cancelled) (visit spec descend p) := by
  refine .bind (.lift (.call _)) fun isDir => ?_
  split
  · exact deeper
  · refine .bind (.lift (.call _)) fun isFile => ?_
    split
    · exact .bind (.poll rfl) fun _ => .lift (blind_visitFile p)
    · exact .pure _

theorem steady_walk (levels : Nat) (dir : Path) :
    Steady (· = .cancelled) (walk spec levels dir : ExceptT WalkStop (StateT Polls m) _) := by
  induction levels generalizing dir with
  | zero => exact .throw _
  | succ levels ih =>
    refine .bind (.poll rfl) fun _ => .bind (.lift (.list dir)) fun listing => ?_
    cases listing with
    | error e => exact .throw _
    | ok entries => exact .bind (.mapM fun p _ => steady_visit (ih p)) fun found => .pure _

theorem steady_collect :
    Steady (· = .cancelled) (collect spec : ExceptT WalkStop (StateT Polls m) _) := by
  refine .bind (.lift (.call _)) fun isDir => ?_
  split
  · exact .bind (.lift (.call _)) fun depth => steady_walk _ _
  · exact .pure _

end

open Discovery

theorem steady_ofTree (u : BuildUnit) (properties : PropertySet) (fingerprint : UInt64)
    (pair : Path × ResourceTree) :
    Steady (· = .cancelled)
      (ofTree u properties fingerprint pair : ExceptT UnitStop (StateT Polls m) _) := by
  obtain ⟨destination, tree⟩ := pair
  unfold ofTree
  simp only
  split
  · exact .throw _
  · refine steady_collect.adapt _ ?_
    rintro _ rfl
    rfl

omit [LawfulMonad m] in
theorem blind_load (paths : List Path) : Blind (FilterFiles.load paths : StateT Polls m _) :=
  .foldlM (fun _ _ => .bind (.call _) fun _ => .pure _) paths _

theorem steady_ofUnit (u : BuildUnit) :
    Steady (fun _ => True) (ofUnit u : ExceptT Cancelled (StateT Polls m) _) := by
  unfold ofUnit
  split
  · refine .bind (.lift (blind_load u.filters)) fun files => ?_
    refine .handle (.mapM fun pair _ => steady_ofTree u _ _ pair) (fun r => ?_) ?_
    · rcases r with (_ | why) | found
      · exact .throw _
      · exact .pure _
      · exact .pure _
    · rintro _ rfl
      exact ⟨{}, trivial, rfl⟩
  · exact .pure _

theorem steady_ofProject (project : Project) (scope : Scope) :
    Steady (fun _ => True)
      (ofProject project scope : ExceptT Cancelled (StateT Polls m) _) :=
  .bind (.mapM fun u _ => .bind (.poll trivial) fun _ => steady_ofUnit u) fun _ => .pure _

/-- Two discoveries of the same files that come to an end find the same. -/
theorem discovered_alike {project : Project} {scope : Scope} {p q : Polls} {st : σ}
    {d d' : Discovery} {found found' : Polls × σ}
    (first : exec (ofProject project scope : ExceptT Cancelled (StateT Polls m) _).run (p, st) =
      (.ok d, found))
    (second : exec (ofProject project scope : ExceptT Cancelled (StateT Polls m) _).run (q, st) =
      (.ok d', found')) : d' = d ∧ found'.2 = found.2 := by
  have level := steady_ofProject (m := m) project scope p q st
  rw [first, second] at level
  cases level
  exact ⟨rfl, rfl⟩

end Staging.Polls
