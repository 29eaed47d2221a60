import Mathlib.Algebra.Ring.Nat
import Staging.FileSystem.Polls
import Staging.Proofs.Discovery.Sources

/-!
Cancelling in the course of a discovery. A program that heeds the flag stops at the first poll that
finds it raised, and stops for no other reason with the error that says so. A discovery polls for
every unit, for every directory that it lists and for every file that it finds, and comes to an end
unless one of its polls finds the flag raised.
-/
namespace Staging

namespace Polls

/-- None of the next polls finds the flag raised. -/
def Calm (p : Polls) (polls : Nat) : Prop := ∀ k < polls, p.raised (p.made + k) = false

/-- The poll after so many others is the first to find the flag raised. -/
structure Alarm (p : Polls) (polls : Nat) : Prop where
  calm : p.Calm polls
  seen : p.raised (p.made + polls) = true

variable {p : Polls} {i j a b : Nat}

@[simp] theorem after_after : (p.after i a).after j b = p.after (i + j) (a + b) := by
  simp only [after, Nat.add_assoc]

theorem Calm.zero : p.Calm 0 := nofun

theorem Calm.add (h : p.Calm i) (h' : (p.after i a).Calm j) : p.Calm (i + j) := by
  intro k bound
  by_cases early : k < i
  · exact h k early
  · have later := h' (k - i) (by omega)
    rwa [after, Nat.add_assoc, Nat.add_sub_cancel' (Nat.le_of_not_lt early)] at later

theorem Calm.alarm (h : p.Calm i) (h' : (p.after i a).Alarm j) : p.Alarm (i + j) where
  calm := h.add h'.calm
  seen := by
    rw [← Nat.add_assoc]
    exact h'.seen

theorem calm_one (h : p.raised p.made = false) : p.Calm 1 := by
  intro k bound
  rwa [Nat.lt_one_iff.mp bound]

theorem alarm_zero (h : p.raised p.made = true) : p.Alarm 0 := ⟨.zero, h⟩

section
variable {m : Type → Type} {σ α : Type} [Monad m] [Stateful m σ]

theorem exec_eq (x : StateT Polls m α) (t : Polls × σ) :
    exec x t =
      ((exec (x t.1) t.2).1.1, (exec (x t.1) t.2).1.2, (exec (x t.1) t.2).2) := rfl

theorem exec_lift (call : m α) (t : Polls × σ) :
    exec (StateT.lift call : StateT Polls m α) t =
      ((exec call t.2).1, t.1, (exec call t.2).2) := by
  rw [exec_eq, StateT.lift, exec_bind, exec_pure]

theorem exec_isCancelled [FileSystem m] (t : Polls × σ) :
    exec (FileSystem.isCancelled : StateT Polls m Bool) t =
      (t.1.raised t.1.made, t.1.after 1, t.2) := by
  have polled : (FileSystem.isCancelled : StateT Polls m Bool) t.1 =
      pure (t.1.raised t.1.made, t.1.after 1) := rfl
  rw [exec_eq, polled, exec_pure]

theorem exec_list [FileSystem m] (p : Path) (t : Polls × σ) :
    exec (FileSystem.list p : StateT Polls m _) t =
      ((exec (FileSystem.list p : m _) t.2).1, t.1.after 0 1,
        (exec (FileSystem.list p : m _) t.2).2) := by
  have listed : (FileSystem.list p : StateT Polls m _) t.1 =
      (FileSystem.list p : m _) >>= fun entries => pure (entries, t.1.after 0 1) := rfl
  rw [exec_eq, listed, exec_bind, exec_pure]

end

/-! Programs that stop when they are told to -/

section
variable {m : Type → Type} {σ α β ε ε' : Type} [Monad m] [Stateful m σ]

/-- The program neither polls nor lists. -/
def Still (x : StateT Polls m α) : Prop := ∀ t : Polls × σ, (exec x t).2.1 = t.1

namespace Still

theorem pure (a : α) : Still (pure a : StateT Polls m α) := fun t => by rw [exec_pure]

theorem call (x : m α) : Still (StateT.lift x : StateT Polls m α) := fun t => by rw [exec_lift]

theorem bind {x : StateT Polls m α} {f : α → StateT Polls m β} (h : Still x)
    (rest : ∀ a, Still (f a)) : Still (x >>= f) := fun t => by rw [exec_bind, rest, h]

theorem foldlM {f : β → α → StateT Polls m β} (h : ∀ b a, Still (f b a)) (xs : List α) (b : β) :
    Still (xs.foldlM f b) := by
  induction xs generalizing b with
  | nil => exact .pure b
  | cons x xs ih =>
    rw [List.foldlM_cons]
    exact .bind (h b x) ih

end Still

/-- What became of a program with so many polls and listings: the polls were all calm, and with a
credit they pay for the listings and for what the result costs; or the last one found the flag
raised, and the program stopped. -/
inductive Heeded (stop : ε → Prop) (credit : Nat) (cost : α → Nat) (p : Polls) :
    Except ε α → Nat → Nat → Prop
  | ok (a : α) (polls listings : Nat) : cost a + listings ≤ polls + credit → p.Calm polls →
      Heeded stop credit cost p (.ok a) polls listings
  | failed (e : ε) (polls listings : Nat) : ¬stop e → listings ≤ polls + credit → p.Calm polls →
      Heeded stop credit cost p (.error e) polls listings
  | stopped (e : ε) (polls listings : Nat) : stop e → p.Alarm polls →
      Heeded stop credit cost p (.error e) (polls + 1) listings

/-- A program stops at the first poll that finds the flag raised, and only then. -/
def Heeds (stop : ε → Prop) (credit : Nat) (cost : α → Nat) (x : ExceptT ε (StateT Polls m) α) :
    Prop :=
  ∀ t : Polls × σ, ∃ polls listings, (exec x.run t).2.1 = t.1.after polls listings ∧
    Heeded stop credit cost t.1 (exec x.run t).1 polls listings

/-- After calm polls that left a credit. -/
theorem Heeded.later {stop : ε → Prop} {cost : α → Nat} {p : Polls} {r : Except ε α}
    {credit left before earlier polls listings : Nat} (calm : p.Calm before)
    (paid : left + earlier ≤ before + credit)
    (h : Heeded stop left cost (p.after before earlier) r polls listings) :
    Heeded stop credit cost p r (before + polls) (earlier + listings) := by
  cases h with
  | ok a _ _ paid' quiet => exact .ok a _ _ (by omega) (calm.add quiet)
  | failed e _ _ other paid' quiet => exact .failed e _ _ other (by omega) (calm.add quiet)
  | stopped e polls _ told alarm =>
    exact .stopped e (before + polls) _ told (calm.alarm alarm)

namespace Heeds

variable {stop : ε → Prop} {stop' : ε' → Prop} {cost : α → Nat} {cost' : β → Nat} {credit : Nat}

theorem pure {a : α} (paid : cost a ≤ credit) :
    Heeds stop credit cost (pure a : ExceptT ε (StateT Polls m) α) := by
  intro t
  rw [ExceptT.run_pure, exec_pure]
  exact ⟨0, 0, rfl, .ok a 0 0 (by omega) .zero⟩

theorem throw {e : ε} (other : ¬stop e) :
    Heeds stop credit cost (throw e : ExceptT ε (StateT Polls m) α) := by
  intro t
  rw [ExceptT.run_throw, exec_pure]
  exact ⟨0, 0, rfl, .failed e 0 0 other (Nat.zero_le _) .zero⟩

/-- A program goes on from the result of another, which stopped it if it stopped itself. -/
theorem handle [LawfulMonad m] {x : ExceptT ε (StateT Polls m) α}
    {f : Except ε α → ExceptT ε' (StateT Polls m) β} (h : Heeds stop credit cost x)
    (ok : ∀ a, Heeds stop' (cost a) cost' (f (.ok a)))
    (failed : ∀ e, ¬stop e → Heeds stop' 0 cost' (f (.error e)))
    (stopped : ∀ e, stop e → ∃ e', stop' e' ∧ f (.error e) = MonadExcept.throw e') :
    Heeds stop' credit cost' (liftM x.run >>= f) := by
  intro t
  obtain ⟨polls, listings, counted, heeded⟩ := h t
  rw [exec_run_bind, exec_run_lift]
  generalize exec x.run t = r at counted heeded
  obtain ⟨result, p, st⟩ := r
  simp only at counted heeded ⊢
  subst counted
  cases heeded with
  | ok a _ _ paid calm =>
    obtain ⟨more, more', counted, heeded⟩ := ok a (t.1.after polls listings, st)
    exact ⟨polls + more, listings + more', counted.trans after_after, heeded.later calm paid⟩
  | failed e _ _ other paid calm =>
    obtain ⟨more, more', counted, heeded⟩ := failed e other (t.1.after polls listings, st)
    exact ⟨polls + more, listings + more', counted.trans after_after,
      heeded.later calm (by omega)⟩
  | stopped e polls _ told alarm =>
    obtain ⟨e', told', same⟩ := stopped e told
    rw [same, ExceptT.run_throw, exec_pure]
    exact ⟨polls + 1, listings, rfl, .stopped e' polls listings told' alarm⟩

/-- What the first program costs is the credit of the rest. -/
theorem bind [LawfulMonad m] {x : ExceptT ε (StateT Polls m) α}
    {f : α → ExceptT ε (StateT Polls m) β} (h : Heeds stop credit cost x)
    (rest : ∀ a, Heeds stop (cost a) cost' (f a)) : Heeds stop credit cost' (x >>= f) := by
  intro t
  obtain ⟨polls, listings, counted, heeded⟩ := h t
  rw [exec_run_bind]
  generalize exec x.run t = r at counted heeded
  obtain ⟨result, p, st⟩ := r
  simp only at counted heeded
  subst counted
  cases heeded with
  | ok a _ _ paid calm =>
    obtain ⟨more, more', counted, heeded⟩ := rest a (t.1.after polls listings, st)
    exact ⟨polls + more, listings + more', counted.trans after_after, heeded.later calm paid⟩
  | failed e _ _ other paid calm =>
    exact ⟨polls, listings, rfl, .failed e polls listings other paid calm⟩
  | stopped e polls _ told alarm =>
    exact ⟨polls + 1, listings, rfl, .stopped e polls listings told alarm⟩

theorem lift [LawfulMonad m] {x : StateT Polls m α} (still : Still x)
    (paid : ∀ t : Polls × σ, cost (exec x t).1 ≤ credit) :
    Heeds stop credit cost (liftM x : ExceptT ε (StateT Polls m) α) := by
  intro t
  rw [exec_run_lift]
  exact ⟨0, 0, still t, .ok _ 0 0 (by have := paid t; omega) .zero⟩

/-- A call that neither polls nor lists, and then the rest. -/
theorem ask [LawfulMonad m] {x : StateT Polls m β} {f : β → ExceptT ε (StateT Polls m) α}
    (still : Still x) (rest : ∀ b, Heeds stop credit cost (f b)) :
    Heeds stop credit cost (liftM x >>= f) := by
  have asked : Heeds stop credit (fun _ => credit) (liftM x : ExceptT ε (StateT Polls m) β) :=
    .lift still fun _ => Nat.le_refl credit
  exact asked.bind rest

/-- More credit pays for more. -/
theorem add (more : Nat) {x : ExceptT ε (StateT Polls m) α} (h : Heeds stop credit cost x) :
    Heeds stop (more + credit) (fun a => more + cost a) x := by
  intro t
  obtain ⟨polls, listings, counted, heeded⟩ := h t
  refine ⟨polls, listings, counted, ?_⟩
  generalize (exec x.run t).1 = r at heeded
  cases heeded with
  | ok a _ _ paid calm => exact .ok a polls listings (by omega) calm
  | failed e _ _ other paid calm => exact .failed e polls listings other (by omega) calm
  | stopped e polls _ told alarm => exact .stopped e polls listings told alarm

theorem adapt [LawfulMonad m] (wrap : ε → ε') {x : ExceptT ε (StateT Polls m) α}
    (h : Heeds stop credit cost x) (told : ∀ e, stop' (wrap e) ↔ stop e) :
    Heeds stop' credit cost (x.adapt wrap) := by
  intro t
  obtain ⟨polls, listings, counted, heeded⟩ := h t
  rw [ExceptT.run_adapt, exec_map]
  refine ⟨polls, listings, counted, ?_⟩
  simp only
  generalize (exec x.run t).1 = r at heeded
  cases heeded with
  | ok a _ _ paid calm => exact .ok a polls listings paid calm
  | failed e _ _ other paid calm =>
    exact .failed (wrap e) polls listings (mt (told e).mp other) paid calm
  | stopped e polls _ stopped alarm =>
    exact .stopped (wrap e) polls listings ((told e).mpr stopped) alarm

theorem mapM [LawfulMonad m] {f : β → ExceptT ε (StateT Polls m) α} {xs : List β}
    (h : ∀ x ∈ xs, Heeds stop 0 cost (f x)) :
    Heeds stop credit (fun ys => credit + (ys.map cost).sum) (xs.mapM f) := by
  induction xs generalizing credit with
  | nil => exact .pure (Nat.le_refl _)
  | cons x xs ih =>
    rw [List.mapM_cons]
    refine .bind ((h x List.mem_cons_self).add credit) fun y => ?_
    refine .bind (ih fun z mem => h z (List.mem_cons_of_mem x mem)) fun ys => .pure ?_
    rw [List.map_cons, List.sum_cons]
    omega

end Heeds
end

/-! What the calls below a schedule preserve -/

section
variable {m : Type → Type} {σ α : Type} [Monad m] [Stateful m σ] {inv : σ → Prop}

theorem gives_lift {Q : α → Prop} {call : m α} (h : Gives inv Q call) :
    Gives (fun t => inv t.2) Q (StateT.lift call : StateT Polls m α) := by
  intro t holds
  rw [exec_lift]
  exact h t.2 holds

theorem looks [FileSystem m] (h : Looks m inv) : Looks (StateT Polls m) fun t => inv t.2 where
  isCancelled t holds := by
    rw [exec_isCancelled]
    exact ⟨holds, trivial⟩
  depth := gives_lift h.depth
  isDir p := gives_lift (h.isDir p)
  isFile p := gives_lift (h.isFile p)
  modified p := gives_lift (h.modified p)
  list p t holds := by
    rw [exec_list]
    exact h.list p t.2 holds
  read p := gives_lift (h.read p)

end

/-! The programs of a discovery -/

variable {m : Type → Type} {σ ε : Type} [Monad m] [LawfulMonad m] [Stateful m σ] [FileSystem m]

/-- A program that only polls. -/
theorem heeds_poll {stop : ε → Prop} {e : ε} (told : stop e) :
    Heeds stop 0 (fun _ => 1)
      (do if ← (FileSystem.isCancelled : StateT Polls m Bool) then throw e :
        ExceptT ε (StateT Polls m) Unit) := by
  intro t
  rw [exec_run_bind, exec_run_lift, exec_isCancelled]
  cases seen : t.1.raised t.1.made with
  | true =>
    simp only [if_true]
    rw [ExceptT.run_throw, exec_pure]
    exact ⟨1, 0, rfl, .stopped e 0 0 told (alarm_zero seen)⟩
  | false =>
    simp only [Bool.false_eq_true, if_false]
    rw [ExceptT.run_pure, exec_pure]
    exact ⟨1, 0, rfl, .ok () 1 0 (Nat.le_refl 1) (calm_one seen)⟩

/-- A listing takes what the poll before it has paid. -/
theorem heeds_list {stop : ε → Prop} (p : Path) :
    Heeds stop 1 (fun _ => 0)
      (liftM (FileSystem.list p : StateT Polls m _) : ExceptT ε (StateT Polls m) _) := by
  intro t
  rw [exec_run_lift, exec_list]
  exact ⟨0, 1, rfl, .ok _ 0 1 (Nat.le_refl 1) .zero⟩

section
open Candidate

variable {spec : TreeSpec} {p : Path}

omit [LawfulMonad m] in
theorem length_visitFile (t : Polls × σ) :
    (exec (visitFile spec p : StateT Polls m _) t).1.length ≤ 1 := by
  unfold visitFile
  split
  · rw [exec_pure]
    exact Nat.zero_le 1
  · split
    · rw [exec_bind, exec_pure]
      exact Nat.le_refl 1
    · rw [exec_pure]
      exact Nat.zero_le 1

omit [LawfulMonad m] in
theorem still_visitFile : Still (visitFile spec p : StateT Polls m _) := by
  unfold visitFile
  split
  · exact .pure _
  · split
    · exact .bind (.call _) fun _ => .pure _
    · exact .pure _

theorem heeds_visit {descend : Path → ExceptT WalkStop (StateT Polls m) (List Candidate)}
    (deeper : Heeds (· = .cancelled) 0 List.length (descend p)) :
    Heeds (· = .cancelled) 0 List.length (visit spec descend p) := by
  refine .ask (.call _) fun isDir => ?_
  split
  · exact deeper
  · refine .ask (.call _) fun isFile => ?_
    split
    · exact .bind (heeds_poll rfl) fun _ => .lift still_visitFile length_visitFile
    · exact .pure (Nat.le_refl 0)

theorem heeds_walk (levels : Nat) (dir : Path) :
    Heeds (· = .cancelled) 0 List.length
      (walk spec levels dir : ExceptT WalkStop (StateT Polls m) _) := by
  induction levels generalizing dir with
  | zero => exact .throw nofun
  | succ levels ih =>
    refine .bind (heeds_poll rfl) fun _ => .bind (heeds_list dir) fun listing => ?_
    cases listing with
    | error e => exact .throw nofun
    | ok entries =>
      refine .bind (.mapM fun p _ => heeds_visit (ih p)) fun found => .pure ?_
      rw [List.length_flatten, Nat.zero_add]

theorem heeds_collect :
    Heeds (· = .cancelled) 0 List.length (collect spec : ExceptT WalkStop (StateT Polls m) _) := by
  refine .ask (.call _) fun isDir => ?_
  split
  · exact .ask (.call _) fun depth => heeds_walk _ _
  · exact .pure (Nat.le_refl 0)

end

section
open Discovery

theorem heeds_ofTree (u : BuildUnit) (properties : PropertySet) (fingerprint : UInt64)
    (pair : Path × ResourceTree) :
    Heeds (· = .cancelled) 0 List.length
      (ofTree u properties fingerprint pair : ExceptT UnitStop (StateT Polls m) _) := by
  obtain ⟨destination, tree⟩ := pair
  unfold ofTree
  simp only
  split
  · exact .throw nofun
  · refine heeds_collect.adapt _ fun e => ?_
    cases e <;> simp [UnitStop.ofWalk]

omit [LawfulMonad m] in
theorem still_load (paths : List Path) : Still (FilterFiles.load paths : StateT Polls m _) :=
  .foldlM (fun _ _ => .bind (.call _) fun _ => .pure _) paths _

theorem heeds_ofUnit (u : BuildUnit) :
    Heeds (fun _ => True) 0 (fun e => e.1.candidates.length)
      (ofUnit u : ExceptT Cancelled (StateT Polls m) _) := by
  unfold ofUnit
  split
  · refine .ask (still_load u.filters) fun files => ?_
    refine .handle (.mapM fun pair _ => heeds_ofTree u _ _ pair) (fun found => .pure ?_) ?_ ?_
    · rw [List.length_flatten, Nat.zero_add]
    · rintro (_ | why) other
      · exact absurd rfl other
      · exact .pure (Nat.le_refl 0)
    · rintro _ rfl
      exact ⟨{}, trivial, rfl⟩
  · exact .pure (Nat.le_refl 0)

theorem sum_map_one_add {α : Type} (f : α → Nat) (xs : List α) :
    (xs.map fun x => 1 + f x).sum = xs.length + (xs.map f).sum := by
  induction xs with
  | nil => rfl
  | cons x xs ih =>
    simp only [List.map_cons, List.sum_cons, List.length_cons, ih]
    omega

/-- A discovery polls for every unit that it covers, every directory that it lists, and every
candidate that it finds. -/
theorem heeds_ofProject (project : Project) (scope : Scope) :
    Heeds (fun _ => True) 0 (fun d => d.units.length + (d.units.flatMap (·.candidates)).length)
      (ofProject project scope : ExceptT Cancelled (StateT Polls m) _) := by
  have unit (u : BuildUnit) : Heeds (fun _ => True) 0 (fun e => 1 + e.1.candidates.length)
      (do pollUnit; ofUnit u : ExceptT Cancelled (StateT Polls m) _) :=
    .bind (heeds_poll trivial) fun _ => (heeds_ofUnit u).add 1
  refine .bind (.mapM fun u _ => unit u) fun found => .pure ?_
  rw [sum_map_one_add, List.length_map, List.length_flatMap, List.map_map, Nat.zero_add]
  exact Nat.le_refl _

end
end Polls
end Staging
