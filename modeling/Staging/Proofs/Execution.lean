import Mathlib.Data.List.Forall2
import Staging.FileSystem

/-!
Running programs. A pass is written for any monad with file system calls; here such a monad is one
whose programs are functions of a state, which covers a tree in memory, a disk, and either of them
with a guard around it. `exec` gives the result of a program and the state it leaves.
-/
namespace Staging

class Stateful (m : Type → Type) [Monad m] (σ : outParam Type) where
  exec {α : Type} : m α → σ → α × σ
  exec_pure {α : Type} (a : α) (s : σ) : exec (pure a) s = (a, s)
  exec_bind {α β : Type} (x : m α) (f : α → m β) (s : σ) :
    exec (x >>= f) s = exec (f (exec x s).1) (exec x s).2

export Stateful (exec exec_pure exec_bind)

attribute [simp] exec_pure

instance {σ : Type} : Stateful (StateM σ) σ where
  exec x s := x s
  exec_pure _ _ := rfl
  exec_bind _ _ _ := rfl

/-- A state added in front, such as a guard's. -/
instance {m : Type → Type} {σ γ : Type} [Monad m] [Stateful m σ] :
    Stateful (StateT γ m) (γ × σ) where
  exec x s :=
    let r := exec (x s.1) s.2
    (r.1.1, r.1.2, r.2)
  exec_pure a s := congrArg (fun r => (r.1.1, r.1.2, r.2)) (exec_pure (a, s.1) s.2)
  exec_bind x f s := by simp [bind, StateT.bind, exec_bind]

section
variable {m : Type → Type} {σ α β ε : Type} [Monad m] [Stateful m σ]

/-- A mapped error is no success. -/
theorem mapError_eq_ok {ε' : Type} {wrap : ε → ε'} {x : Except ε α} {a : α} :
    x.mapError wrap = .ok a ↔ x = .ok a := by
  cases x <;> simp [Except.mapError]

theorem mapError_eq_error {ε' : Type} {wrap : ε → ε'} {x : Except ε α} {e' : ε'} :
    x.mapError wrap = .error e' ↔ ∃ e, x = .error e ∧ wrap e = e' := by
  cases x <;> simp [Except.mapError]

theorem eq_ok_of_toOption {ran : Except ε α × σ} {a : α} (h : ran.1.toOption = some a) :
    ran = (.ok a, ran.2) := by
  obtain ⟨_ | b, s⟩ := ran
  · cases h
  · cases h
    rfl

theorem exec_map [LawfulMonad m] (f : α → β) (x : m α) (s : σ) :
    exec (f <$> x) s = (f (exec x s).1, (exec x s).2) := by
  rw [map_eq_pure_bind, exec_bind, exec_pure]

/-- A program that may fail goes on only after a success. -/
theorem exec_run_bind (x : ExceptT ε m α) (f : α → ExceptT ε m β) (s : σ) :
    exec (x >>= f).run s =
      match exec x.run s with
      | (.ok a, t) => exec (f a).run t
      | (.error e, t) => (.error e, t) := by
  rw [ExceptT.run_bind, exec_bind]
  rcases exec x.run s with ⟨_ | a, t⟩
  · exact exec_pure _ _
  · rfl

theorem exec_run_bind_ok {x : ExceptT ε m α} {f : α → ExceptT ε m β} {s t : σ} {b : β}
    (h : exec (x >>= f).run s = (.ok b, t)) :
    ∃ a r, exec x.run s = (.ok a, r) ∧ exec (f a).run r = (.ok b, t) := by
  rw [exec_run_bind] at h
  rcases hx : exec x.run s with ⟨_ | a, r⟩
  · rw [hx] at h
    cases h
  · rw [hx] at h
    exact ⟨a, r, rfl, h⟩

theorem exec_run_lift [LawfulMonad m] (x : m α) (s : σ) :
    exec (liftM x : ExceptT ε m α).run s = (.ok (exec x s).1, (exec x s).2) :=
  exec_map Except.ok x s

/-- Where all elements of a list are dealt with, each of them was dealt with in some state. -/
theorem exec_mapM_ok [LawfulMonad m] {f : α → ExceptT ε m β} {xs : List α} {ys : List β} {s t : σ}
    (h : exec (xs.mapM f).run s = (.ok ys, t)) :
    List.Forall₂ (fun x y => ∃ a b, exec (f x).run a = (.ok y, b)) xs ys := by
  induction xs generalizing s ys with
  | nil =>
    rw [List.mapM_nil, ExceptT.run_pure, exec_pure] at h
    cases h
    exact .nil
  | cons x xs ih =>
    rw [List.mapM_cons] at h
    obtain ⟨y, r, hx, h⟩ := exec_run_bind_ok h
    obtain ⟨zs, q, hxs, h⟩ := exec_run_bind_ok h
    rw [ExceptT.run_pure, exec_pure] at h
    cases h
    exact .cons ⟨s, r, hx⟩ (ih hxs)

theorem mem_of_forall₂ {R : α → β → Prop} {xs : List α} {ys : List β} (h : List.Forall₂ R xs ys)
    {y : β} (mem : y ∈ ys) : ∃ x ∈ xs, R x y := by
  induction h with
  | nil => cases mem
  | cons first _ ih =>
    rcases List.mem_cons.mp mem with rfl | mem
    · exact ⟨_, List.mem_cons_self, first⟩
    · obtain ⟨x, known, related⟩ := ih mem
      exact ⟨x, List.mem_cons_of_mem _ known, related⟩

/-- Where no element changes the state, each of them was dealt with in the first one. -/
theorem exec_mapM_stays [LawfulMonad m] {f : α → ExceptT ε m β} {xs : List α} {ys : List β}
    {s t : σ} (stays : ∀ x ∈ xs, ∃ result, exec (f x).run s = (result, s))
    (h : exec (xs.mapM f).run s = (.ok ys, t)) :
    t = s ∧ List.Forall₂ (fun x y => exec (f x).run s = (.ok y, s)) xs ys := by
  induction xs generalizing ys t with
  | nil =>
    rw [List.mapM_nil, ExceptT.run_pure, exec_pure] at h
    cases h
    exact ⟨rfl, .nil⟩
  | cons x xs ih =>
    rw [List.mapM_cons] at h
    obtain ⟨y, r, hx, h⟩ := exec_run_bind_ok h
    obtain ⟨result, same⟩ := stays x List.mem_cons_self
    obtain rfl : s = r := congrArg Prod.snd (same.symm.trans hx)
    obtain ⟨zs, q, hxs, last⟩ := exec_run_bind_ok h
    obtain ⟨rfl, rest⟩ := ih (fun z hz => stays z (List.mem_cons_of_mem x hz)) hxs
    rw [ExceptT.run_pure, exec_pure] at last
    cases last
    exact ⟨rfl, .cons hx rest⟩

/-- Where each element is dealt with in the first state and leaves it, so are all of them. -/
theorem exec_mapM_each [LawfulMonad m] {P : α → β → Prop} {f : α → ExceptT ε m β} {xs : List α}
    {s : σ} (each : ∀ x ∈ xs, ∃ y, exec (f x).run s = (.ok y, s) ∧ P x y) :
    ∃ ys, exec (xs.mapM f).run s = (.ok ys, s) ∧ List.Forall₂ P xs ys := by
  induction xs with
  | nil =>
    refine ⟨[], ?_, .nil⟩
    rw [List.mapM_nil, ExceptT.run_pure, exec_pure]
  | cons x xs ih =>
    obtain ⟨y, first, holds⟩ := each x List.mem_cons_self
    obtain ⟨ys, rest, all⟩ := ih fun z mem => each z (List.mem_cons_of_mem x mem)
    refine ⟨y :: ys, ?_, .cons holds all⟩
    rw [List.mapM_cons, exec_run_bind, first]
    simp only
    rw [exec_run_bind, rest]
    exact exec_pure _ _

theorem exec_mapM_map [LawfulMonad m] {f : α → ExceptT ε m β} {g : α → β} {xs : List α} {s : σ}
    (each : ∀ x ∈ xs, exec (f x).run s = (.ok (g x), s)) :
    exec (xs.mapM f).run s = (.ok (xs.map g), s) := by
  obtain ⟨ys, ran, all⟩ := exec_mapM_each (P := fun x y => g x = y) fun x mem =>
    ⟨g x, each x mem, rfl⟩
  rw [← List.forall₂_map_left_iff (R := Eq), List.forall₂_eq_eq_eq] at all
  rw [ran, all]

/-- What stops a list stopped one of its elements. -/
theorem exec_mapM_error [LawfulMonad m] {f : α → ExceptT ε m β} {xs : List α} {e : ε} {s t : σ}
    (h : exec (xs.mapM f).run s = (.error e, t)) :
    ∃ x ∈ xs, ∃ a b, exec (f x).run a = (.error e, b) := by
  induction xs generalizing s with
  | nil =>
    rw [List.mapM_nil, ExceptT.run_pure, exec_pure] at h
    cases h
  | cons x xs ih =>
    rw [List.mapM_cons, exec_run_bind] at h
    rcases first : exec (f x).run s with ⟨_ | y, r⟩
    · rw [first] at h
      cases h
      exact ⟨x, List.mem_cons_self, s, _, first⟩
    · rw [first] at h
      simp only at h
      rw [exec_run_bind] at h
      rcases rest : exec (xs.mapM f).run r with ⟨_ | ys, q⟩
      · rw [rest] at h
        cases h
        obtain ⟨z, mem, stopped⟩ := ih rest
        exact ⟨z, List.mem_cons_of_mem x mem, stopped⟩
      · rw [rest] at h
        simp only [ExceptT.run_pure, exec_pure] at h
        cases h

/-- From a state with `inv` a program ends in another one, with a result that has `Q`. -/
def Gives (inv : σ → Prop) (Q : α → Prop) (x : m α) : Prop :=
  ∀ s, inv s → inv (exec x s).2 ∧ Q (exec x s).1

/-- The same of a program that may fail: what it succeeds with has `Q`. -/
def GivesOk (inv : σ → Prop) (Q : α → Prop) (x : ExceptT ε m α) : Prop :=
  Gives inv (fun r => ∀ a, r = .ok a → Q a) x.run

variable {inv : σ → Prop} {Q : α → Prop} {R : β → Prop}

theorem Gives.pure {a : α} (h : Q a) : Gives inv Q (pure a : m α) := by
  intro s holds
  rw [exec_pure]
  exact ⟨holds, h⟩

theorem Gives.bind {x : m α} {f : α → m β} (h : Gives inv Q x)
    (rest : ∀ a, Q a → Gives inv R (f a)) : Gives inv R (x >>= f) := by
  intro s holds
  obtain ⟨after, result⟩ := h s holds
  rw [exec_bind]
  exact rest _ result _ after

theorem Gives.mono {Q' : α → Prop} {x : m α} (h : Gives inv Q x) (imp : ∀ a, Q a → Q' a) :
    Gives inv Q' x :=
  fun s holds => ⟨(h s holds).1, imp _ (h s holds).2⟩

/-- Of any program in any state. -/
theorem Gives.any (x : m α) : Gives (fun _ : σ => True) (fun _ => True) x :=
  fun _ _ => ⟨trivial, trivial⟩

/-- A program that keeps everything there is to know about the state leaves it. -/
theorem Gives.stays {x : m α} {st : σ} (h : Gives (· = st) Q x) :
    exec x st = ((exec x st).1, st) :=
  Prod.ext rfl (h st rfl).1

/-- The result was given in some state with `inv`. -/
theorem Gives.seen {x : m α} (h : Gives inv Q x) :
    Gives inv (fun a => Q a ∧ ∃ s, inv s ∧ (exec x s).1 = a) x :=
  fun s holds => ⟨(h s holds).1, (h s holds).2, s, holds, rfl⟩

theorem GivesOk.pure {a : α} (h : Q a) : GivesOk inv Q (pure a : ExceptT ε m α) := by
  refine Gives.pure ?_
  rintro _ ⟨⟩
  exact h

theorem GivesOk.throw (e : ε) : GivesOk inv Q (throw e : ExceptT ε m α) :=
  Gives.pure nofun

theorem GivesOk.bind {x : ExceptT ε m α} {f : α → ExceptT ε m β} (h : GivesOk inv Q x)
    (rest : ∀ a, Q a → GivesOk inv R (f a)) : GivesOk inv R (x >>= f) := by
  refine Gives.bind h ?_
  rintro (e | a) result
  · exact Gives.pure nofun
  · exact rest a (result a rfl)

theorem GivesOk.lift [LawfulMonad m] {x : m α} (h : Gives inv Q x) :
    GivesOk inv Q (liftM x : ExceptT ε m α) := by
  intro s holds
  rw [exec_run_lift]
  refine ⟨(h s holds).1, ?_⟩
  rintro _ ⟨⟩
  exact (h s holds).2

theorem GivesOk.adapt [LawfulMonad m] {ε' : Type} (e : ε → ε') {x : ExceptT ε m α}
    (h : GivesOk inv Q x) : GivesOk inv Q (x.adapt e) := by
  intro s holds
  rw [ExceptT.run_adapt, exec_map]
  exact ⟨(h s holds).1, fun a result => (h s holds).2 a (mapError_eq_ok.mp result)⟩

theorem GivesOk.mapM [LawfulMonad m] {P : α → β → Prop} {f : α → ExceptT ε m β} {xs : List α}
    (h : ∀ x ∈ xs, GivesOk inv (P x) (f x)) : GivesOk inv (List.Forall₂ P xs) (xs.mapM f) := by
  induction xs with
  | nil => exact .pure .nil
  | cons x xs ih =>
    rw [List.mapM_cons]
    refine .bind (h x List.mem_cons_self) fun y first => ?_
    refine .bind (ih fun z mem => h z (List.mem_cons_of_mem x mem)) fun ys rest => ?_
    exact .pure (.cons first rest)

theorem Gives.foldlM {f : β → α → m β} {xs : List α}
    (h : ∀ b, ∀ x ∈ xs, R b → Gives inv R (f b x)) {b : β} (start : R b) :
    Gives inv R (xs.foldlM f b) := by
  induction xs generalizing b with
  | nil => exact .pure start
  | cons x xs ih =>
    rw [List.foldlM_cons]
    exact .bind (h b x List.mem_cons_self start) fun c next =>
      ih (fun b y mem => h b y (List.mem_cons_of_mem x mem)) next

/-- Whatever state it starts from, the program fails only with errors that have `P`. -/
def FailsWith (P : ε → Prop) (x : ExceptT ε m α) : Prop :=
  ∀ s e, (exec x.run s).1 = .error e → P e

namespace FailsWith

variable {P : ε → Prop}

theorem throw {e : ε} (h : P e) : FailsWith P (throw e : ExceptT ε m α) := by
  intro s e' failed
  rw [ExceptT.run_throw, exec_pure] at failed
  cases failed
  exact h

theorem bind {x : ExceptT ε m α} {f : α → ExceptT ε m β} (h : FailsWith P x)
    (rest : ∀ a, FailsWith P (f a)) : FailsWith P (x >>= f) := by
  intro s e failed
  rw [exec_run_bind] at failed
  rcases first : exec x.run s with ⟨_ | a, t⟩
  · rw [first] at failed
    cases failed
    exact h s e (congrArg Prod.fst first)
  · rw [first] at failed
    exact rest a t e failed

theorem adapt [LawfulMonad m] {ε' : Type} {wrap : ε' → ε} {x : ExceptT ε' m α}
    (h : FailsWith (fun e => P (wrap e)) x) : FailsWith P (x.adapt wrap) := by
  intro s e failed
  rw [ExceptT.run_adapt, exec_map] at failed
  obtain ⟨stop, ran, rfl⟩ := mapError_eq_error.mp failed
  exact h s stop ran

theorem mapM [LawfulMonad m] {f : α → ExceptT ε m β} {xs : List α}
    (h : ∀ x ∈ xs, FailsWith P (f x)) : FailsWith P (xs.mapM f) := by
  intro s e failed
  obtain ⟨x, mem, a, b, stopped⟩ := exec_mapM_error (t := (exec (xs.mapM f).run s).2)
    (Prod.ext failed rfl)
  exact h x mem a e (congrArg Prod.fst stopped)

theorem gives {x : ExceptT ε m α} (h : FailsWith P x) :
    Gives (fun _ : σ => True) (fun r => ∀ e, r = .error e → P e) x.run :=
  fun s _ => ⟨trivial, h s⟩

end FailsWith

end
end Staging
