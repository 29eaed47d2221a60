import Staging.Proofs.Discovery.Outputs
import Staging.Proofs.Discovery.Polling
import Staging.Proofs.Memory.Operations

/-!
Walks come to an end. From a directory a walk goes down to entries that are directories, and in a tree
in memory these are places with one part more, so no way down is longer than there are entries. A walk
that may go down so many levels is therefore the same as one that may go down further, and as any walk
that goes down without counting.
-/
namespace Staging

section
variable {m : Type → Type} {σ α β : Type} [Monad m] [Stateful m σ]

/-- From a state with `inv` both programs do the same, end in such a state, and do not give up for
the depth of the directories. -/
def Settled (inv : σ → Prop) (x y : ExceptT WalkStop m α) : Prop :=
  ∀ s, inv s → exec y.run s = exec x.run s ∧ inv (exec x.run s).2 ∧
    (exec x.run s).1 ≠ .error .tooDeep

variable {inv : σ → Prop} {x y : ExceptT WalkStop m α}

namespace Settled

theorem pure (a : α) : Settled inv (pure a : ExceptT WalkStop m α) (pure a) := by
  intro s holds
  rw [ExceptT.run_pure, exec_pure]
  exact ⟨rfl, holds, nofun⟩

theorem throw {e : WalkStop} (shallow : e ≠ .tooDeep) :
    Settled inv (throw e : ExceptT WalkStop m α) (throw e) := by
  intro s holds
  rw [ExceptT.run_throw, exec_pure]
  refine ⟨rfl, holds, ?_⟩
  rintro ⟨⟩
  exact shallow rfl

theorem bind {f g : α → ExceptT WalkStop m β} (h : Settled inv x y)
    (rest : ∀ a, Settled inv (f a) (g a)) : Settled inv (x >>= f) (y >>= g) := by
  intro s holds
  obtain ⟨same, kept, shallow⟩ := h s holds
  rw [exec_run_bind, exec_run_bind, same]
  generalize exec x.run s = r at kept shallow
  obtain ⟨_ | a, t⟩ := r
  · refine ⟨rfl, kept, ?_⟩
    rintro ⟨⟩
    exact shallow rfl
  · exact rest a t kept

variable [LawfulMonad m]

theorem lift {Q : α → Prop} {call : m α} (h : Gives inv Q call) :
    Settled inv (liftM call : ExceptT WalkStop m α) (liftM call) := by
  intro s holds
  rw [exec_run_lift]
  exact ⟨rfl, (h s holds).1, nofun⟩

/-- A call, and then the rest, which knows what the call can give. -/
theorem ask {Q : α → Prop} {call : m α} {f g : α → ExceptT WalkStop m β} (h : Gives inv Q call)
    (rest : ∀ a, Q a → Settled inv (f a) (g a)) : Settled inv (liftM call >>= f) (liftM call >>= g) := by
  intro s holds
  rw [exec_run_bind, exec_run_bind, exec_run_lift]
  exact rest _ (h s holds).2 _ (h s holds).1

theorem mapM {f g : α → ExceptT WalkStop m β} {xs : List α}
    (h : ∀ x ∈ xs, Settled inv (f x) (g x)) : Settled inv (xs.mapM f) (xs.mapM g) := by
  induction xs with
  | nil => exact .pure []
  | cons x xs ih =>
    rw [List.mapM_cons, List.mapM_cons]
    refine .bind (h x List.mem_cons_self) fun y => ?_
    exact .bind (ih fun z mem => h z (List.mem_cons_of_mem x mem)) fun ys => .pure (y :: ys)

omit [LawfulMonad m] in
theorem trans {z : ExceptT WalkStop m α} (h : Settled inv x y)
    (same : ∀ s, inv s → exec z.run s = exec y.run s) : Settled inv x z := fun s holds =>
  ⟨(same s holds).trans (h s holds).1, (h s holds).2⟩

end Settled
end

namespace Candidate

section
variable {m : Type → Type} [Monad m] [FileSystem m]

/-- What a walk does in one directory, however it goes down. -/
def walkIn (spec : TreeSpec) (descend : Path → ExceptT WalkStop m (List Candidate)) (dir : Path) :
    ExceptT WalkStop m (List Candidate) := do
  poll
  match ← (FileSystem.list dir : m _) with
  | .error e => throw (.unlisted e)
  | .ok entries => return (← (entries.mergeSort nameOrder).mapM (visit spec descend)).flatten

theorem walk_succ (spec : TreeSpec) (levels : Nat) (dir : Path) :
    (walk spec (levels + 1) dir : ExceptT WalkStop m _) = walkIn spec (walk spec levels) dir := rfl

end

variable {m : Type → Type} {σ : Type} [Monad m] [LawfulMonad m] [Stateful m σ] [FileSystem m]
variable {inv : σ → Prop} {spec : TreeSpec} {f g : Path → ExceptT WalkStop m (List Candidate)}
variable {p dir : Path}

theorem settled_poll (looks : Looks m inv) :
    Settled inv (poll : ExceptT WalkStop m Unit) poll := by
  refine .ask looks.isCancelled fun raised _ => ?_
  split
  · exact .throw nofun
  · exact .pure ()

omit [LawfulMonad m] in
theorem gives_visitFile (looks : Looks m inv) :
    Gives inv (fun _ => True) (visitFile spec p : m _) := by
  unfold visitFile
  split
  · exact .pure trivial
  · split
    · exact .bind (looks.modified p) fun _ _ => .pure trivial
    · exact .pure trivial

/-- Some state with `inv` says that it is a directory. -/
def MayEnter (m : Type → Type) {σ : Type} [Monad m] [Stateful m σ] [FileSystem m] (inv : σ → Prop)
    (p : Path) : Prop :=
  ∃ s, inv s ∧ (exec (FileSystem.isDir p : m Bool) s).1 = true

theorem settled_visit (looks : Looks m inv)
    (below : MayEnter m inv p → Settled inv (f p) (g p)) :
    Settled inv (visit spec f p) (visit spec g p) := by
  refine .ask (looks.isDir p).seen ?_
  rintro isDir ⟨-, s, holds, rfl⟩
  split
  · rename_i dir
    exact below ⟨s, holds, dir⟩
  · refine .ask (looks.isFile p) fun isFile _ => ?_
    split
    · exact .bind (settled_poll looks) fun _ => .lift (gives_visitFile looks)
    · exact .pure []

/-- A directory is walked in the same way if the walks below it are. -/
theorem settled_walkIn (looks : Looks m inv)
    (below : ∀ p, Lists m inv dir p → MayEnter m inv p → Settled inv (f p) (g p)) :
    Settled inv (walkIn spec f dir) (walkIn spec g dir) := by
  refine .bind (settled_poll looks) fun _ => .ask (looks.list dir).seen ?_
  rintro listing ⟨-, s, holds, listed⟩
  cases listing with
  | error e => exact .throw nofun
  | ok entries =>
    refine .bind (.mapM fun p mem => settled_visit looks (below p ?_)) fun found => .pure _
    exact ⟨s, entries, holds, listed, List.mem_mergeSort.mp mem⟩

end Candidate

namespace Memory
open Candidate

/-- A walk goes down from the directory to the entry. -/
def Descends (s : Memory) (dir p : Path) : Prop :=
  ∃ entries, s.list dir = .ok entries ∧ p ∈ entries ∧ s.isDir p = true

variable {s : Memory} {spec : TreeSpec} {dir p : Path} {levels : Nat}

namespace Descends

theorem deeper (named : s.Named) (h : s.Descends dir p) :
    ∃ name, p.parts = dir.parts ++ [.name name] := by
  obtain ⟨entries, listing, mem, -⟩ := h
  obtain ⟨name, place⟩ := listed_of_named named listing mem
  exact ⟨name, place⟩

theorem length_below_lt (named : s.Named) (h : s.Descends dir p) :
    (s.below p.parts).length < (s.below dir.parts).length := by
  obtain ⟨name, deeper⟩ := h.deeper named
  obtain ⟨-, -, -, isDir⟩ := h
  rw [deeper]
  exact Memory.length_below_lt (taken_of_isDir isDir deeper)

end Descends

theorem wellFounded_descends (named : s.Named) : WellFounded fun p dir => s.Descends dir p :=
  Subrelation.wf (fun descends => descends.length_below_lt named)
    (measure fun p : Path => (s.below p.parts).length).wf

/-- Programs that look at a tree, with a schedule for the cancel flag. -/
abbrev Scheduled := StateT Polls (StateM Memory)

/-- The tree is this one, whatever has been polled. -/
def Holds (s : Memory) (t : Polls × Memory) : Prop := t.2 = s

theorem looks_scheduled (s : Memory) : Looks Scheduled s.Holds :=
  Polls.looks (Memory.looks (· = s))

theorem descends_of_lists (lists : Lists Scheduled s.Holds dir p)
    (enter : MayEnter Scheduled s.Holds p) : s.Descends dir p := by
  obtain ⟨t, entries, rfl, listing, mem⟩ := lists
  obtain ⟨t', same, isDir⟩ := enter
  rw [Polls.exec_list] at listing
  refine ⟨entries, listing, mem, ?_⟩
  rw [← show t'.2 = t.2 from same]
  exact isDir

/-- What is done in a directory depends on nothing below but the directories that it lists. -/
theorem settled_of_descends {f g : Path → ExceptT WalkStop Scheduled (List Candidate)}
    (below : ∀ p, s.Descends dir p → Settled s.Holds (f p) (g p)) :
    Settled s.Holds (walkIn spec f dir) (walkIn spec g dir) :=
  settled_walkIn (looks_scheduled s) fun p lists enter => below p (descends_of_lists lists enter)

/-- More levels than places are taken below a directory make no difference. -/
theorem settled_walk (named : s.Named) {more : Nat} (enough : (s.below dir.parts).length < levels)
    (enough' : (s.below dir.parts).length < more) :
    Settled s.Holds (walk spec levels dir : ExceptT WalkStop Scheduled _) (walk spec more dir) := by
  induction levels generalizing more dir with
  | zero => cases enough
  | succ levels ih =>
    cases more with
    | zero => cases enough'
    | succ more =>
      rw [walk_succ, walk_succ]
      refine settled_of_descends fun p descends => ?_
      have less := descends.length_below_lt named
      exact ih (by omega) (by omega)

/-- What goes down as a walk does, without counting, is the walk. -/
theorem settled_of_unfolds (named : s.Named)
    {f : Path → ExceptT WalkStop Scheduled (List Candidate)}
    (unfolds : ∀ dir t, s.Holds t → exec (f dir).run t = exec (walkIn spec f dir).run t)
    (enough : (s.below dir.parts).length < levels) :
    Settled s.Holds (walk spec levels dir) (f dir) := by
  induction levels generalizing dir with
  | zero => cases enough
  | succ levels ih =>
    rw [walk_succ]
    refine (settled_of_descends fun p descends => ?_).trans (unfolds dir)
    have less := descends.length_below_lt named
    exact ih (by omega)

theorem settled_collect (named : s.Named) :
    Settled s.Holds (collect spec : ExceptT WalkStop Scheduled _) (collect spec) := by
  have depth : Gives s.Holds (· = s.nodes.size) (FileSystem.depth : Scheduled Nat) := by
    rintro t rfl
    exact ⟨rfl, rfl⟩
  refine .ask ((looks_scheduled s).isDir spec.root) fun isDir _ => ?_
  split
  · refine .ask depth ?_
    rintro _ rfl
    have bound := s.length_below_le spec.root.parts
    exact settled_walk named (by omega) (by omega)
  · exact .pure []

/-- After any history, the directories that a walk goes down to exist and have one part more than the
one they are listed in, no way down is without an end, and what is done in a directory depends on
nothing below it but these. So with more levels than entries a walk recurses as if levels were not
counted, is the only program that does, and never gives up for the depth of the directories, whichever
poll finds the pass cancelled. -/
theorem walk_ends (ops : List Operation) (spec : TreeSpec) :
    (∀ dir p, (after ops).Descends dir p →
      (after ops).isPresent p = true ∧ ∃ name, p.parts = dir.parts ++ [.name name]) ∧
    (WellFounded fun p dir => (after ops).Descends dir p) ∧
    (∀ dir (f g : Path → ExceptT WalkStop Scheduled (List Candidate)),
      (∀ p, (after ops).Descends dir p → Settled (after ops).Holds (f p) (g p)) →
        Settled (after ops).Holds (walkIn spec f dir) (walkIn spec g dir)) ∧
    (∀ levels, (after ops).nodes.size < levels →
      (∀ dir, Settled (after ops).Holds (walk spec levels dir)
        (walkIn spec (walk spec levels) dir : ExceptT WalkStop Scheduled _)) ∧
      ∀ f : Path → ExceptT WalkStop Scheduled (List Candidate),
        (∀ dir t, (after ops).Holds t → exec (f dir).run t = exec (walkIn spec f dir).run t) →
        ∀ dir, Settled (after ops).Holds (walk spec levels dir) (f dir)) ∧
    Settled (after ops).Holds (collect spec : ExceptT WalkStop Scheduled _) (collect spec) := by
  have named := (made_after ops).named
  refine ⟨fun dir p descends => ⟨?_, descends.deeper named⟩, wellFounded_descends named,
    fun dir f g => settled_of_descends, fun levels enough => ?_, settled_collect named⟩
  · obtain ⟨-, -, -, isDir⟩ := descends
    exact taken_of_isDir isDir rfl
  · have fewer (dir : Path) : ((after ops).below dir.parts).length < levels :=
      ((after ops).length_below_le dir.parts).trans_lt enough
    constructor
    · intro dir
      rw [← walk_succ]
      exact settled_walk named (fewer dir) (Nat.lt_succ_of_lt (fewer dir))
    · intro f unfolds dir
      exact settled_of_unfolds named unfolds (fewer dir)

theorem walk_ends_sample :
    let s := after [.addFile ⟨"res/a/b"⟩ [1], .addFile ⟨"c"⟩ [2], .rename ⟨"c"⟩ ⟨"res/d/e/c"⟩]
    s.nodes.size < 8 ∧ s.Descends ⟨"res"⟩ ⟨"res/d"⟩ ∧ s.isPresent ⟨"res/d"⟩ = true ∧
      Settled s.Holds (walk Sample.spec 8 ⟨"res"⟩)
        (walkIn Sample.spec (walk Sample.spec 8) ⟨"res"⟩ : ExceptT WalkStop Scheduled _) := by
  intro s
  have fewer : s.nodes.size < 8 := by decide +kernel
  have descends : s.Descends ⟨"res"⟩ ⟨"res/d"⟩ :=
    ⟨[⟨"res/a"⟩, ⟨"res/d"⟩], by decide +kernel, by decide +kernel, by decide +kernel⟩
  obtain ⟨steps, -, -, levels, -⟩ := walk_ends [.addFile ⟨"res/a/b"⟩ [1], .addFile ⟨"c"⟩ [2],
    .rename ⟨"c"⟩ ⟨"res/d/e/c"⟩] Sample.spec
  exact ⟨fewer, descends, (steps _ _ descends).1, (levels 8 fewer).1 ⟨"res"⟩⟩

end Memory
end Staging
