import Staging.Proofs.Memory.Likeness

/-!
Passes in lockstep. Over two trees that are alike, the calls of a pass have the same answers and
leave trees that are alike, except for the calls that tell times, listings and the depth. So
deleting, staging and saving go the same way over both, and discovery finds the same candidates but
for their times.
-/
namespace Staging.Memory
open Pass

variable {K : List Part → Prop} {α β γ δ ε : Type}

/-- Two programs that lead from trees that are alike to trees that are alike, with related
results. -/
def Lockstep (K : List Part → Prop) (R : α → β → Prop) (x : StateM Memory α)
    (y : StateM Memory β) : Prop :=
  ∀ s t, Like K s t → R (exec x s).1 (exec y t).1 ∧ Like K (exec x s).2 (exec y t).2

namespace Lockstep

variable {R : α → β → Prop} {Q : γ → δ → Prop}

theorem pure {a : α} {b : β} (h : R a b) : Lockstep K R (pure a) (pure b) :=
  fun _ _ like => ⟨h, like⟩

theorem bind {x : StateM Memory α} {y : StateM Memory β} {f : α → StateM Memory γ}
    {g : β → StateM Memory δ} (h : Lockstep K R x y)
    (rest : ∀ a b, R a b → Lockstep K Q (f a) (g b)) : Lockstep K Q (x >>= f) (y >>= g) := by
  intro s t like
  obtain ⟨related, after⟩ := h s t like
  rw [exec_bind, exec_bind]
  exact rest _ _ related _ _ after

/-- Programs that may fail go on only after a success, on both sides. -/
theorem run_bind {x y : ExceptT ε (StateM Memory) α} {f g : α → ExceptT ε (StateM Memory) γ}
    (h : Lockstep K Eq x.run y.run) (rest : ∀ a, Lockstep K Eq (f a).run (g a).run) :
    Lockstep K Eq (x >>= f).run (y >>= g).run := by
  rw [ExceptT.run_bind, ExceptT.run_bind]
  refine h.bind ?_
  rintro (e | a) _ rfl
  · exact .pure rfl
  · exact rest a

theorem ask {f : Memory → α} (same : ∀ s t, Like K s t → f s = f t) :
    Lockstep K Eq (fun s => (f s, s)) (fun s => (f s, s)) :=
  fun s t like => ⟨same s t like, like⟩

theorem change {f : Memory → Except FsError Memory}
    (same : ∀ s t, Like K s t → SameOutcome (fun _ => True) (Like K) (f s) (f t)) :
    Lockstep K Eq (Memory.change f) (Memory.change f) := by
  intro s t like
  have outcome := same s t like
  change (Memory.change f s).1 = (Memory.change f t).1 ∧
    Like K (Memory.change f s).2 (Memory.change f t).2
  unfold Memory.change
  generalize f s = a, f t = b at outcome
  cases outcome with
  | error => exact ⟨rfl, like⟩
  | ok after => exact ⟨rfl, after⟩

theorem read (p : Path) :
    Lockstep K Eq (FileSystem.read p : StateM Memory _) (FileSystem.read p : StateM Memory _) :=
  ask fun _ _ like => like.read_eq p

theorem isPresent (p : Path) : Lockstep K Eq (FileSystem.isPresent p : StateM Memory _)
    (FileSystem.isPresent p : StateM Memory _) :=
  ask fun _ _ like => like.isPresent_eq p

theorem write (p : Path) (content : Bytes) :
    Lockstep K Eq (FileSystem.write p content : StateM Memory _)
      (FileSystem.write p content : StateM Memory _) :=
  change fun _ _ like => like.write p content

theorem copy (source target : Path) :
    Lockstep K Eq (FileSystem.copy source target : StateM Memory _)
      (FileSystem.copy source target : StateM Memory _) :=
  change fun _ _ like => like.copy source target

theorem removeFile (p : Path) : Lockstep K Eq (FileSystem.removeFile p : StateM Memory _)
    (FileSystem.removeFile p : StateM Memory _) :=
  change fun _ _ like => like.removeFile p

theorem createDirs (p : Path) : Lockstep K Eq (FileSystem.createDirs p : StateM Memory _)
    (FileSystem.createDirs p : StateM Memory _) :=
  change fun _ _ like => like.createDirs p

theorem rename (source target : Path) :
    Lockstep K Eq (FileSystem.rename source target : StateM Memory _)
      (FileSystem.rename source target : StateM Memory _) :=
  fun _ _ like => like.rename source target

theorem calling {x : StateM Memory (Except FsError α)} (h : Lockstep K Eq x x)
    (wrap : FsError → ItemError) : Lockstep K Eq (calling x wrap).run (calling x wrap).run := by
  intro s t like
  obtain ⟨same, after⟩ := h s t like
  rw [exec_calling, exec_calling]
  exact ⟨congrArg (Except.mapError wrap) same, after⟩

variable {τ : Type}

theorem fill (s : Stager τ) (item : Candidate) :
    Lockstep K Eq (fill (m := StateM Memory) s item).run (fill (m := StateM Memory) s item).run := by
  unfold Pass.fill
  simp only
  split
  · split
    · exact .pure rfl
    · refine run_bind ((read item.source).calling .call) fun bytes => ?_
      exact (write _ _).calling _
  · exact (copy _ _).calling .call

theorem stageItem (s : Stager τ) (item : Candidate) :
    Lockstep K Eq (stageItem s item : ExceptT ItemError (StateM Memory) Unit).run
      (stageItem s item : ExceptT ItemError (StateM Memory) Unit).run := by
  rw [stageItem_eq]
  split
  · exact run_bind ((createDirs _).calling .call) fun _ => fill s item
  · exact fill s item

theorem save (l : Ledger) (p : Path) :
    Lockstep K Eq (l.save p : StateM Memory _) (l.save p : StateM Memory _) := by
  unfold Ledger.save
  refine (write _ _).bind ?_
  rintro (e | _) _ rfl
  · exact .pure rfl
  · refine (rename _ _).bind ?_
    rintro (e | _) _ rfl
    · exact .pure rfl
    · exact .pure rfl

variable {τ' : Type} [Tracker τ] [Tracker τ']

/-- Deleting does not depend on who keeps track. -/
theorem deleteStep (w : Applied τ) (w' : Applied τ') (path : String) :
    Lockstep K (fun a b => a.tracker = Tracker.forget w.tracker path ∧
        b.tracker = Tracker.forget w'.tracker path)
      (deleteStep w path : StateM Memory _) (deleteStep w' path : StateM Memory _) := by
  unfold Pass.deleteStep
  refine (isPresent _).bind ?_
  rintro present _ rfl
  split
  · refine (removeFile _).bind ?_
    rintro (e | _) _ rfl
    · exact .pure ⟨rfl, rfl⟩
    · exact .pure ⟨rfl, rfl⟩
  · exact .pure ⟨rfl, rfl⟩

end Lockstep

variable {s t : Memory}

theorem Like.answersAlike (h : Like K s t) {p : Path} (counts : K p.parts) :
    AnswersAlike (StateM Memory) (StateM Memory) (fun _ _ => True) s t p where
  isDir := ⟨_, _, rfl, rfl, h.isDir_eq p⟩
  isFile := ⟨_, _, rfl, rfl, h.isFile_eq p⟩
  modified := ⟨_, _, rfl, rfl, trivial⟩
  list := ⟨_, _, rfl, rfl, h.list_eq counts⟩

/-- The places at and below the roots of a project. -/
def Rooted (project : Project) (key : List Part) : Prop :=
  ∃ u ∈ project.units, ∃ pair ∈ Discovery.treesOf u, pair.2.directory.parts <+: key

/-- Outside the roots, no listing above a place counts but, if it is a root, its own. -/
theorem Rooted.eq_of_mem_ascent {project : Project} {key output : List Part}
    (h : Rooted project key)
    (apart : ∀ u ∈ project.units, ∀ pair ∈ Discovery.treesOf u,
      ¬Above pair.2.directory.parts output)
    (mem : key ∈ ascent output) : key = output := by
  obtain ⟨u, unit, pair, tree, within⟩ := h
  have encloses := encloses_of_mem_ascent mem
  have root : pair.2.directory.parts = output := by
    by_contra other
    exact apart u unit pair tree ⟨other, .trans (.inl within) encloses⟩
  rw [root] at within
  rcases encloses with up | ⟨rfl, part, first, -⟩
  · exact up.eq_of_length_le within.length_le
  · refine (within.eq_of_length_le ?_).symm
    cases output with
    | nil => cases first
    | cons => simp

/-- Where the listings below the roots are the same, so are the candidates, but for times. -/
theorem Like.discovered {project : Project} (h : Like (Rooted project) s t) (named : s.Named)
    (scope : Scope) :
    ∃ d d', exec (Discovery.ofProject project scope : ExceptT Cancelled (StateM Memory) _).run s =
        (.ok d, s) ∧
      exec (Discovery.ofProject project scope : ExceptT Cancelled (StateM Memory) _).run t =
        (.ok d', t) ∧
      List.Forall₂ (Discovery.SameUnit fun _ _ => True) d.units d'.units := by
  refine Discovery.ofProject_redated (calm s) (calm t) fun u covered => ?_
  apply sameInputs_of_answers named
  · intro p _
    rw [h.read_eq]
  · intro pair mem q inside
    exact h.answersAlike ⟨u, (Project.mem_covered.mp covered).1, pair, mem, inside⟩

end Staging.Memory

namespace Staging
open Candidate (Redated)
open Discovery (SameUnit)

variable {T : Int64 → Int64 → Prop}

namespace Pass

variable {τ : Type} {c c' : Candidate}

/-- How an item is staged does not depend on its stamp. -/
theorem stageItem_redated {m : Type → Type} [Monad m] [FileSystem m] (h : Redated T c c')
    (s : Stager τ) : (stageItem s c' : ExceptT ItemError m Unit) = stageItem s c := by
  rw [h.rest]
  rfl

end Pass

/-- The same plan, but for the times in the stamps. -/
structure Plan.Redated (T : Int64 → Int64 → Prop) (l : Ledger) (p p' : Plan) : Prop where
  deletions : p.deletions = p'.deletions
  candidates : List.Forall₂ (Candidate.Redated T) p.candidates p'.candidates
  recorded : Pass.recordPlan l p = Pass.recordPlan l p'

/-- The same plan for one unit, but for the times in the stamps. -/
structure UnitPlan.Redated (T : Int64 → Int64 → Prop) (u u' : UnitPlan) : Prop where
  unit : u.unit = u'.unit
  candidates : List.Forall₂ (Candidate.Redated T) u.candidates u'.candidates
  current : u.current = u'.current
  deletions : u.deletions = u'.deletions

theorem UnitPlan.redated_ofDiscovery {e e' : UnitDiscovery} (h : SameUnit T e e') (l : Ledger) :
    Redated T (ofDiscovery l e) (ofDiscovery l e') := by
  obtain ⟨unit, readiness, candidates⟩ := h
  have outputs : e.candidates.map (·.output) = e'.candidates.map (·.output) := by
    rw [← List.forall₂_eq_eq_eq, List.forall₂_map_left_iff, List.forall₂_map_right_iff]
    exact candidates.imp fun _ _ redated => redated.output.symm
  unfold ofDiscovery
  rw [← readiness]
  split
  · exact ⟨unit, .nil, rfl, rfl⟩
  · simp only
    rw [← unit, ← outputs]
    exact ⟨rfl, candidates, rfl, rfl⟩

theorem Plan.redated_ofDiscovery {d d' : Discovery} (h : List.Forall₂ (SameUnit T) d.units d'.units)
    (l : Ledger) : Redated T l (ofDiscovery l d) (ofDiscovery l d') := by
  have units : List.Forall₂ (UnitPlan.Redated T) (ofDiscovery l d).units
      (ofDiscovery l d').units := by
    rw [ofDiscovery, ofDiscovery, List.forall₂_map_left_iff, List.forall₂_map_right_iff]
    exact h.imp fun _ _ same => UnitPlan.redated_ofDiscovery same l
  constructor
  · rw [← List.forall₂_eq_eq_eq]
    exact List.rel_flatMap units fun _ _ same => List.forall₂_eq_eq_eq ▸ same.deletions
  · exact List.rel_flatMap units fun _ _ same => same.candidates
  · refine List.rel_foldl (P := Eq) ?_ rfl units
    rintro l _ rfl u u' same
    simp only [same.unit, same.current]

end Staging
