import Staging.Proofs.Discovery.Isolation
import Staging.Proofs.Memory.Apart
import Staging.Proofs.Pass.Idempotence

/-!
Passes over parts of a project. If what two scopes write and delete lies apart, and clear of what is
read and of the ledger, then a pass over one and a pass over the other come to what a pass over both
comes to, in either order.
-/
namespace Staging

namespace Sample

/-- Both units have outputs on record that are in the way of nothing. -/
def tidying : Stager NoTracking where
  ledgerPath := ⟨"cache/outputs.bin"⟩
  ledger := ((Ledger.empty .sensitive).record "app" (PathSet.ofList .sensitive ["out/x.txt"])).record
    "web" (PathSet.ofList .sensitive ["out/y.txt"])
  filter := .placeholders
  charsetFor _ := "UTF-8"
  tracker := {}

def untidyTree : Memory :=
  (deepTree.addFile ⟨"out/x.txt"⟩ [120]).addFile ⟨"out/y.txt"⟩ [121]

end Sample

namespace UnitPlan

/-- The places of everything that is deleted or staged for a unit. -/
def targets (u : UnitPlan) : List (List Part) :=
  u.deletions.map Memory.place ++ u.candidates.map fun c => Memory.place c.output

variable {u : UnitPlan}

theorem target_of_deletion {path : String} (mem : path ∈ u.deletions) :
    Memory.place path ∈ u.targets :=
  List.mem_append_left _ (List.mem_map_of_mem mem)

theorem target_of_candidate {c : Candidate} (mem : c ∈ u.candidates) :
    Memory.place c.output ∈ u.targets :=
  List.mem_append_right _ (List.mem_map.mpr ⟨c, mem, rfl⟩)

end UnitPlan

namespace Plan

/-- The places of everything that the candidates of a plan are made from. -/
def sources (plan : Plan) : List (List Part) := plan.candidates.map (·.source.parts)

theorem mem_targets_iff {plan : Plan} {key : List Part} :
    key ∈ plan.targets ↔ ∃ u ∈ plan.units, key ∈ u.targets := by
  simp only [targets, deletions, candidates, UnitPlan.targets, List.mem_append, List.mem_map,
    List.mem_flatMap]
  constructor
  · rintro (⟨path, ⟨u, known, mem⟩, same⟩ | ⟨c, ⟨u, known, mem⟩, same⟩)
    · exact ⟨u, known, .inl ⟨path, mem, same⟩⟩
    · exact ⟨u, known, .inr ⟨c, mem, same⟩⟩
  · rintro ⟨u, known, ⟨path, mem, same⟩ | ⟨c, mem, same⟩⟩
    · exact .inl ⟨path, ⟨u, known, mem⟩, same⟩
    · exact .inr ⟨c, ⟨u, known, mem⟩, same⟩

end Plan

/-! What the ledger keeps of two passes -/

namespace Pass
open Ledger

section
variable {τ : Type} {s s' : Stager τ} {project : Project} {scope a b : Scope} {d d₁ d₂ : Discovery}

/-- What the ledger has for a unit after a pass that discovered it. -/
def recordedFor (l : Ledger) (e : UnitDiscovery) : Option PathSet :=
  match e.readiness with
  | .ready => some (PathSet.ofList l.casing (e.candidates.map (·.output)))
  | .misconfigured => l.get? e.unit

theorem recordedFor_congr {l l' : Ledger} {e : UnitDiscovery} (casing : l'.casing = l.casing)
    (record : l'.get? e.unit = l.get? e.unit) : recordedFor l' e = recordedFor l e := by
  rw [recordedFor, recordedFor, casing, record]

theorem get?_renewed_discovered (distinct : project.unitNames.Nodup)
    (names : d.units.map (·.unit) = (project.covered scope).map (·.name)) {e : UnitDiscovery}
    (mem : e ∈ d.units) :
    (renewed s project (Plan.ofDiscovery s.ledger d)).get? e.unit = recordedFor s.ledger e := by
  rw [recordedFor]
  split
  · rename_i ready
    exact get?_renewed_ready distinct names mem ready
  · rename_i stopped
    have nodup : (d.units.map (·.unit)).Nodup := by
      rw [names]
      exact Project.nodup_covered distinct scope
    refine get?_renewed_kept (mem_unitNames_of_discovered names mem) fun e' mem' same => ?_
    rwa [← List.inj_on_of_nodup_map nodup mem mem' same]

theorem get?_renewed_undiscovered {name : String} (known : name ∈ project.unitNames)
    (out : ∀ e ∈ d.units, e.unit ≠ name) :
    (renewed s project (Plan.ofDiscovery s.ledger d)).get? name = s.ledger.get? name :=
  get?_renewed_kept known fun e mem same => absurd same.symm (out e mem)

/-- A discovery of all units names those of a scope among them. -/
theorem names_of_part (names : d.units.map (·.unit) = project.unitNames)
    (part : d₁.units = d.units.filter fun e => scope.covers e.unit) :
    d₁.units.map (·.unit) = (project.covered scope).map (·.name) := by
  have taken : d₁.units.map (·.unit) = (d.units.map (·.unit)).filter scope.covers := by
    rw [part, List.filter_map]
    rfl
  rw [taken, names, Project.unitNames, List.filter_map, Project.covered]
  rfl

section
variable (distinct : project.unitNames.Nodup) (names : d.units.map (·.unit) = project.unitNames)
variable (parted : ∀ name ∈ project.unitNames, b.covers name = !a.covers name)
variable (first : d₁.units = d.units.filter fun e => a.covers e.unit)
variable (second : d₂.units = d.units.filter fun e => b.covers e.unit)
variable (ledger : s'.ledger = renewed s project (Plan.ofDiscovery s.ledger d₁))
include names parted first second ledger

/-- What the first pass records is not about the units of the second. -/
theorem get?_of_second {e : UnitDiscovery} (mem : e ∈ d₂.units) :
    s'.ledger.get? e.unit = s.ledger.get? e.unit := by
  rw [second, List.mem_filter] at mem
  have known : e.unit ∈ project.unitNames := names ▸ List.mem_map_of_mem mem.1
  have covered := (parted _ known).symm.trans mem.2
  rw [ledger]
  refine get?_renewed_undiscovered known fun e' mem' same => ?_
  rw [first, List.mem_filter, same] at mem'
  rw [mem'.2] at covered
  cases covered

/-- The second plan is what the plan for all units has for its units. -/
theorem units_of_second : (Plan.ofDiscovery s'.ledger d₂).units =
    (Plan.ofDiscovery s.ledger d).units.filter fun u => b.covers u.unit := by
  rw [← Plan.units_part s.ledger b.covers second]
  refine List.map_congr_left fun e mem => UnitPlan.ofDiscovery_congr _ ?_ ?_
  · rw [ledger, casing_renewed]
  · exact get?_of_second names parted first second ledger mem

include distinct

/-- The ledger after both passes is the one after a pass over all units. -/
theorem renewed_of_second : renewed s' project (Plan.ofDiscovery s'.ledger d₂) =
    renewed s project (Plan.ofDiscovery s.ledger d) := by
  have casing : s'.ledger.casing = s.ledger.casing := by rw [ledger, casing_renewed]
  have names₁ := names_of_part names first
  have names₂ := names_of_part names second
  have all : d.units.map (·.unit) = (project.covered .all).map (·.name) := by
    rw [names, Project.covered_all, Project.unitNames]
  refine ext_get? (by rw [casing_renewed, casing_renewed, casing]) fun name => ?_
  by_cases known : name ∈ project.unitNames
  · obtain ⟨e, mem, rfl⟩ : ∃ e ∈ d.units, e.unit = name := List.mem_map.mp (names ▸ known)
    rw [get?_renewed_discovered distinct all mem]
    cases whose : a.covers e.unit with
    | true =>
      have mine : e ∈ d₁.units := first ▸ List.mem_filter.mpr ⟨mem, whose⟩
      have out : ∀ e' ∈ d₂.units, e'.unit ≠ e.unit := by
        intro e' mem' same
        rw [second, List.mem_filter, same, parted _ known, whose] at mem'
        cases mem'.2
      rw [get?_renewed_undiscovered known out, ledger, get?_renewed_discovered distinct names₁ mine]
    | false =>
      have mine : e ∈ d₂.units := by
        rw [second, List.mem_filter, parted _ known, whose]
        exact ⟨mem, rfl⟩
      rw [get?_renewed_discovered distinct names₂ mine]
      exact recordedFor_congr casing (get?_of_second names parted first second ledger mine)
  · rw [get?_renewed, if_neg known, get?_renewed, if_neg known]

end
end
end Pass

namespace Memory
open Pass

/-! Saving twice -/

/-- Saving a ledger gets as far as its scratch file, and no further. -/
def Kinds.Halfway (k : Kinds) (p : Path) : Prop :=
  k (Ledger.scratchFor p).parts ≠ some .dir ∧
    (k.withFile (Ledger.scratchFor p).parts).openedAbove (Ledger.scratchFor p).parts p.parts =
      some .dir

section
variable {l : Ledger} {p : Path} {st x y : Memory} {reads : List (List Part)}

theorem halfway_iff (l : Ledger) (p : Path) (st : Memory) : Kinds.Halfway st.kindAt p ↔
    st.kindAt (Ledger.scratchFor p).parts ≠ some .dir ∧
      (st.drafted l p).kindAt p.parts = some .dir := by
  rw [Kinds.Halfway, kindAt_drafted]

theorem Matches.halfway_iff (h : Matches [p.parts, (Ledger.scratchFor p).parts] reads x y) :
    Kinds.Halfway x.kindAt p ↔ Kinds.Halfway y.kindAt p := by
  have drafts := h.kinds.putFile (Ledger.scratchFor p).parts
  rw [Kinds.Halfway, Kinds.Halfway, h.kindAt_eq (List.mem_cons_of_mem _ List.mem_cons_self),
    drafts _ (within_of_mem List.mem_cons_self)]

/-- Once saved, a ledger is saved again with the same success. -/
theorem halfway_save (l : Ledger) (p : Path) (st : Memory) :
    Kinds.Halfway (exec (l.save p : StateM Memory _) st).2.kindAt p ↔
      Kinds.Halfway st.kindAt p := by
  have kept {x : Memory} {kind : Kind} (room : x.kindAt (Ledger.scratchFor p).parts ≠ some .dir)
      (found : x.kindAt p.parts = some kind) : (x.drafted l p).kindAt p.parts = some kind :=
    keeps_drafted (K := fun _ => True) room _ _ trivial found
  rcases save_cases l p st with ⟨-, _, saved⟩ | ⟨room, dir, _, saved⟩ | ⟨room, other, time, saved⟩
  · rw [saved]
  · rw [saved, Memory.halfway_iff l, Memory.halfway_iff l]
    have file : (st.drafted l p).kindAt (Ledger.scratchFor p).parts ≠ some .dir := by
      rw [scratch_of_drafted]
      nofun
    exact iff_of_true ⟨file, kept file dir⟩ ⟨room, dir⟩
  · rw [saved, ← saved_eq, Memory.halfway_iff l, Memory.halfway_iff l]
    refine iff_of_false (fun again => ?_) fun half => other half.2
    have file := kept again.1 (ledger_of_saved time)
    rw [file] at again
    cases again.2

/-- What saving leaves at the scratch file. -/
theorem scratch_of_save (l : Ledger) (p : Path) (st : Memory) :
    (Kinds.Halfway st.kindAt p → (exec (l.save p : StateM Memory _) st).2.contentAt
      (Ledger.scratchFor p).parts = some (Ledger.encode l.units)) ∧
    (¬Kinds.Halfway st.kindAt p → (exec (l.save p : StateM Memory _) st).2.contentAt
      (Ledger.scratchFor p).parts = none) := by
  rw [Memory.halfway_iff l]
  rcases save_cases l p st with ⟨dir, _, saved⟩ | ⟨room, dir, _, saved⟩ | ⟨-, other, time, saved⟩
  · rw [saved]
    exact ⟨fun half => absurd dir half.1, fun _ => contentAt_of_kind (by simp [dir])⟩
  · rw [saved]
    refine ⟨fun _ => ?_, fun half => absurd ⟨room, dir⟩ half⟩
    rw [contentAt_drafted, if_pos rfl]
  · rw [saved, ← saved_eq]
    refine ⟨fun half => absurd half.2 other, fun _ => ?_⟩
    rw [contentAt_saved, if_neg (scratch_ne p), if_pos rfl]

/-- Saving the same ledger comes to the same at the scratch file. -/
theorem scratch_of_save_congr (same : Kinds.Halfway x.kindAt p ↔ Kinds.Halfway y.kindAt p) :
    (exec (l.save p : StateM Memory _) x).2.contentAt (Ledger.scratchFor p).parts =
      (exec (l.save p : StateM Memory _) y).2.contentAt (Ledger.scratchFor p).parts := by
  by_cases half : Kinds.Halfway x.kindAt p
  · rw [(scratch_of_save l p x).1 half, (scratch_of_save l p y).1 (same.mp half)]
  · rw [(scratch_of_save l p x).2 half, (scratch_of_save l p y).2 (mt same.mpr half)]

end
end Memory

namespace Pass
open Memory

/-! The trees that two passes leave -/

/-- One plan, and two parts of it with places of their own. -/
structure InTwo (p : Path) (mine : UnitPlan → Bool) (plan first second : Plan) : Prop where
  firstUnits : first.units = plan.units.filter mine
  secondUnits : second.units = plan.units.filter fun u => !mine u
  apart : Apart first.targets second.targets
  ledger : Apart plan.targets [p.parts, (Ledger.scratchFor p).parts]
  sources : SourcesClear p plan

theorem targets_subset_of_units {plan part : Plan} (sub : part.units ⊆ plan.units) :
    part.targets ⊆ plan.targets := by
  intro key target
  obtain ⟨u, mem, target⟩ := Plan.mem_targets_iff.mp target
  exact Plan.mem_targets_iff.mpr ⟨u, sub mem, target⟩

theorem append_subset_append {part whole : List (List Part)} (sub : part ⊆ whole)
    (own : List (List Part)) : part ++ own ⊆ whole ++ own :=
  List.append_subset.mpr ⟨List.Subset.trans sub (List.subset_append_left whole own),
    List.subset_append_right whole own⟩

/-- Of a whole plan, only a part decides what becomes of the places of that part. -/
theorem matches_staged {s s' : Stager NoTracking} {mine : UnitPlan → Bool} {plan part : Plan}
    {others reads : List (List Part)} {x y : Memory} (units : part.units = plan.units.filter mine)
    (elsewhere : ∀ u ∈ plan.units, mine u = false → u.targets ⊆ others)
    (apart : Apart part.targets others) (unread : ∀ key ∈ reads, key ∉ others)
    (sources : plan.sources ⊆ reads)
    (work : ∀ (t : Memory) (c : Candidate), t.payload s' c = t.payload s c)
    (h : Matches part.targets reads x y) :
    Matches part.targets reads (stagedUpTo s plan x plan.candidates).2
      (stagedUpTo s' part y part.candidates).2 := by
  have own : ∀ u ∈ plan.units, mine u = true → u.targets ⊆ part.targets := fun u mem mine key target =>
    Plan.mem_targets_iff.mpr ⟨u, units ▸ List.mem_filter.mpr ⟨mem, mine⟩, target⟩
  have deleted : Matches part.targets reads (stagedUpTo s plan x []).2 (stagedUpTo s' part y []).2 := by
    have parts : part.deletions = (plan.units.filter mine).flatMap (·.deletions) := by
      rw [Plan.deletions, units]
    rw [stagedUpTo, stagedUpTo, parts]
    refine h.sweep_parts (fun u mem whose path listed w v x y h => ?_)
      (fun u mem whose w x => ?_) _ _
    · exact h.deleteStep (own u mem whose (UnitPlan.target_of_deletion listed)) w v
    · refine .of_confined (.deleted (deleted_sweep u.deletions w x) fun path listed => ?_) apart unread
      exact elsewhere u mem whose (UnitPlan.target_of_deletion listed)
  have parts : part.candidates = (plan.units.filter mine).flatMap (·.candidates) := by
    rw [Plan.candidates, units]
  rw [stagedUpTo_eq s, stagedUpTo_eq s', parts]
  -- All deletions come before the candidates, so each list is gone through by its parts.
  refine deleted.sweep_parts (fun u mem whose c listed w v x y h => ?_)
    (fun u mem whose w x => ?_) _ _
  · refine h.stageStep (work y c) (own u mem whose (UnitPlan.target_of_candidate listed)) ?_ w v
    exact sources (List.mem_map_of_mem (List.mem_flatMap.mpr ⟨u, mem, listed⟩))
  · refine .of_confined (framed_sweep s w x fun c listed => ?_).1 apart unread
    exact elsewhere u mem whose (UnitPlan.target_of_candidate listed)

namespace InTwo

variable {s s' : Stager NoTracking} {mine : UnitPlan → Bool} {plan first second : Plan}
variable {st : Memory} {l : Ledger} (h : InTwo s.ledgerPath mine plan first second)
include h

theorem first_subset : first.targets ⊆ plan.targets :=
  targets_subset_of_units (h.firstUnits ▸ List.filter_sublist.subset)

theorem second_subset : second.targets ⊆ plan.targets :=
  targets_subset_of_units (h.secondUnits ▸ List.filter_sublist.subset)

/-- Every target belongs to one of the parts. -/
theorem first_or_second {key : List Part} (target : key ∈ plan.targets) :
    key ∈ first.targets ∨ key ∈ second.targets := by
  obtain ⟨u, mem, target⟩ := Plan.mem_targets_iff.mp target
  cases whose : mine u with
  | true =>
    exact .inl (Plan.mem_targets_iff.mpr ⟨u, h.firstUnits ▸ List.mem_filter.mpr ⟨mem, whose⟩, target⟩)
  | false =>
    refine .inr (Plan.mem_targets_iff.mpr ⟨u, ?_, target⟩)
    rw [h.secondUnits, List.mem_filter, whose]
    exact ⟨mem, rfl⟩

theorem unread {key : List Part} (read : key ∈ plan.sources) :
    key ∉ plan.targets ++ [s.ledgerPath.parts, (Ledger.scratchFor s.ledgerPath).parts] := by
  obtain ⟨c, mem, rfl⟩ := List.mem_map.mp read
  exact h.sources c mem

/-- What the first pass leaves at places of which it writes and saves nothing. -/
theorem matches_leftBy {places : List (List Part)} (apart : Apart places first.targets)
    (ledger : Apart places [s.ledgerPath.parts, (Ledger.scratchFor s.ledgerPath).parts]) :
    Matches places plan.sources st (leftBy s first st l) := by
  refine .of_confined (confined_leftBy s first st l) (apart.append ledger) fun key read mem => ?_
  exact h.unread read (append_subset_append h.first_subset _ mem)

variable (work : ∀ (t : Memory) (c : Candidate), t.payload s' c = t.payload s c)
include work

omit work in
/-- At the places of the first part, the whole pass comes to what the first pass does. -/
theorem matches_first : Matches first.targets plan.sources
    (stagedUpTo s plan st plan.candidates).2
    (stagedUpTo s' second (leftBy s first st l) second.candidates).2 := by
  have elsewhere : ∀ u ∈ plan.units, mine u = false → u.targets ⊆ second.targets := by
    intro u mem whose key target
    refine Plan.mem_targets_iff.mpr ⟨u, ?_, target⟩
    rw [h.secondUnits, List.mem_filter, whose]
    exact ⟨mem, rfl⟩
  have unread : ∀ key ∈ plan.sources, key ∉ second.targets := fun key read mem =>
    h.unread read (List.mem_append_left _ (h.second_subset mem))
  have staged : Matches first.targets plan.sources (stagedUpTo s plan st plan.candidates).2
      (stagedUpTo s first st first.candidates).2 :=
    matches_staged h.firstUnits elsewhere h.apart unread (List.Subset.refl _) (fun _ _ => rfl)
      (.refl _ _ st)
  have saved : Matches first.targets plan.sources (stagedUpTo s first st first.candidates).2
      (leftBy s first st l) := by
    refine .of_confined (framed_save l _ List.mem_cons_self
      (List.mem_cons_of_mem _ List.mem_cons_self)).1 (h.ledger.mono h.first_subset
        (List.Subset.refl _)) fun key read mem => ?_
    exact h.unread read (List.mem_append_right _ mem)
  exact (staged.trans saved).trans (.of_confined (confined_candidates s' second _) h.apart unread)

/-- At the places of the second part, it comes to what the second pass does. -/
theorem matches_second : Matches second.targets plan.sources
    (stagedUpTo s plan st plan.candidates).2
    (stagedUpTo s' second (leftBy s first st l) second.candidates).2 := by
  have elsewhere : ∀ u ∈ plan.units, (!mine u) = false → u.targets ⊆ first.targets := by
    intro u mem whose key target
    refine Plan.mem_targets_iff.mpr ⟨u, ?_, target⟩
    rw [h.firstUnits, List.mem_filter]
    exact ⟨mem, by simpa using whose⟩
  have unread : ∀ key ∈ plan.sources, key ∉ first.targets := fun key read mem =>
    h.unread read (List.mem_append_left _ (h.first_subset mem))
  exact matches_staged h.secondUnits elsewhere h.apart.symm unread (List.Subset.refl _) work
    (h.matches_leftBy h.apart.symm (h.ledger.mono h.second_subset (List.Subset.refl _)))

omit work in
/-- What is staged does not get in the way of saving. -/
theorem halfway_staged (s' : Stager NoTracking) {part : Plan} (sub : part.targets ⊆ plan.targets)
    (x : Memory) : Kinds.Halfway (stagedUpTo s' part x part.candidates).2.kindAt s.ledgerPath ↔
      Kinds.Halfway x.kindAt s.ledgerPath := by
  have apart : Apart [s.ledgerPath.parts, (Ledger.scratchFor s.ledgerPath).parts] part.targets :=
    h.ledger.symm.mono (List.Subset.refl _) sub
  have same : Matches _ [] x (stagedUpTo s' part x part.candidates).2 :=
    .of_confined (confined_candidates s' part x) apart nofun
  exact same.symm.halfway_iff

/-- What both passes leave at the targets is what the whole pass leaves there. -/
theorem contentAt_target (l₁ l : Ledger) (ledgerPath : s'.ledgerPath = s.ledgerPath)
    {key : List Part} (target : key ∈ plan.targets) :
    (leftBy s' second (leftBy s first st l₁) l).contentAt key =
      (leftBy s plan st l).contentAt key := by
  have out := h.ledger.not_mem target
  simp only [List.mem_cons, List.not_mem_nil, or_false, not_or] at out
  obtain ⟨other, scratch⟩ := out
  have staged : (stagedUpTo s plan st plan.candidates).2.contentAt key =
      (stagedUpTo s' second (leftBy s first st l₁) second.candidates).2.contentAt key := by
    rcases h.first_or_second target with mine | mine
    · exact h.matches_first.content key (List.mem_append_left _ mine)
    · exact (h.matches_second work).content key (List.mem_append_left _ mine)
  calc (leftBy s' second (leftBy s first st l₁) l).contentAt key
      = (stagedUpTo s' second (leftBy s first st l₁) second.candidates).2.contentAt key :=
        save_content l _ (ledgerPath ▸ other) (ledgerPath ▸ scratch)
    _ = (stagedUpTo s plan st plan.candidates).2.contentAt key := staged.symm
    _ = (leftBy s plan st l).contentAt key := (save_content l _ other scratch).symm

omit work in
/-- A scratch file is left behind by both passes just when the whole pass leaves one. -/
theorem contentAt_scratch (l₁ l : Ledger) (ledgerPath : s'.ledgerPath = s.ledgerPath) :
    (leftBy s' second (leftBy s first st l₁) l).contentAt (Ledger.scratchFor s.ledgerPath).parts =
      (leftBy s plan st l).contentAt (Ledger.scratchFor s.ledgerPath).parts := by
  have saves : Kinds.Halfway (stagedUpTo s' second (leftBy s first st l₁)
        second.candidates).2.kindAt s.ledgerPath ↔
      Kinds.Halfway (stagedUpTo s plan st plan.candidates).2.kindAt s.ledgerPath := by
    rw [h.halfway_staged s' h.second_subset, leftBy, halfway_save,
      h.halfway_staged s h.first_subset, h.halfway_staged s (List.Subset.refl _)]
  rw [leftBy, ledgerPath]
  exact scratch_of_save_congr saves

omit work in
/-- Neither both passes nor the whole pass change any other content. -/
theorem contentAt_elsewhere (l₁ l : Ledger) (ledgerPath : s'.ledgerPath = s.ledgerPath)
    {key : List Part} (out : key ∉ plan.targets ++
      [s.ledgerPath.parts, (Ledger.scratchFor s.ledgerPath).parts]) :
    (leftBy s' second (leftBy s first st l₁) l).contentAt key =
      (leftBy s plan st l).contentAt key := by
  have aside {part : Plan} (sub : part.targets ⊆ plan.targets) : key ∉ part.targets ++
      [s.ledgerPath.parts, (Ledger.scratchFor s.ledgerPath).parts] :=
    fun mem => out (append_subset_append sub _ mem)
  have later := (confined_leftBy s' second (leftBy s first st l₁) l).content key
  rw [ledgerPath] at later
  calc (leftBy s' second (leftBy s first st l₁) l).contentAt key
      = (leftBy s first st l₁).contentAt key := later (aside h.second_subset)
    _ = st.contentAt key := (confined_leftBy s first st l₁).content key (aside h.first_subset)
    _ = (leftBy s plan st l).contentAt key := ((confined_leftBy s plan st l).content key out).symm

/-- After both passes all contents are those after the whole pass, but for the ledger's own. -/
theorem contentAt_leftBy (l₁ l : Ledger) (ledgerPath : s'.ledgerPath = s.ledgerPath)
    {key : List Part} (other : key ≠ s.ledgerPath.parts) :
    (leftBy s' second (leftBy s first st l₁) l).contentAt key =
      (leftBy s plan st l).contentAt key := by
  by_cases target : key ∈ plan.targets
  · exact h.contentAt_target work l₁ l ledgerPath target
  · by_cases scratch : key = (Ledger.scratchFor s.ledgerPath).parts
    · rw [scratch]
      exact h.contentAt_scratch l₁ l ledgerPath
    · refine h.contentAt_elsewhere l₁ l ledgerPath ?_
      simp only [List.mem_append, List.mem_cons, List.not_mem_nil, or_false, not_or]
      exact ⟨target, other, scratch⟩

end InTwo

/-! The passes -/

/-- A pass over one scope, and then one over another. -/
def runInTurn {m : Type → Type} [Monad m] [FileSystem m] {τ : Type} [Tracker τ] (s : Stager τ)
    (project : Project) (a b : Scope) : m (Stager τ) := do
  let (_, s) ← run s project a
  let (_, s) ← run s project b
  return s

theorem exec_runInTurn {m : Type → Type} {σ τ : Type} [Monad m] [Stateful m σ] [FileSystem m]
    [Tracker τ] (s : Stager τ) (project : Project) (a b : Scope) (st : σ) :
    exec (runInTurn s project a b : m _) st =
      let first := exec (run s project a : m _) st
      let second := exec (run first.1.2 project b : m _) first.2
      (second.1.2, second.2) := by
  rw [runInTurn, exec_bind, exec_bind, exec_pure]

/-- Two passes in turn, and the stager between them. -/
structure InTurn (s s₁ : Stager NoTracking) (project : Project) (a b : Scope) (st : Memory)
    (d d₁ d₂ : Discovery) : Prop where
  first : d₁.units = d.units.filter fun e => a.covers e.unit
  second : d₂.units = d.units.filter fun e => b.covers e.unit
  ledger : s₁.ledger = renewed s project (Plan.ofDiscovery s.ledger d₁)
  ledgerPath : s₁.ledgerPath = s.ledgerPath
  work (t : Memory) (c : Candidate) : t.payload s₁ c = t.payload s c
  recorded : (exec (runInTurn s project a b : StateM Memory _) st).1.ledger =
    renewed s₁ project (Plan.ofDiscovery s₁.ledger d₂)
  left : (exec (runInTurn s project a b : StateM Memory _) st).2 =
    leftBy s₁ (Plan.ofDiscovery s₁.ledger d₂)
      (leftBy s (Plan.ofDiscovery s.ledger d₁) st
        (renewed s project (Plan.ofDiscovery s.ledger d₁)))
      (renewed s₁ project (Plan.ofDiscovery s₁.ledger d₂))

/-- The scopes share out the units. What is written or deleted for their units lies apart, and clear
of the ledger, and none of that is read. -/
structure Parted (s : Stager NoTracking) (project : Project) (a b : Scope) (plan : Plan) : Prop where
  units : ∀ u ∈ project.units, b.covers u.name = !a.covers u.name
  apart : ∀ u ∈ plan.units, ∀ v ∈ plan.units, a.covers u.unit = true → b.covers v.unit = true →
    Apart u.targets v.targets
  ledger : LedgerApart s.ledgerPath plan
  unread : Unread project .all
    (plan.targets ++ [s.ledgerPath.parts, (Ledger.scratchFor s.ledgerPath).parts])

instance (s : Stager NoTracking) (project : Project) (a b : Scope) (plan : Plan) :
    Decidable (Parted s project a b plan) :=
  decidable_of_iff
    ((∀ u ∈ project.units, b.covers u.name = !a.covers u.name) ∧
      (∀ u ∈ plan.units, ∀ v ∈ plan.units, a.covers u.unit = true → b.covers v.unit = true →
        Apart u.targets v.targets) ∧
      LedgerApart s.ledgerPath plan ∧
      Unread project .all
        (plan.targets ++ [s.ledgerPath.parts, (Ledger.scratchFor s.ledgerPath).parts]))
    ⟨fun ⟨units, apart, ledger, unread⟩ => ⟨units, apart, ledger, unread⟩,
      fun ⟨units, apart, ledger, unread⟩ => ⟨units, apart, ledger, unread⟩⟩

theorem Unread.all {project : Project} {places : List (List Part)}
    (h : Unread project .all places) (scope : Scope) : Unread project scope places where
  trees u covered := h.trees u (project.covered_all.symm ▸ (Project.mem_covered.mp covered).1)
  filters u covered := h.filters u (project.covered_all.symm ▸ (Project.mem_covered.mp covered).1)

section
variable {s : Stager NoTracking} {project : Project} {a b : Scope} {st : Memory}
variable {d d₁ : Discovery}

theorem Parted.symm {plan : Plan} (h : Parted s project a b plan) : Parted s project b a plan where
  units u mem := by rw [h.units u mem, Bool.not_not]
  apart u mem v mem' here there := (h.apart v mem' u mem there here).symm
  ledger := h.ledger
  unread := h.unread

/-- The plans of the two passes are parts of the plan for all units. -/
theorem Parted.inTwo {plan first second : Plan} (h : Parted s project a b plan)
    (known : ∀ u ∈ plan.units, u.unit ∈ project.unitNames)
    (firstUnits : first.units = plan.units.filter fun u => a.covers u.unit)
    (secondUnits : second.units = plan.units.filter fun u => b.covers u.unit)
    (sources : SourcesClear s.ledgerPath plan) :
    InTwo s.ledgerPath (fun u => a.covers u.unit) plan first second where
  firstUnits := firstUnits
  secondUnits := by
    rw [secondUnits]
    refine List.filter_congr fun u mem => ?_
    obtain ⟨v, listed, name⟩ := List.mem_map.mp (known u mem)
    rw [← name]
    exact h.units v listed
  apart := by
    intro key target other target'
    obtain ⟨u, mem, target⟩ := Plan.mem_targets_iff.mp target
    obtain ⟨v, mem', target'⟩ := Plan.mem_targets_iff.mp target'
    rw [firstUnits, List.mem_filter] at mem
    rw [secondUnits, List.mem_filter] at mem'
    exact h.apart u mem.1 v mem'.1 mem.2 mem'.2 key target other target'
  ledger := h.ledger
  sources := sources

theorem Parted.covers {plan : Plan} (h : Parted s project a b plan) {name : String}
    (known : name ∈ project.unitNames) : b.covers name = !a.covers name := by
  obtain ⟨u, mem, rfl⟩ := List.mem_map.mp known
  exact h.units u mem

section
variable (discovered : exec (Discovery.ofProject project .all :
  ExceptT Cancelled (StateM Memory) _).run st = (.ok d, st))
include discovered

theorem names_of_all : d.units.map (·.unit) = project.unitNames := by
  rw [Discovery.units_ofProject discovered, Project.covered_all, Project.unitNames]

/-- A discovery over a scope finds its units as the discovery of all units does. -/
theorem discovered_scope (scope : Scope) :
    ∃ d', exec (Discovery.ofProject project scope : ExceptT Cancelled (StateM Memory) _).run st =
      (.ok d', st) ∧ d'.units = d.units.filter fun e => scope.covers e.unit := by
  refine Discovery.discovered_part (looks (· = st)) scope.covers ?_ discovered
  rw [Project.covered_all, Project.covered]

/-- The second discovery, where a pass over the first scope leaves off. -/
theorem discovered_second (named : st.Named)
    (parted : Parted s project a b (Plan.ofDiscovery s.ledger d))
    (first : d₁.units = d.units.filter fun e => a.covers e.unit) (l : Ledger) :
    ∃ d', exec (Discovery.ofProject project b : ExceptT Cancelled (StateM Memory) _).run
        (leftBy s (Plan.ofDiscovery s.ledger d₁) st l) =
          (.ok d', leftBy s (Plan.ofDiscovery s.ledger d₁) st l) ∧
      d'.units = d.units.filter fun e => b.covers e.unit := by
  have sub : (Plan.ofDiscovery s.ledger d₁).targets ⊆ (Plan.ofDiscovery s.ledger d).targets := by
    refine targets_subset_of_units ?_
    rw [Plan.units_part s.ledger a.covers first]
    exact List.filter_sublist.subset
  have confined := (confined_leftBy s (Plan.ofDiscovery s.ledger d₁) st l).mono
    (append_subset_append sub _)
  obtain ⟨d', discovered', units⟩ := discovered_scope discovered b
  obtain ⟨d₂, discovered₂, same⟩ := units_of_sources named
    (fun u covered => sameSources_of_confined (parted.unread.all b) confined covered) discovered'
  exact ⟨d₂, discovered₂, same.trans units⟩

theorem inTurn_of_parted (named : st.Named)
    (parted : Parted s project a b (Plan.ofDiscovery s.ledger d)) :
    ∃ s₁ d₁ d₂, InTurn s s₁ project a b st d d₁ d₂ := by
  obtain ⟨d₁, discovered₁, first⟩ := discovered_scope discovered a
  obtain ⟨d₂, discovered₂, second⟩ := discovered_second discovered named parted first
    (renewed s project (Plan.ofDiscovery s.ledger d₁))
  obtain ⟨carried, left, -⟩ := carried_by_run (s := s) discovered₁
  have ended := exec_runInTurn (m := StateM Memory) s project a b st
  -- Only what the first pass carries over and leaves behind matters from here on.
  generalize exec (run s project a : StateM Memory _) st = ran at carried left ended
  obtain ⟨⟨r, s₁⟩, x⟩ := ran
  simp only at carried left ended
  subst left
  obtain ⟨carried₁, left₁, -⟩ := carried_by_run (s := s₁) discovered₂
  refine ⟨s₁, d₁, d₂, ?_⟩
  exact {
    first
    second
    ledger := by rw [carried]
    ledgerPath := by rw [carried]
    work := fun t c => by
      rw [carried]
      exact payload_carried t s _ _ c
    recorded := by rw [ended, carried₁]
    left := by rw [ended, left₁] }

/-- One order of the passes. -/
theorem composed_in_turn (distinct : project.unitNames.Nodup) (named : st.Named)
    (parted : Parted s project a b (Plan.ofDiscovery s.ledger d)) :
    let whole := exec (run s project .all : StateM Memory _) st
    let both := exec (runInTurn s project a b : StateM Memory _) st
    (∀ p : Path, p.same s.ledgerPath = false → both.2.content? p = whole.2.content? p) ∧
      both.1.ledger = whole.1.2.ledger := by
  have names := names_of_all discovered
  obtain ⟨s₁, d₁, d₂, turns⟩ := inTurn_of_parted discovered named parted
  obtain ⟨carried, left, -⟩ := carried_by_run (s := s) discovered
  have ledger := renewed_of_second distinct names (fun _ => parted.covers) turns.first turns.second
    turns.ledger
  have two : InTwo s.ledgerPath (fun u => a.covers u.unit) (Plan.ofDiscovery s.ledger d)
      (Plan.ofDiscovery s.ledger d₁) (Plan.ofDiscovery s₁.ledger d₂) := by
    refine parted.inTwo (fun u mem => ?_) (Plan.units_part s.ledger a.covers turns.first)
      (units_of_second names (fun _ => parted.covers) turns.first turns.second turns.ledger)
      (sourcesClear_of_unread discovered parted.unread)
    rw [← names, ← units_ofDiscovery s.ledger]
    exact List.mem_map_of_mem mem
  intro whole both
  constructor
  · intro p other
    have apart : p.parts ≠ s.ledgerPath.parts :=
      fun same => Bool.eq_false_iff.mp other (same_iff.mpr same)
    simp only [whole, both]
    rw [turns.left, left, ledger, content?_eq, content?_eq]
    exact two.contentAt_leftBy turns.work _ _ turns.ledgerPath apart
  · simp only [whole, both]
    rw [turns.recorded, ledger, carried]

end

/-- With distinct names, a pass over one scope and a pass over the other, in either order, leave all
contents but the ledger's and the ledger itself as a pass over all units does. -/
theorem composed_of_parted (distinct : project.unitNames.Nodup) (made : st.Made)
    (discovered : exec (Discovery.ofProject project .all :
      ExceptT Cancelled (StateM Memory) _).run st = (.ok d, st))
    (parted : Parted s project a b (Plan.ofDiscovery s.ledger d)) :
    let whole := exec (run s project .all : StateM Memory _) st
    let there := exec (runInTurn s project a b : StateM Memory _) st
    let back := exec (runInTurn s project b a : StateM Memory _) st
    (∀ p : Path, p.same s.ledgerPath = false →
      there.2.content? p = whole.2.content? p ∧ back.2.content? p = whole.2.content? p) ∧
    there.1.ledger = whole.1.2.ledger ∧ back.1.ledger = whole.1.2.ledger := by
  intro whole there back
  obtain ⟨content, ledger⟩ := composed_in_turn discovered distinct made.named parted
  obtain ⟨content', ledger'⟩ := composed_in_turn discovered distinct made.named parted.symm
  exact ⟨fun p other => ⟨content p other, content' p other⟩, ledger, ledger'⟩

/-- Each of the two units has something to delete and something to stage. -/
theorem composed_of_parted_sample :
    let whole := exec (run Sample.tidying Sample.pair .all : StateM Memory _) Sample.untidyTree
    let there := exec (runInTurn Sample.tidying Sample.pair (.only ["app"]) (.only ["web"]) :
      StateM Memory _) Sample.untidyTree
    let back := exec (runInTurn Sample.tidying Sample.pair (.only ["web"]) (.only ["app"]) :
      StateM Memory _) Sample.untidyTree
    (whole.1.1.deleted = ["out/x.txt", "out/y.txt"] ∧
      whole.1.1.processed.map (·.output) = ["out/a.txt", "out/sub/deep/b.txt", "pub/w.txt"]) ∧
    (∀ p : Path, p.same Sample.tidying.ledgerPath = false →
      there.2.content? p = whole.2.content? p ∧ back.2.content? p = whole.2.content? p) ∧
    there.1.ledger = whole.1.2.ledger ∧ back.1.ledger = whole.1.2.ledger := by
  have made : Sample.untidyTree.Made :=
    .addFile _ _ (.addFile _ _ (.addFile _ _ (.addFile _ _ (.addFile _ _ .empty))))
  obtain ⟨d, discovered⟩ := exec_ofProject Sample.pair .all Sample.untidyTree
  have parted : ((exec (Discovery.ofProject Sample.pair .all :
      ExceptT Cancelled (StateM Memory) _).run Sample.untidyTree).1.toOption.all fun d =>
        decide (Parted Sample.tidying Sample.pair (.only ["app"]) (.only ["web"])
          (Plan.ofDiscovery Sample.tidying.ledger d))) = true := by
    decide +kernel
  rw [discovered] at parted
  intro whole there back
  have reported : whole.1.1.deleted = ["out/x.txt", "out/y.txt"] ∧
      whole.1.1.processed.map (·.output) = ["out/a.txt", "out/sub/deep/b.txt", "pub/w.txt"] := by
    decide +kernel
  exact ⟨reported, composed_of_parted (by decide) made discovered (of_decide_eq_true parted)⟩

end
end Pass
end Staging
