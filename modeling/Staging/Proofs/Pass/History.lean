import Staging.Proofs.Discovery.Outputs
import Staging.Proofs.Pass.Forecast
import Staging.Proofs.Tracker

/-!
What passes leave to later ones. A stager may go through any passes, completed or cancelled, over
files that change in any way between them; its history are the outputs that it came to delete and
the items that it staged. An item is skipped if and only if its stamp is known, its output is there
when its turn comes, and the last event at this output has staged an item with the same stamp.
-/
namespace Staging

namespace Polls

/-- So many of some turns come, each after a poll: the polls before these are calm, and the one before
the next turn is not. -/
structure Comes (p : Polls) (turns reached : Nat) : Prop where
  le : reached ≤ turns
  calm : p.Calm reached
  stopped : reached < turns → p.raised (p.made + reached) = true

variable {p : Polls} {turns reached reached' : Nat}

theorem Comes.not_lt (h : p.Comes turns reached) (h' : p.Comes turns reached') :
    ¬reached < reached' := by
  intro less
  have seen := h.stopped (Nat.lt_of_lt_of_le less h'.le)
  rw [h'.calm reached less] at seen
  cases seen

theorem Comes.unique (h : p.Comes turns reached) (h' : p.Comes turns reached') :
    reached = reached' :=
  Nat.le_antisymm (Nat.le_of_not_lt (h'.not_lt h)) (Nat.le_of_not_lt (h.not_lt h'))

theorem Alarm.comes (h : p.Alarm reached) (less : reached < turns) : p.Comes turns reached :=
  ⟨Nat.le_of_lt less, h.calm, fun _ => h.seen⟩

theorem Calm.comes (h : p.Calm turns) : p.Comes turns turns :=
  ⟨Nat.le_refl _, h, fun less => absurd less (Nat.lt_irrefl _)⟩

end Polls

/-- The part of a plan whose turn comes: all deletions come before the candidates, and no poll before
one of these finds the flag raised. -/
structure Plan.Reached (plan : Plan) (p : Polls) (deletions : List String)
    (items : List Candidate) : Prop where
  front : deletions <+: plan.deletions
  start : items <+: plan.candidates
  inOrder : items = [] ∨ deletions = plan.deletions
  comes : p.Comes (plan.deletions.length + plan.candidates.length)
    (deletions.length + items.length)

theorem Plan.Reached.unique {plan : Plan} {p : Polls} {deletions deletions' : List String}
    {items items' : List Candidate} (h : plan.Reached p deletions items)
    (h' : plan.Reached p deletions' items') : deletions = deletions' ∧ items = items' := by
  have total := h.comes.unique h'.comes
  have bound := h.front.length_le
  have bound' := h'.front.length_le
  have full := h.inOrder.imp (congrArg List.length) (congrArg List.length)
  have full' := h'.inOrder.imp (congrArg List.length) (congrArg List.length)
  rw [List.length_nil] at full full'
  -- The polls fix only how many turns come; no item has its turn before the last deletion.
  have same : deletions.length = deletions'.length := by omega
  have same' : items.length = items'.length := by omega
  constructor
  · exact (List.prefix_of_prefix_length_le h.front h'.front same.le).eq_of_length same
  · exact (List.prefix_of_prefix_length_le h.start h'.start same'.le).eq_of_length same'

/-- The events of a pass. A deletion whose turn comes clears its output, whatever it meets; of the
items only those that are processed make an event. -/
def Event.inPass (ends : List (String × DeletionFate)) (items : List (Candidate × ItemFate)) :
    List Event :=
  ends.map (fun x => .cleared x.1) ++ (items.filterMap ItemFate.processed?).map .staged

namespace Pass
open Polls

section
variable (m : Type → Type) {σ τ : Type} [Monad m] [Stateful m σ] [FileSystem m]

section
variable [Tracker τ]

/-- The record of a pass and the files after these deletions and then these candidates. -/
def reachedFrom (s : Stager τ) (st : σ) (deletions : List String) (items : List Candidate) :
    Applied τ × σ :=
  sweepFrom (stageStep s : Applied τ → Candidate → m (Applied τ)) items
    (deletedFrom m s st deletions).1 (deletedFrom m s st deletions).2

/-- The deletions and candidates of a plan whose turn comes, with what each of them meets after those
before it. -/
structure Turns (s : Stager τ) (plan : Plan) (found : Polls × σ)
    (ends : List (String × DeletionFate)) (items : List (Candidate × ItemFate)) : Prop where
  reached : plan.Reached found.1 (ends.map (·.1)) (items.map (·.1))
  deletes (before : List (String × DeletionFate)) (path : String) (fate : DeletionFate)
    (after : List (String × DeletionFate)) : ends = before ++ (path, fate) :: after →
    Deletes m (deletedFrom m s found.2 (before.map (·.1))).2 path fate
  stages (before : List (Candidate × ItemFate)) (item : Candidate) (fate : ItemFate)
    (after : List (Candidate × ItemFate)) : items = before ++ (item, fate) :: after →
    Stages m s (reachedFrom m s found.2 (ends.map (·.1)) (before.map (·.1))).1
      (reachedFrom m s found.2 (ends.map (·.1)) (before.map (·.1))).2 item fate

/-- What happens in a pass: nothing if it is cancelled while it discovers, otherwise the turns of what
it plans. -/
inductive Passed (s : Stager τ) (project : Project) (scope : Scope) (t : Polls × σ) :
    List (String × DeletionFate) → List (Candidate × ItemFate) → Prop
  | undiscovered (found : Polls × σ) :
    exec (Discovery.ofProject project scope : ExceptT Cancelled (StateT Polls m) _).run t =
      (.error {}, found) →
    Passed s project scope t [] []
  | discovered (d : Discovery) (found : Polls × σ) (ends : List (String × DeletionFate))
      (items : List (Candidate × ItemFate)) :
    exec (Discovery.ofProject project scope : ExceptT Cancelled (StateT Polls m) _).run t =
      (.ok d, found) →
    Turns m s (Plan.ofDiscovery s.ledger d) found ends items → Passed s project scope t ends items

end

/-- A stager after any passes, from one that knows of nothing, with its history. Each pass may find
the files in any state and its flag raised at any poll. -/
inductive Session : List Event → Stager Stamps → Prop
  | start (s : Stager Stamps) : s.tracker = .empty → Session [] s
  | pass {history : List Event} {s s' : Stager Stamps} {project : Project} {scope : Scope}
      {t t' : Polls × σ} {r : Report} {ends : List (String × DeletionFate)}
      {items : List (Candidate × ItemFate)} : Session history s →
    exec (run s project scope : StateT Polls m _) t = ((r, s'), t') →
    Passed m s project scope t ends items → Session (history ++ Event.inPass ends items) s'

/-- The time of the source was told in a state with `inv`; it is the one in the stamp, and not the one
that stands for an unknown time. -/
def Dated (inv : σ → Prop) (item : Candidate) : Prop :=
  ∃ st time, inv st ∧ (exec (FileSystem.modified item.source : m _) st).1 = .ok time ∧
    item.stamp.time = time ∧ time ≠ Stamp.unknownTime

end

variable {m : Type → Type} {σ τ : Type} [Monad m] [Stateful m σ] [FileSystem m]

/-! What a turn does to the record -/

section
variable [Tracker τ] {s : Stager τ} {w : Applied τ} {st : σ} {item : Candidate}

theorem isCurrent_iff (w : Applied τ) (item : Candidate) (st : σ) :
    (exec (isCurrent w item : m Bool) st).1 = true ↔
      Tracker.isCurrent w.tracker item = true ∧
        (exec (FileSystem.isPresent ⟨item.output⟩ : m Bool) st).1 = true := by
  unfold isCurrent
  split
  · rename_i current
    simp [current]
  · rename_i other
    simp [other]

namespace Stages

variable {fate fate' : ItemFate}

theorem skipped_iff (h : Stages m s w st item fate) :
    fate = .skipped ↔ (exec (isCurrent w item : m Bool) st).1 = true := by
  cases h with
  | processed other staged => simp [other]
  | skipped current => simp [current]
  | failed e other failed => simp [other]

theorem unique (h : Stages m s w st item fate) (h' : Stages m s w st item fate') :
    fate = fate' := by
  cases h <;> cases h' <;> simp_all

theorem noted (h : Stages m s w st item fate) :
    (exec (stageStep s w item : m _) st).1 = fate.note w item := by
  obtain ⟨fate', met, noted⟩ := stageStep_fate (m := m) s w item st
  rwa [met.unique h] at noted

end Stages

variable {plan : Plan} {found : Polls × σ} {ends : List (String × DeletionFate)}
variable {items before after : List (Candidate × ItemFate)}

/-- The record after some turns notes their fates. -/
theorem Turns.noted (h : Turns m s plan found ends items) (whole : items = before ++ after) :
    (reachedFrom m s found.2 (ends.map (·.1)) (before.map (·.1))).1 =
      before.foldl (fun w x => x.2.note w x.1) (deletedFrom m s found.2 (ends.map (·.1))).1 := by
  induction before using List.reverseRecOn generalizing after with
  | nil => rfl
  | append_singleton before x ih =>
    rw [List.append_assoc, List.singleton_append] at whole
    rw [List.map_append, List.map_singleton, reachedFrom, sweepFrom_concat, ← reachedFrom,
      (h.stages before x.1 x.2 after whole).noted, ih whole, List.foldl_append, List.foldl_cons,
      List.foldl_nil]

theorem deletedFrom_reports (s : Stager τ) (st : σ) (deletions : List String) :
    (deletedFrom m s st deletions).1.processed = [] ∧
      (deletedFrom m s st deletions).1.skipped = [] := by
  obtain ⟨ends, -, noted, -⟩ := sweepFrom_fates (deleteStep_fate (m := m)) deletions
    ({ tracker := s.tracker } : Applied τ) st
  obtain ⟨-, -, processed, skipped⟩ := noted_deletions ends ({ tracker := s.tracker } : Applied τ)
  rw [deletedFrom, noted]
  exact ⟨processed, skipped⟩

/-- The record has what was processed and what was skipped. -/
theorem Turns.reports (h : Turns m s plan found ends items) :
    let w := (reachedFrom m s found.2 (ends.map (·.1)) (items.map (·.1))).1
    w.processed = items.filterMap ItemFate.processed? ∧
      w.skipped = items.filterMap ItemFate.skipped? := by
  intro w
  obtain ⟨processed, skipped⟩ := deletedFrom_reports (m := m) s found.2 (ends.map (·.1))
  obtain ⟨processed', skipped', -⟩ :=
    noted_items items (deletedFrom m s found.2 (ends.map (·.1))).1
  rw [← h.noted (List.append_nil items).symm] at processed' skipped'
  rw [processed, List.nil_append] at processed'
  rw [skipped, List.nil_append] at skipped'
  exact ⟨processed', skipped'⟩

/-- Whatever part of a plan is reached, each of its turns meets something. -/
theorem turns_of_reached {deletions : List String} {candidates : List Candidate} (s : Stager τ)
    (reached : plan.Reached found.1 deletions candidates) :
    ∃ ends items, ends.map (·.1) = deletions ∧ items.map (·.1) = candidates ∧
      Turns m s plan found ends items := by
  obtain ⟨ends, rfl, -, deletes⟩ := sweepFrom_fates (deleteStep_fate (m := m)) deletions
    ({ tracker := s.tracker } : Applied τ) found.2
  obtain ⟨items, rfl, -, stages⟩ := sweepFrom_fates (stageStep_fate (m := m) s) candidates
    (deletedFrom m s found.2 (ends.map (·.1))).1 (deletedFrom m s found.2 (ends.map (·.1))).2
  exact ⟨ends, items, rfl, rfl, reached, deletes, stages⟩

end

/-! What the tracker is told -/

section
variable {history : List Event}

theorem follows_deletedFrom {s : Stager Stamps} (h : s.tracker.Follows history) (st : σ)
    (deletions : List String) :
    (deletedFrom m s st deletions).1.tracker.Follows (history ++ deletions.map .cleared) := by
  refine sweepFrom_invariant (m := m) (σ := σ)
    (fun done (w : Applied Stamps) _ => w.tracker.Follows (history ++ done.map .cleared))
    ?_ fun done path rest w st _ holds => ?_
  · rwa [List.map_nil, List.append_nil]
  · obtain ⟨fate, -, noted⟩ := deleteStep_fate (m := m) w path st
    rw [noted, List.map_append, ← List.append_assoc]
    exact holds.cleared path

theorem follows_noted {w : Applied Stamps} (h : w.tracker.Follows history)
    (items : List (Candidate × ItemFate)) :
    Stamps.Follows (items.foldl (fun w x => x.2.note w x.1) w).tracker
      (history ++ (items.filterMap ItemFate.processed?).map .staged) := by
  induction items generalizing w history with
  | nil => simpa using h
  | cons x items ih =>
    obtain ⟨item, fate⟩ := x
    cases fate with
    | processed =>
      have next := ih (w := ItemFate.note w item .processed) (h.staged item)
      rw [List.append_assoc] at next
      exact next
    | skipped => exact ih (w := ItemFate.note w item .skipped) h
    | failed e => exact ih (w := ItemFate.note w item (.failed e)) h

/-- At every turn of a pass the tracker knows what has happened so far. -/
theorem Turns.follows {s : Stager Stamps} {plan : Plan} {found : Polls × σ}
    {ends : List (String × DeletionFate)} {items before after : List (Candidate × ItemFate)}
    (turns : Turns m s plan found ends items) (h : s.tracker.Follows history)
    (whole : items = before ++ after) :
    (reachedFrom m s found.2 (ends.map (·.1)) (before.map (·.1))).1.tracker.Follows
      (history ++ Event.inPass ends before) := by
  have cleared := follows_deletedFrom (m := m) h found.2 (ends.map (·.1))
  rw [turns.noted whole, Event.inPass, ← List.append_assoc]
  rw [List.map_map] at cleared
  exact follows_noted cleared before

end

/-! Passes -/

section
variable [LawfulMonad m] [Tracker τ] {s s' : Stager τ} {project : Project} {scope : Scope}
variable {t t' : Polls × σ} {r : Report}

/-- What a pass reaches of its plan, and what it makes of it. -/
theorem reached_of_run {d : Discovery} {found : Polls × σ}
    (ran : exec (run s project scope : StateT Polls m _) t = ((r, s'), t'))
    (discovered : exec (Discovery.ofProject project scope :
      ExceptT Cancelled (StateT Polls m) _).run t = (.ok d, found)) :
    let plan := Plan.ofDiscovery s.ledger d
    ∃ deletions items, plan.Reached found.1 deletions items ∧
      s'.tracker = (reachedFrom m s found.2 deletions items).1.tracker ∧
      (r.outcome = .completed → ∃ saved,
        r = completedReport s project plan (reachedFrom m s found.2 deletions items).1 saved) := by
  intro plan
  have taken : Course m s project scope t ((r, s'), t') := ran ▸ course s project scope t
  cases taken with
  | discovering _ failed => cases failed.symm.trans discovered
  | deleting d' found' done x rest discovered' whole alarm =>
    cases discovered'.symm.trans discovered
    have less : done.length < plan.deletions.length := by simp [plan, whole]
    refine ⟨done, [], ⟨⟨x :: rest, whole.symm⟩, List.nil_prefix, .inl rfl, ?_⟩, rfl, nofun⟩
    exact alarm.comes (Nat.lt_of_lt_of_le less (Nat.le_add_right _ _))
  | staging d' plan' found' done item rest discovered' planned whole alarm =>
    cases discovered'.symm.trans discovered
    subst planned
    have less : done.length < plan.candidates.length := by simp [plan, whole]
    refine ⟨plan.deletions, done, ⟨List.prefix_refl _, ⟨item :: rest, whole.symm⟩, .inr rfl, ?_⟩,
      rfl, nofun⟩
    exact alarm.comes (Nat.add_lt_add_left less _)
  | finished d' plan' found' result st discovered' planned calm ended =>
    cases discovered'.symm.trans discovered
    subst planned
    rw [exec_finish, Prod.mk.injEq, Prod.mk.injEq] at ended
    obtain ⟨⟨rfl, rfl⟩, -⟩ := ended
    exact ⟨plan.deletions, plan.candidates,
      ⟨List.prefix_refl _, List.prefix_refl _, .inr rfl, calm.comes⟩, rfl, fun _ => ⟨_, rfl⟩⟩

omit [LawfulMonad m] in
theorem kept_of_undiscovered {found : Polls × σ}
    (ran : exec (run s project scope : StateT Polls m _) t = ((r, s'), t'))
    (stopped : exec (Discovery.ofProject project scope :
      ExceptT Cancelled (StateT Polls m) _).run t = (.error {}, found)) :
    r = .cancelled ∧ s' = s := by
  rw [run, exec_bind, stopped] at ran
  simp only [exec_pure, Prod.mk.injEq] at ran
  exact ⟨ran.1.1.symm, ran.1.2.symm⟩

/-- Every pass has its turns, and a completed one reports what became of them. -/
theorem passed_of_run (ran : exec (run s project scope : StateT Polls m _) t = ((r, s'), t')) :
    ∃ ends items, Passed m s project scope t ends items ∧
      (r.outcome = .completed → r.processed = items.filterMap ItemFate.processed? ∧
        r.skipped = items.filterMap ItemFate.skipped?) := by
  rcases discovered : exec (Discovery.ofProject project scope :
    ExceptT Cancelled (StateT Polls m) _).run t with ⟨⟨⟩ | d, found⟩
  · refine ⟨[], [], .undiscovered found discovered, ?_⟩
    rw [(kept_of_undiscovered ran discovered).1]
    nofun
  · obtain ⟨deletions, candidates, reached, -, completed⟩ := reached_of_run ran discovered
    obtain ⟨ends, items, rfl, rfl, turns⟩ := turns_of_reached (m := m) s reached
    refine ⟨ends, items, .discovered d found ends items discovered turns, fun through => ?_⟩
    obtain ⟨saved, rfl⟩ := completed through
    exact turns.reports

end

namespace Session

variable [LawfulMonad m] {history : List Event} {s : Stager Stamps}

/-- After any passes the tracker knows what has happened in them. -/
theorem follows (h : Session m history s) : s.tracker.Follows history := by
  induction h with
  | start s fresh =>
    rw [fresh]
    exact Stamps.follows_empty
  | @pass history s s' project scope t t' r ends items _ ran passed ih =>
    cases passed with
    | undiscovered found stopped =>
      rw [(kept_of_undiscovered ran stopped).2]
      simpa [Event.inPass] using ih
    | discovered d found _ _ discovered turns =>
      obtain ⟨deletions, candidates, reached, kept, -⟩ := reached_of_run ran discovered
      -- The turns in the history are the ones that the pass really had.
      obtain ⟨rfl, rfl⟩ := turns.reached.unique reached
      rw [kept]
      exact turns.follows ih (List.append_nil items).symm

end Session

section
variable [LawfulMonad m] {inv : σ → Prop}

theorem known_iff_dated (looks : Looks m inv) {project : Project} {scope : Scope} {d : Discovery}
    {t found : Polls × σ} (start : inv t.2) (l : Ledger)
    (discovered : exec (Discovery.ofProject project scope :
      ExceptT Cancelled (StateT Polls m) _).run t = (.ok d, found)) {item : Candidate}
    (mem : item ∈ (Plan.ofDiscovery l d).candidates) :
    item.stamp.isKnown = true ↔ Dated m inv item := by
  obtain ⟨u, -, pair, -, spec, -, -, -, arises⟩ :=
    Discovery.arises_of_candidate (Polls.looks looks) start l discovered mem
  obtain ⟨seen, holds, told⟩ := arises.time
  -- Asking for a time is no poll, so the answer is that of the files alone.
  have lifted : (exec (FileSystem.modified item.source : StateT Polls m _) seen).1 =
      (exec (FileSystem.modified item.source : m _) seen.2).1 :=
    congrArg Prod.fst (exec_lift _ seen)
  rw [lifted] at told
  rw [Stamp.isKnown, bne_iff_ne]
  constructor
  · intro known
    cases answer : (exec (FileSystem.modified item.source : m _) seen.2).1 with
    | ok time =>
      rw [answer] at told
      exact ⟨seen.2, time, holds, answer, told, fun unknown => known (told.trans unknown)⟩
    | error e =>
      rw [answer] at told
      exact absurd told known
  · rintro ⟨-, time, -, -, same, known⟩
    rwa [same]

/-- Whatever passes a stager has gone through, the next one skips those items, among the ones whose
turn comes, whose stamp is known, whose output is there, and whose output was last staged with the
same stamp: in this pass or in an earlier one, and not cleared since. -/
theorem skipped_iff_last_staged (looks : Looks m inv) {t t' : Polls × σ} (start : inv t.2)
    {history : List Event} {s s' : Stager Stamps} (session : Session m history s)
    {project : Project} {scope : Scope} {r : Report}
    (ran : exec (run s project scope : StateT Polls m _) t = ((r, s'), t')) :
    ∃ ends items, Passed m s project scope t ends items ∧
      Session m (history ++ Event.inPass ends items) s' ∧
      (r.outcome = .completed → r.processed = items.filterMap ItemFate.processed? ∧
        r.skipped = items.filterMap ItemFate.skipped?) ∧
      ∀ before item fate after, items = before ++ (item, fate) :: after →
        let found := (exec (Discovery.ofProject project scope :
          ExceptT Cancelled (StateT Polls m) _).run t).2
        let now := (reachedFrom m s found.2 (ends.map (·.1)) (before.map (·.1))).2
        (fate = .skipped ↔ Dated m inv item ∧
          (exec (FileSystem.isPresent ⟨item.output⟩ : m Bool) now).1 = true ∧
          ∃ staged, Event.last? item.output (history ++ Event.inPass ends before) =
            some (.staged staged) ∧ staged.stamp = item.stamp) := by
  obtain ⟨ends, items, passed, reports⟩ := passed_of_run ran
  refine ⟨ends, items, passed, session.pass ran passed, reports, ?_⟩
  intro before item fate after whole found now
  cases passed with
  | undiscovered found' stopped => cases before <;> cases whole
  | discovered d found' _ _ discovered turns =>
    have same : found = found' := congrArg Prod.snd discovered
    have mem : item ∈ (Plan.ofDiscovery s.ledger d).candidates := by
      refine turns.reached.start.subset (List.mem_map.mpr ⟨(item, fate), ?_, rfl⟩)
      simp [whole]
    have knows := turns.follows session.follows whole
    rw [← same] at knows turns
    rw [(turns.stages before item fate after whole).skipped_iff, isCurrent_iff,
      knows.isCurrent_iff, known_iff_dated looks start s.ledger discovered mem, and_assoc]
    exact and_congr_right fun _ => and_comm

/-- The small project twice: the second pass skips what the first has staged. -/
theorem skipped_iff_last_staged_sample :
    let s : Stager Stamps := { Sample.stager with tracker := .empty }
    let calm : Polls := { raised := fun _ => false }
    let first := exec (run s Sample.project .all : StateT Polls (StateM Memory) _)
      (calm, Sample.tree)
    let second := exec (run first.1.2 Sample.project .all : StateT Polls (StateM Memory) _) first.2
    (first.1.1.processed.map (·.output) = ["out/a.txt"] ∧
      second.1.1.skipped = ["out/a.txt"]) ∧
    ∃ history, Session (StateM Memory) history first.1.2 ∧
      ∃ ends before item after,
        Passed (StateM Memory) first.1.2 Sample.project .all first.2 ends
          (before ++ (item, .skipped) :: after) ∧
        item.output = "out/a.txt" ∧ Dated (StateM Memory) (· = first.2.2) item ∧
        ∃ staged, Event.last? "out/a.txt" (history ++ Event.inPass ends before) =
          some (.staged staged) ∧ staged.stamp = item.stamp := by
  intro s calm first second
  have staged : first.1.1.processed.map (·.output) = ["out/a.txt"] := by decide +kernel
  have skipped : second.1.1.outcome = .completed ∧ second.1.1.skipped = ["out/a.txt"] := by
    decide +kernel
  have ran : exec (run s Sample.project .all : StateT Polls (StateM Memory) _)
      (calm, Sample.tree) = ((first.1.1, first.1.2), first.2) := rfl
  have again : exec (run first.1.2 Sample.project .all : StateT Polls (StateM Memory) _) first.2 =
      ((second.1.1, second.1.2), second.2) := rfl
  clear_value second
  obtain ⟨ends, items, -, session, -⟩ :=
    skipped_iff_last_staged (Memory.looks (· = Sample.tree)) rfl (.start s rfl) ran
  clear_value first
  refine ⟨⟨staged, skipped.2⟩, _, session, ?_⟩
  obtain ⟨ends', items', passed, -, reports, turns⟩ :=
    skipped_iff_last_staged (Memory.looks (· = first.2.2)) rfl session again
  have told := (reports skipped.1).2.symm.trans skipped.2
  obtain ⟨⟨item, fate⟩, mem, output⟩ := List.mem_filterMap.mp (told ▸ List.mem_singleton_self _)
  obtain ⟨before, after, rfl⟩ := List.append_of_mem mem
  cases fate with
  | processed => cases output
  | failed e => cases output
  | skipped =>
    have same : item.output = "out/a.txt" := Option.some.inj output
    obtain ⟨dated, -, last⟩ := (turns before item .skipped after rfl).mp rfl
    exact ⟨ends', before, item, after, passed, same, dated, same ▸ last⟩

end

end Pass
end Staging
