import Staging.Proofs.Ledger.RoundTrip
import Staging.Proofs.Memory.Growth

/-!
Storing ledgers. Saving either leaves the target as it was or makes it the file of the ledger, and
touches nothing else but the scratch file; loading gives the saved ledger back.
-/
namespace Staging

namespace Memory

/-- The ledger that loading gives. -/
def stored (st : Memory) (p : Path) (casing : Casing) : Ledger :=
  ((st.read p).toOption.map (Ledger.ofBytes casing)).getD (.empty casing)

theorem exec_load (st : Memory) (p : Path) (casing : Casing) :
    exec (Ledger.load p casing : StateM Memory _) st = (st.stored p casing, st) := by
  have present : exec (FileSystem.isPresent p : StateM Memory _) st = (st.isPresent p, st) := rfl
  have read : exec (FileSystem.read p : StateM Memory _) st = (st.read p, st) := rfl
  rw [Ledger.load, exec_bind, present]
  by_cases there : st.isPresent p = true
  · simp only [there, if_true]
    rw [exec_bind, read, stored]
    cases st.read p <;> exact exec_pure _ _
  · have absent : st.contentAt p.parts = none := by
      refine contentAt_of_kind fun file => there ?_
      rw [isPresent_eq, file]
      rfl
    have nothing : (st.read p).toOption = none := by
      rw [toOption_read, absent, ite_self]
    rw [Bool.not_eq_true] at there
    simp only [there, Bool.false_eq_true, if_false]
    rw [exec_pure, stored, nothing]
    rfl

variable {st x : Memory} {p : Path} {casing : Casing}

theorem stored_congr (unreadable : x.unreadable = st.unreadable)
    (content : x.contentAt p.parts = st.contentAt p.parts) :
    x.stored p casing = st.stored p casing := by
  rw [stored, stored, toOption_read, toOption_read, unreadable, content]

theorem casing_stored (st : Memory) (p : Path) (casing : Casing) :
    (st.stored p casing).casing = casing := by
  rw [stored]
  cases (st.read p).toOption with
  | none => rfl
  | some bytes => exact Ledger.casing_ofBytes casing bytes

theorem uniform_stored (st : Memory) (p : Path) (casing : Casing) :
    (st.stored p casing).Uniform := by
  rw [stored]
  cases (st.read p).toOption with
  | none => exact Ledger.uniform_empty casing
  | some bytes => exact Ledger.uniform_ofBytes casing bytes

/-- A ledger file that was saved is loaded as it was, unless it cannot be read. -/
theorem stored_of_content {l : Ledger} (content : x.contentAt p.parts = some (Ledger.encode l.units))
    (uniform : l.Uniform) (fits : Ledger.Fits l.units)
    (readable : x.unreadable.contains p.parts = false) :
    x.stored p l.casing = l := by
  rw [stored, toOption_read, readable, content]
  exact Ledger.ofBytes_encode uniform fits

theorem stored_of_unreadable (unreadable : x.unreadable.contains p.parts = true) :
    x.stored p casing = .empty casing := by
  rw [stored, toOption_read, unreadable]
  rfl

section
variable {l : Ledger} {key : List Part}

theorem fileAt_drafted (other : key ≠ (Ledger.scratchFor p).parts) :
    (st.drafted l p).fileAt key = st.fileAt key := by
  rw [drafted_eq, fileAt_addFile, if_neg other]

theorem fileAt_saved (time : Int64) (ledger : key ≠ p.parts)
    (scratch : key ≠ (Ledger.scratchFor p).parts) :
    (st.saved l p time).fileAt key = st.fileAt key := by
  rw [saved_eq, fileAt_insertFile, if_neg ledger, fileAt_discard, if_neg scratch,
    fileAt_drafted scratch]

/-- A save that fails has at most written the scratch file. -/
theorem fileAt_of_failed_save {e : Ledger.SaveError}
    (failed : (exec (l.save p : StateM Memory _) st).1 = .error e)
    (other : key ≠ (Ledger.scratchFor p).parts) :
    (exec (l.save p : StateM Memory _) st).2.fileAt key = st.fileAt key := by
  rcases save_cases l p st with ⟨-, _, saved⟩ | ⟨-, -, _, saved⟩ | ⟨-, -, _, saved⟩
  · rw [saved]
  · rw [saved]
    exact fileAt_drafted other
  · rw [saved] at failed
    cases failed

end
end Memory

namespace Ledger
open Memory

/-- A ledger that comes from the operations on ledgers: a new one or one that is loaded, with units
recorded and pruned. -/
inductive Built : Ledger → Prop
  | empty (policy : CasePolicy) : Built (empty policy.resolve)
  | load (st : Memory) (p : Path) (policy : CasePolicy) :
    Built (exec (load p policy.resolve : StateM Memory _) st).1
  | record {l : Ledger} {outputs : PathSet} (unit : String) :
    Built l → outputs.Built → Built (l.record unit outputs)
  | prune {l : Ledger} (existing : List String) : Built l → Built (l.prune existing)

theorem Built.uniform {l : Ledger} (h : l.Built) : l.Uniform := by
  induction h with
  | empty policy => exact uniform_empty policy.resolve
  | load st p policy =>
    rw [exec_load]
    exact uniform_stored st p policy.resolve
  | record unit _ outputs ih => exact ih.record unit outputs.keyed
  | prune existing _ ih => exact ih.prune existing

/-- All or nothing: a save that succeeds puts the file of the ledger at the path, from where the same
ledger is loaded, and takes the scratch file away; one that fails leaves what the path holds. All
other files stay, with their times. -/
theorem stored_or_kept_of_save {l : Ledger} (built : l.Built) (fits : Fits l.units) (p : Path)
    (st : Memory) :
    let after := exec (l.save p : StateM Memory _) st
    (after.1 = .ok () →
      after.2.content? p = some (encode l.units) ∧
        after.2.isPresent (scratchFor p) = false ∧
        (∀ q, q.same p = false → q.same (scratchFor p) = false → ∀ content time,
          Memory.entry? after.2 q = some (.file content time) ↔
            st.entry? q = some (.file content time)) ∧
        (p.parts ∉ st.unreadable →
          exec (load p l.casing : StateM Memory _) after.2 = (l, after.2))) ∧
      ∀ e, after.1 = .error e →
        after.2.content? p = st.content? p ∧
          ∀ q, q.same (scratchFor p) = false → ∀ content time,
            Memory.entry? after.2 q = some (.file content time) ↔
              st.entry? q = some (.file content time) := by
  intro after
  have differ : ∀ {q q' : Path}, q.same q' = false → q.parts ≠ q'.parts := fun {q q'} other same =>
    Bool.eq_false_iff.mp other (same_iff.mpr same)
  refine ⟨fun ok => ?_, fun e failed => ?_⟩
  · obtain ⟨time, saved⟩ := save_of_room st l p (room_of_save st l p ok)
    have content : (st.saved l p time).contentAt p.parts = some (encode l.units) := by
      rw [contentAt_saved, if_pos rfl]
    have ended : after = (.ok (), st.saved l p time) := saved
    rw [ended]
    refine ⟨(content?_eq _ p).trans content, ?_, fun q ledger scratch bytes time' => ?_,
      fun readable => ?_⟩
    · rw [isPresent_eq, scratch_of_saved]
      rfl
    · rw [entry?_eq_file_iff, entry?_eq_file_iff,
        fileAt_saved time (differ ledger) (differ scratch)]
    · rw [exec_load]
      congr 1
      refine stored_of_content content built.uniform fits ?_
      rw [unreadable_saved]
      simpa using readable
  · have files : ∀ key ≠ (scratchFor p).parts, after.2.fileAt key = st.fileAt key :=
      fun key other => fileAt_of_failed_save failed other
    refine ⟨?_, fun q scratch bytes time => ?_⟩
    · rw [content?_eq, content?_eq, contentAt_eq_map, files _ (scratch_ne p).symm,
        ← contentAt_eq_map]
    · rw [entry?_eq_file_iff, entry?_eq_file_iff, files _ (differ scratch)]

/-- A ledger of one unit, whose output has two spellings. -/
def Sample.ledger : Ledger :=
  ((empty CasePolicy.insensitive.resolve).record "app"
    (.ofList .insensitive ["out/A.txt", "OUT/a.txt"])).prune ["app"]

/-- A tree with an older ledger file and an output. -/
def Sample.shelf : Memory :=
  (Memory.empty.addFile ⟨".resflow/outputs.bin"⟩ [1]).addFile ⟨"out/a.txt"⟩ [2]

/-- The older file is replaced by one that is loaded as the ledger. Saving where a directory is fails,
and the file in the directory stays. -/
theorem stored_or_kept_of_save_sample :
    Sample.ledger.Built ∧ Fits Sample.ledger.units ∧
      (let p : Path := ⟨".resflow/outputs.bin"⟩
        let after := exec (Sample.ledger.save p : StateM Memory _) Sample.shelf
        after.1 = .ok () ∧ after.2.content? p = some (encode Sample.ledger.units) ∧
          exec (load p CasePolicy.insensitive.resolve : StateM Memory _) after.2 =
            (Sample.ledger, after.2)) ∧
      let after := exec (Sample.ledger.save ⟨"out"⟩ : StateM Memory _) Sample.shelf
      ∃ e, after.1 = .error e ∧ Memory.entry? after.2 ⟨"out/a.txt"⟩ = some (.file [2] 2) := by
  have built : Sample.ledger.Built :=
    .prune _ (.record _ (.empty .insensitive) (PathSet.built_ofList _ _))
  have fits : Fits Sample.ledger.units := by decide +kernel
  refine ⟨built, fits, ?_, ?_⟩
  · intro p after
    have ok : after.1 = .ok () := by decide +kernel
    obtain ⟨content, -, -, loaded⟩ :=
      (stored_or_kept_of_save built fits p Sample.shelf).1 ok
    exact ⟨ok, content, loaded (by decide +kernel)⟩
  · intro after
    have failed : after.1 = .error (.replacing ⟨"out"⟩ (.isDirectory ⟨"out"⟩)) := by
      decide +kernel
    obtain ⟨-, files⟩ := (stored_or_kept_of_save built fits ⟨"out"⟩ Sample.shelf).2 _ failed
    exact ⟨_, failed, (files ⟨"out/a.txt"⟩ (by decide +kernel) [2] 2).mpr (by decide +kernel)⟩

end Ledger
end Staging
