import Staging.Proofs.Charset
import Staging.Proofs.Memory.Steps
import Staging.Proofs.Pass.Record
import Staging.Proofs.Placeholder

/-!
What filtering leaves alone. Staging a filtered item makes room for its output, reads its source,
and writes what filtering makes of the bytes. Where the text names no known key, these are the bytes
of the source exactly if they are well formed in the charset of the item.
-/
namespace Staging

namespace Placeholder

/-- No occurrence that counts in the text has a known key. -/
def NoneKnown (properties : PropertySet) (text : List Char) : Prop :=
  ∀ os, Leftmost text 0 os → ∀ o ∈ os, properties.get? (String.ofList o.reference.key) = none

/-- It is enough to look at every place of the text. -/
theorem noneKnown_of_places {properties : PropertySet} {text : List Char}
    (h : ∀ place < text.length, ∀ found ∈ reference (text.drop place),
      properties.get? (String.ofList found.1.key) = none) : NoneKnown properties text := by
  intro os counted o mem
  have found := counted.found o mem
  exact h o.start (start_lt_stop found).2 _ (occurs_iff.mp found)

theorem splice_of_unknown {properties : PropertySet} {text : List Char} {os : List Occurrence}
    (unknown : ∀ o ∈ os, properties.get? (String.ofList o.reference.key) = none) (place : Nat) :
    splice properties text place os = text.drop place := by
  induction os with
  | nil => rfl
  | cons o os ih =>
    rw [List.forall_mem_cons] at unknown
    rw [splice, unknown.1]
    exact ih unknown.2

theorem substituteChars_of_noneKnown {properties : PropertySet} {text : List Char}
    (h : NoneKnown properties text) : substituteChars properties text = text := by
  obtain ⟨os, counted⟩ := exists_leftmost text 0
  have read := substituteChars_leftmost properties counted
  rwa [splice_of_unknown (h os counted), List.drop_zero] at read

end Placeholder

namespace Pass
open Placeholder

variable {m : Type → Type} {σ τ : Type} [Monad m] [LawfulMonad m] [Stateful m σ] [FileSystem m]

/-- Makes the directory that an output goes to, if it goes to one. -/
def openFor (output : Path) : m (Except FsError Unit) :=
  match output.parent with
  | some dir => FileSystem.createDirs dir
  | none => pure (.ok ())

/-- How a file is rewritten: room is made for the output, the bytes of the source are read, and
others are written to the output. -/
def Rewrites (m : Type → Type) [Monad m] [Stateful m σ] [FileSystem m] (source output : Path)
    (bytes written : Bytes) (st st' : σ) : Prop :=
  ∃ opened seen, exec (openFor output : m _) st = (.ok (), opened) ∧
    exec (FileSystem.read source : m _) opened = (.ok bytes, seen) ∧
    exec (FileSystem.write output written : m _) seen = (.ok (), st')

omit [FileSystem m] in
theorem exec_calling_ok {α : Type} {call : m (Except FsError α)} {wrap : FsError → ItemError}
    {st st' : σ} {a : α} (h : exec (calling call wrap).run st = (.ok a, st')) :
    exec call st = (.ok a, st') := by
  rw [exec_calling, Prod.mk.injEq, mapError_eq_ok] at h
  exact Prod.ext h.1 h.2

theorem opened_of_stageItem {s : Stager τ} {item : Candidate} {st st' : σ}
    (staged : exec (stageItem s item : ExceptT ItemError m Unit).run st = (.ok (), st')) :
    ∃ opened, exec (openFor ⟨item.output⟩ : m _) st = (.ok (), opened) ∧
      exec (fill s item : ExceptT ItemError m Unit).run opened = (.ok (), st') := by
  rw [stageItem_eq] at staged
  rw [openFor]
  cases up : (⟨item.output⟩ : Path).parent with
  | none =>
    rw [up] at staged
    exact ⟨st, exec_pure _ _, staged⟩
  | some dir =>
    rw [up] at staged
    obtain ⟨_, opened, made, filled⟩ := exec_run_bind_ok staged
    exact ⟨opened, exec_calling_ok made, filled⟩

/-- A filtered item that was staged has a known charset, and its output was written with what
filtering makes of its source in that charset. -/
theorem rewrites_of_staged {s : Stager τ} {item : Candidate} {st st' : σ}
    (filtered : item.filtered = true)
    (staged : exec (stageItem s item : ExceptT ItemError m Unit).run st = (.ok (), st')) :
    ∃ charset bytes, Charset.ofName (s.charsetFor item.source) = .ok charset ∧
      Rewrites m item.source ⟨item.output⟩ bytes (filterBytes s item charset bytes) st st' := by
  obtain ⟨opened, room, filled⟩ := opened_of_stageItem staged
  rw [fill] at filled
  simp only [filtered, if_true] at filled
  cases named : Charset.ofName (s.charsetFor item.source) with
  | error name =>
    rw [named] at filled
    simp only [ExceptT.run_throw, exec_pure] at filled
    cases filled
  | ok charset =>
    rw [named] at filled
    obtain ⟨bytes, seen, read, wrote⟩ := exec_run_bind_ok filled
    exact ⟨charset, bytes, rfl, opened, seen, room, exec_calling_ok read, exec_calling_ok wrote⟩

/-- Where the text names no known key, filtering only reads the bytes and writes them again. -/
theorem filterBytes_eq_iff {s : Stager τ} {item : Candidate} {charset : Charset} {bytes : Bytes}
    (default : s.filter = TextFilter.placeholders)
    (unknown : NoneKnown item.properties (charset.decode bytes)) :
    filterBytes s item charset bytes = bytes ↔ charset.WellFormed bytes := by
  rw [filterBytes, default, TextFilter.placeholders, substituteChars_of_noneKnown unknown,
    Charset.encode_decode_iff]

/-- A filtered item that was staged had the bytes of its source rewritten. If the text that they
read as names no known key, they were left as they are exactly if they are well formed in the
charset of the item: in Latin-1 always, in ASCII if all of them are below 128, and in UTF-8 if they
are the bytes of a text. -/
theorem kept_of_staged {s : Stager τ} {item : Candidate} {st st' : σ}
    (default : s.filter = TextFilter.placeholders) (filtered : item.filtered = true)
    (staged : exec (stageItem s item : ExceptT ItemError m Unit).run st = (.ok (), st')) :
    ∃ charset bytes written, Charset.ofName (s.charsetFor item.source) = .ok charset ∧
      Rewrites m item.source ⟨item.output⟩ bytes written st st' ∧
      written = filterBytes s item charset bytes ∧
      (NoneKnown item.properties (charset.decode bytes) →
        (written = bytes ↔
          match charset with
          | .latin1 => True
          | .ascii => ∀ b ∈ bytes, b.toNat < 0x80
          | .utf8 => bytes.toByteArray.IsValidUTF8)) := by
  obtain ⟨charset, bytes, named, rewritten⟩ := rewrites_of_staged filtered staged
  refine ⟨charset, bytes, _, named, rewritten, rfl, fun unknown => ?_⟩
  rw [filterBytes_eq_iff default unknown]
  cases charset <;> exact Iff.rfl

namespace Sample

/-- A reference to an unknown key, and a byte that no text has. -/
def torn : Bytes := [64, 110, 111, 64, 0xe9]

def template : Candidate where
  unit := "app"
  source := ⟨"res/a.txt"⟩
  output := "out/a.txt"
  filtered := true
  properties := SortedMap.ofList [("name", "x")]
  stamp := ⟨1, true, 0⟩

end Sample

/-- Its bytes do not come back in UTF-8. -/
theorem kept_of_staged_torn :
    let s := Staging.Sample.stager
    let st := Memory.empty.addFile Sample.template.source Sample.torn
    let ran := exec (stageItem s Sample.template : ExceptT ItemError (StateM Memory) Unit).run st
    s.filter = TextFilter.placeholders ∧ Sample.template.filtered = true ∧
    ran = (.ok (), ran.2) ∧
    NoneKnown Sample.template.properties (Charset.utf8.decode Sample.torn) ∧
    ∃ charset bytes written, Charset.ofName (s.charsetFor Sample.template.source) = .ok charset ∧
      Rewrites (StateM Memory) Sample.template.source ⟨Sample.template.output⟩ bytes written st
        ran.2 ∧
      written = filterBytes s Sample.template charset bytes ∧
      (NoneKnown Sample.template.properties (charset.decode bytes) →
        (written = bytes ↔
          match charset with
          | .latin1 => True
          | .ascii => ∀ b ∈ bytes, b.toNat < 0x80
          | .utf8 => bytes.toByteArray.IsValidUTF8)) := by
  intro s st ran
  have succeeds : ran.1.toOption = some () := by decide +kernel
  have staged : ran = (.ok (), ran.2) := eq_ok_of_toOption succeeds
  have unknown : NoneKnown Sample.template.properties (Charset.utf8.decode Sample.torn) :=
    noneKnown_of_places (by decide +kernel)
  exact ⟨rfl, rfl, staged, unknown, kept_of_staged rfl rfl staged⟩

end Pass
end Staging
