import Staging.Candidate

/-!
Trackers decide from one pass to the next whether an output is still current.
-/
namespace Staging

class Tracker (τ : Type) where
  isCurrent : τ → Candidate → Bool
  /-- The item has been staged. -/
  record : τ → Candidate → τ
  /-- The output has been deleted, or was to be. -/
  forget : τ → (output : String) → τ

/-- The tracker that finds nothing current. -/
structure NoTracking where

instance : Tracker NoTracking where
  isCurrent _ _ := false
  record t _ := t
  forget t _ := t

/-- The stamp of each output when it was last staged. -/
structure Stamps where
  byOutput : SortedMap String Stamp

namespace Stamps

def empty : Stamps := ⟨.empty⟩

def size (s : Stamps) : Nat := s.byOutput.size

end Stamps

/-- Current is what was last staged with the same stamp, unless the stamp is unknown. -/
instance : Tracker Stamps where
  isCurrent s item := item.stamp.isKnown && s.byOutput.get? item.output == some item.stamp
  record s item := ⟨s.byOutput.insert item.output item.stamp⟩
  forget s output := ⟨s.byOutput.erase output⟩

end Staging
