import Staging.Glob.Expression
import Staging.Glob.Parser

/-!
Globs of two kinds. Anything in any directory covers every text. Braces around braces nest one level
deeper with every pair, so there is a glob of any depth.
-/
namespace Staging.Glob

/-- Once a position is marked, so is every later one up to a separator; and the place after a
separator is marked already. -/
theorem spread_after_slashes (text : Bytes) (carry mark default : Bool)
    (reached : (mark || carry) = true) :
    (spread (· != slash) carry text (mark :: text.map (· == slash))).getLastD default = true := by
  induction text generalizing carry mark default with
  | nil => exact reached
  | cons b text ih =>
    rw [List.map_cons, spread, List.getLastD_cons]
    apply ih
    rw [reached, Bool.true_and]
    by_cases separator : b = slash
    · simp [separator]
    · simp [separator]

theorem fromFirst_true (marks : List Bool) : fromFirst true marks = marks.map fun _ => true := by
  induction marks with
  | nil => rfl
  | cons m marks ih => rw [fromFirst, Bool.true_or, ih, List.map_cons]

/-- After any directories the first position is marked, and every one after a separator. -/
theorem advance_leadingDirs (text : Bytes) :
    Token.advance text (true :: text.map fun _ => false) .leadingDirs =
      true :: text.map (· == slash) := by
  rw [Token.advance, fromFirst, Bool.or_true, fromFirst_true, after, union, List.zipWith_cons_cons,
    Bool.or_false, List.map_map]
  congr 1
  induction text with
  | nil => rfl
  | cons b text ih => simpa using ih

/-- Anything in any directory. -/
def everything : Glob := ⟨[.leadingDirs, .run]⟩

theorem isMatch_everything (text : Bytes) : everything.isMatch text = true := by
  have covers : everything.covers text = true := by
    change (Token.advance text (Token.advance text _ .leadingDirs) .run).getLastD false = true
    rw [advance_leadingDirs, Token.advance]
    exact spread_after_slashes text false true false rfl
  have shape : everything.shape = .free := rfl
  rw [isMatch, covers, shape]
  rfl

/-- A letter in so many pairs of braces. -/
def bracedText : Nat → List Char
  | 0 => ['a']
  | n + 1 => '{' :: (bracedText n ++ ['}'])

def braced : Nat → Token
  | 0 => .literal 'a'
  | n + 1 => .oneOf [[braced n]]

theorem readTokens_braced (n : Nat) (previous : Option Char) (groups : List OpenGroup)
    (cs : List Char) : ∃ last, readTokens previous ⟨[], groups⟩ (bracedText n ++ cs) =
      readTokens (some last) ⟨[braced n], groups⟩ cs := by
  induction n generalizing previous groups cs with
  | zero => exact ⟨'a', by simp [bracedText, readTokens, Progress.push, braced]⟩
  | succ n ih =>
    obtain ⟨last, inner⟩ := ih (some '{') (⟨[], []⟩ :: groups) ('}' :: cs)
    refine ⟨'}', ?_⟩
    have text : bracedText (n + 1) ++ cs = '{' :: (bracedText n ++ '}' :: cs) := by
      simp [bracedText]
    rw [text, readTokens, Progress.openGroup, inner, readTokens]
    rfl

theorem parse_braced (n : Nat) : parse (bracedText n) = .ok ⟨[braced n]⟩ := by
  obtain ⟨last, read⟩ := readTokens_braced n none [] []
  rw [List.append_nil, readTokens] at read
  rw [parse, read]
  rfl

theorem vanishes_braced (n : Nat) : (braced n).vanishes = false := by
  induction n with
  | zero => rfl
  | succ n ih => simp [braced, Token.vanishes, allVanish, vanishes, ih]

theorem depths_braced (n : Nat) : (braced n).depths = [n] := by
  induction n with
  | zero => decide
  | succ n ih =>
    have inner : vanishes [braced n] = false := by
      simp [vanishes, vanishes_braced]
    simp [braced, Token.depths, branchDepths, allDepths, inner, ih, joined, Nat.add_comm]

theorem depth_braced (n : Nat) : (⟨[braced n]⟩ : Glob).depth = n + 1 := by
  simp [depth, allDepths, depths_braced, joined, Nat.add_comm]

theorem shape_braced (n : Nat) : (⟨[braced (n + 1)]⟩ : Glob).shape = .free := rfl

end Staging.Glob
