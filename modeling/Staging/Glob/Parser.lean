import Staging.Glob

/-!
Reading globs. Braces nest; a comma counts only inside braces. Reading stops at the first fault,
and a group that is still open shows only at the end.
-/
namespace Staging.Glob

inductive SyntaxFault where
  | unclosedSet
  | invalidRange (first last : Char)
  | unopenedGroup
  | unclosedGroup
  deriving DecidableEq, Repr

def SyntaxFault.message : SyntaxFault → String
  | unclosedSet => "unclosed character class; missing ']'"
  | invalidRange first last =>
    "invalid range; '" ++ String.singleton first ++ "' > '" ++ String.singleton last ++ "'"
  | unopenedGroup =>
    "unopened alternate group; missing '\x7b' (maybe escape '\x7d' with '[\x7d]'?)"
  | unclosedGroup =>
    "unclosed alternate group; missing '\x7d' (maybe escape '\x7b' with '[\x7b]'?)"

/-- The members of a set up to its closing bracket, after those already read, newest first.
`opened` says that a dash waits for the end of its range. -/
def readMembers : (first opened : Bool) → List (Char × Char) → List Char →
    Except SyntaxFault (List (Char × Char) × List Char)
  | _, _, _, [] => .error .unclosedSet
  | first, opened, ranges, c :: cs =>
    if c = ']' ∧ !first then
      .ok ((if opened then ('-', '-') :: ranges else ranges).reverse, cs)
    else if c = '-' ∧ !first ∧ !opened then readMembers false true ranges cs
    else
      match opened, ranges with
      | true, (lo, _) :: rest =>
        if c < lo then .error (.invalidRange lo c)
        else readMembers false false ((lo, c) :: rest) cs
      | _, _ => readMembers false false ((c, c) :: ranges) cs

/-- A set after its opening bracket, and the text after its closing one. -/
def readSet : List Char → Except SyntaxFault (Token × List Char)
  | '!' :: cs => (readMembers true false [] cs).map fun (ranges, rest) => (.set true ranges, rest)
  | '^' :: cs => (readMembers true false [] cs).map fun (ranges, rest) => (.set true ranges, rest)
  | cs => (readMembers true false [] cs).map fun (ranges, rest) => (.set false ranges, rest)

theorem readMembers_length {first opened : Bool} {ranges members : List (Char × Char)}
    {cs rest : List Char} (h : readMembers first opened ranges cs = .ok (members, rest)) :
    rest.length < cs.length := by
  induction cs generalizing first opened ranges with
  | nil => simp [readMembers] at h
  | cons c cs ih =>
    unfold readMembers at h
    split at h
    · obtain ⟨-, rfl⟩ := Prod.mk.inj (Except.ok.inj h)
      simp
    · split at h
      · have := ih h; simp; omega
      · split at h
        · split at h
          · cases h
          · have := ih h; simp; omega
        · have := ih h; simp; omega

theorem readSet_length {token : Token} {cs rest : List Char}
    (h : readSet cs = .ok (token, rest)) : rest.length < cs.length := by
  have inner {negated : Bool} {ds : List Char}
      (h : (readMembers true false [] ds).map
        (fun (ranges, rest) => (Token.set negated ranges, rest)) = .ok (token, rest)) :
      rest.length < ds.length := by
    cases e : readMembers true false [] ds with
    | error fault => rw [e] at h; cases h
    | ok pair =>
      rw [e] at h
      obtain ⟨-, rfl⟩ := Prod.mk.inj (Except.ok.inj h)
      exact readMembers_length e
  unfold readSet at h
  split at h
  · have := inner h; simp; omega
  · have := inner h; simp; omega
  · exact inner h

/-- A group that is still open: the tokens before it and its finished branches, newest first. -/
structure OpenGroup where
  before : List Token
  branches : List (List Token)

/-- What has been read: the tokens of the branch being read, newest first, and the open groups
around it, innermost first. -/
structure Progress where
  current : List Token := []
  groups : List OpenGroup := []

namespace Progress

def push (p : Progress) (t : Token) : Progress := { p with current := t :: p.current }

/-- Replaces the separator before two stars by a token that spans directories, unless such a token
stands there already. -/
def merge (p : Progress) (t : Token) : Progress :=
  match p.current with
  | .leadingDirs :: _ => p
  | .subtree :: _ => p
  | _ :: rest => { p with current := t :: rest }
  | [] => p.push t

/-- Two stars with `previous` before and `next` after them, and whether they take the separator
after them along. -/
def doubleStar (p : Progress) (previous next : Option Char) : Progress × Bool :=
  let inside := !p.groups.isEmpty
  if p.current.isEmpty then
    match next with
    | none => (p.push .leadingDirs, false)
    | some '/' => (p.push .leadingDirs, true)
    | some _ => ((p.push .run).push .run, false)
  else if previous ≠ some '/' then ((p.push .run).push .run, false)
  else
    match next with
    | none => (p.merge .subtree, false)
    | some '/' => (p.merge .innerDirs, true)
    | some c =>
      if inside && (c == ',' || c == '}') then (p.merge .subtree, false)
      else ((p.push .run).push .run, false)

def openGroup (p : Progress) : Progress := ⟨[], ⟨p.current, []⟩ :: p.groups⟩

/-- A comma: the end of a branch inside braces, a character outside. -/
def comma (p : Progress) : Progress :=
  match p.groups with
  | [] => p.push (.literal ',')
  | g :: groups => ⟨[], ⟨g.before, p.current.reverse :: g.branches⟩ :: groups⟩

def closeGroup (p : Progress) : Except SyntaxFault Progress :=
  match p.groups with
  | [] => .error .unopenedGroup
  | g :: groups =>
    .ok ⟨.oneOf (p.current.reverse :: g.branches).reverse :: g.before, groups⟩

end Progress

/-- Reads on after the character `previous`. -/
def readTokens (previous : Option Char) (p : Progress) :
    List Char → Except SyntaxFault Progress
  | [] => .ok p
  | '*' :: '*' :: cs =>
    match p.doubleStar previous cs.head? with
    | (p, true) => readTokens (some '/') p cs.tail
    | (p, false) => readTokens (some '*') p cs
  | '*' :: cs => readTokens (some '*') (p.push .run) cs
  | '?' :: cs => readTokens (some '?') (p.push .single) cs
  | '[' :: cs =>
    match _h : readSet cs with
    | .ok (t, rest) => readTokens (some ']') (p.push t) rest
    | .error fault => .error fault
  | '{' :: cs => readTokens (some '{') p.openGroup cs
  | '}' :: cs =>
    match p.closeGroup with
    | .ok p => readTokens (some '}') p cs
    | .error fault => .error fault
  | ',' :: cs => readTokens (some ',') p.comma cs
  | c :: cs => readTokens (some c) (p.push (.literal c)) cs
termination_by cs => cs.length
decreasing_by
  all_goals simp_wf
  all_goals try omega
  have := readSet_length _h
  omega

def parse (pattern : List Char) : Except SyntaxFault Glob :=
  match readTokens none {} pattern with
  | .error fault => .error fault
  | .ok p => if p.groups.isEmpty then .ok ⟨p.current.reverse⟩ else .error .unclosedGroup

end Staging.Glob
