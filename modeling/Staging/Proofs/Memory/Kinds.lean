import Mathlib.Data.List.TakeWhile
import Staging.Proofs.Memory.Place

/-!
What takes the places of a tree, apart from contents. Opening a place puts directories at it and
above it, up to the first place that is taken already, whatever takes it.
-/
namespace Staging.Memory

/-- What takes each place, if anything. -/
abbrev Kinds := List Part → Option Kind

namespace Kinds

/-- The free places on the way up, below the first that is taken. -/
def missing (k : Kinds) (key : List Part) : List (List Part) :=
  (ascent key).takeWhile fun dir => (k dir).isNone

/-- With directories at the missing places. -/
def opened (k : Kinds) (key : List Part) : Kinds := fun x =>
  if x ∈ k.missing key then some .dir else k x

/-- With directories above a place. -/
def openedAbove (k : Kinds) (key : List Part) : Kinds :=
  match above key with
  | none => k
  | some dir => k.opened dir

theorem openedAbove_of_none {k : Kinds} {key : List Part} (h : above key = none) :
    k.openedAbove key = k := by
  rw [openedAbove, h]

theorem openedAbove_of_some {k : Kinds} {key dir : List Part} (h : above key = some dir) :
    k.openedAbove key = k.opened dir := by
  rw [openedAbove, h]

def withFile (k : Kinds) (key : List Part) : Kinds := fun x => if x = key then some .file else k x

def without (k : Kinds) (key : List Part) : Kinds := fun x => if x = key then none else k x

variable {k : Kinds} {key dir : List Part}

theorem taken_of_kind {kind : Kind} (found : k key = some kind) : k key ≠ none :=
  found.trans_ne (Option.some_ne_none kind)

theorem missing_of_taken (h : k key ≠ none) : k.missing key = [] := by
  rw [missing, ascent, List.takeWhile_cons, if_neg]
  rwa [Option.isNone_iff_eq_none]

/-- Something is missing on the way up from a place only if the place itself is. -/
theorem free_self_of_mem_missing {x : List Part} (h : x ∈ k.missing key) : k key = none := by
  by_contra taken
  rw [missing_of_taken taken] at h
  cases h

theorem self_mem_missing (free : k key = none) : key ∈ k.missing key := by
  rw [missing, ascent, List.takeWhile_cons, free]
  exact List.mem_cons_self

theorem missing_of_top (free : k key = none) (top : ascent key = [key]) :
    k.missing key = [key] := by
  rw [missing, top, List.takeWhile_cons, free]
  rfl

theorem missing_of_up (free : k key = none) (up : ascent key = key :: ascent dir) :
    k.missing key = key :: k.missing dir := by
  rw [missing, up, List.takeWhile_cons, free]
  rfl

theorem mem_ascent_of_mem_missing {x : List Part} (h : x ∈ k.missing key) : x ∈ ascent key :=
  (List.takeWhile_subset _) h

theorem free_of_mem_missing {x : List Part} (h : x ∈ k.missing key) : k x = none :=
  Option.isNone_iff_eq_none.mp (List.mem_takeWhile_imp (p := fun dir => (k dir).isNone) h)

theorem missing_congr {k' : Kinds} (h : ∀ x ∈ ascent key, k x = k' x) :
    k.missing key = k'.missing key := by
  induction key using ascent_induction with
  | top key whole _ =>
    have same := h key (self_mem_ascent key)
    rw [missing, missing, whole, List.takeWhile_cons, List.takeWhile_cons, same]
    rfl
  | up key dir _ _ whole ih =>
    have same := h key (self_mem_ascent key)
    have above := ih fun x hx => h x (whole ▸ List.mem_cons_of_mem _ hx)
    rw [missing, missing] at above
    rw [missing, missing, whole, List.takeWhile_cons, List.takeWhile_cons, same, above]

theorem opened_of_taken (h : k key ≠ none) : k.opened key = k := by
  funext x
  rw [opened, missing_of_taken h, if_neg List.not_mem_nil]

theorem opened_self (k : Kinds) (key : List Part) : k.opened key key ≠ none := by
  cases free : k key with
  | some kind =>
    rw [opened_of_taken (by simp [free]), free]
    exact Option.some_ne_none kind
  | none =>
    rw [opened, if_pos (self_mem_missing free)]
    exact Option.some_ne_none _

theorem opened_of_kind {x : List Part} {kind : Kind} (h : k x = some kind) :
    k.opened key x = some kind := by
  rw [opened, if_neg, h]
  intro mem
  rw [free_of_mem_missing mem] at h
  cases h

theorem openedAbove_of_kind {x : List Part} {kind : Kind} (h : k x = some kind) :
    k.openedAbove key x = some kind := by
  cases up : above key with
  | none => rwa [openedAbove_of_none up]
  | some dir =>
    rw [openedAbove_of_some up]
    exact opened_of_kind h

theorem opened_cases (dir key : List Part) :
    k.opened dir key = k key ∨ (key ∈ ascent dir ∧ k.opened dir key = some .dir) := by
  by_cases mem : key ∈ k.missing dir
  · rw [opened, if_pos mem]
    exact .inr ⟨mem_ascent_of_mem_missing mem, rfl⟩
  · rw [opened, if_neg mem]
    exact .inl rfl

theorem openedAbove_cases {output key : List Part} (other : key ≠ output) :
    k.openedAbove output key = k key ∨
      (Above key output ∧ k.openedAbove output key = some .dir) := by
  cases up : above output with
  | none => exact .inl (congrFun (openedAbove_of_none up) key)
  | some dir =>
    rw [openedAbove_of_some up]
    exact (opened_cases dir key).imp id fun h =>
      ⟨⟨other, (encloses_of_mem_ascent h.1).trans (encloses_above up)⟩, h.2⟩

@[simp] theorem withFile_self (key : List Part) :
    (k.withFile key).openedAbove key key = some .file :=
  openedAbove_of_kind (if_pos rfl)

/-- A file put somewhere leaves a free place free, or takes it, or makes a directory of it. -/
theorem withFile_cases (output key : List Part) :
    (k.withFile output).openedAbove output key = k key ∨ key = output ∨
      (Above key output ∧ (k.withFile output).openedAbove output key = some .dir) := by
  by_cases same : key = output
  · exact .inr (.inl same)
  · have untouched : k.withFile output key = k key := if_neg same
    rw [← untouched]
    exact (openedAbove_cases same).imp id .inr

/-! Growth -/

variable {K : List Part → Prop} {s t x u : Kinds}

/-- At the places in `K`, what takes a place still takes it. -/
def Keeps (K : List Part → Prop) (s x : Kinds) : Prop :=
  ∀ key kind, K key → s key = some kind → x key = some kind

/-- Nothing is lost, and what is new lies in something, as far as the places in `K` go. -/
structure Grown (K : List Part → Prop) (s x : Kinds) : Prop where
  keeps : Keeps K s x
  rooted : ∀ key dir, K key → K dir → s key = none → x key ≠ none → above key = some dir →
    x dir ≠ none

/-- `x` has what `s` has and nothing that `u` has not. What it has beyond `s` lies in something,
unless a file of `u` takes that place. -/
structure Between (K : List Part → Prop) (s x u : Kinds) : Prop where
  lower : Keeps K s x
  upper : Keeps K x u
  rooted : ∀ key dir, K key → K dir → s key = none → x key ≠ none → above key = some dir →
    x dir ≠ none ∨ u dir = some .file

theorem Keeps.refl (K : List Part → Prop) (s : Kinds) : Keeps K s s := fun _ _ _ h => h

theorem Keeps.trans (h : Keeps K s t) (h' : Keeps K t u) : Keeps K s u :=
  fun key kind hk found => h' key kind hk (h key kind hk found)

theorem Keeps.ne_none (h : Keeps K s t) {key : List Part} (hk : K key) (taken : s key ≠ none) :
    t key ≠ none := by
  obtain ⟨kind, found⟩ := Option.ne_none_iff_exists'.mp taken
  rw [h key kind hk found]
  nofun

theorem Keeps.free (h : Keeps K s x) {a : List Part} (ha : K a) (free : x a = none) :
    s a = none := by
  by_contra taken
  exact h.ne_none ha taken free

theorem keeps_opened (k : Kinds) (key : List Part) : Keeps K k (k.opened key) :=
  fun _ _ _ found => opened_of_kind found

/-- Opening leaves no gap: a place that becomes a directory lies in something. -/
theorem taken_above_missing {a : List Part} (h : a ∈ k.missing key) (found : above a = some dir) :
    k.opened key dir ≠ none := by
  have lies : dir ∈ k.missing key ∨ k dir ≠ none := by
    induction key using ascent_induction with
    | top key whole only =>
      have mem := mem_ascent_of_mem_missing h
      rw [whole, List.mem_singleton] at mem
      subst mem
      rw [only dir found]
      exact .inl h
    | up key next up other whole ih =>
      by_cases free : k key = none
      · rw [missing_of_up free whole, List.mem_cons] at h ⊢
        rcases h with rfl | h
        · rw [up, Option.some.injEq] at found
          subst found
          by_cases taken : k next = none
          · exact .inl (.inr (self_mem_missing taken))
          · exact .inr taken
        · exact (ih h).imp .inr id
      · rw [missing_of_taken free] at h
        cases h
  rcases lies with mem | taken
  · rw [opened, if_pos mem]
    exact Option.some_ne_none _
  · obtain ⟨kind, found⟩ := Option.ne_none_iff_exists'.mp taken
    rw [opened_of_kind found]
    exact Option.some_ne_none kind

theorem Grown.refl (K : List Part → Prop) (s : Kinds) : Grown K s s :=
  ⟨Keeps.refl K s, fun _ _ _ _ free taken => absurd free taken⟩

theorem Grown.opened (h : Grown K s x) (key : List Part) : Grown K s (x.opened key) := by
  constructor
  · exact h.keeps.trans (keeps_opened x key)
  · intro a dir ha hd free taken found
    by_cases old : x a = none
    · have mem : a ∈ x.missing key := by
        by_contra out
        rw [Kinds.opened, if_neg out] at taken
        exact taken old
      exact taken_above_missing mem found
    · exact (keeps_opened x key).ne_none hd (h.rooted a dir ha hd free old found)

/-- A file comes with what it lies in. -/
theorem Grown.withFile (h : Grown K s x) {key : List Part} (room : K key → x key ≠ some .dir) :
    Grown K s ((x.withFile key).openedAbove key) := by
  have put : Keeps K x (x.withFile key) := by
    intro a kind ha found
    rw [Kinds.withFile]
    split
    · rename_i same
      subst same
      cases kind with
      | file => rfl
      | dir => exact absurd found (room ha)
    · exact found
  cases up : above key with
  | none =>
    rw [openedAbove_of_none up]
    refine ⟨h.keeps.trans put, fun a dir ha hd free taken found => ?_⟩
    refine put.ne_none hd (h.rooted a dir ha hd free ?_ found)
    rw [Kinds.withFile] at taken
    split at taken
    · rename_i same
      subst same
      rw [up] at found
      cases found
    · exact taken
  | some top =>
    rw [openedAbove_of_some up]
    refine ⟨h.keeps.trans (put.trans (keeps_opened _ top)), fun a dir ha hd free taken found => ?_⟩
    by_cases mem : a ∈ (x.withFile key).missing top
    · exact taken_above_missing mem found
    · rw [Kinds.opened, if_neg mem, Kinds.withFile] at taken
      split at taken
      · rename_i same
        subst same
        rw [up, Option.some.injEq] at found
        subst found
        exact opened_self _ _
      · exact (put.trans (keeps_opened _ top)).ne_none hd (h.rooted a dir ha hd free taken found)

/-- A file put where no directory is loses nothing. -/
theorem keeps_withFile {key : List Part} (room : K key → k key ≠ some .dir) :
    Keeps K k ((k.withFile key).openedAbove key) :=
  ((Grown.refl K k).withFile room).keeps

theorem Grown.without (h : Grown K s x) {key : List Part} (out : ¬K key) :
    Grown K s (x.without key) := by
  have same : ∀ a, K a → x.without key a = x a := by
    intro a ha
    rw [Kinds.without, if_neg]
    rintro rfl
    exact out ha
  constructor
  · intro a kind ha found
    rw [same a ha]
    exact h.keeps a kind ha found
  · intro a dir ha hd free taken found
    rw [same a ha] at taken
    rw [same dir hd]
    exact h.rooted a dir ha hd free taken found

/-! Two trees grown alike -/

theorem Between.of_keeps (h : Keeps K s u) : Between K s s u :=
  ⟨.refl K s, h, fun _ _ _ _ free taken _ => absurd free taken⟩

theorem Between.missing_subset (h : Between K s x u) (within : ∀ a ∈ ascent key, K a) :
    ∀ a ∈ x.missing key, a ∈ s.missing key := by
  induction key using ascent_induction with
  | top key whole _ =>
    intro a mem
    have free := free_of_mem_missing mem
    have same := mem_ascent_of_mem_missing mem
    rw [whole, List.mem_singleton] at same
    subst same
    exact self_mem_missing (h.lower.free (within a (self_mem_ascent a)) free)
  | up key dir _ _ whole ih =>
    intro a mem
    have free : x key = none := free_self_of_mem_missing mem
    have free' : s key = none := h.lower.free (within key (self_mem_ascent key)) free
    rw [missing_of_up free whole, List.mem_cons] at mem
    rw [missing_of_up free' whole, List.mem_cons]
    exact mem.imp id fun mem => ih (fun b hb => within b (whole ▸ List.mem_cons_of_mem _ hb)) a mem

/-- Above a place that `x` has, `x` has all that `s` lacks. -/
theorem Between.taken_of_taken (h : Between K s x u) (within : ∀ a ∈ ascent key, K a)
    (dirs : ∀ a ∈ s.missing key, u a = some .dir) (taken : x key ≠ none) :
    ∀ a ∈ s.missing key, x a ≠ none := by
  induction key using ascent_induction with
  | top key whole _ =>
    intro a mem
    have same := mem_ascent_of_mem_missing mem
    rw [whole, List.mem_singleton] at same
    rwa [same]
  | up key dir found _ whole ih =>
    have within' : ∀ a ∈ ascent dir, K a := fun a ha => within a (whole ▸ List.mem_cons_of_mem _ ha)
    intro a mem
    have free : s key = none := free_self_of_mem_missing mem
    rw [missing_of_up free whole] at mem dirs
    rcases List.mem_cons.mp mem with rfl | mem
    · exact taken
    · have dir_mem : dir ∈ s.missing dir := self_mem_missing (free_self_of_mem_missing mem)
      have dir_taken : x dir ≠ none := by
        rcases h.rooted key dir (within key (self_mem_ascent key))
          (within' dir (self_mem_ascent dir)) free taken found with taken | file
        · exact taken
        · rw [dirs dir (List.mem_cons_of_mem _ dir_mem)] at file
          cases file
      exact ih within' (fun b hb => dirs b (List.mem_cons_of_mem _ hb)) dir_taken a mem

theorem Between.dir_of_missing (h : Between K s x u) (within : ∀ a ∈ ascent key, K a)
    (dirs : ∀ a ∈ s.missing key, u a = some .dir) :
    ∀ a ∈ s.missing key, x.opened key a = some .dir := by
  suffices lies : ∀ a ∈ s.missing key, a ∈ x.missing key ∨ x a ≠ none by
    intro a mem
    rcases lies a mem with mem | taken
    · rw [Kinds.opened, if_pos mem]
    · obtain ⟨kind, found⟩ := Option.ne_none_iff_exists'.mp taken
      have final := h.upper a kind (within a (mem_ascent_of_mem_missing mem)) found
      rw [dirs a mem] at final
      cases final
      exact opened_of_kind found
  induction key using ascent_induction with
  | top key whole _ =>
    intro a mem
    have same := mem_ascent_of_mem_missing mem
    rw [whole, List.mem_singleton] at same
    subst same
    by_cases free : x a = none
    · rw [missing_of_top free whole]
      exact .inl List.mem_cons_self
    · exact .inr free
  | up key dir _ _ whole ih =>
    by_cases free : x key = none
    · have free' : s key = none := h.lower.free (within key (self_mem_ascent key)) free
      rw [missing_of_up free' whole] at dirs
      have rest := ih (fun b hb => within b (whole ▸ List.mem_cons_of_mem _ hb))
        fun b hb => dirs b (List.mem_cons_of_mem _ hb)
      rw [missing_of_up free' whole, missing_of_up free whole]
      intro a mem
      rcases List.mem_cons.mp mem with rfl | mem
      · exact .inl List.mem_cons_self
      · exact (rest a mem).imp (List.mem_cons_of_mem _) id
    · exact fun a mem => .inr (h.taken_of_taken within dirs free a mem)

/-- Opening one place in both keeps the order, as long as the directories are in the bound. -/
theorem Between.opened (h : Between K s x u) (within : ∀ a ∈ ascent key, K a)
    (bound : Keeps K (s.opened key) u) : Between K (s.opened key) (x.opened key) u := by
  have dirs : ∀ a ∈ s.missing key, u a = some .dir := by
    intro a mem
    refine bound a .dir (within a (mem_ascent_of_mem_missing mem)) ?_
    rw [Kinds.opened, if_pos mem]
  refine ⟨?_, ?_, ?_⟩
  · intro a kind ha found
    rw [Kinds.opened] at found
    split at found
    · rename_i mem
      cases found
      exact h.dir_of_missing within dirs a mem
    · exact opened_of_kind (h.lower a kind ha found)
  · intro a kind ha found
    rw [Kinds.opened] at found
    split at found
    · rename_i mem
      cases found
      exact dirs a (h.missing_subset within a mem)
    · exact h.upper a kind ha found
  · intro a dir ha hd free taken found
    have outside : a ∉ s.missing key := by
      intro mem
      rw [Kinds.opened, if_pos mem] at free
      cases free
    rw [Kinds.opened, if_neg outside] at free
    rw [Kinds.opened, if_neg (mt (h.missing_subset within a) outside)] at taken
    exact (h.rooted a dir ha hd free taken found).imp
      ((keeps_opened x key).ne_none hd) id

theorem Between.openedAbove (h : Between K s x u) (within : ∀ a ∈ ascent key, K a)
    (bound : Keeps K (s.openedAbove key) u) :
    Between K (s.openedAbove key) (x.openedAbove key) u := by
  cases up : above key with
  | none =>
    rw [openedAbove_of_none up, openedAbove_of_none up]
    exact h
  | some dir =>
    rw [openedAbove_of_some up] at bound
    rw [openedAbove_of_some up, openedAbove_of_some up]
    refine h.opened (fun a mem => within a ?_) bound
    by_cases same : dir = key
    · exact same ▸ mem
    · rw [ascent_of_some up same]
      exact List.mem_cons_of_mem _ mem

theorem Between.withFile (h : Between K s x u) (file : u key = some .file) :
    Between K (s.withFile key) (x.withFile key) u := by
  refine ⟨?_, ?_, ?_⟩
  · intro a kind ha found
    rw [Kinds.withFile] at found ⊢
    split
    · rename_i same
      rwa [if_pos same] at found
    · rename_i other
      rw [if_neg other] at found
      exact h.lower a kind ha found
  · intro a kind ha found
    rw [Kinds.withFile] at found
    split at found
    · rename_i same
      subst same
      rw [file, found]
    · exact h.upper a kind ha found
  · intro a dir ha hd free taken found
    rw [Kinds.withFile] at free taken
    split at free
    · cases free
    · rename_i other
      rw [if_neg other] at taken
      refine (h.rooted a dir ha hd free taken found).imp (fun taken => ?_) id
      rw [Kinds.withFile]
      split
      · nofun
      · exact taken

end Kinds
end Staging.Memory
