import WiseTraceLoom.Lib.Text

/-!
# File paths

A `PurePath` is what `pathlib.Path` makes of a string on a POSIX system: the leading slashes and the
components between the others, empty components and `.` dropped.  `..` is kept, as `pathlib` keeps
it; the file a path names is `resolve`, where `..` steps back over the component before it.
-/

set_option autoImplicit false

/-- A path: its leading slashes and its components. -/
structure PurePath where
  /-- `""`, `"/"` or `"//"`. -/
  root : Str
  /-- The components after the root. -/
  parts : List Str
  deriving DecidableEq

namespace PurePath

/-- The components of a string. -/
def components (s : Str) : List Str := (s.splitOn '/').filter fun c ↦ c ≠ [] ∧ c ≠ ['.']

/-- `Path(s)`. -/
def parse (s : Str) : PurePath :=
  let n := (s.takeWhile (· = '/')).length
  ⟨if n = 0 then [] else if n = 2 then ['/', '/'] else ['/'], components s⟩

/-- `p / s`: an absolute `s` replaces `p`. -/
def child (p : PurePath) (s : Str) : PurePath :=
  if s.head? = some '/' then parse s else ⟨p.root, p.parts ++ components s⟩

/-- `p.parent`. -/
def parent (p : PurePath) : PurePath := ⟨p.root, p.parts.dropLast⟩

/-- `p.name`. -/
def name (p : PurePath) : Str := p.parts.getLast?.getD []

/-- `p.stem`: the name up to its last dot, unless only dots come before that one. -/
def stem (p : PurePath) : Str :=
  let before := (p.name.reverse.dropWhile (· ≠ '.')).drop 1 |>.reverse
  if before.all (· = '.') then p.name else before

/-- `str(p)`. -/
def toStr (p : PurePath) : Str :=
  if p.root = [] ∧ p.parts = [] then ['.'] else p.root ++ Text.join ['/'] p.parts

/-- One component further from the directory `dir` (its components, the last one first). -/
def enter (root : Str) (dir : List Str) (c : Str) : List Str :=
  if c = ['.', '.'] then
    match dir with
    | [] => if root = [] then [c] else []
    | d :: ds => if d = ['.', '.'] then c :: d :: ds else ds
  else c :: dir

/-- The file that `p` names, from the root or from the working directory. -/
def resolve (p : PurePath) : PurePath :=
  ⟨p.root, (p.parts.foldl (enter p.root) []).reverse⟩

example : ((parse "a//b/./c".toList).child "x.y".toList).toStr = "a/b/c/x.y".toList := by decide

/-! ## The last component -/

/-- A string that is one component of a path and not a step back. -/
def Plain (s : Str) : Prop := '/' ∉ s ∧ s ≠ [] ∧ s ≠ ['.'] ∧ s ≠ ['.', '.']

instance (s : Str) : Decidable (Plain s) := inferInstanceAs (Decidable (_ ∧ _))

theorem child_of_plain {s : Str} (h : Plain s) (p : PurePath) :
    p.child s = ⟨p.root, p.parts ++ [s]⟩ := by
  have hhead : s.head? ≠ some '/' := fun hs ↦ h.1 (List.mem_of_head? hs)
  have hsplit : s.splitOn '/' = [s] :=
    List.splitOnP_eq_singleton fun c hc ↦ beq_eq_false_iff_ne.mpr fun hcs ↦ h.1 (hcs ▸ hc)
  have hparts : components s = [s] := by
    rw [components, hsplit]
    simp [h.2.1, h.2.2.1]
  rw [child, if_neg hhead, hparts]

/-- The file at `p / s` is called `s`, however `p` is written. -/
theorem name_resolve_child {s : Str} (h : Plain s) (p : PurePath) :
    (p.child s).resolve.name = s := by
  rw [child_of_plain h, resolve, List.foldl_append]
  simp [enter, h.2.2.2, name]

end PurePath
