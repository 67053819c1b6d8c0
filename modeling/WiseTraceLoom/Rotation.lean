import Mathlib.Algebra.GroupWithZero.Nat
import Mathlib.Data.List.Forall2
import Mathlib.Data.List.Lex
import Mathlib.Data.List.Sort
import Mathlib.Data.Char
import Mathlib.Data.Rat.Defs
import WiseTraceLoom.Lib.Backups
import WiseTraceLoom.Lib.Text

/-!
# Log rotation

`buildRotatingHandler` chooses the handler of a `RotationConfig`: by size, by time, or both.  The
handlers are those of the standard library, with one exception: with `compress_backups` the backup
is not the log file under another name but a compressed copy of it, `gzipRotator`.

The copy is called `name.1.gz` where the handler asked for `name.1`.  The handler does not know that
name: it shifts, looks for and deletes files without `.gz`, so the next backup is written over this
one.  `run_losesNothing_iff` says exactly which rollovers lose something.

## What is here

* `buildRotatingHandler`, `Handler.shouldRollover`, `Handler.doRollover`, `Handler.emit`.
* `exists_run`: whatever is logged, the handler does a sequence of writes and rollovers.
* `rotating_kept`, `rotating_compressed`: rollovers by size.
* `timed_kept`, `timed_pruned`, `timed_compressed`: rollovers by time, within one interval.
* `run_losesNothing_iff`: all of them together.
-/

set_option autoImplicit false

namespace WiseTraceLoom

open AList

/-! ## The configuration -/

/-- What a handler is built from. -/
structure RotationConfig where
  /-- The size trigger, in megabytes. -/
  maxSizeMb : Option ℚ := none
  /-- The time trigger: a `when` of the standard library. -/
  rotationInterval : Option Str := none
  /-- How many backups are kept. -/
  backupCount : ℤ := 7
  /-- Whether backups are compressed. -/
  compressBackups : Bool := false
  deriving DecidableEq

/-- `int(x)`: the fraction is cut off. -/
def truncate (x : ℚ) : ℤ := x.num.tdiv x.den

/-- `when.upper()`, as far as it can give an ASCII letter. -/
def upper (s : Str) : Str :=
  s.map fun c ↦ if c = 'ſ' then 'S' else if c = 'ı' then 'I' else c.toUpper

/-- The form of the names that `TimedRotatingFileHandler` gives its backups, with a `0` for each
digit; `none` where the constructor raises. -/
def suffixFormat (w : Str) : Option Str :=
  if upper w = ['S'] then some "0000-00-00_00-00-00".toList
  else if upper w = ['M'] then some "0000-00-00_00-00".toList
  else if upper w = ['H'] then some "0000-00-00_00".toList
  else if upper w = ['D'] ∨ upper w = "MIDNIGHT".toList then some "0000-00-00".toList
  else if ∃ d ∈ "0123456".toList, upper w = ['W', d] then some "0000-00-00".toList
  else none

/-- The text has the form of the names: `extMatch.fullmatch`. -/
def IsInterval (format s : Str) : Prop :=
  List.Forall₂ (fun p c ↦ if p = '0' then c.isDigit = true else c = p) format s

instance (format s : Str) : Decidable (IsInterval format s) :=
  inferInstanceAs (Decidable (List.Forall₂ _ _ _))

/-! ## The files -/

/-- A backup file. -/
inductive LogFile
  | plain (text : Str)
  | gzip (text : Str)
  deriving DecidableEq

/-- The text in a backup file, unpacked. -/
def LogFile.content : LogFile → Str
  | .plain text => text
  | .gzip text => text

/-- The log file and the files beside it whose names begin with its name and a dot. -/
structure LogFiles where
  /-- The text in the log file. -/
  current : Str
  /-- The other files, by what follows the dot. -/
  backups : AList fun _ : Str ↦ LogFile
  deriving DecidableEq

namespace LogFiles

/-- The texts in the backup files. -/
def contents (files : LogFiles) : List Str := files.backups.entries.map fun e ↦ e.2.content

/-- Text is appended to the log file. -/
def write (files : LogFiles) (text : Str) : LogFiles := ⟨files.current ++ text, files.backups⟩

/-- `rename(name, name.dest)`, after which the log file is opened anew. -/
def rename (files : LogFiles) (dest : Str) : LogFiles :=
  ⟨[], files.backups.insert dest (.plain files.current)⟩

/-- `_gzip_rotator(name, name.dest)`, after which the log file is opened anew. -/
def gzipRotator (files : LogFiles) (dest : Str) : LogFiles :=
  ⟨[], files.backups.insert (dest ++ ".gz".toList) (.gzip files.current)⟩

end LogFiles

/-! ## The handlers -/

/-- A rotator takes the log file to a backup. -/
abbrev Rotator := LogFiles → Str → LogFiles

/-- The handlers that `build_rotating_handler` builds. -/
inductive Handler
  | file
  | rotating (maxBytes backupCount : ℤ) (rotator : Option Rotator)
  | timed (format : Str) (backupCount : ℤ) (rotator : Option Rotator)
  | sizeAndTime (maxBytes : ℤ) (format : Str) (backupCount : ℤ) (rotator : Option Rotator)

/-- The rotator that is set on the handler. -/
def RotationConfig.rotator (config : RotationConfig) : Option Rotator :=
  if config.compressBackups then some LogFiles.gzipRotator else none

/-- `build_rotating_handler`; `none` where a constructor raises. -/
def buildRotatingHandler (config : RotationConfig) : Option Handler :=
  let backupCount := config.backupCount
  match config.maxSizeMb, config.rotationInterval with
  | some mb, some w => (suffixFormat w).map fun format ↦
      .sizeAndTime (truncate (mb * 1024 * 1024)) format backupCount config.rotator
  | some mb, none => some (.rotating (truncate (mb * 1024 * 1024)) backupCount config.rotator)
  | none, some w => (suffixFormat w).map fun format ↦ .timed format backupCount config.rotator
  | none, none => some .file

/-- `BaseRotatingHandler.rotate(name, name.dest)`. -/
def rotate (rotator : Option Rotator) (files : LogFiles) (dest : Str) : LogFiles :=
  match rotator with
  | none => files.rename dest
  | some rotator => rotator files dest

/-- `RotatingFileHandler.doRollover`: the files, and what was in the log file if it was rotated. -/
def rolloverBySize (backupCount : ℤ) (rotator : Option Rotator) (files : LogFiles) :
    LogFiles × List Str :=
  if 0 < backupCount then
    let shifted := shift Text.ofNat (backupCount.toNat - 1) files.backups
    let dest := Text.ofNat 1
    (rotate rotator ⟨files.current, shifted.erase dest⟩ dest, [files.current])
  else (files, [])

/-- `getFilesToDelete`: all but the latest `backupCount` backups, as far as their names have the
right form. -/
def getFilesToDelete (format : Str) (backupCount : ℕ) (backups : AList fun _ : Str ↦ LogFile) :
    List Str :=
  let result := backups.keys.filter fun k ↦ IsInterval format k
  if result.length < backupCount then []
  else (result.insertionSort (· ≤ ·)).take (result.length - backupCount)

/-- The files without those to delete. -/
def prune (format : Str) (backupCount : ℕ) (backups : AList fun _ : Str ↦ LogFile) :
    AList fun _ : Str ↦ LogFile :=
  backups.eraseAll (getFilesToDelete format backupCount backups)

/-- `TimedRotatingFileHandler.doRollover`, in the interval that began at `start`: the files, and
what was in the log file if it was rotated. -/
def rolloverByTime (format : Str) (backupCount : ℤ) (rotator : Option Rotator) (start : Str)
    (files : LogFiles) : LogFiles × List Str :=
  if start ∈ files.backups then (files, [])
  else
    let rotated := rotate rotator files start
    (⟨rotated.current, if 0 < backupCount then prune format backupCount.toNat rotated.backups
      else rotated.backups⟩, [files.current])

namespace Handler

/-- `doRollover`. -/
def doRollover (h : Handler) (start : Str) (files : LogFiles) : LogFiles × List Str :=
  match h with
  | .file => (files, [])
  | .rotating _ backupCount rotator => rolloverBySize backupCount rotator files
  | .timed format backupCount rotator => rolloverByTime format backupCount rotator start files
  | .sizeAndTime _ format backupCount rotator =>
      rolloverByTime format backupCount rotator start files

/-- The bytes of a text. -/
def utf8Length (s : Str) : ℕ := (s.map Char.utf8Size).sum

/-- `shouldRollover`, for a record that is formatted as `message`.  `timeUp` says whether the
interval is over. -/
def shouldRollover (h : Handler) (timeUp : Bool) (files : LogFiles) (message : Str) : Bool :=
  let msg := message ++ ['\n']
  match h with
  | .file => false
  | .rotating maxBytes _ _ => 0 < maxBytes ∧ files.current ≠ [] ∧
      maxBytes ≤ utf8Length files.current + msg.length
  | .timed _ _ _ => timeUp
  | .sizeAndTime maxBytes _ _ _ => timeUp ∨
      maxBytes ≤ utf8Length files.current + utf8Length msg

/-- `emit`: the record is written, after a rollover if it is time for one. -/
def emit (h : Handler) (start : Str) (s : LogFiles × List Str) (record : Bool × Str) :
    LogFiles × List Str :=
  let r := if h.shouldRollover record.1 s.1 record.2 then h.doRollover start s.1 else (s.1, [])
  (r.1.write (record.2 ++ ['\n']), s.2 ++ r.2)

/-- A text is written, and then the handler does a rollover. -/
def writeAndRoll (h : Handler) (start : Str) (s : LogFiles × List Str) (text : Str) :
    LogFiles × List Str :=
  let r := h.doRollover start (s.1.write text)
  (r.1, s.2 ++ r.2)

/-- The rollovers of one interval, each after the text written before it: the files, and the texts
rotated out. -/
def rollovers (h : Handler) (start : Str) (files : LogFiles) (texts : List Str) :
    LogFiles × List Str :=
  texts.foldl (h.writeAndRoll start) (files, [])

/-- The rollovers of one interval, and then what is written after the last one. -/
def run (h : Handler) (start : Str) (files : LogFiles) (texts : List Str) (rest : Str) :
    LogFiles × List Str :=
  ((h.rollovers start files texts).1.write rest, (h.rollovers start files texts).2)

/-- The name has the form that the handler gives the names of intervals. -/
def IsStart : Handler → Str → Prop
  | .timed format _ _, start => IsInterval format start
  | .sizeAndTime _ format _ _, start => IsInterval format start
  | _, _ => True

theorem rollovers_concat (h : Handler) (start : Str) (files : LogFiles) (texts : List Str)
    (text : Str) : h.rollovers start files (texts ++ [text]) =
      h.writeAndRoll start (h.rollovers start files texts) text :=
  List.foldl_concat ..

/-- **Whatever is logged**, and whenever an interval is over: what the handler does is a sequence of
writes and rollovers. -/
theorem exists_run (h : Handler) (start : Str) (files : LogFiles) (records : List (Bool × Str)) :
    ∃ texts rest, records.foldl (h.emit start) (files, []) = h.run start files texts rest ∧
      texts.flatten ++ rest = (records.map fun r ↦ r.2 ++ ['\n']).flatten := by
  induction records using List.reverseRecOn with
  | nil => exact ⟨[], [], by simp [run, rollovers, LogFiles.write], rfl⟩
  | append_singleton records r ih =>
    obtain ⟨texts, rest, hrun, htext⟩ := ih
    rw [List.foldl_concat, hrun, emit]
    split_ifs with hroll
    · refine ⟨texts ++ [rest], r.2 ++ ['\n'], ?_, by simp [← htext]⟩
      simp only [run, rollovers_concat]
      rfl
    · refine ⟨texts, rest ++ (r.2 ++ ['\n']), ?_, by simp [← htext]⟩
      simp [run, LogFiles.write]

end Handler

/-! ## The texts -/

variable {files : LogFiles} {start format : Str} {texts : List Str} {text : Str}

theorem LogFiles.mem_contents :
    text ∈ files.contents ↔ ∃ k x, files.backups.lookup k = some x ∧ x.content = text := by
  rw [LogFiles.contents, List.mem_map]
  constructor
  · rintro ⟨e, he, rfl⟩
    exact ⟨e.1, e.2, AList.mem_lookup_iff.mpr he, rfl⟩
  · rintro ⟨k, x, hk, rfl⟩
    exact ⟨⟨k, x⟩, AList.mem_lookup_iff.mp hk, rfl⟩

/-- The texts that are in the log file at the rollovers, if each of them takes out what is there and
`c` is there at first. -/
def segments : Str → List Str → List Str
  | _, [] => []
  | c, text :: texts => (c ++ text) :: texts

theorem segments_concat (c : Str) (texts : List Str) (text : Str) :
    segments c (texts ++ [text]) =
      segments c texts ++ [(if texts = [] then c else []) ++ text] := by
  cases texts with
  | nil => rfl
  | cons t ts => simp [segments]

theorem segments_eq_nil {c : Str} : segments c texts = [] ↔ texts = [] := by
  cases texts with
  | nil => exact Iff.rfl
  | cons t ts => simp [segments]

/-- Every rollover so far has taken out what was in the log file. -/
structure Rotated (c : Str) (texts : List Str) (s : LogFiles × List Str) : Prop where
  /-- These texts were taken out. -/
  out : s.2 = segments c texts
  /-- After the last of them the log file is empty. -/
  current : s.1.current = if texts = [] then c else []

theorem Rotated.concat {c : Str} {s r : LogFiles × List Str} (h : Rotated c texts s)
    (hout : r.2 = [s.1.current ++ text]) (hcurrent : r.1.current = []) :
    Rotated c (texts ++ [text]) (r.1, s.2 ++ r.2) where
  out := by rw [segments_concat, ← h.out, ← h.current, hout]
  current := by simp [hcurrent]

/-- A rollover takes out what is in the log file, or leaves it there. -/
theorem doRollover_text {config : RotationConfig} {h : Handler}
    (hbuild : buildRotatingHandler config = some h) (start : Str) (files : LogFiles) :
    (h.doRollover start files).2.flatten ++ (h.doRollover start files).1.current =
      files.current := by
  have hrotate (files : LogFiles) (dest : Str) :
      (rotate config.rotator files dest).current = [] := by
    rw [RotationConfig.rotator]
    split
    · rfl
    · rfl
  have hsize : (rolloverBySize config.backupCount config.rotator files).2.flatten ++
      (rolloverBySize config.backupCount config.rotator files).1.current = files.current := by
    rw [rolloverBySize]
    split
    · simp [hrotate]
    · rfl
  have htime (format : Str) :
      (rolloverByTime format config.backupCount config.rotator start files).2.flatten ++
        (rolloverByTime format config.backupCount config.rotator start files).1.current =
      files.current := by
    rw [rolloverByTime]
    split
    · rfl
    · simp [hrotate]
  rw [buildRotatingHandler] at hbuild
  split at hbuild
  · obtain ⟨format, -, rfl⟩ := Option.map_eq_some_iff.mp hbuild
    exact htime format
  · rw [Option.some_inj] at hbuild
    exact hbuild ▸ hsize
  · obtain ⟨format, -, rfl⟩ := Option.map_eq_some_iff.mp hbuild
    exact htime format
  · rw [Option.some_inj] at hbuild
    exact hbuild ▸ rfl

/-- What has been written is in the texts taken out, in order, and in the log file. -/
theorem rollovers_text {config : RotationConfig} {h : Handler}
    (hbuild : buildRotatingHandler config = some h) (start : Str) (files : LogFiles)
    (texts : List Str) :
    (h.rollovers start files texts).2.flatten ++ (h.rollovers start files texts).1.current =
      files.current ++ texts.flatten := by
  induction texts using List.reverseRecOn with
  | nil => simp [Handler.rollovers]
  | append_singleton texts text ih =>
    have hroll := doRollover_text hbuild start ((h.rollovers start files texts).1.write text)
    rw [Handler.rollovers_concat, Handler.writeAndRoll, List.flatten_append, List.append_assoc,
      hroll, LogFiles.write, ← List.append_assoc, ih]
    simp

/-! ## By size, not compressed -/

theorem ofNat_ne_gz (i : ℕ) (dest : Str) : Text.ofNat i ≠ dest ++ ".gz".toList := by
  intro h
  have hg : 'g' ∈ Text.ofNat i := by simp [h]
  exact absurd (Text.isDigit_of_mem_ofNat hg) (by decide)

/-- **By size**: the backups are the texts taken out, the last one in `name.1`, as long as there are
no more of them than backups are kept. -/
theorem rotating_kept {maxBytes n : ℤ} (start : Str) (files : LogFiles)
    (hlen : (texts.length : ℤ) ≤ n) :
    let s := (Handler.rotating maxBytes n none).rollovers start files texts
    Rotated files.current texts s ∧ ∀ i t, s.2.reverse[i]? = some t →
      s.1.backups.lookup (Text.ofNat (i + 1)) = some (.plain t) := by
  induction texts using List.reverseRecOn with
  | nil => exact ⟨⟨rfl, rfl⟩, fun i t h ↦ by simp [Handler.rollovers] at h⟩
  | append_singleton texts text ih =>
    rw [List.length_append, List.length_singleton] at hlen
    obtain ⟨hrotated, hbackup⟩ := ih (by omega)
    rw [Handler.rollovers_concat]
    have hroll : 0 < n := by omega
    refine ⟨hrotated.concat ?_ ?_, fun i t ht ↦ ?_⟩
    · simp [Handler.doRollover, rolloverBySize, hroll, LogFiles.write]
    · simp [Handler.doRollover, rolloverBySize, hroll, rotate, LogFiles.rename]
    · simp only [Handler.writeAndRoll, Handler.doRollover, rolloverBySize, if_pos hroll, rotate,
        LogFiles.rename, LogFiles.write, List.reverse_append, List.reverse_singleton,
        List.singleton_append] at ht ⊢
      cases i with
      | zero =>
        rw [List.getElem?_cons_zero, Option.some_inj] at ht
        rw [lookup_insert, ht]
      | succ i =>
        rw [List.getElem?_cons_succ] at ht
        have hi : i < texts.length := by
          have hlt := (List.getElem?_eq_some_iff.mp ht).1
          rw [List.length_reverse, hrotated.out] at hlt
          cases texts with
          | nil => exact hlt
          | cons t ts => exact hlt
        have hne : Text.ofNat (i + 1 + 1) ≠ Text.ofNat 1 := Text.ofNat_injective.ne (by omega)
        rw [lookup_insert_ne hne, lookup_erase_ne hne]
        exact lookup_shift Text.ofNat_injective (by omega) (by omega) (hbackup i t ht)

/-! ## Compressed -/

/-- The rollovers have all written to the same backup, `name`. -/
structure Compressed (files : LogFiles) (name : Str) (texts : List Str)
    (s : LogFiles × List Str) : Prop extends Rotated files.current texts s where
  /-- It holds the last text that was taken out. -/
  last : ∀ t ∈ s.2.getLast?, s.1.backups.lookup name = some (.gzip t)
  /-- The others were there before. -/
  others : ∀ k x, k ≠ name → s.1.backups.lookup k = some x →
    ∃ k', files.backups.lookup k' = some x

/-- The texts taken out are all kept if and only if they are all the same, unless one of them is in
a backup by chance. -/
theorem Compressed.kept_iff {name : Str} {s : LogFiles × List Str}
    (h : Compressed files name texts s) :
    ((∀ t ∈ s.2, ∀ t' ∈ s.2, t = t') → ∀ t ∈ s.2, t ∈ s.1.contents) ∧
      ((∀ t ∈ s.2, t ∉ files.contents) → (∀ t ∈ s.2, t ∈ s.1.contents) →
        ∀ t ∈ s.2, ∀ t' ∈ s.2, t = t') := by
  constructor
  · intro hsame t ht
    have hne : s.2 ≠ [] := List.ne_nil_of_mem ht
    have hlast := h.last _ (List.getLast?_eq_some_getLast hne)
    exact LogFiles.mem_contents.mpr ⟨_, _, hlast, hsame _ (List.getLast_mem hne) t ht⟩
  · intro hfresh hkept
    have hall : ∀ t ∈ s.2, s.2.getLast? = some t := by
      intro t ht
      have hne : s.2 ≠ [] := List.ne_nil_of_mem ht
      have hlast := h.last _ (List.getLast?_eq_some_getLast hne)
      obtain ⟨k, x, hk, rfl⟩ := LogFiles.mem_contents.mp (hkept t ht)
      by_cases hname : k = name
      · rw [hname, hlast, Option.some_inj] at hk
        rw [List.getLast?_eq_some_getLast hne, ← hk]
        rfl
      · obtain ⟨k', hk'⟩ := h.others k x hname hk
        exact absurd (LogFiles.mem_contents.mpr ⟨k', x, hk', rfl⟩) (hfresh _ ht)
    intro t ht t' ht'
    exact Option.some_inj.mp ((hall t ht).symm.trans (hall t' ht'))

/-- A rollover to the same backup again. -/
theorem Compressed.concat {name : Str} {s : LogFiles × List Str}
    (h : Compressed files name texts s) {r : LogFiles × List Str}
    (hout : r.2 = [s.1.current ++ text]) (hcurrent : r.1.current = [])
    (hname : r.1.backups.lookup name = some (.gzip (s.1.current ++ text)))
    (hothers : ∀ k x, k ≠ name → r.1.backups.lookup k = some x →
      ∃ k', k' ≠ name ∧ s.1.backups.lookup k' = some x) :
    Compressed files name (texts ++ [text]) (r.1, s.2 ++ r.2) where
  toRotated := h.toRotated.concat hout hcurrent
  last t ht := by
    rw [hout, List.getLast?_concat, Option.mem_some] at ht
    rw [hname, ht]
  others k x hk hlookup := by
    obtain ⟨k', hne, hk'⟩ := hothers k x hk hlookup
    exact h.others k' x hne hk'

theorem Compressed.nil (files : LogFiles) (name : Str) : Compressed files name [] (files, []) where
  out := rfl
  current := rfl
  last t ht := by cases ht
  others k x _ hk := ⟨k, hk⟩

/-- **By size, compressed**: every backup is `name.1.gz`. -/
theorem rotating_compressed {maxBytes n : ℤ} (hn : 0 < n) (start : Str) (files : LogFiles)
    (texts : List Str) :
    Compressed files (Text.ofNat 1 ++ ".gz".toList) texts
      ((Handler.rotating maxBytes n (some LogFiles.gzipRotator)).rollovers start files texts) := by
  induction texts using List.reverseRecOn with
  | nil => exact .nil files _
  | append_singleton texts text ih =>
    rw [Handler.rollovers_concat]
    refine ih.concat ?_ ?_ ?_ fun k x hk hx ↦ ?_
    · simp [Handler.doRollover, rolloverBySize, hn, LogFiles.write]
    · simp [Handler.doRollover, rolloverBySize, hn, rotate, LogFiles.gzipRotator]
    · simp [Handler.doRollover, rolloverBySize, hn, rotate, LogFiles.gzipRotator, LogFiles.write]
    · simp only [Handler.doRollover, rolloverBySize, if_pos hn, rotate, LogFiles.gzipRotator,
        LogFiles.write, lookup_insert_ne hk] at hx
      rcases lookup_of_shift (lookup_of_erase hx) with hx | ⟨i, hx⟩
      · exact ⟨k, hk, hx⟩
      · exact ⟨_, ofNat_ne_gz i _, hx⟩

/-! ## By time -/

/-- The backups of intervals. -/
def intervals (format : Str) (backups : AList fun _ : Str ↦ LogFile) : List Str :=
  backups.keys.filter fun k ↦ IsInterval format k

/-- The backups of later intervals than `start`. -/
def later (format start : Str) (backups : AList fun _ : Str ↦ LogFile) : List Str :=
  laterThan start (intervals format backups)

theorem nodup_intervals (format : Str) (backups : AList fun _ : Str ↦ LogFile) :
    (intervals format backups).Nodup :=
  (AList.keys_nodup _).filter _

theorem mem_intervals {backups : AList fun _ : Str ↦ LogFile} {k : Str} :
    k ∈ intervals format backups ↔ k ∈ backups ∧ IsInterval format k := by
  rw [intervals, List.mem_filter, ← AList.mem_keys, decide_eq_true_iff]

theorem getFilesToDelete_eq (n : ℕ) (backups : AList fun _ : Str ↦ LogFile) :
    getFilesToDelete format n backups =
      outdated n (intervals format backups) := by
  rw [getFilesToDelete, outdated, intervals]
  split
  · rw [Nat.sub_eq_zero_of_le (by omega), List.take_zero]
  · rfl

theorem not_isInterval_gz (hstart : IsInterval format start) :
    ¬ IsInterval format (start ++ ".gz".toList) := by
  intro h
  have hlen := hstart.length_eq.symm.trans h.length_eq
  rw [List.length_append] at hlen
  exact absurd hlen (by simp)

/-- Other files than backups of intervals are not deleted. -/
theorem not_mem_getFilesToDelete {n : ℕ} {backups : AList fun _ : Str ↦ LogFile} {k : Str}
    (hk : ¬ IsInterval format k) : k ∉ getFilesToDelete format n backups := by
  intro h
  rw [getFilesToDelete_eq] at h
  exact hk (mem_intervals.mp (mem_of_mem_outdated h)).2

section Deleted

variable {n : ℕ} {backups : AList fun _ : Str ↦ LogFile} {x : LogFile}
  (hstart : IsInterval format start) (hnew : start ∉ backups)

include hstart

theorem mem_intervals_insert : start ∈ intervals format (backups.insert start x) :=
  mem_intervals.mpr ⟨(AList.mem_insert _).mpr (.inl rfl), hstart⟩

include hnew

theorem later_insert :
    later format start (backups.insert start x) = later format start backups := by
  have hkeys : (backups.insert start x).keys = start :: backups.keys := by
    rw [AList.keys_insert, @List.erase_of_not_mem _ instBEqOfDecidableEq _ _ _
      (mt AList.mem_keys.mpr hnew)]
  have hintervals : intervals format (backups.insert start x) =
      start :: intervals format backups := by
    rw [intervals, hkeys]
    exact List.filter_cons_of_pos (decide_eq_true hstart)
  rw [later, later, hintervals, laterThan, List.filter_cons_of_neg (by simp), laterThan]

/-- The new backup is deleted if and only if there are enough later ones. -/
theorem mem_getFilesToDelete : start ∈ getFilesToDelete format n (backups.insert start x) ↔
    n ≤ (later format start backups).length := by
  rw [getFilesToDelete_eq, mem_outdated (nodup_intervals _ _) (mem_intervals_insert hstart),
    ← later, later_insert hstart hnew]

/-- In that case there are still enough of them afterwards. -/
theorem later_prune (hn : n ≤ (later format start backups).length) :
    n ≤ (later format start (prune format n (backups.insert start x))).length := by
  rw [← later_insert (x := x) hstart hnew, later] at hn
  obtain ⟨d, hnodup, hlen, hd⟩ := exists_latest (nodup_intervals _ _)
    (mem_intervals_insert hstart) hn
  rw [← hlen]
  refine (List.subperm_of_subset hnodup fun k hk ↦ ?_).length_le
  obtain ⟨hmem, hlt, hout⟩ := hd k hk
  rw [← getFilesToDelete_eq] at hout
  rw [mem_intervals] at hmem
  rw [later, mem_laterThan, mem_intervals, prune, AList.mem_eraseAll]
  exact ⟨⟨⟨hmem.1, hlen ▸ hout⟩, hmem.2⟩, hlt⟩

end Deleted

theorem rolloverByTime_of_not_mem {n : ℤ} {rotator : Option Rotator} (hn : 0 < n)
    (h : start ∉ files.backups) : rolloverByTime format n rotator start files =
      (⟨(rotate rotator files start).current,
        prune format n.toNat (rotate rotator files start).backups⟩, [files.current]) := by
  simp only [rolloverByTime, if_neg h, if_pos hn]

section ByTime

variable {h : Handler} {n : ℤ} {rotator : Option Rotator}
  (hroll : h.doRollover start = rolloverByTime format n rotator start)

include hroll

/-- When the backup of the interval is there already, nothing is taken out. -/
theorem timed_rolledOver (hstart : start ∈ files.backups) (texts : List Str) :
    (h.rollovers start files texts).2 = [] ∧
      (h.rollovers start files texts).1.backups = files.backups := by
  induction texts using List.reverseRecOn with
  | nil => exact ⟨rfl, rfl⟩
  | append_singleton texts text ih =>
    have hmem : start ∈ ((h.rollovers start files texts).1.write text).backups := by
      rwa [LogFiles.write, ih.2]
    rw [Handler.rollovers_concat, Handler.writeAndRoll, hroll, rolloverByTime, if_pos hmem]
    exact ⟨by rw [ih.1, List.append_nil], ih.2⟩

end ByTime

section Plain

variable {h : Handler} {n : ℤ} (hroll : h.doRollover start = rolloverByTime format n none start)
  (hn : 0 < n) (hstart : IsInterval format start)

include hroll hn hstart

/-- **By time**: only the first rollover takes something out, and its backup is kept unless there
are enough later ones. -/
theorem timed_kept (hlater : ((later format start files.backups).length : ℤ) < n)
    (texts : List Str) : let s := h.rollovers start files texts
    (s.2 = [] → s.1.backups = files.backups) ∧
      ∀ t ∈ s.2, s.1.backups.lookup start = some (.plain t) := by
  induction texts using List.reverseRecOn with
  | nil => exact ⟨fun _ ↦ rfl, fun t ht ↦ absurd ht List.not_mem_nil⟩
  | append_singleton texts text ih =>
    rw [Handler.rollovers_concat]
    simp only [Handler.writeAndRoll, hroll]
    rw [rolloverByTime]
    split_ifs with hmem
    · simpa [LogFiles.write] using ih
    · have hnone : (h.rollovers start files texts).2 = [] := by
        refine List.eq_nil_iff_forall_not_mem.mpr fun t ht ↦ hmem (AList.lookup_isSome.mp ?_)
        rw [LogFiles.write, ih.2 t ht]
        rfl
      have hbackups := ih.1 hnone
      rw [hnone, List.nil_append]
      refine ⟨fun h ↦ absurd h (List.cons_ne_nil _ _), fun t ht ↦ ?_⟩
      rw [List.mem_singleton.mp ht]
      simp only [rotate, LogFiles.rename, LogFiles.write, hbackups] at hmem ⊢
      rw [prune, AList.lookup_eraseAll, AList.lookup_insert]
      rw [mem_getFilesToDelete hstart hmem]
      omega

/-- With enough later ones every backup of the interval is deleted at once. -/
theorem timed_pruned (hnew : start ∉ files.backups)
    (hlater : n ≤ (later format start files.backups).length) (texts : List Str) :
    let s := h.rollovers start files texts
    Rotated files.current texts s ∧ start ∉ s.1.backups ∧
      n ≤ (later format start s.1.backups).length ∧
      ∀ k x, s.1.backups.lookup k = some x → files.backups.lookup k = some x := by
  induction texts using List.reverseRecOn with
  | nil => exact ⟨⟨rfl, rfl⟩, hnew, hlater, fun k x hk ↦ hk⟩
  | append_singleton texts text ih =>
    rw [Handler.rollovers_concat]
    generalize h.rollovers start files texts = s at ih ⊢
    obtain ⟨hrotated, hnew, hlater, hsub⟩ := ih
    have hlater' : n.toNat ≤ (later format start s.1.backups).length := by omega
    have hdelete : start ∈ getFilesToDelete format n.toNat
        (s.1.backups.insert start (.plain (s.1.current ++ text))) :=
      (mem_getFilesToDelete hstart hnew).mpr hlater'
    have hprune := later_prune (x := .plain (s.1.current ++ text)) hstart hnew hlater'
    have hstep : h.doRollover start (s.1.write text) =
        (⟨[], prune format n.toNat (s.1.backups.insert start (.plain (s.1.current ++ text)))⟩,
          [s.1.current ++ text]) :=
      (congrFun hroll _).trans (rolloverByTime_of_not_mem hn hnew)
    rw [Handler.writeAndRoll, hstep]
    have hgone : start ∉ prune format n.toNat
        (s.1.backups.insert start (.plain (s.1.current ++ text))) :=
      fun hmem ↦ (AList.mem_eraseAll.mp hmem).2 hdelete
    refine ⟨hrotated.concat rfl rfl, hgone, Int.toNat_le.mp hprune, fun k x hk ↦ hsub k x ?_⟩
    have hne : k ≠ start := by
      rintro rfl
      exact hgone (AList.lookup_isSome.mp (Option.isSome_iff_exists.mpr ⟨x, hk⟩))
    have hk' := AList.lookup_of_eraseAll hk
    rwa [AList.lookup_insert_ne hne] at hk'

end Plain

/-- **By time, compressed**: the handler does not find the backup of the interval, and every
rollover writes it again. -/
theorem timed_compressed {h : Handler} {n : ℤ}
    (hroll : h.doRollover start = rolloverByTime format n (some LogFiles.gzipRotator) start)
    (hn : 0 < n) (hstart : IsInterval format start) (hnew : start ∉ files.backups)
    (texts : List Str) :
    Compressed files (start ++ ".gz".toList) texts (h.rollovers start files texts) ∧
      start ∉ (h.rollovers start files texts).1.backups := by
  have hgz : start ≠ start ++ ".gz".toList := fun h ↦ not_isInterval_gz hstart (h ▸ hstart)
  induction texts using List.reverseRecOn with
  | nil => exact ⟨.nil files _, hnew⟩
  | append_singleton texts text ih =>
    rw [Handler.rollovers_concat]
    generalize h.rollovers start files texts = s at ih ⊢
    obtain ⟨hcompressed, hnew⟩ := ih
    have hstep : h.doRollover start (s.1.write text) =
        (⟨[], prune format n.toNat
          (s.1.backups.insert (start ++ ".gz".toList) (.gzip (s.1.current ++ text)))⟩,
          [s.1.current ++ text]) :=
      (congrFun hroll _).trans (rolloverByTime_of_not_mem hn hnew)
    rw [Handler.writeAndRoll, hstep]
    refine ⟨hcompressed.concat rfl rfl ?_ fun k x hk hx ↦ ⟨k, hk, ?_⟩, fun hmem ↦ ?_⟩
    · rw [prune, AList.lookup_eraseAll (not_mem_getFilesToDelete (not_isInterval_gz hstart)),
        AList.lookup_insert]
    · have hx' := AList.lookup_of_eraseAll hx
      rwa [AList.lookup_insert_ne hk] at hx'
    · rcases (AList.mem_insert _).mp (AList.mem_eraseAll.mp hmem).1 with h | h
      · exact hgz h
      · exact hnew h

/-! ## What is lost -/

/-- No record is lost: every text taken out of the log file is in some backup, and the rest of what
was `written` is in the log file. -/
def LosesNothing (before : LogFiles) (written : Str) (run : LogFiles × List Str) : Prop :=
  (∀ t ∈ run.2, t ∈ run.1.contents) ∧ run.2.flatten ++ run.1.current = before.current ++ written

/-- The rollovers write over a backup, or delete one, that should have been kept.  With compression
it takes two different texts for that, without it as many backups of later intervals as are kept;
and in both cases the plain backup of the interval must not be there. -/
def Overwrites (config : RotationConfig) (start : Str) (files : LogFiles) (texts : List Str) :
    Prop :=
  ¬ (config.rotationInterval ≠ none ∧ start ∈ files.backups) ∧
    if config.compressBackups then
      ∃ t ∈ segments files.current texts, ∃ t' ∈ segments files.current texts, t ≠ t'
    else texts ≠ [] ∧ ∃ format ∈ config.rotationInterval.bind suffixFormat,
      config.backupCount ≤ (later format start files.backups).length

instance (config : RotationConfig) (start : Str) (files : LogFiles) (texts : List Str) :
    Decidable (Overwrites config start files texts) :=
  inferInstanceAs (Decidable (_ ∧ _))

section Exact

variable {config : RotationConfig} {mb : ℚ} {h : Handler} (hsize : config.maxSizeMb = some mb)
  (hbuild : buildRotatingHandler config = some h) (hcount : 1 ≤ config.backupCount)

include hsize hbuild hcount

/-- Without a time trigger. -/
theorem kept_iff_of_size (hinterval : config.rotationInterval = none)
    (hlen : (texts.length : ℤ) ≤ config.backupCount) :
    let s := h.rollovers start files texts
    (¬ Overwrites config start files texts → ∀ t ∈ s.2, t ∈ s.1.contents) ∧
      ((∀ t ∈ segments files.current texts, t ∉ files.contents) →
        (∀ t ∈ s.2, t ∈ s.1.contents) → ¬ Overwrites config start files texts) := by
  rw [buildRotatingHandler, hsize, hinterval] at hbuild
  obtain rfl := Option.some_inj.mp hbuild
  rw [Overwrites, hinterval, RotationConfig.rotator]
  cases hcompress : config.compressBackups with
  | false =>
    obtain ⟨hrotated, hbackup⟩ :=
      @rotating_kept texts (truncate (mb * 1024 * 1024)) _ start files hlen
    refine ⟨fun _ t ht ↦ ?_, fun _ _ ↦ by simp⟩
    obtain ⟨i, hi⟩ := List.mem_iff_getElem?.mp (List.mem_reverse.mpr ht)
    exact LogFiles.mem_contents.mpr ⟨_, _, hbackup i t hi, rfl⟩
  | true =>
    have hcompressed := @rotating_compressed (truncate (mb * 1024 * 1024)) config.backupCount
      (by omega) start files texts
    obtain ⟨hsame, hdiffer⟩ := hcompressed.kept_iff
    simp only [if_true]
    rw [hcompressed.out] at hsame hdiffer ⊢
    refine ⟨fun hno ↦ hsame ?_, fun hfresh hkept hover ↦ ?_⟩
    · simpa using hno
    · obtain ⟨-, t, ht, t', ht', hne⟩ := hover
      exact hne (hdiffer hfresh hkept t ht t' ht')

/-- With a time trigger. -/
theorem kept_iff_of_time {w : Str} (hinterval : config.rotationInterval = some w)
    (hstart : h.IsStart start) :
    let s := h.rollovers start files texts
    (¬ Overwrites config start files texts → ∀ t ∈ s.2, t ∈ s.1.contents) ∧
      ((∀ t ∈ segments files.current texts, t ∉ files.contents) →
        (∀ t ∈ s.2, t ∈ s.1.contents) → ¬ Overwrites config start files texts) := by
  rw [buildRotatingHandler, hsize, hinterval] at hbuild
  obtain ⟨format, hformat, rfl⟩ := Option.map_eq_some_iff.mp hbuild
  have hn : 0 < config.backupCount := by omega
  have hroll : (Handler.sizeAndTime (truncate (mb * 1024 * 1024)) format config.backupCount
      config.rotator).doRollover start =
        rolloverByTime format config.backupCount config.rotator start := rfl
  by_cases hmem : start ∈ files.backups
  · obtain ⟨hout, -⟩ := timed_rolledOver hroll hmem texts
    refine ⟨fun _ t ht ↦ ?_, fun _ _ hover ↦ hover.1 ⟨by simp [hinterval], hmem⟩⟩
    rw [hout] at ht
    exact absurd ht List.not_mem_nil
  rw [Overwrites, hinterval, Option.bind_some, hformat]
  rw [RotationConfig.rotator] at hroll ⊢
  cases hcompress : config.compressBackups with
  | false =>
    rw [hcompress] at hroll
    by_cases hlater : config.backupCount ≤ (later format start files.backups).length
    · obtain ⟨hrotated, -, -, hsub⟩ := timed_pruned hroll hn hstart hmem hlater texts
      refine ⟨fun hno t ht ↦ ?_, fun hfresh hkept hover ↦ ?_⟩
      · rw [hrotated.out] at ht
        refine absurd ⟨by simp [hmem], ?_, format, rfl, hlater⟩ hno
        exact fun hnil ↦ List.ne_nil_of_mem ht (segments_eq_nil.mpr hnil)
      · have hne : segments files.current texts ≠ [] := mt segments_eq_nil.mp hover.2.1
        obtain ⟨t, ht⟩ := List.exists_mem_of_ne_nil _ hne
        obtain ⟨k, x, hk, hx⟩ := LogFiles.mem_contents.mp (hkept t (hrotated.out ▸ ht))
        exact hfresh t ht (LogFiles.mem_contents.mpr ⟨k, x, hsub k x hk, hx⟩)
    · have hlt : ((later format start files.backups).length : ℤ) < config.backupCount := by omega
      obtain ⟨-, hkept⟩ := timed_kept hroll hn hstart hlt texts
      refine ⟨fun _ t ht ↦ ?_, fun _ _ hover ↦ ?_⟩
      · exact LogFiles.mem_contents.mpr ⟨_, _, hkept t ht, rfl⟩
      obtain ⟨-, -, format', hformat', hle⟩ := hover
      obtain rfl := Option.mem_some.mp hformat'
      exact hlater hle
  | true =>
    simp only [hcompress, if_true] at hroll ⊢
    obtain ⟨hcompressed, -⟩ := timed_compressed hroll hn hstart hmem texts
    obtain ⟨hsame, hdiffer⟩ := hcompressed.kept_iff
    rw [hcompressed.out] at hsame hdiffer ⊢
    refine ⟨fun hno ↦ hsame (by simpa [hmem] using hno), fun hfresh hkept hover ↦ ?_⟩
    · obtain ⟨-, t, ht, t', ht', hne⟩ := hover
      exact hne (hdiffer hfresh hkept t ht t' ht')

/-- **When rotation loses something**: with a size trigger, at least one backup to keep and no more
rollovers than backups, all in the interval that began at `start`, nothing is lost unless the
rollovers overwrite a backup; and if they do, something is lost, unless a text that was taken out
happens to be in a backup file from before. -/
theorem run_losesNothing_iff (hstart : h.IsStart start)
    (hlen : (texts.length : ℤ) ≤ config.backupCount) (rest : Str) :
    (¬ Overwrites config start files texts →
        LosesNothing files (texts.flatten ++ rest) (h.run start files texts rest)) ∧
      ((∀ t ∈ segments files.current texts, t ∉ files.contents) →
        (LosesNothing files (texts.flatten ++ rest) (h.run start files texts rest) ↔
          ¬ Overwrites config start files texts)) := by
  have hkept : (¬ Overwrites config start files texts →
        ∀ t ∈ (h.rollovers start files texts).2, t ∈ (h.rollovers start files texts).1.contents) ∧
      ((∀ t ∈ segments files.current texts, t ∉ files.contents) →
        (∀ t ∈ (h.rollovers start files texts).2,
          t ∈ (h.rollovers start files texts).1.contents) →
            ¬ Overwrites config start files texts) := by
    cases hinterval : config.rotationInterval with
    | none => exact kept_iff_of_size hsize hbuild hcount hinterval hlen
    | some w => exact kept_iff_of_time hsize hbuild hcount hinterval hstart
  have htext : (h.run start files texts rest).2.flatten ++
      (h.run start files texts rest).1.current = files.current ++ (texts.flatten ++ rest) := by
    rw [Handler.run, LogFiles.write, ← List.append_assoc, rollovers_text hbuild,
      List.append_assoc]
  exact ⟨fun hno ↦ ⟨hkept.1 hno, htext⟩,
    fun hfresh ↦ ⟨fun hall ↦ hkept.2 hfresh hall.1, fun hno ↦ ⟨hkept.1 hno, htext⟩⟩⟩

end Exact

/-- Two rollovers by size and time, not compressed: the second one takes nothing out. -/
theorem run_midnight :
    LosesNothing ⟨[], ∅⟩ "a\nb\nc\n".toList
      ((Handler.sizeAndTime (truncate (1 * 1024 * 1024)) "0000-00-00".toList 2 none).run
        "2026-01-01".toList ⟨[], ∅⟩ ["a\n".toList, "b\n".toList] "c\n".toList) :=
  have hsize : RotationConfig.maxSizeMb ⟨some 1, some "midnight".toList, 2, false⟩ = some 1 := rfl
  have hstart : IsInterval "0000-00-00".toList "2026-01-01".toList := by decide
  (run_losesNothing_iff hsize rfl (by decide) hstart (by decide) "c\n".toList).1 (by decide)

/-- Two rollovers by size, compressed: the second backup is written over the first. -/
theorem rotation_loses : ¬ ∀ (config : RotationConfig) (mb : ℚ) (h : Handler) (start : Str)
    (files : LogFiles) (texts : List Str) (rest : Str), config.maxSizeMb = some mb →
      buildRotatingHandler config = some h → 1 ≤ config.backupCount → h.IsStart start →
      (texts.length : ℤ) ≤ config.backupCount →
      LosesNothing files (texts.flatten ++ rest) (h.run start files texts rest) := by
  intro hall
  have hrun := hall ⟨some 1, none, 2, true⟩ 1
    (.rotating (truncate (1 * 1024 * 1024)) 2 (some LogFiles.gzipRotator)) [] ⟨[], ∅⟩
    ["a\n".toList, "b\n".toList] "c\n".toList rfl rfl (by decide) trivial (by decide)
  have hfirst := hrun.1 "a\n".toList (by decide)
  exact absurd hfirst (by decide)

end WiseTraceLoom
