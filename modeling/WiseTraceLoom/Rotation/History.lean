import Mathlib.Data.List.Infix
import WiseTraceLoom.Rotation

/-!
# What is on disk after any number of records

`Rotation` looks at the rollovers of one interval.  Here a handler logs records in any number of
intervals, beginning with an empty directory.

* `disk_is_tail_iff`: whoever reads the backups, the oldest first, and then the log file, reads the
  end of what was logged; nothing is missing in the middle, nothing is there twice or in another
  order.  This is so unless both triggers and `compress_backups` are set: then a second rollover in
  an interval writes over the backup of the first (`onDisk_twice`).
* `live_file_bounded_iff`: with a size trigger the log file stays below its limit, but for a single
  record, if every rollover empties it: that takes at least one backup to keep or, next to a time
  trigger, `compress_backups`.
-/

set_option autoImplicit false

namespace WiseTraceLoom

open AList

/-! ## Logging -/

/-- A record: the interval that began last, whether it is over, and the message. -/
abbrev LogRecord := Str × Bool × Str

/-- What is written for a record. -/
def line (r : LogRecord) : Str := r.2.2 ++ ['\n']

/-- What is written for all of them. -/
def logged (records : List LogRecord) : Str := (records.map line).flatten

/-- The files after these records. -/
def Handler.log (h : Handler) (records : List LogRecord) : LogFiles :=
  (records.foldl (fun s r ↦ h.emit r.1 s r.2) (⟨[], ∅⟩, [])).1

/-- The files that a record is written to: after a rollover, if it is time for one. -/
def Handler.turned (h : Handler) (files : LogFiles) (r : LogRecord) : LogFiles :=
  if h.shouldRollover r.2.1 files r.2.2 then (h.doRollover r.1 files).1 else files

theorem Handler.emit_fst (h : Handler) (s : LogFiles × List Str) (r : LogRecord) :
    (h.emit r.1 s r.2).1 = (h.turned s.1 r).write (line r) := by
  rw [emit, turned]
  split_ifs
  · rfl
  · rfl

theorem Handler.log_concat (h : Handler) (records : List LogRecord) (r : LogRecord) :
    h.log (records ++ [r]) = (h.turned (h.log records) r).write (line r) := by
  rw [log, List.foldl_concat, emit_fst]
  rfl

theorem logged_concat (records : List LogRecord) (r : LogRecord) :
    logged (records ++ [r]) = logged records ++ line r := by
  simp [logged]

/-- Intervals come one after the other.  With compression no backup of the interval is found, so a
rollover always happens, and an interval that is over does not come again. -/
def Chronological (config : RotationConfig) (records : List LogRecord) : Prop :=
  records.Pairwise fun a b ↦
    a.1 ≤ b.1 ∧ (config.compressBackups = true → a.2.1 = true → a.1 < b.1)

theorem length_le_utf8Length (s : Str) : s.length ≤ Handler.utf8Length s := by
  induction s with
  | nil => exact Nat.zero_le _
  | cons c s ih =>
    have hc := Char.utf8Size_pos c
    simp only [Handler.utf8Length, List.map_cons, List.sum_cons, List.length_cons] at ih ⊢
    omega

/-! ## Reading -/

/-- The texts of the backups with these names, as far as they are there, and then the log file. -/
def LogFiles.read (files : LogFiles) (names : List Str) : Str :=
  (names.filterMap fun k ↦ (files.backups.lookup k).map LogFile.content).flatten ++ files.current

/-- What compressed backups are called after. -/
def extension : Option Rotator → Str
  | none => []
  | some _ => ".gz".toList

/-- The names of the backups of intervals, in order. -/
def dates (format : Str) (backups : AList fun _ : Str ↦ LogFile) : List Str :=
  (intervals format backups).insertionSort (· ≤ ·)

/-- The names of the backups, the oldest first. -/
def Handler.names : Handler → LogFiles → List Str
  | .file, _ => []
  | .rotating _ n rotator, _ =>
    (List.range n.toNat).reverse.map fun i ↦ Text.ofNat (i + 1) ++ extension rotator
  | .timed format _ rotator, files => dates (format ++ extension rotator) files.backups
  | .sizeAndTime _ format _ rotator, files => dates (format ++ extension rotator) files.backups

/-- Everything that is on disk, in order. -/
def Handler.onDisk (h : Handler) (files : LogFiles) : Str := files.read (h.names files)

theorem LogFiles.read_write (files : LogFiles) (names : List Str) (text : Str) :
    (files.write text).read names = files.read names ++ text := by
  simp [read, write]

/-- What stays the end when more is logged. -/
theorem suffix_write {files : LogFiles} {names : List Str} {records : List LogRecord}
    (h : files.read names <:+ logged records) (r : LogRecord) :
    (files.write (line r)).read names <:+ logged (records ++ [r]) := by
  obtain ⟨lost, hlost⟩ := h
  rw [LogFiles.read_write, logged_concat, ← hlost]
  exact ⟨lost, (List.append_assoc ..).symm⟩

/-! ## By size -/

theorem rotate_eq (config : RotationConfig) (files : LogFiles) (dest : Str) :
    ∃ x : LogFile, x.content = files.current ∧ rotate config.rotator files dest =
      ⟨[], files.backups.insert (dest ++ extension config.rotator) x⟩ := by
  rw [RotationConfig.rotator]
  split
  · exact ⟨.gzip files.current, rfl, rfl⟩
  · refine ⟨.plain files.current, rfl, ?_⟩
    rw [extension, List.append_nil]
    rfl

/-- The numbered backups hold these texts, the latest first. -/
structure Numbers (ext : Str) (n : ℕ) (files : LogFiles) (texts : List Str) : Prop where
  /-- There are at most `n`. -/
  length : texts.length ≤ n
  /-- The `i`-th is in `name.i`. -/
  backup : ∀ i, (files.backups.lookup (Text.ofNat (i + 1) ++ ext)).map LogFile.content = texts[i]?

theorem filterMap_range {α : Type} (texts : List α) {n : ℕ} (h : texts.length ≤ n) :
    (List.range n).filterMap (fun i ↦ texts[i]?) = texts := by
  induction texts generalizing n with
  | nil => simp
  | cons t texts ih =>
    obtain ⟨m, rfl⟩ := Nat.exists_eq_succ_of_ne_zero (n := n) (by
      rintro rfl
      simp at h)
    rw [List.range_succ_eq_map, List.filterMap_cons_some List.getElem?_cons_zero,
      List.filterMap_map]
    exact congrArg (t :: ·) (ih (by simpa using h))

theorem Numbers.read {ext : Str} {n : ℕ} {files : LogFiles} {texts : List Str}
    (h : Numbers ext n files texts) :
    files.read ((List.range n).reverse.map fun i ↦ Text.ofNat (i + 1) ++ ext) =
      texts.reverse.flatten ++ files.current := by
  have hlookup : ((List.range n).reverse.map fun i ↦ Text.ofNat (i + 1) ++ ext).filterMap
      (fun k ↦ (files.backups.lookup k).map LogFile.content) = texts.reverse := by
    rw [List.filterMap_map]
    simp only [Function.comp_def, h.backup]
    rw [List.filterMap_reverse, filterMap_range texts h.length]
  rw [LogFiles.read, hlookup]

/-- A rollover that moves every text one place on. -/
theorem Numbers.rename {n : ℤ} {files : LogFiles} {texts : List Str}
    (h : Numbers [] n.toNat files texts) (hn : 0 < n) :
    Numbers [] n.toNat (rolloverBySize n none files).1
      ((files.current :: texts).take n.toNat) := by
  obtain ⟨m, hm⟩ : ∃ m, n.toNat = m + 1 := Nat.exists_eq_succ_of_ne_zero (by omega)
  have hbackup (i : ℕ) : (files.backups.lookup (Text.ofNat (i + 1))).map LogFile.content =
      texts[i]? := by
    have hi := h.backup i
    rwa [List.append_nil] at hi
  have hlength := h.length
  have hnone (i : ℕ) (hi : texts.length ≤ i) :
      files.backups.lookup (Text.ofNat (i + 1)) = none := by
    have := hbackup i
    rwa [List.getElem?_eq_none hi, Option.map_eq_none_iff] at this
  refine ⟨List.length_take_le _ _, fun i ↦ ?_⟩
  rw [List.append_nil]
  simp only [rolloverBySize, if_pos hn, rotate, LogFiles.rename, hm, Nat.add_sub_cancel]
  cases i with
  | zero =>
    rw [lookup_insert]
    rfl
  | succ i =>
    have hne : Text.ofNat (i + 1 + 1) ≠ Text.ofNat 1 := Text.ofNat_injective.ne (by omega)
    rw [lookup_insert_ne hne, lookup_erase_ne hne, List.take_succ_cons, List.getElem?_cons_succ,
      List.getElem?_take]
    by_cases him : i < m
    · rw [if_pos him, ← hbackup i]
      cases hi : files.backups.lookup (Text.ofNat (i + 1)) with
      | some x => rw [lookup_shift Text.ofNat_injective (by omega) him hi]
      | none =>
        have hend : texts.length ≤ i := by
          have hnext := hbackup i
          rw [hi, Option.map_none, eq_comm, List.getElem?_eq_none_iff] at hnext
          exact hnext
        rw [lookup_shift_none Text.ofNat_injective him hi (hnone (i + 1) (by omega))]
    · rw [if_neg him, lookup_shift_of_ne fun j _ hj ↦ Text.ofNat_injective.ne (by omega),
        hnone (i + 1) (by omega)]
      rfl

/-- With compression there is no backup but `name.1.gz`. -/
def OnlyFirst (files : LogFiles) : Prop :=
  ∀ k ∈ files.backups, k = Text.ofNat 1 ++ ".gz".toList

/-- A rollover that writes this one anew. -/
theorem OnlyFirst.gzip {n : ℤ} {files : LogFiles} (h : OnlyFirst files) (hn : 0 < n) :
    OnlyFirst (rolloverBySize n (some LogFiles.gzipRotator) files).1 ∧
      Numbers ".gz".toList n.toNat (rolloverBySize n (some LogFiles.gzipRotator) files).1
        [files.current] := by
  have honly : OnlyFirst (rolloverBySize n (some LogFiles.gzipRotator) files).1 := by
    intro k hk
    simp only [rolloverBySize, if_pos hn, rotate, LogFiles.gzipRotator] at hk
    rcases (AList.mem_insert _).mp hk with hk | hk
    · exact hk
    · obtain ⟨x, hx⟩ := Option.isSome_iff_exists.mp (AList.lookup_isSome.mpr hk)
      have hmem {j : Str} (hj : files.backups.lookup j = some x) : j ∈ files.backups :=
        AList.lookup_isSome.mp (Option.isSome_iff_exists.mpr ⟨x, hj⟩)
      rcases lookup_of_shift (lookup_of_erase hx) with hold | ⟨i, hold⟩
      · exact h k (hmem hold)
      · exact absurd (h _ (hmem hold)) (ofNat_ne_gz i _)
  refine ⟨honly, ⟨by simp only [List.length_singleton]; omega, fun i ↦ ?_⟩⟩
  cases i with
  | zero =>
    simp only [rolloverBySize, if_pos hn, rotate, LogFiles.gzipRotator]
    rw [lookup_insert]
    rfl
  | succ i =>
    rw [List.getElem?_cons_succ, List.getElem?_nil, Option.map_eq_none_iff, lookup_eq_none]
    intro hk
    have heq := List.append_cancel_right (honly _ hk)
    exact absurd (Text.ofNat_injective heq) (by omega)

theorem rolloverBySize_current {config : RotationConfig} {n : ℤ} {files : LogFiles}
    (hn : 0 < n) : (rolloverBySize n config.rotator files).1.current = [] := by
  obtain ⟨x, -, hrotate⟩ := rotate_eq config
    ⟨files.current, (shift Text.ofNat (n.toNat - 1) files.backups).erase (Text.ofNat 1)⟩
    (Text.ofNat 1)
  simp only [rolloverBySize, if_pos hn, hrotate]

/-- A rollover by size takes the log file into the first backup, and keeps the latest texts. -/
theorem Numbers.rollover {config : RotationConfig} {n : ℤ} {files : LogFiles} {texts : List Str}
    (h : Numbers (extension config.rotator) n.toNat files texts)
    (honly : config.compressBackups = true → OnlyFirst files) (hn : 0 < n) :
    let rolled := (rolloverBySize n config.rotator files).1
    (config.compressBackups = true → OnlyFirst rolled) ∧
      ∃ texts', Numbers (extension config.rotator) n.toNat rolled texts' ∧
        texts'.reverse.flatten <:+ texts.reverse.flatten ++ files.current := by
  by_cases hcompress : config.compressBackups = true
  · have hrotator : config.rotator = some LogFiles.gzipRotator := if_pos hcompress
    rw [hrotator] at h ⊢
    obtain ⟨hfirst, hnumbers⟩ := (honly hcompress).gzip hn
    refine ⟨fun _ ↦ hfirst, [files.current], hnumbers, ?_⟩
    rw [List.reverse_singleton, List.flatten_singleton]
    exact List.suffix_append _ _
  · have hrotator : config.rotator = none := if_neg hcompress
    rw [hrotator] at h ⊢
    refine ⟨fun h ↦ absurd h hcompress, _, h.rename hn, ?_⟩
    obtain ⟨lost, hlost⟩ :=
      List.reverse_suffix.mpr (List.take_prefix n.toNat (files.current :: texts))
    refine ⟨lost.flatten, ?_⟩
    rw [← List.flatten_append, hlost]
    simp

/-- The numbered backups and the log file hold the end of what was logged. -/
def Latest (config : RotationConfig) (n : ℕ) (records : List LogRecord) (files : LogFiles) :
    Prop :=
  (config.compressBackups = true → OnlyFirst files) ∧
    ∃ texts, Numbers (extension config.rotator) n files texts ∧
      texts.reverse.flatten ++ files.current <:+ logged records

theorem rotating_latest {config : RotationConfig} {maxBytes n : ℤ} (records : List LogRecord) :
    Latest config n.toNat records ((Handler.rotating maxBytes n config.rotator).log records) := by
  induction records using List.reverseRecOn with
  | nil =>
    refine ⟨fun _ k hk ↦ absurd hk (AList.notMem_empty k), [], ⟨Nat.zero_le _, fun i ↦ rfl⟩, ?_⟩
    exact List.suffix_rfl
  | append_singleton records r ih =>
    obtain ⟨honly, texts, hnumbers, lost, hlost⟩ := ih
    rw [Handler.log_concat, Handler.turned]
    generalize (Handler.rotating maxBytes n config.rotator).log records = files
      at honly hnumbers hlost ⊢
    -- nothing but the log file changes
    have hstay : Latest config n.toNat (records ++ [r]) (files.write (line r)) := by
      refine ⟨honly, texts, ⟨hnumbers.length, hnumbers.backup⟩, lost, ?_⟩
      rw [logged_concat, ← hlost]
      simp [LogFiles.write]
    split_ifs with hshould
    · rw [Handler.doRollover]
      by_cases hn : 0 < n
      · obtain ⟨honly', texts', hnumbers', more, hmore⟩ := hnumbers.rollover honly hn
        refine ⟨honly', texts', ⟨hnumbers'.length, hnumbers'.backup⟩, lost ++ more, ?_⟩
        rw [logged_concat, ← hlost, ← hmore, LogFiles.write, rolloverBySize_current hn]
        simp
      · rw [rolloverBySize, if_neg hn]
        exact hstay
    · exact hstay

/-! ## By time -/

theorem mem_dates {backups : AList fun _ : Str ↦ LogFile} {format k : Str} :
    k ∈ dates format backups ↔ k ∈ backups ∧ IsInterval format k := by
  rw [dates, (List.perm_insertionSort _ _).mem_iff, mem_intervals]

/-- A backup with a later name than all others is the last one to be read. -/
theorem dates_insert {backups : AList fun _ : Str ↦ LogFile} {format k : Str} (x : LogFile)
    (hk : IsInterval format k) (hlt : ∀ j ∈ backups, j < k) :
    dates format (backups.insert k x) = dates format backups ++ [k] := by
  have hnodup := nodup_intervals format
  refine insertionSort_eq_of_mem_iff (hnodup _) ?_ fun j ↦ ?_
  · rw [List.pairwise_append]
    refine ⟨pairwise_lt_insertionSort (hnodup _), List.pairwise_singleton _ _, fun j hj k' hk' ↦ ?_⟩
    rw [List.mem_singleton.mp hk']
    exact hlt j (mem_dates.mp hj).1
  · rw [mem_intervals, AList.mem_insert, List.mem_append, mem_dates, List.mem_singleton]
    constructor
    · rintro ⟨rfl | hj, hform⟩
      · exact .inr rfl
      · exact .inl ⟨hj, hform⟩
    · rintro (⟨hj, hform⟩ | rfl)
      · exact ⟨.inr hj, hform⟩
      · exact ⟨.inl rfl, hk⟩

theorem read_insert {files : LogFiles} {format k : Str} {x : LogFile}
    (hx : x.content = files.current) (hk : IsInterval format k)
    (hlt : ∀ j ∈ files.backups, j < k) :
    LogFiles.read ⟨[], files.backups.insert k x⟩ (dates format (files.backups.insert k x)) =
      files.read (dates format files.backups) := by
  have hold : (dates format files.backups).filterMap (fun j ↦
      ((files.backups.insert k x).lookup j).map LogFile.content) =
        (dates format files.backups).filterMap fun j ↦
          (files.backups.lookup j).map LogFile.content := by
    refine List.filterMap_congr fun j hj ↦ ?_
    rw [lookup_insert_ne (hlt j (mem_dates.mp hj).1).ne]
  rw [dates_insert x hk hlt, LogFiles.read, List.filterMap_append, hold, LogFiles.read]
  simp [hx]

theorem dates_prune (format : Str) (n : ℕ) (backups : AList fun _ : Str ↦ LogFile) :
    dates format (prune format n backups) =
      (dates format backups).drop ((intervals format backups).length - n) := by
  have hnodup := nodup_intervals format backups
  refine insertionSort_eq_of_mem_iff (nodup_intervals _ _)
    ((pairwise_lt_insertionSort hnodup).sublist (List.drop_sublist _ _)) fun k ↦ ?_
  rw [dates, mem_drop_insertionSort hnodup, mem_intervals, mem_intervals, prune,
    AList.mem_eraseAll, getFilesToDelete_eq, and_right_comm]

/-- Deleting the earliest backups leaves the end. -/
theorem read_prune (format : Str) (n : ℕ) (files : LogFiles) :
    LogFiles.read ⟨files.current, prune format n files.backups⟩
        (dates format (prune format n files.backups)) <:+
      files.read (dates format files.backups) := by
  have hlookup : ∀ k ∈ dates format (prune format n files.backups),
      (prune format n files.backups).lookup k = files.backups.lookup k := by
    intro k hk
    exact lookup_eraseAll (AList.mem_eraseAll.mp (mem_dates.mp hk).1).2
  have htexts : (dates format (prune format n files.backups)).filterMap (fun k ↦
      ((prune format n files.backups).lookup k).map LogFile.content) <:+
        (dates format files.backups).filterMap fun k ↦
          (files.backups.lookup k).map LogFile.content := by
    rw [List.filterMap_congr fun k hk ↦ congrArg _ (hlookup k hk), dates_prune]
    exact (List.drop_suffix _ _).filterMap _
  obtain ⟨lost, hlost⟩ := htexts
  refine ⟨lost.flatten, ?_⟩
  rw [LogFiles.read, LogFiles.read, ← hlost, List.flatten_append, List.append_assoc]

theorem prune_of_not_isInterval {format : Str} (n : ℕ) {backups : AList fun _ : Str ↦ LogFile}
    (h : ∀ k ∈ backups, ¬ IsInterval format k) : prune format n backups = backups := by
  have hnil : getFilesToDelete format n backups = [] := by
    refine List.eq_nil_iff_forall_not_mem.mpr fun k hk ↦ ?_
    rw [getFilesToDelete_eq] at hk
    obtain ⟨hmem, hform⟩ := mem_intervals.mp (mem_of_mem_outdated hk)
    exact h k hmem hform
  rw [prune, hnil]
  rfl

theorem extension_of_compress {config : RotationConfig} (h : config.compressBackups = true) :
    extension config.rotator = ".gz".toList := by
  rw [RotationConfig.rotator, if_pos h]
  rfl

theorem extension_of_plain {config : RotationConfig} (h : ¬ config.compressBackups = true) :
    extension config.rotator = [] := by
  rw [RotationConfig.rotator, if_neg h]
  rfl

theorem isInterval_append {format start : Str} (config : RotationConfig)
    (h : IsInterval format start) :
    IsInterval (format ++ extension config.rotator) (start ++ extension config.rotator) := by
  refine List.rel_append h ?_
  by_cases hcompress : config.compressBackups = true
  · rw [extension_of_compress hcompress]
    exact (by decide : IsInterval ".gz".toList ".gz".toList)
  · rw [extension_of_plain hcompress]
    exact .nil

/-- The names are in the order of the intervals, with whatever extension. -/
theorem append_lt_append {format a b : Str} (ha : IsInterval format a) (hb : IsInterval format b)
    (h : a < b) (ext : Str) : a ++ ext < b ++ ext := by
  induction ha generalizing b with
  | nil =>
    cases hb
    exact absurd h (lt_irrefl _)
  | cons _ _ ih =>
    cases hb with
    | cons _ hb =>
      rw [List.cons_append, List.cons_append, List.cons_lt_cons_iff]
      exact (List.cons_lt_cons_iff.mp h).imp_right fun h ↦ ⟨h.1, ih hb h.2⟩

/-- With compression the handler finds no backup: it writes the one of the interval and deletes
none. -/
theorem rolloverByTime_gzip {config : RotationConfig} {format start : Str} {n : ℤ}
    {files : LogFiles} (hcompress : config.compressBackups = true)
    (hstart : IsInterval format start) (hform : ∀ k ∈ files.backups, ¬ IsInterval format k) :
    rolloverByTime format n config.rotator start files =
      (⟨[], files.backups.insert (start ++ ".gz".toList) (.gzip files.current)⟩,
        [files.current]) := by
  have hgz : ∀ k ∈ files.backups.insert (start ++ ".gz".toList) (.gzip files.current),
      ¬ IsInterval format k := by
    intro k hk
    rcases (AList.mem_insert _).mp hk with rfl | hk
    · exact not_isInterval_gz hstart
    · exact hform k hk
  have hnew : start ∉ files.backups := fun hmem ↦ hform _ hmem hstart
  have hrotator : config.rotator = some LogFiles.gzipRotator := if_pos hcompress
  rw [rolloverByTime, if_neg hnew, hrotator]
  simp only [rotate, LogFiles.gzipRotator, prune_of_not_isInterval _ hgz, ite_self]

/-- A rollover by time leaves the end of what was there. -/
theorem rolloverByTime_read {config : RotationConfig} {format start : Str} {n : ℤ}
    {files : LogFiles} (hstart : IsInterval format start)
    (hlt : start ∉ files.backups → ∀ k ∈ files.backups, k < start ++ extension config.rotator)
    (hform : config.compressBackups = true → ∀ k ∈ files.backups, ¬ IsInterval format k) :
    let rolled := (rolloverByTime format n config.rotator start files).1
    rolled.read (dates (format ++ extension config.rotator) rolled.backups) <:+
      files.read (dates (format ++ extension config.rotator) files.backups) := by
  have hinterval := isInterval_append config hstart
  by_cases hcompress : config.compressBackups = true
  · have hnew : start ∉ files.backups := fun hmem ↦ hform hcompress _ hmem hstart
    have hlt := hlt hnew
    rw [extension_of_compress hcompress] at hlt hinterval ⊢
    rw [rolloverByTime_gzip hcompress hstart (hform hcompress),
      ← read_insert (x := .gzip files.current) rfl hinterval hlt]
  · simp only [extension_of_plain hcompress, List.append_nil] at hlt hinterval ⊢
    have hrotator : config.rotator = none := if_neg hcompress
    rw [rolloverByTime, hrotator]
    split_ifs with hmem hn
    · exact List.suffix_rfl
    · rw [← read_insert (x := .plain files.current) rfl hinterval (hlt hmem)]
      exact read_prune format n.toNat ⟨[], files.backups.insert start (.plain files.current)⟩
    · rw [← read_insert (x := .plain files.current) rfl hinterval (hlt hmem)]
      exact List.suffix_rfl

theorem mem_rolloverByTime {config : RotationConfig} {format start k : Str} {n : ℤ}
    {files : LogFiles}
    (hk : k ∈ (rolloverByTime format n config.rotator start files).1.backups) :
    k ∈ files.backups ∨ k = start ++ extension config.rotator := by
  obtain ⟨x, -, hrotate⟩ := rotate_eq config files start
  have hinsert (hk : k ∈ files.backups.insert (start ++ extension config.rotator) x) :
      k ∈ files.backups ∨ k = start ++ extension config.rotator :=
    ((AList.mem_insert _).mp hk).symm
  rw [rolloverByTime, hrotate] at hk
  split_ifs at hk with hmem hn
  · exact .inl hk
  · exact hinsert (AList.mem_eraseAll.mp hk).1
  · exact hinsert hk

section Log

variable {config : RotationConfig} {h : Handler} {format : Str} {n : ℤ}
  (hroll : ∀ start, h.doRollover start = rolloverByTime format n config.rotator start)
  {records : List LogRecord}

include hroll

/-- The backups are called after the intervals of records that made the handler roll over. -/
theorem exists_of_mem_log {k : Str} (hk : k ∈ (h.log records).backups) :
    ∃ r ∈ records, k = r.1 ++ extension config.rotator ∧
      ∃ files, h.shouldRollover r.2.1 files r.2.2 = true := by
  induction records using List.reverseRecOn with
  | nil => exact absurd hk (AList.notMem_empty k)
  | append_singleton records r ih =>
    have hold (hk : k ∈ (h.log records).backups) :
        ∃ x ∈ records ++ [r], k = x.1 ++ extension config.rotator ∧
          ∃ files, h.shouldRollover x.2.1 files x.2.2 = true := by
      obtain ⟨x, hx, hname⟩ := ih hk
      exact ⟨x, List.mem_append_left _ hx, hname⟩
    rw [Handler.log_concat, Handler.turned, hroll] at hk
    split_ifs at hk with hshould
    · rcases mem_rolloverByTime hk with hk | rfl
      · exact hold hk
      · exact ⟨r, List.mem_append_right _ (List.mem_singleton_self r), rfl, _, hshould⟩
    · exact hold hk

/-- With compression the handler never finds a backup. -/
theorem not_isInterval_of_mem_log (hcompress : config.compressBackups = true)
    (hstart : ∀ r ∈ records, IsInterval format r.1) :
    ∀ k ∈ (h.log records).backups, ¬ IsInterval format k := by
  intro k hk
  obtain ⟨x, hx, rfl, -⟩ := exists_of_mem_log hroll hk
  rw [extension_of_compress hcompress]
  exact not_isInterval_gz (hstart x hx)

/-- A time handler leaves the end of what was logged, if it knows the names of its backups or never
writes to one of them twice. -/
theorem timed_disk
    (hnames : ∀ files, h.names files = dates (format ++ extension config.rotator) files.backups)
    (hover : config.compressBackups = true → ∀ files (r : LogRecord),
      h.shouldRollover r.2.1 files r.2.2 = true → r.2.1 = true)
    (hchron : Chronological config records) (hstart : ∀ r ∈ records, IsInterval format r.1) :
    h.onDisk (h.log records) <:+ logged records := by
  induction records using List.reverseRecOn with
  | nil =>
    have hempty : h.onDisk ⟨[], ∅⟩ = [] := by
      rw [Handler.onDisk, hnames]
      rfl
    exact hempty ▸ List.suffix_rfl
  | append_singleton records r ih =>
    rw [Chronological, List.pairwise_append] at hchron
    obtain ⟨hbefore, -, hr⟩ := hchron
    have hxstart (x : LogRecord) (hx : x ∈ records) : IsInterval format x.1 :=
      hstart x (List.mem_append_left _ hx)
    have hrstart := hstart r (List.mem_append_right _ (List.mem_singleton_self r))
    have hdisk := ih hbefore hxstart
    rw [Handler.onDisk, hnames] at hdisk
    rw [Handler.log_concat, Handler.onDisk, hnames, Handler.turned]
    split_ifs with hshould
    · rw [hroll]
      refine suffix_write ((rolloverByTime_read hrstart (fun hnew k hk ↦ ?_) fun hcompress ↦
        not_isInterval_of_mem_log hroll hcompress hxstart).trans hdisk) r
      -- the backups are those of earlier intervals
      obtain ⟨x, hx, rfl, files, hx'⟩ := exists_of_mem_log hroll hk
      obtain ⟨hle, hlt⟩ := hr x hx r (List.mem_singleton_self r)
      refine append_lt_append (hxstart x hx) hrstart ?_ _
      by_cases hcompress : config.compressBackups = true
      · exact hlt hcompress (hover hcompress files x hx')
      · refine lt_of_le_of_ne hle fun heq ↦ hnew ?_
        rwa [extension_of_plain hcompress, List.append_nil, heq] at hk
    · exact suffix_write hdisk r

/-- With compression every rollover takes the log file out. -/
theorem log_gzip (hcompress : config.compressBackups = true) (records : List LogRecord)
    (r : LogRecord) (hstart : ∀ x ∈ records ++ [r], IsInterval format x.1)
    (hshould : h.shouldRollover r.2.1 (h.log records) r.2.2 = true) :
    h.log (records ++ [r]) = ⟨line r, (h.log records).backups.insert (r.1 ++ ".gz".toList)
      (.gzip (h.log records).current)⟩ := by
  have hrstart := hstart r (List.mem_append_right _ (List.mem_singleton_self r))
  have hform := not_isInterval_of_mem_log hroll hcompress
    fun x hx ↦ hstart x (List.mem_append_left _ hx)
  rw [Handler.log_concat, Handler.turned, if_pos hshould, hroll,
    rolloverByTime_gzip hcompress hrstart hform]
  rfl

end Log

/-! ## By size and time, compressed -/

/-- A long record makes the handler roll over. -/
theorem shouldRollover_of_full {maxBytes n : ℤ} {format : Str} {rotator : Option Rotator}
    {msg : Str} (hfull : maxBytes ≤ msg.length) (timeUp : Bool) (files : LogFiles) :
    (Handler.sizeAndTime maxBytes format n rotator).shouldRollover timeUp files msg = true := by
  have hline := length_le_utf8Length (msg ++ ['\n'])
  rw [List.length_append] at hline
  simp only [Handler.shouldRollover, decide_eq_true_iff]
  right
  omega

section Twice

variable {config : RotationConfig} {maxBytes n : ℤ} {format a b msg msg' : Str}
  (hcompress : config.compressBackups = true) (ha : IsInterval format a)
  (hb : IsInterval format b) (hmsg : maxBytes ≤ msg.length) (hmsg' : maxBytes ≤ msg'.length)

include hcompress ha hb hmsg hmsg'

/-- Two records in each of two intervals, and each of them makes the handler roll over. -/
theorem log_twice :
    (Handler.sizeAndTime maxBytes format n config.rotator).log
        [(a, false, msg), (a, false, msg'), (b, false, msg), (b, false, msg)] =
      LogFiles.write ⟨[], ((∅ : AList fun _ : Str ↦ LogFile).insert (a ++ ".gz".toList)
        (.gzip (msg ++ ['\n']))).insert (b ++ ".gz".toList) (.gzip (msg ++ ['\n']))⟩
          (msg ++ ['\n']) := by
  have h1 : (Handler.sizeAndTime maxBytes format n config.rotator).log [(a, false, msg)] = _ :=
    log_gzip (fun _ ↦ rfl) hcompress [] _ (by simp [ha]) (shouldRollover_of_full hmsg _ _)
  have h2 : (Handler.sizeAndTime maxBytes format n config.rotator).log
      [(a, false, msg), (a, false, msg')] = _ :=
    log_gzip (fun _ ↦ rfl) hcompress [_] _ (by simp [ha]) (shouldRollover_of_full hmsg' _ _)
  have h3 : (Handler.sizeAndTime maxBytes format n config.rotator).log
      [(a, false, msg), (a, false, msg'), (b, false, msg)] = _ :=
    log_gzip (fun _ ↦ rfl) hcompress [_, _] _ (by simp [ha, hb]) (shouldRollover_of_full hmsg _ _)
  have h4 : (Handler.sizeAndTime maxBytes format n config.rotator).log
      [(a, false, msg), (a, false, msg'), (b, false, msg), (b, false, msg)] = _ :=
    log_gzip (fun _ ↦ rfl) hcompress [_, _, _] _ (by simp [ha, hb])
      (shouldRollover_of_full hmsg _ _)
  rw [h4, h3, h2, h1]
  simp only [AList.insert_insert]
  rfl

/-- The second text is not on disk: it is written over when the next interval begins. -/
theorem onDisk_twice (hlt : a < b) :
    let h := Handler.sizeAndTime maxBytes format n config.rotator
    h.onDisk (h.log [(a, false, msg), (a, false, msg'), (b, false, msg), (b, false, msg)]) =
      (msg ++ ['\n']) ++ ((msg ++ ['\n']) ++ (msg ++ ['\n'])) := by
  intro h
  have hempty : ∀ k ∈ (∅ : AList fun _ : Str ↦ LogFile), k < a ++ extension config.rotator :=
    fun k hk ↦ absurd hk (AList.notMem_empty k)
  have hone : ∀ k ∈ (∅ : AList fun _ : Str ↦ LogFile).insert (a ++ extension config.rotator)
      (.gzip (msg ++ ['\n'])), k < b ++ extension config.rotator := by
    intro k hk
    rcases (AList.mem_insert _).mp hk with rfl | hk
    · exact append_lt_append ha hb hlt _
    · exact absurd hk (AList.notMem_empty k)
  have hfirst := @read_insert ⟨msg ++ ['\n'], ∅⟩ _ _ (.gzip (msg ++ ['\n'])) rfl
    (isInterval_append config ha) hempty
  have hsecond := @read_insert ⟨msg ++ ['\n'], (∅ : AList fun _ : Str ↦ LogFile).insert
    (a ++ extension config.rotator) (.gzip (msg ++ ['\n']))⟩ _ _ (.gzip (msg ++ ['\n'])) rfl
    (isInterval_append config hb) hone
  have hwrite (backups : AList fun _ : Str ↦ LogFile) (names : List Str) :
      LogFiles.read ⟨msg ++ ['\n'], backups⟩ names =
        LogFiles.read ⟨[], backups⟩ names ++ (msg ++ ['\n']) :=
    LogFiles.read_write ⟨[], backups⟩ names _
  rw [log_twice hcompress ha hb hmsg hmsg', Handler.onDisk, LogFiles.read_write, Handler.names]
  rw [extension_of_compress hcompress] at hfirst hsecond ⊢
  simp only [LogFiles.write]
  rw [hsecond, hwrite, hfirst, List.append_assoc]
  rfl

/-- So it is missing in the middle. -/
theorem not_tail_twice (hlt : a < b) (hlen : msg'.length = msg.length) (hne : msg ≠ msg') :
    let h := Handler.sizeAndTime maxBytes format n config.rotator
    let records := [(a, false, msg), (a, false, msg'), (b, false, msg), (b, false, msg)]
    ¬ h.onDisk (h.log records) <:+ logged records := by
  intro h records
  rw [onDisk_twice hcompress ha hb hmsg hmsg' hlt]
  rintro ⟨lost, hlost⟩
  have hlogged : logged records = (msg ++ ['\n']) ++
      ((msg' ++ ['\n']) ++ ((msg ++ ['\n']) ++ (msg ++ ['\n']))) := by
    simp [logged, records, line]
  rw [hlogged] at hlost
  have hlength : lost.length = (msg ++ ['\n']).length := by
    have hlengths := congrArg List.length hlost
    simp only [List.length_append, List.length_singleton, hlen] at hlengths ⊢
    omega
  obtain ⟨-, hrest⟩ := List.append_inj hlost hlength
  exact hne (List.append_cancel_right (List.append_cancel_right hrest))

end Twice

/-! ## What is on disk -/

/-- There are at least two intervals. -/
theorem exists_intervals {w format : Str} (h : suffixFormat w = some format) :
    ∃ a b, IsInterval format a ∧ IsInterval format b ∧ a < b := by
  refine ⟨format, '1' :: format.tail, ?_⟩
  rw [suffixFormat] at h
  split_ifs at h
  all_goals
    obtain rfl := Option.some_inj.mp h
    decide

theorem file_log (records : List LogRecord) : Handler.file.log records = ⟨logged records, ∅⟩ := by
  induction records using List.reverseRecOn with
  | nil => rfl
  | append_singleton records r ih =>
    rw [Handler.log_concat, logged_concat, ih]
    rfl

section Exact

variable {config : RotationConfig} {h : Handler}
  (hbuild : buildRotatingHandler config = some h)

include hbuild

/-- **The backups and the log file are the end of what was logged**, whatever is logged, unless both
triggers and `compress_backups` are set. -/
theorem disk_is_tail_iff :
    (∀ records, Chronological config records → (∀ r ∈ records, h.IsStart r.1) →
      h.onDisk (h.log records) <:+ logged records) ↔
        ¬ (config.maxSizeMb ≠ none ∧ config.rotationInterval ≠ none ∧
          config.compressBackups = true) := by
  rw [buildRotatingHandler] at hbuild
  split at hbuild
  · rename_i mb w hsize hinterval
    obtain ⟨format, hformat, rfl⟩ := Option.map_eq_some_iff.mp hbuild
    rw [hsize, hinterval]
    constructor
    · rintro hall ⟨-, -, hcompress⟩
      obtain ⟨a, b, ha, hb, hlt⟩ := exists_intervals hformat
      -- two texts of the same length, and long enough
      set m := (truncate (mb * 1024 * 1024)).toNat
      have hlong (c : Char) : truncate (mb * 1024 * 1024) ≤ (c :: List.replicate m 'a').length := by
        rw [List.length_cons, List.length_replicate]
        omega
      refine @not_tail_twice config _ config.backupCount format a b _ _ hcompress ha hb (hlong 'a')
        (hlong 'b') hlt (by simp) (by simp) (hall _ ?_ ?_)
      · simp [Chronological, hlt.le]
      · simp [Handler.IsStart, ha, hb]
    · intro hplain records hchron hstart
      refine timed_disk (fun _ ↦ rfl) (fun _ ↦ rfl) (fun hcompress ↦ ?_) hchron hstart
      exact absurd ⟨Option.some_ne_none mb, Option.some_ne_none w, hcompress⟩ hplain
  · rename_i mb hsize hinterval
    obtain rfl := Option.some_inj.mp hbuild
    rw [hinterval]
    refine iff_of_true (fun records _ _ ↦ ?_) fun hboth ↦ hboth.2.1 rfl
    obtain ⟨-, texts, hnumbers, hdisk⟩ := @rotating_latest config
      (truncate (mb * 1024 * 1024)) config.backupCount records
    rwa [Handler.onDisk, Handler.names, hnumbers.read]
  · rename_i w hsize hinterval
    obtain ⟨format, hformat, rfl⟩ := Option.map_eq_some_iff.mp hbuild
    rw [hsize]
    refine iff_of_true (fun records hchron hstart ↦ ?_) fun hboth ↦ hboth.1 rfl
    exact timed_disk (fun _ ↦ rfl) (fun _ ↦ rfl) (fun _ _ _ hover ↦ hover) hchron hstart
  · rename_i hsize hinterval
    obtain rfl := Option.some_inj.mp hbuild
    rw [hsize]
    refine iff_of_true (fun records _ _ ↦ ?_) fun hboth ↦ hboth.1 rfl
    rw [file_log]
    exact List.suffix_rfl

end Exact

/-- At midnight, with one backup: the first day is gone. -/
theorem disk_is_tail_midnight :
    let h := Handler.timed "0000-00-00".toList 1 none
    let records : List LogRecord := [("2026-01-01".toList, false, ['a']),
      ("2026-01-01".toList, true, ['b']), ("2026-01-02".toList, true, ['c'])]
    h.onDisk (h.log records) = "b\nc\n".toList ∧ h.onDisk (h.log records) <:+ logged records := by
  refine ⟨by decide, ?_⟩
  refine (@disk_is_tail_iff ⟨none, some "midnight".toList, 1, false⟩ _ rfl).mpr ?_ _ ?_ ?_
  · simp
  · unfold Chronological
    decide
  · unfold Handler.IsStart
    decide

/-! ## The log file -/

/-- What the handler takes for the length of a text. -/
def Handler.measure : Handler → Str → ℕ
  | .sizeAndTime _ _ _ _, msg => utf8Length msg
  | _, msg => msg.length

/-- After the record the log file is below the limit, except for bytes of the record that were not
counted, or there is nothing else in it. -/
def Handler.Bounded (h : Handler) (maxBytes : ℤ) (r : LogRecord) (current : Str) : Prop :=
  current = line r ∨
    (utf8Length current : ℤ) < maxBytes + (utf8Length (line r) - h.measure (line r))

theorem utf8Length_append (s t : Str) :
    Handler.utf8Length (s ++ t) = Handler.utf8Length s + Handler.utf8Length t := by
  simp [Handler.utf8Length]

section Bounded

variable {h : Handler} {maxBytes n : ℤ} {files : LogFiles} {r : LogRecord}

/-- Two long records in the log file are too much. -/
theorem not_bounded (hfull : maxBytes ≤ r.2.2.length) :
    ¬ h.Bounded maxBytes r (line r ++ line r) := by
  have hlength := length_le_utf8Length (line r)
  have hline : (line r).length = r.2.2.length + 1 := by simp [line]
  rintro (hsame | hlt)
  · have hempty : line r = [] := List.append_left_eq_self.mp hsame
    rw [hempty] at hline
    exact absurd hline (by simp)
  · rw [utf8Length_append] at hlt
    omega

/-- They are there if the second one does not empty it. -/
theorem log_pair (hfirst : (h.turned ⟨[], ∅⟩ r).current = [])
    (hsecond : (h.turned (h.log [r]) r).current = (h.log [r]).current) :
    (h.log [r, r]).current = line r ++ line r := by
  have hone : h.log [r] = (h.turned ⟨[], ∅⟩ r).write (line r) := h.log_concat [] r
  have htwo : h.log [r, r] = (h.turned (h.log [r]) r).write (line r) := h.log_concat [r] r
  rw [htwo, LogFiles.write, hsecond, hone, LogFiles.write, hfirst, List.nil_append]

/-- A handler by size without a limit or without backups never empties it. -/
theorem rotating_turned {rotator : Option Rotator} (hstay : ¬ (0 < maxBytes ∧ 0 < n)) :
    (Handler.rotating maxBytes n rotator).turned files r = files := by
  rw [Handler.turned]
  split_ifs with hshould
  · simp only [Handler.shouldRollover, decide_eq_true_iff] at hshould
    rw [Handler.doRollover, rolloverBySize, if_neg fun hn ↦ hstay ⟨hshould.1, hn⟩]
  · rfl

/-- Without a rollover the record still fits. -/
theorem rotating_bounded {rotator : Option Rotator} (hmax : 0 < maxBytes)
    (hshould : ¬ (Handler.rotating maxBytes n rotator).shouldRollover r.2.1 files r.2.2 = true) :
    (Handler.rotating maxBytes n rotator).Bounded maxBytes r (files.current ++ line r) := by
  simp only [Handler.shouldRollover, decide_eq_true_iff, not_and, not_le] at hshould
  by_cases hempty : files.current = []
  · left
    rw [hempty, List.nil_append]
  · right
    have hlt := hshould hmax hempty
    simp only [utf8Length_append, Handler.measure, line]
    push_cast
    omega

theorem sizeAndTime_bounded {format : Str} {rotator : Option Rotator}
    (hshould : ¬ (Handler.sizeAndTime maxBytes format n rotator).shouldRollover r.2.1 files r.2.2 =
      true) :
    (Handler.sizeAndTime maxBytes format n rotator).Bounded maxBytes r
      (files.current ++ line r) := by
  simp only [Handler.shouldRollover, decide_eq_true_iff, not_or, not_le] at hshould
  right
  simp only [utf8Length_append, Handler.measure, line] at hshould ⊢
  push_cast
  omega

/-- By size and time, without compression: after a rollover there is a backup of the interval, and
the next rollover does nothing. -/
theorem sizeAndTime_turned {format : Str} (hfull : maxBytes ≤ r.2.2.length)
    (hstart : IsInterval format r.1) :
    let h := Handler.sizeAndTime maxBytes format n none
    (h.turned ⟨[], ∅⟩ r).current = [] ∧
      (h.turned (h.log [r]) r).current = (h.log [r]).current := by
  intro h
  have hshould (files : LogFiles) : h.shouldRollover r.2.1 files r.2.2 = true :=
    shouldRollover_of_full hfull _ files
  have hnew : r.1 ∉ (∅ : AList fun _ : Str ↦ LogFile) := AList.notMem_empty _
  have hfirst : (h.turned ⟨[], ∅⟩ r).current = [] := by
    rw [Handler.turned, if_pos (hshould _), Handler.doRollover, rolloverByTime, if_neg hnew]
    rfl
  have hmem : r.1 ∈ (h.log [r]).backups := by
    have hone : h.log [r] = (h.turned ⟨[], ∅⟩ r).write (line r) := h.log_concat [] r
    rw [hone, Handler.turned, if_pos (hshould _), Handler.doRollover, rolloverByTime, if_neg hnew]
    have hinsert : r.1 ∈ (∅ : AList fun _ : Str ↦ LogFile).insert r.1 (.plain []) :=
      (AList.mem_insert _).mpr (.inl rfl)
    simp only [LogFiles.write, rotate, LogFiles.rename]
    split_ifs with hn
    · refine AList.mem_eraseAll.mpr ⟨hinsert, ?_⟩
      rw [mem_getFilesToDelete hstart hnew]
      have hnone : (later format r.1 (∅ : AList fun _ : Str ↦ LogFile)).length = 0 := rfl
      omega
    · exact hinsert
  refine ⟨hfirst, ?_⟩
  rw [Handler.turned, if_pos (hshould _), Handler.doRollover, rolloverByTime, if_pos hmem]

variable (config : RotationConfig)

theorem rotating_bounded_iff :
    (∀ records r, (Handler.rotating maxBytes n config.rotator).Bounded maxBytes r
      ((Handler.rotating maxBytes n config.rotator).log (records ++ [r])).current) ↔
        0 < maxBytes ∧ 0 < n := by
  constructor
  · intro hall
    by_contra hstay
    have hbounded := hall [([], false, List.replicate maxBytes.toNat 'a')]
      ([], false, List.replicate maxBytes.toNat 'a')
    rw [List.singleton_append, log_pair (congrArg LogFiles.current (rotating_turned hstay))
      (congrArg LogFiles.current (rotating_turned hstay))] at hbounded
    exact not_bounded (by simp only [List.length_replicate]; omega) hbounded
  · rintro ⟨hmax, hn⟩ records r
    rw [Handler.log_concat, Handler.turned]
    split_ifs with hshould
    · left
      rw [Handler.doRollover, LogFiles.write, rolloverBySize_current hn, List.nil_append]
    · exact rotating_bounded hmax hshould

theorem sizeAndTime_bounded_iff {format a : Str} (ha : IsInterval format a) :
    (∀ records r, (∀ x ∈ records ++ [r], IsInterval format x.1) →
      (Handler.sizeAndTime maxBytes format n config.rotator).Bounded maxBytes r
        ((Handler.sizeAndTime maxBytes format n config.rotator).log (records ++ [r])).current) ↔
          config.compressBackups = true := by
  constructor
  · intro hall
    by_contra hplain
    have hbounded := hall [(a, false, List.replicate maxBytes.toNat 'a')]
      (a, false, List.replicate maxBytes.toNat 'a') (by simp [ha])
    have hrotator : config.rotator = none := if_neg hplain
    have hfull : maxBytes ≤ (List.replicate maxBytes.toNat 'a').length := by
      rw [List.length_replicate]
      omega
    obtain ⟨hfirst, hsecond⟩ := @sizeAndTime_turned maxBytes n
      (a, false, List.replicate maxBytes.toNat 'a') format hfull ha
    rw [hrotator, List.singleton_append, log_pair hfirst hsecond] at hbounded
    exact not_bounded hfull hbounded
  · intro hcompress records r hstart
    by_cases hshould : (Handler.sizeAndTime maxBytes format n config.rotator).shouldRollover r.2.1
        ((Handler.sizeAndTime maxBytes format n config.rotator).log records) r.2.2 = true
    · left
      rw [log_gzip (fun _ ↦ rfl) hcompress records r hstart hshould]
    · rw [Handler.log_concat, Handler.turned, if_neg hshould]
      exact sizeAndTime_bounded hshould

end Bounded

/-- **The log file stays below its limit** in every run from an empty directory if and only if every
rollover empties it.  By size that takes a limit and at least one backup to keep.  With a time
trigger as well it takes `compress_backups`: without, a second rollover in an interval finds its
backup there and leaves the file as it is. -/
theorem live_file_bounded_iff {config : RotationConfig} {h : Handler} {mb : ℚ}
    (hsize : config.maxSizeMb = some mb) (hbuild : buildRotatingHandler config = some h) :
    (∀ records r, (∀ x ∈ records ++ [r], h.IsStart x.1) →
      h.Bounded (truncate (mb * 1024 * 1024)) r (h.log (records ++ [r])).current) ↔
        if config.rotationInterval = none then
          0 < truncate (mb * 1024 * 1024) ∧ 0 < config.backupCount
        else config.compressBackups = true := by
  rw [buildRotatingHandler, hsize] at hbuild
  cases hinterval : config.rotationInterval with
  | none =>
    rw [hinterval] at hbuild
    obtain rfl := Option.some_inj.mp hbuild
    rw [if_pos rfl, ← rotating_bounded_iff config]
    exact ⟨fun hall records r ↦ hall records r fun _ _ ↦ trivial,
      fun hall records r _ ↦ hall records r⟩
  | some w =>
    rw [hinterval] at hbuild
    obtain ⟨format, hformat, rfl⟩ := Option.map_eq_some_iff.mp hbuild
    obtain ⟨a, b, ha, -⟩ := exists_intervals hformat
    rw [if_neg (Option.some_ne_none w)]
    exact sizeAndTime_bounded_iff config ha

/-- By size and at midnight, not compressed: there are records that the limit does not stop. -/
theorem live_file_midnight :
    let h := Handler.sizeAndTime (truncate (1 * 1024 * 1024)) "0000-00-00".toList 2 none
    ¬ ∀ records r, (∀ x ∈ records ++ [r], h.IsStart x.1) →
      h.Bounded (truncate (1 * 1024 * 1024)) r (h.log (records ++ [r])).current :=
  mt (@live_file_bounded_iff ⟨some 1, some "midnight".toList, 2, false⟩ _ 1 rfl rfl).mp (by simp)

end WiseTraceLoom
