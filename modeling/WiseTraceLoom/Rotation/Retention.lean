import WiseTraceLoom.Rotation.History

/-!
# How many backups there are

`backup_count` says how many backups are kept.  `backups_bounded` says when that is true: in every
run there are at most so many backups, unless `compress_backups` is set next to a time trigger.
Then no backup is ever deleted, since the handler looks for names without `.gz`; but a second
rollover in an interval writes over the backup of the first one, whose name it has.
-/

set_option autoImplicit false

namespace WiseTraceLoom

open AList

variable {config : RotationConfig} {h : Handler} {n : ℤ} {files : LogFiles}

/-! ## By size -/

/-- There is no backup but `name.1`, …, `name.n`. -/
def NumberedTo (n : ℤ) (files : LogFiles) : Prop :=
  ∀ k ∈ files.backups, ∃ i < n.toNat, k = Text.ofNat (i + 1)

/-- A rollover by size gives no backup a higher number than `n`. -/
theorem NumberedTo.rollover (h : NumberedTo n files) :
    NumberedTo n (rolloverBySize n none files).1 := by
  by_cases hn : 0 < n
  · intro k hk
    simp only [rolloverBySize, if_pos hn, rotate, LogFiles.rename] at hk
    rcases (AList.mem_insert _).mp hk with rfl | hk
    · exact ⟨0, by omega, rfl⟩
    rcases mem_of_shift (AList.mem_erase.mp hk).2 with hk | ⟨i, hi, rfl⟩
    · exact h k hk
    · exact ⟨i, by omega, rfl⟩
  · rwa [rolloverBySize, if_neg hn]

theorem rotating_numberedTo {maxBytes : ℤ} (records : List LogRecord) :
    NumberedTo n ((Handler.rotating maxBytes n none).log records) := by
  induction records using List.reverseRecOn with
  | nil => exact fun k hk ↦ absurd hk (AList.notMem_empty k)
  | append_singleton records r ih =>
    rw [Handler.log_concat, Handler.turned]
    split_ifs with hshould
    · exact ih.rollover
    · exact ih

theorem length_keys_le {backups : AList fun _ : Str ↦ LogFile} {names : List Str}
    (hsub : ∀ k ∈ backups, k ∈ names) : backups.keys.length ≤ names.length :=
  (List.subperm_of_subset (AList.keys_nodup _) fun k hk ↦ hsub k (AList.mem_keys.mpr hk)).length_le

/-- **By size**: at most `n` backups, or one with compression. -/
theorem rotating_bounded_backups {maxBytes : ℤ} (hn : 0 < n) (records : List LogRecord) :
    (((Handler.rotating maxBytes n config.rotator).log records).backups.keys.length : ℤ) ≤ n := by
  by_cases hcompress : config.compressBackups = true
  · have honly := (@rotating_latest config maxBytes n records).1 hcompress
    have hle := @length_keys_le _ [Text.ofNat 1 ++ ".gz".toList]
      fun k hk ↦ List.mem_singleton.mpr (honly k hk)
    rw [List.length_singleton] at hle
    omega
  · have hrotator : config.rotator = none := if_neg hcompress
    have hnumbered := @rotating_numberedTo n maxBytes records
    have hle := @length_keys_le _ ((List.range n.toNat).map fun i ↦ Text.ofNat (i + 1)) fun k hk ↦
      (hnumbered k hk).elim fun i hi ↦ List.mem_map.mpr ⟨i, List.mem_range.mpr hi.1, hi.2.symm⟩
    rw [List.length_map, List.length_range] at hle
    rw [hrotator]
    omega

/-! ## By time -/

theorem length_prune {format : Str} {n : ℕ} {backups : AList fun _ : Str ↦ LogFile}
    (hform : ∀ k ∈ backups, IsInterval format k) : (prune format n backups).keys.length ≤ n := by
  have hle := @length_keys_le _ (dates format (prune format n backups)) fun k hk ↦
    mem_dates.mpr ⟨hk, hform k (AList.mem_eraseAll.mp hk).1⟩
  have hlength : (dates format backups).length = (intervals format backups).length :=
    (List.perm_insertionSort _ _).length_eq
  rw [dates_prune, List.length_drop, hlength] at hle
  omega

/-- The backups are those of intervals, and there are at most `n`. -/
def DatedTo (format : Str) (n : ℤ) (files : LogFiles) : Prop :=
  (∀ k ∈ files.backups, IsInterval format k) ∧ (files.backups.keys.length : ℤ) ≤ n

/-- A rollover by time deletes what is too much. -/
theorem DatedTo.rollover {format start : Str} (h : DatedTo format n files) (hn : 0 < n)
    (hstart : IsInterval format start) :
    DatedTo format n (rolloverByTime format n none start files).1 := by
  rw [rolloverByTime]
  split_ifs with hmem
  · exact h
  · have hform : ∀ k ∈ files.backups.insert start (.plain files.current), IsInterval format k := by
      intro k hk
      rcases (AList.mem_insert _).mp hk with rfl | hk
      · exact hstart
      · exact h.1 k hk
    refine ⟨fun k hk ↦ hform k (AList.mem_eraseAll.mp hk).1, ?_⟩
    exact Int.le_toNat hn.le |>.mp (length_prune hform)

section ByTime

variable {format : Str}
  (hroll : ∀ start, h.doRollover start = rolloverByTime format n config.rotator start)

include hroll

/-- **By time, not compressed**: at most `n` backups, and all of them are found. -/
theorem timed_datedTo (hplain : ¬ config.compressBackups = true) (hn : 0 < n)
    {records : List LogRecord} (hstart : ∀ r ∈ records, IsInterval format r.1) :
    DatedTo format n (h.log records) := by
  have hrotator : config.rotator = none := if_neg hplain
  induction records using List.reverseRecOn with
  | nil => exact ⟨fun k hk ↦ absurd hk (AList.notMem_empty k), hn.le⟩
  | append_singleton records r ih =>
    have hold := ih fun x hx ↦ hstart x (List.mem_append_left _ hx)
    rw [Handler.log_concat, Handler.turned]
    split_ifs with hshould
    · rw [hroll, hrotator]
      exact hold.rollover hn (hstart r (List.mem_append_right _ (List.mem_singleton_self r)))
    · exact hold

/-- **By time, compressed**: no backup is ever deleted. -/
theorem timed_keeps_backups (hcompress : config.compressBackups = true)
    {records more : List LogRecord} (hstart : ∀ r ∈ records ++ more, IsInterval format r.1)
    {k : Str} (hk : k ∈ (h.log records).backups) : k ∈ (h.log (records ++ more)).backups := by
  induction more using List.reverseRecOn with
  | nil => rwa [List.append_nil]
  | append_singleton more r ih =>
    rw [← List.append_assoc] at hstart ⊢
    have hold := ih fun x hx ↦ hstart x (List.mem_append_left _ hx)
    by_cases hshould : h.shouldRollover r.2.1 (h.log (records ++ more)) r.2.2 = true
    · rw [log_gzip hroll hcompress _ r hstart hshould]
      exact (AList.mem_insert _).mpr (.inr hold)
    · rw [Handler.log_concat, Handler.turned, if_neg hshould]
      exact hold

end ByTime

/-! ## All handlers -/

/-- **How many backups there are**: at most `backup_count`, whatever is logged, unless both a time
trigger and `compress_backups` are set; and then there still is a backup of every name that one was
ever made under. -/
theorem backups_bounded (hbuild : buildRotatingHandler config = some h)
    (hcount : 0 < config.backupCount) :
    if config.rotationInterval ≠ none ∧ config.compressBackups = true then
      ∀ records more, (∀ r ∈ records ++ more, h.IsStart r.1) →
        ∀ k ∈ (h.log records).backups, k ∈ (h.log (records ++ more)).backups
    else
      ∀ records, (∀ r ∈ records, h.IsStart r.1) →
        ((h.log records).backups.keys.length : ℤ) ≤ config.backupCount := by
  have htime {h : Handler} {format : Str}
      (hroll : ∀ start, h.doRollover start =
        rolloverByTime format config.backupCount config.rotator start) :
      if config.compressBackups = true then
        ∀ records more, (∀ r ∈ records ++ more, IsInterval format r.1) →
          ∀ k ∈ (h.log records).backups, k ∈ (h.log (records ++ more)).backups
      else
        ∀ records, (∀ r ∈ records, IsInterval format r.1) →
          ((h.log records).backups.keys.length : ℤ) ≤ config.backupCount := by
    split_ifs with hcompress
    · exact fun records more hstart k hk ↦ timed_keeps_backups hroll hcompress hstart hk
    · exact fun records hstart ↦ (timed_datedTo hroll hcompress hcount hstart).2
  rw [buildRotatingHandler] at hbuild
  split at hbuild
  · rename_i mb w hsize hinterval
    obtain ⟨format, -, rfl⟩ := Option.map_eq_some_iff.mp hbuild
    simp only [hinterval, ne_eq, reduceCtorEq, not_false_eq_true, true_and]
    exact htime fun _ ↦ rfl
  · rename_i mb hsize hinterval
    obtain rfl := Option.some_inj.mp hbuild
    rw [if_neg fun hboth ↦ hboth.1 hinterval]
    exact fun records _ ↦ rotating_bounded_backups hcount records
  · rename_i w hsize hinterval
    obtain ⟨format, -, rfl⟩ := Option.map_eq_some_iff.mp hbuild
    simp only [hinterval, ne_eq, reduceCtorEq, not_false_eq_true, true_and]
    exact htime fun _ ↦ rfl
  · rename_i hsize hinterval
    obtain rfl := Option.some_inj.mp hbuild
    rw [if_neg fun hboth ↦ hboth.1 hinterval]
    intro records _
    rw [file_log]
    exact hcount.le

/-- At midnight, compressed, with one backup to keep: the second day's is there, and the first's
still is. -/
theorem backups_bounded_midnight :
    let h := Handler.timed "0000-00-00".toList 1 (some LogFiles.gzipRotator)
    let records : List LogRecord := [("2026-01-01".toList, true, ['a'])]
    let more : List LogRecord := [("2026-01-02".toList, true, ['b'])]
    "2026-01-01.gz".toList ∈ (h.log (records ++ more)).backups ∧
      (h.log (records ++ more)).backups.keys.length = 2 := by
  refine ⟨?_, by decide⟩
  have hkept := @backups_bounded ⟨none, some "midnight".toList, 1, true⟩ _ rfl (by decide)
  rw [if_pos (by simp)] at hkept
  refine hkept _ _ ?_ _ (by decide)
  unfold Handler.IsStart
  decide

end WiseTraceLoom
