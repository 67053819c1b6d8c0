import Mathlib.Algebra.Order.Group.Int
import Mathlib.Data.List.Nodup
import Mathlib.Tactic.NormNum

/-!
# The calendar

The Gregorian calendar, counted in days: a date has an *ordinal*, the number of days up to it from
the start of year 1.  `toOrdinal_lt` says that the ordinal respects the order of dates, in which the
year counts first, then the month, then the day.

A `Date` cannot be an invalid one.  `Date.minusDays` goes back day by day, which is what subtracting
from the ordinal comes to (`Date.ordinal_minusDays`), so that no two dates of a window of days are
the same (`Date.daysBefore_nodup`).
-/

set_option autoImplicit false

namespace Calendar

/-- Every fourth year is a leap year, but of the full centuries only every fourth. -/
def IsLeap (year : ℕ) : Prop := year % 4 = 0 ∧ (year % 100 ≠ 0 ∨ year % 400 = 0)

instance (year : ℕ) : Decidable (IsLeap year) := inferInstanceAs (Decidable (_ ∧ _))

/-- The days of a year. -/
def daysInYear (year : ℕ) : ℕ := if IsLeap year then 366 else 365

/-- The days of a month. -/
def daysInMonth (year month : ℕ) : ℕ :=
  match month with
  | 2 => if IsLeap year then 29 else 28
  | 4 | 6 | 9 | 11 => 30
  | _ => 31

/-- The days before a year. -/
def daysBeforeYear (year : ℕ) : ℕ :=
  (year - 1) * 365 + (year - 1) / 4 - (year - 1) / 100 + (year - 1) / 400

/-- The days of a year before a month. -/
def daysBeforeMonth (year : ℕ) : ℕ → ℕ
  | 0 | 1 => 0
  | month + 2 => daysBeforeMonth year (month + 1) + daysInMonth year (month + 1)

/-- The days up to a date. -/
def toOrdinal (year month day : ℕ) : ℕ := daysBeforeYear year + daysBeforeMonth year month + day

theorem daysBeforeYear_succ {year : ℕ} (h : 1 ≤ year) :
    daysBeforeYear (year + 1) = daysBeforeYear year + daysInYear year := by
  obtain ⟨y, rfl⟩ := Nat.exists_eq_add_of_le' h
  have hle : y / 100 ≤ y / 4 := Nat.div_le_div_left (by norm_num) (by norm_num)
  have hfour : 100 ∣ y + 1 → 4 ∣ y + 1 := (by norm_num : 4 ∣ 100).trans
  have hcentury : 400 ∣ y + 1 → 100 ∣ y + 1 := (by norm_num : 100 ∣ 400).trans
  have hleap : IsLeap (y + 1) ↔ 4 ∣ y + 1 ∧ (¬100 ∣ y + 1 ∨ 400 ∣ y + 1) := by
    simp only [IsLeap, Nat.dvd_iff_mod_eq_zero, Ne]
  simp only [daysBeforeYear, daysInYear, Nat.add_sub_cancel, hleap]
  simp only [Nat.succ_div]
  split_ifs <;> omega

/-- A year is over before the next ones. -/
theorem daysBeforeYear_le {year year' : ℕ} (h : 1 ≤ year) (hlt : year < year') :
    daysBeforeYear year + daysInYear year ≤ daysBeforeYear year' := by
  induction year', Nat.succ_le_of_lt hlt using Nat.le_induction with
  | base => exact (daysBeforeYear_succ h).ge
  | succ year' hle ih =>
    have hyear : year < year' := hle
    have := daysBeforeYear_succ (h.trans hyear.le)
    have := ih hyear
    omega

theorem daysBeforeMonth_succ (year : ℕ) {month : ℕ} (h : 1 ≤ month) :
    daysBeforeMonth year (month + 1) = daysBeforeMonth year month + daysInMonth year month := by
  obtain ⟨month, rfl⟩ := Nat.exists_eq_add_of_le' h
  rfl

/-- A month is over before the next ones. -/
theorem daysBeforeMonth_le (year : ℕ) {month month' : ℕ} (h : 1 ≤ month) (hlt : month < month') :
    daysBeforeMonth year month + daysInMonth year month ≤ daysBeforeMonth year month' := by
  induction month', Nat.succ_le_of_lt hlt using Nat.le_induction with
  | base => exact (daysBeforeMonth_succ year h).ge
  | succ month' hle ih =>
    have hmonth : month < month' := hle
    have := daysBeforeMonth_succ year (h.trans hmonth.le)
    have := ih hmonth
    omega

/-- The months make up the year. -/
theorem daysBeforeMonth_thirteen (year : ℕ) : daysBeforeMonth year 13 = daysInYear year := by
  simp only [daysBeforeMonth, daysInMonth, daysInYear]
  split_ifs <;> norm_num

/-- **The ordinal respects the order of dates.** -/
theorem toOrdinal_lt {year month day year' month' day' : ℕ} (hyear : 1 ≤ year) (hmonth : 1 ≤ month)
    (hmonth' : month ≤ 12) (hday : day ≤ daysInMonth year month) (hday' : 1 ≤ day')
    (h : year < year' ∨ year = year' ∧ (month < month' ∨ month = month' ∧ day < day')) :
    toOrdinal year month day < toOrdinal year' month' day' := by
  simp only [toOrdinal]
  rcases h with h | ⟨rfl, h | ⟨rfl, h⟩⟩
  · have := daysBeforeYear_le hyear h
    have := daysBeforeMonth_le year hmonth (Nat.lt_succ_of_le hmonth')
    rw [daysBeforeMonth_thirteen] at this
    omega
  · have := daysBeforeMonth_le year hmonth h
    omega
  · omega

example : toOrdinal 2026 1 1 = 739617 := by decide

/-! ## Dates -/

theorem one_le_daysInMonth (year month : ℕ) : 1 ≤ daysInMonth year month := by
  unfold daysInMonth
  split
  · split_ifs <;> norm_num
  all_goals norm_num

/-- A day of the calendar. -/
structure Date where
  /-- The year. -/
  year : ℕ
  /-- The month, from 1. -/
  month : ℕ
  /-- The day, from 1. -/
  day : ℕ
  year_pos : 1 ≤ year
  month_mem : 1 ≤ month ∧ month ≤ 12
  day_mem : 1 ≤ day ∧ day ≤ daysInMonth year month
  deriving DecidableEq

namespace Date

/-- The days up to it. -/
def ordinal (d : Date) : ℕ := toOrdinal d.year d.month d.day

/-- The day before, unless it is the first day of year 1. -/
def pred? (d : Date) : Option Date :=
  if hday : 1 < d.day then
    some { d with
      day := d.day - 1
      day_mem := ⟨Nat.le_sub_one_of_lt hday, (Nat.sub_le _ _).trans d.day_mem.2⟩ }
  else if hmonth : 1 < d.month then
    some { d with
      month := d.month - 1
      day := daysInMonth d.year (d.month - 1)
      month_mem := ⟨Nat.le_sub_one_of_lt hmonth, (Nat.sub_le _ _).trans d.month_mem.2⟩
      day_mem := ⟨one_le_daysInMonth _ _, le_rfl⟩ }
  else if hyear : 1 < d.year then
    some ⟨d.year - 1, 12, 31, Nat.le_sub_one_of_lt hyear, by norm_num, by norm_num, le_rfl⟩
  else none

/-- The day `n` days before, if there is one. -/
def minusDays (d : Date) : ℕ → Option Date
  | 0 => some d
  | n + 1 => (d.minusDays n).bind pred?

/-- The `n` days before, the latest one first, if there are so many. -/
def daysBefore (d : Date) : ℕ → Option (List Date)
  | 0 => some []
  | n + 1 => do
    let days ← d.daysBefore n
    let day ← d.minusDays (n + 1)
    pure (days ++ [day])

/-- **Going back by one day takes one off the ordinal.** -/
theorem ordinal_pred {d e : Date} (h : d.pred? = some e) : e.ordinal + 1 = d.ordinal := by
  have hday := d.day_mem.1
  have hmonth := d.month_mem.1
  have hyear := d.year_pos
  rw [pred?] at h
  split_ifs at h with h1 h2 h3
  · obtain rfl := Option.some.inj h
    simp only [ordinal, toOrdinal]
    omega
  · obtain rfl := Option.some.inj h
    have hsucc := daysBeforeMonth_succ d.year (Nat.le_sub_one_of_lt h2)
    rw [Nat.sub_add_cancel hmonth] at hsucc
    simp only [ordinal, toOrdinal, hsucc]
    omega
  · obtain rfl := Option.some.inj h
    have hsucc := daysBeforeYear_succ (Nat.le_sub_one_of_lt h3)
    rw [Nat.sub_add_cancel hyear] at hsucc
    have hdecember := daysBeforeMonth_succ (d.year - 1) (show 1 ≤ 12 by norm_num)
    rw [daysBeforeMonth_thirteen] at hdecember
    have hfirst : d.month = 1 := by omega
    simp only [ordinal, toOrdinal, hsucc, hdecember, hfirst, daysBeforeMonth]
    simp only [daysInMonth]
    omega

theorem ordinal_minusDays {d e : Date} {n : ℕ} (h : d.minusDays n = some e) :
    e.ordinal + n = d.ordinal := by
  induction n generalizing e with
  | zero =>
    obtain rfl := Option.some.inj h
    rfl
  | succ n ih =>
    obtain ⟨c, hc, he⟩ := Option.bind_eq_some_iff.mp h
    have hstep := ordinal_pred he
    have hrest := ih hc
    omega

theorem daysBefore_succ {d : Date} {n : ℕ} {l : List Date} :
    d.daysBefore (n + 1) = some l ↔
      ∃ l' e, d.daysBefore n = some l' ∧ d.minusDays (n + 1) = some e ∧ l = l' ++ [e] := by
  rw [daysBefore]
  simp only [Option.bind_eq_bind, Option.bind_eq_some_iff, Option.pure_def, Option.some.injEq]
  grind

/-- The ordinals of a window are the `n` before that of the day. -/
theorem ordinal_daysBefore {d : Date} {n : ℕ} {l : List Date} (h : d.daysBefore n = some l) :
    l.map ordinal = (List.range n).map fun k ↦ d.ordinal - (k + 1) := by
  induction n generalizing l with
  | zero =>
    obtain rfl := Option.some.inj h
    rfl
  | succ n ih =>
    obtain ⟨l', e, hl', he, rfl⟩ := daysBefore_succ.mp h
    have hordinal := ordinal_minusDays he
    rw [List.map_append, ih hl', List.range_succ, List.map_append, List.map_singleton,
      List.map_singleton]
    congr 2
    omega

/-- A window of `n` days has `n` days. -/
theorem daysBefore_length {d : Date} {n : ℕ} {l : List Date} (h : d.daysBefore n = some l) :
    l.length = n := by
  simpa using congrArg List.length (ordinal_daysBefore h)

theorem exists_of_mem_daysBefore {d e : Date} {n : ℕ} {l : List Date} (h : d.daysBefore n = some l)
    (he : e ∈ l) : ∃ k < n, e.ordinal = d.ordinal - (k + 1) := by
  have hmap := List.mem_map_of_mem (f := ordinal) he
  rw [ordinal_daysBefore h, List.mem_map] at hmap
  obtain ⟨k, hk, hordinal⟩ := hmap
  exact ⟨k, List.mem_range.mp hk, hordinal.symm⟩

/-- The day itself is not in its window. -/
theorem not_mem_daysBefore {d : Date} {n : ℕ} {l : List Date} (h : d.daysBefore n = some l) :
    d ∉ l := by
  intro hmem
  obtain ⟨k, -, hordinal⟩ := exists_of_mem_daysBefore h hmem
  have hday := d.day_mem.1
  have hpos : d.day ≤ d.ordinal := Nat.le_add_left _ _
  omega

/-- **No day is in a window twice.** -/
theorem daysBefore_nodup {d : Date} {n : ℕ} {l : List Date} (h : d.daysBefore n = some l) :
    l.Nodup := by
  induction n generalizing l with
  | zero =>
    obtain rfl := Option.some.inj h
    exact List.nodup_nil
  | succ n ih =>
    obtain ⟨l', e, hl', he, rfl⟩ := daysBefore_succ.mp h
    rw [← List.concat_eq_append, List.nodup_concat]
    refine ⟨fun hmem ↦ ?_, ih hl'⟩
    -- the last day lies further back than those before it
    have hlast := ordinal_minusDays he
    obtain ⟨k, hk, hordinal⟩ := exists_of_mem_daysBefore hl' hmem
    omega

end Date

end Calendar
