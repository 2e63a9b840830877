import Linux011.Lib.Calendar
import Mathlib.Tactic.IntervalCases

/-!
# `kernel_mktime`

The years since 1970 with a day for every fourth, a table of months that takes
every year for a leap year, and a day less where it is none. It sets the clock of
the kernel, and is right as long as the clock can hold the time.

* `month_eq` — the table against the calendar;
* `kernelMktime_eq` — the seconds since 1970, and that no result overflows;
* `mktime_calendar` — in the order of time, until 2038-01-19 03:14:07.
-/

namespace Linux011.Kernel.Mktime

open Linux011.Lib.Calendar

/-- The fields of `struct tm` that `kernel_mktime` reads. -/
structure Tm where
  tmSec  : Int
  tmMin  : Int
  tmHour : Int
  tmMday : Int
  tmMon  : Int
  tmYear : Int

/-- The result of an operation on `int`, unless it overflows. -/
def int32 (x : Int) : Option Int := if -2 ^ 31 ≤ x ∧ x < 2 ^ 31 then some x else none

def minute : Int := 60
def hour : Int := 60 * minute
def day : Int := 24 * hour
def year : Int := 365 * day

/-- The table `month[]`: "we assume leap-years". -/
def month : List Int :=
  [0,
   day * 31,
   day * (31 + 29),
   day * (31 + 29 + 31),
   day * (31 + 29 + 31 + 30),
   day * (31 + 29 + 31 + 30 + 31),
   day * (31 + 29 + 31 + 30 + 31 + 30),
   day * (31 + 29 + 31 + 30 + 31 + 30 + 31),
   day * (31 + 29 + 31 + 30 + 31 + 30 + 31 + 31),
   day * (31 + 29 + 31 + 30 + 31 + 30 + 31 + 31 + 30),
   day * (31 + 29 + 31 + 30 + 31 + 30 + 31 + 31 + 30 + 31),
   day * (31 + 29 + 31 + 30 + 31 + 30 + 31 + 31 + 30 + 31 + 30)]

/-- `month[i]`, unless it is outside the table. -/
def monthAt (i : Int) : Option Int := if 0 ≤ i then month[i.toNat]? else none

/-- "If it wasn't a leap-year, we have to adjust." -/
def adjust (tm : Tm) (y res : Int) : Option Int :=
  if tm.tmMon > 1 then do
    let y2 ← int32 (y + 2)
    if y2.tmod 4 ≠ 0 then int32 (res - day) else some res
  else some res

/-- `kernel_mktime`; nothing where an intermediate result overflows. -/
def kernelMktime (tm : Tm) : Option Int := do
  let y ← int32 (tm.tmYear - 70)
  let years ← int32 (year * y)
  let y1 ← int32 (y + 1)
  let leaps ← int32 (day * y1.tdiv 4)
  let res ← int32 (years + leaps)
  let res ← int32 (res + (← monthAt tm.tmMon))
  let res ← adjust tm y res
  let mday ← int32 (tm.tmMday - 1)
  let res ← int32 (res + (← int32 (day * mday)))
  let res ← int32 (res + (← int32 (hour * tm.tmHour)))
  let res ← int32 (res + (← int32 (minute * tm.tmMin)))
  int32 (res + tm.tmSec)

def tmOf (t : Time) : Tm where
  tmSec  := t.second
  tmMin  := t.minute
  tmHour := t.hour
  tmMday := t.day
  tmMon  := t.month
  tmYear := t.year - 1900

/-- 2038-01-19 03:14:07, `2^31-1` seconds after the start of 1970. -/
def lastTime : Time where
  year      := 2038
  month     := 0
  day       := 19
  month_lt  := by decide
  day_pos   := by decide
  day_le    := by decide
  hour      := 3
  minute    := 14
  second    := 7
  hour_lt   := by decide
  minute_lt := by decide
  second_lt := by decide

theorem int32_eq {x : Int} (hlo : -2 ^ 31 ≤ x) (hhi : x < 2 ^ 31) : int32 x = some x := if_pos ⟨hlo, hhi⟩

/-- The table is a day ahead from March on, where the year is no leap year. -/
theorem month_eq (y : Nat) {m : Nat} (hm : m < 12) :
    monthAt m = some (day * (monthStart y m + if 1 < m ∧ leap y = false then 1 else 0 : Nat)) := by
  cases hleap : leap y with
  | false =>
    have htable : ∀ m : Nat, m < 12 →
        monthAt m = some (day * (monthStart 1 m + if 1 < m ∧ false = false then 1 else 0 : Nat)) := by
      decide
    rw [monthStart_congr (hleap.trans (show false = leap 1 from rfl)) m]
    exact htable m hm
  | true =>
    have htable : ∀ m : Nat, m < 12 →
        monthAt m = some (day * (monthStart 4 m + if 1 < m ∧ true = false then 1 else 0 : Nat)) := by
      decide
    rw [monthStart_congr (hleap.trans (show true = leap 4 from rfl)) m]
    exact htable m hm

theorem monthStart_le (y : Nat) {m : Nat} (hm : m < 12) : monthStart y m ≤ 335 := by
  have hnext := monthStart_mono y (show m ≤ 11 by omega)
  have hlast : monthStart y 11 ≤ 335 := by
    cases hleap : leap y <;> simp [monthStart, Finset.sum_range_succ, monthDays, hleap]
  omega

theorem monthStart_march (y : Nat) {m : Nat} (hm : 1 < m) : 59 ≤ monthStart y m := by
  have hnext := monthStart_mono y (show 2 ≤ m from hm)
  have hfirst : 59 ≤ monthStart y 2 := by
    cases hleap : leap y <;> simp [monthStart, Finset.sum_range_succ, monthDays, hleap]
  omega

/-- The years before 2100 as the code counts them. -/
theorem yearStart_eq {n : Nat} (hn : 1970 + n < 2100) : yearStart 1970 (1970 + n) = 365 * n + (n + 1) / 4 := by
  have h := yearStart_julian (show 1901 ≤ 1970 by decide) n (by omega)
  omega

theorem adjust_eq {n m : Nat} (hn : 1970 + n < 2100) {tm : Tm} (hmon : tm.tmMon = m) (res : Int) :
    adjust tm n res = if 1 < m ∧ leap (1970 + n) = false then int32 (res - day) else some res := by
  have hleap := leap_iff (y := 1970 + n) (by omega) hn
  have hmod : ((n : Int) + 2).tmod 4 ≠ 0 ↔ leap (1970 + n) = false := by
    rw [← Bool.not_eq_true, hleap, Int.tmod_eq_emod_of_nonneg (by omega)]
    omega
  unfold adjust
  rw [hmon]
  by_cases hm : 1 < m
  · rw [if_pos (by omega), int32_eq (by omega) (by omega)]
    exact if_congr (hmod.trans (and_iff_right hm).symm) rfl rfl
  · rw [if_neg (by omega), if_neg fun h => hm h.1]

/-- One operation after the other, with the days that each adds. -/
theorem kernelMktime_sum {tm : Tm} {y ms corr d h m s : Nat} (hyear : tm.tmYear - 70 = y)
    (hmonth : monthAt tm.tmMon = some (day * (ms + corr : Nat)))
    (hadjust : ∀ res, adjust tm y res = if corr = 1 then int32 (res - day) else some res)
    (hmday : tm.tmMday = d + 1) (hhour : tm.tmHour = h) (hmin : tm.tmMin = m) (hsec : tm.tmSec = s)
    (hcorr : corr ≤ 1) (hahead : 86400 * (365 * y + (y + 1) / 4 + ms + corr) < 2 ^ 31)
    (hlast : (((365 * y + (y + 1) / 4 + ms + d) * 24 + h) * 60 + m) * 60 + s < 2 ^ 31) :
    kernelMktime tm = some (((((365 * y + (y + 1) / 4 + ms + d) * 24 + h) * 60 + m) * 60 + s : Nat) : Int) := by
  have hyears : year = 31536000 := rfl
  have hd : day = 86400 := rfl
  have hh : hour = 3600 := rfl
  have hm : minute = 60 := rfl
  have hleaps : ((y : Int) + 1).tdiv 4 = ((y + 1) / 4 : Nat) := by
    rw [Int.tdiv_eq_ediv_of_nonneg (by omega)]
    rfl
  unfold kernelMktime
  simp only [hyear, hmonth, hmday, hhour, hmin, hsec, hyears, hd, hh, hm, Option.bind_eq_bind]
  clear hyear hmonth hmday hhour hmin hsec
  have hle : (y + 1) / 4 ≤ y := by omega
  -- the years and the table
  rw [int32_eq (by omega) (by omega), Option.bind_some, int32_eq (by omega) (by omega), Option.bind_some,
    int32_eq (by omega) (by omega), Option.bind_some, hleaps]
  generalize (y + 1) / 4 = q at *
  rw [int32_eq (by omega) (by omega), Option.bind_some, int32_eq (by omega) (by omega), Option.bind_some,
    Option.bind_some, int32_eq (by omega) (by omega), Option.bind_some]
  have hback : (if corr = 1 then int32 (31536000 * y + 86400 * q + 86400 * (ms + corr : Nat) - 86400)
      else some (31536000 * y + 86400 * q + 86400 * (ms + corr : Nat))) =
        some (86400 * (365 * y + q + ms : Nat) : Int) := by
    split_ifs with hone
    · rw [int32_eq (by omega) (by omega)]
      congr 1
      omega
    · congr 1
      omega
  -- the day and its time
  rw [hadjust, hd, hback, Option.bind_some, int32_eq (by omega) (by omega), Option.bind_some, int32_eq (by omega) (by omega),
    Option.bind_some, int32_eq (by omega) (by omega), Option.bind_some, int32_eq (by omega) (by omega),
    Option.bind_some, int32_eq (by omega) (by omega), Option.bind_some, int32_eq (by omega) (by omega),
    Option.bind_some, int32_eq (by omega) (by omega), Option.bind_some, int32_eq (by omega) (by omega)]
  congr 1
  omega

/-- The seconds since 1970, and no result overflows. -/
theorem kernelMktime_eq {t : Time} (h1970 : 1970 ≤ t.year) (hlast : t.seconds 1970 < 2 ^ 31) :
    kernelMktime (tmOf t) = some (t.seconds 1970 : Int) := by
  obtain ⟨n, hn⟩ := Nat.exists_eq_add_of_le h1970
  have hmonth := t.month_lt
  have hday := t.day_pos
  have hsum : t.seconds 1970 = ((t.days 1970 * 24 + t.hour) * 60 + t.minute) * 60 + t.second := rfl
  have hdays : t.days 1970 = yearStart 1970 (1970 + n) + monthStart (1970 + n) t.month + (t.day - 1) := by
    rw [← hn]
    rfl
  have hyear : n ≤ 68 := by
    by_contra hlate
    have hmono := yearStart_mono 1970 (show 1970 + 69 ≤ 1970 + n by omega)
    rw [yearStart_eq (by omega)] at hmono
    omega
  rw [yearStart_eq (by omega)] at hdays
  -- the day that the table is ahead is taken back before the limit
  have hahead : ∀ c, c = (if 1 < t.month ∧ leap (1970 + n) = false then 1 else 0) →
      c ≤ 1 ∧ 86400 * (365 * n + (n + 1) / 4 + monthStart (1970 + n) t.month + c) < 2 ^ 31 := by
    rintro c rfl
    have htop := monthStart_le (1970 + n) hmonth
    split_ifs with h
    · have hmarch := monthStart_march (1970 + n) h.1
      omega
    · omega
  obtain ⟨hle, hmost⟩ := hahead _ rfl
  rw [kernelMktime_sum (y := n) (d := t.day - 1) (by show (t.year : Int) - 1900 - 70 = n; omega)
    (month_eq (1970 + n) hmonth) (fun res => ?_) (by show (t.day : Int) = _; omega) rfl rfl rfl hle hmost (by omega),
    hsum, hdays]
  rw [adjust_eq (by omega) rfl]
  by_cases hslip : 1 < t.month ∧ leap (1970 + n) = false
  · rw [if_pos hslip, if_pos hslip, if_pos rfl]
  · rw [if_neg hslip, if_neg hslip, if_neg zero_ne_one]

/-- **`kernel_mktime` is the calendar**: the seconds since 1970 until the last that an `int` holds,
without an overflow, and fewer for an earlier time. -/
theorem mktime_calendar {t : Time} (h1970 : 1970 ≤ t.year) (hlast : ¬ lastTime.Before t) :
    kernelMktime (tmOf t) = some (t.seconds 1970 : Int) ∧
      ∀ t' : Time, 1970 ≤ t'.year → t'.Before t →
        ∃ res, kernelMktime (tmOf t') = some res ∧ res < t.seconds 1970 := by
  have hsec : t.seconds 1970 < 2 ^ 31 := by
    have hle := Time.seconds_le h1970 hlast
    have heq : lastTime.seconds 1970 = 2 ^ 31 - 1 := by decide
    omega
  refine ⟨kernelMktime_eq h1970 hsec, fun t' h1970' hbefore => ?_⟩
  have hlt := Time.seconds_lt h1970' hbefore
  exact ⟨_, kernelMktime_eq h1970' (by omega), by exact_mod_cast hlt⟩

/-- The last of February 2000. -/
def leapDay : Time where
  year      := 2000
  month     := 1
  day       := 29
  month_lt  := by decide
  day_pos   := by decide
  day_le    := by decide
  hour      := 23
  minute    := 59
  second    := 59
  hour_lt   := by decide
  minute_lt := by decide
  second_lt := by decide

theorem mktime_leapDay : kernelMktime (tmOf leapDay) = some (leapDay.seconds 1970 : Int) ∧
    leapDay.seconds 1970 = 951868799 := by
  refine ⟨(mktime_calendar (by decide) ?_).1, by decide⟩
  unfold Time.Before Date.Before Date.Same
  decide

end Linux011.Kernel.Mktime
