import Mathlib.Algebra.BigOperators.Group.Finset.Basic
import Mathlib.Algebra.Order.BigOperators.Group.Finset

/-!
# The Gregorian calendar

Days and seconds since the first day of a year, counted by the leap-year rule.
Months and days start from 0 and from 1, as in `struct tm`. What code with a
table of months computes is compared with this.

* `yearStart_julian` — between 1901 and 2099 every fourth year is a leap year;
* `Date.days_lt` — a later date has more days before it;
* `Time.seconds_lt` — and a later time more seconds.
-/

namespace Linux011.Lib.Calendar

open Finset

/-- Every fourth year, of those that end a century every fourth. -/
def leap (y : Nat) : Bool := y % 4 == 0 && (y % 100 != 0 || y % 400 == 0)

def yearDays (y : Nat) : Nat := if leap y then 366 else 365

def monthDays (y m : Nat) : Nat :=
  match m with
  | 1 => if leap y then 29 else 28
  | 3 | 5 | 8 | 10 => 30
  | _ => 31

/-- The days before year `y`, from the year `epoch` on. -/
def yearStart (epoch y : Nat) : Nat := ∑ i ∈ range (y - epoch), yearDays (epoch + i)

/-- The days of the year before month `m`. -/
def monthStart (y m : Nat) : Nat := ∑ i ∈ range m, monthDays y i

structure Date where
  year  : Nat
  month : Nat
  day   : Nat
  month_lt : month < 12
  day_pos  : 1 ≤ day
  day_le   : day ≤ monthDays year month

/-- A date, and a time of that day. -/
structure Time extends Date where
  hour   : Nat
  minute : Nat
  second : Nat
  hour_lt   : hour < 24
  minute_lt : minute < 60
  second_lt : second < 60

/-- The days from the first day of the year `epoch`. -/
def Date.days (epoch : Nat) (d : Date) : Nat := yearStart epoch d.year + monthStart d.year d.month + (d.day - 1)

def Time.seconds (epoch : Nat) (t : Time) : Nat := ((t.days epoch * 24 + t.hour) * 60 + t.minute) * 60 + t.second

/-- Earlier: in the year, else in the month, else in the day. -/
def Date.Before (a b : Date) : Prop :=
  a.year < b.year ∨ a.year = b.year ∧ (a.month < b.month ∨ a.month = b.month ∧ a.day < b.day)

def Date.Same (a b : Date) : Prop := a.year = b.year ∧ a.month = b.month ∧ a.day = b.day

def Time.Before (a b : Time) : Prop :=
  a.toDate.Before b.toDate ∨ a.toDate.Same b.toDate ∧
    (a.hour < b.hour ∨ a.hour = b.hour ∧ (a.minute < b.minute ∨ a.minute = b.minute ∧ a.second < b.second))

variable {epoch y m : Nat}

/-! ## Years and months -/

theorem yearStart_succ (h : epoch ≤ y) : yearStart epoch (y + 1) = yearStart epoch y + yearDays y := by
  unfold yearStart
  rw [Nat.succ_sub h, sum_range_succ, Nat.add_sub_cancel' h]

theorem monthStart_succ (y m : Nat) : monthStart y (m + 1) = monthStart y m + monthDays y m :=
  sum_range_succ ..

theorem monthStart_year (y : Nat) : monthStart y 12 = yearDays y := by
  unfold monthStart yearDays
  cases hleap : leap y <;> simp [sum_range_succ, monthDays, hleap]

theorem monthStart_congr {y y' : Nat} (h : leap y = leap y') (m : Nat) : monthStart y m = monthStart y' m := by
  unfold monthStart monthDays
  rw [h]

theorem monthStart_mono (y : Nat) {a b : Nat} (h : a ≤ b) : monthStart y a ≤ monthStart y b :=
  sum_le_sum_of_subset (range_mono h)

theorem yearStart_mono (epoch : Nat) (h : y ≤ m) : yearStart epoch y ≤ yearStart epoch m :=
  sum_le_sum_of_subset (range_mono (Nat.sub_le_sub_right h epoch))

/-- No century that ends between is without a leap year but 1900 and 2100. -/
theorem leap_iff (hlo : 1901 ≤ y) (hhi : y < 2100) : leap y = true ↔ y % 4 = 0 := by
  unfold leap
  simp only [Bool.and_eq_true, Bool.or_eq_true, beq_iff_eq, bne_iff_ne]
  omega

/-- Until 2100 one year in four is a leap year. -/
theorem yearStart_julian {epoch : Nat} (hlo : 1901 ≤ epoch) (n : Nat) (hhi : epoch + n ≤ 2100) :
    yearStart epoch (epoch + n) + (epoch + 3) / 4 = 365 * n + (epoch + n + 3) / 4 := by
  induction n with
  | zero => simp [yearStart]
  | succ n ih =>
    have hleap := leap_iff (y := epoch + n) (by omega) (by omega)
    have hyear : yearDays (epoch + n) = if (epoch + n) % 4 = 0 then 366 else 365 := by
      unfold yearDays
      exact if_congr hleap rfl rfl
    rw [← Nat.add_assoc, yearStart_succ (Nat.le_add_right epoch n), hyear]
    have hih := ih (by omega)
    split_ifs <;> omega

/-! ## Order -/

/-- A date lies in its year. -/
theorem Date.days_lt_year (d : Date) : monthStart d.year d.month + (d.day - 1) < yearDays d.year := by
  have hmonth := monthStart_mono d.year (show d.month + 1 ≤ 12 from d.month_lt)
  rw [monthStart_succ, monthStart_year] at hmonth
  have hday := d.day_le
  have hpos := d.day_pos
  omega

theorem Date.days_lt {a b : Date} (hepoch : epoch ≤ a.year) (h : a.Before b) : a.days epoch < b.days epoch := by
  have hpos := a.day_pos
  rcases h with hyear | ⟨hyear, hmonth | ⟨hmonth, hday⟩⟩
  · have hnext := yearStart_mono epoch (show a.year + 1 ≤ b.year from hyear)
    rw [yearStart_succ hepoch] at hnext
    have hin := a.days_lt_year
    unfold days
    omega
  · have hnext := monthStart_mono a.year (show a.month + 1 ≤ b.month from hmonth)
    rw [monthStart_succ] at hnext
    have hle := a.day_le
    unfold days
    rw [← hyear]
    omega
  · unfold days
    rw [← hyear, ← hmonth]
    omega

theorem Date.Same.days_eq {a b : Date} (h : a.Same b) (epoch : Nat) : a.days epoch = b.days epoch := by
  obtain ⟨hyear, hmonth, hday⟩ := h
  unfold days
  rw [hyear, hmonth, hday]

/-- **Seconds are counted in the order of time.** -/
theorem Time.seconds_lt {a b : Time} (hepoch : epoch ≤ a.year) (h : a.Before b) : a.seconds epoch < b.seconds epoch := by
  have hhour := a.hour_lt
  have hminute := a.minute_lt
  have hsecond := a.second_lt
  rcases h with hdate | ⟨hsame, hclock⟩
  · have hdays := Date.days_lt hepoch hdate
    unfold seconds
    omega
  · have hdays := hsame.days_eq epoch
    unfold seconds
    omega

theorem Time.seconds_le {a b : Time} (hepoch : epoch ≤ b.year) (h : ¬ a.Before b) :
    b.seconds epoch ≤ a.seconds epoch := by
  by_cases hlt : b.Before a
  · exact Nat.le_of_lt (Time.seconds_lt hepoch hlt)
  · have hsame : b.toDate.Same a.toDate := by
      unfold Time.Before Date.Before at h hlt
      unfold Date.Same
      omega
    have hdays := hsame.days_eq epoch
    have hclock : ¬ (a.hour < b.hour ∨ a.hour = b.hour ∧
        (a.minute < b.minute ∨ a.minute = b.minute ∧ a.second < b.second)) := by
      intro hc
      obtain ⟨hyear, hmonth, hday⟩ := hsame
      exact h (Or.inr ⟨⟨hyear.symm, hmonth.symm, hday.symm⟩, hc⟩)
    have hminute := a.minute_lt
    have hsecond := a.second_lt
    have hminute' := b.minute_lt
    have hsecond' := b.second_lt
    unfold seconds
    omega

end Linux011.Lib.Calendar
