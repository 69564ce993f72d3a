import Trading.Datetime

/-!
# Instants

The proleptic Gregorian calendar numbers the days from the first of the year 1, so that a
datetime in UTC is a number of microseconds. A datetime with a greater field, the first
that differs, is later.
-/
namespace Trading

/-- The days before a year. -/
def daysBeforeYear (year : Nat) : Nat :=
  let y := year - 1
  y * 365 + y / 4 - y / 100 + y / 400

/-- The days of the first months of a year. -/
def daysOfMonths (year : Nat) : Nat → Nat
  | 0 => 0
  | month + 1 => daysOfMonths year month + daysInMonth year (month + 1)

def daysInYear (year : Nat) : Nat := if isLeap year then 366 else 365

theorem daysOfMonths_twelve (year : Nat) : daysOfMonths year 12 = daysInYear year := by
  cases hleap : isLeap year <;> simp [daysOfMonths, daysInMonth, daysInYear, hleap]

theorem daysOfMonths_lt {year m n : Nat} (h : m < n) :
    daysOfMonths year m + daysInMonth year (m + 1) ≤ daysOfMonths year n := by
  induction n with
  | zero => omega
  | succ n ih =>
    rw [daysOfMonths]
    by_cases hm : m = n
    · rw [hm]
    · have hrest := ih (by omega)
      omega

theorem daysBeforeYear_succ {year : Nat} (h : 0 < year) :
    daysBeforeYear (year + 1) = daysBeforeYear year + daysInYear year := by
  obtain ⟨y, rfl⟩ : ∃ y, year = y + 1 := ⟨year - 1, by omega⟩
  have hleap : daysInYear (y + 1) = 365 + (if 4 ∣ y + 1 then 1 else 0) -
      (if 100 ∣ y + 1 then 1 else 0) + (if 400 ∣ y + 1 then 1 else 0) := by
    simp only [daysInYear, isLeap, decide_eq_true_eq]
    split <;> split <;> split <;> split <;> omega
  have hcenturies : y / 100 ≤ y / 4 := Nat.div_le_div_left (by decide) (by decide)
  simp only [daysBeforeYear, Nat.add_sub_cancel, hleap, Nat.succ_div]
  split <;> split <;> split <;> omega

theorem daysBeforeYear_lt {m n : Nat} (hm : 0 < m) (h : m < n) :
    daysBeforeYear m + daysInYear m ≤ daysBeforeYear n := by
  induction n with
  | zero => omega
  | succ n ih =>
    rw [daysBeforeYear_succ (by omega)]
    by_cases hmn : m = n
    · rw [hmn]
    · have hrest := ih (by omega)
      omega

namespace Datetime

/-- The number of the day, the first of January of the year 1 being 1. -/
def toordinal (t : Datetime) : Nat :=
  daysBeforeYear t.year + daysOfMonths t.year (t.month - 1) + t.day

def microseconds (t : Datetime) : Nat :=
  (((t.toordinal * 24 + t.hour) * 60 + t.minute) * 60 + t.second) * 1000000 + t.microsecond

/-- The microseconds since 1970. -/
def time (t : Datetime) : Time := t.microseconds - 719163 * 24 * 3600 * 1000000

example : time ⟨1970, 1, 1, 0, 0, 0, 0, by decide⟩ = 0 := by decide
example : time ⟨1, 1, 1, 0, 0, 0, 0, by decide⟩ = Time.min := by decide
example : time ⟨9999, 12, 31, 23, 59, 59, 999999, by decide⟩ = Time.max := by decide

/-- The days of the months before, and all of its own month, come no later than the next month. -/
theorem day_le {t : Datetime} {month : Nat} (h : t.month ≤ month) :
    daysOfMonths t.year (t.month - 1) + t.day ≤ daysOfMonths t.year month := by
  obtain ⟨-, hmonth, -, hday⟩ := t.valid
  have hpos : 0 < (t.month : Nat) := hmonth
  have hdays := @daysOfMonths_lt t.year (t.month - 1) month (by omega)
  rw [Nat.sub_add_cancel hpos] at hdays
  omega

theorem toordinal_lt {s t : Datetime} (h : s.year < t.year ∨
    s.year = t.year ∧ (s.month < t.month ∨ s.month = t.month ∧ s.day < t.day)) :
    s.toordinal < t.toordinal := by
  obtain ⟨hyear, -, -, -⟩ := s.valid
  obtain ⟨-, -, hday, -⟩ := t.valid
  have hday' : 0 < (t.day : Nat) := hday
  unfold toordinal
  rcases h with hlt | ⟨heq, hlt | ⟨hmonth, hlt⟩⟩
  · have hthis := @day_le s 12 (by omega)
    have hyears := @daysBeforeYear_lt s.year t.year hyear hlt
    rw [daysOfMonths_twelve] at hthis
    omega
  · have hthis := @day_le s (t.month - 1) (by omega)
    rw [heq] at hthis ⊢
    omega
  · rw [heq, hmonth]
    omega

theorem microseconds_strictMono : StrictMono microseconds := by
  intro s t hst
  have hkey : s.key < t.key := hst
  simp only [key, Prod.Lex.lt_iff, ofLex_toLex] at hkey
  have hhour := s.hour.isLt
  have hminute := s.minute.isLt
  have hsecond := s.second.isLt
  have hmicro := s.microsecond.isLt
  have hlater : s.toordinal < t.toordinal → s.microseconds < t.microseconds := by
    intro hday
    unfold microseconds
    omega
  rcases hkey with hyear | ⟨hyear, hmonth | ⟨hmonth, hday | ⟨hday, hclock⟩⟩⟩
  · exact hlater (toordinal_lt (.inl hyear))
  · exact hlater (toordinal_lt (.inr ⟨hyear, .inl hmonth⟩))
  · exact hlater (toordinal_lt (.inr ⟨hyear, .inr ⟨hmonth, hday⟩⟩))
  · have hsame : s.toordinal = t.toordinal := by
      unfold toordinal
      rw [hyear, hmonth, hday]
    unfold microseconds
    rw [hsame]
    rcases hclock with hlt | ⟨heq, hlt | ⟨heq', hlt | ⟨heq'', hlt⟩⟩⟩
    · omega
    · omega
    · omega
    · omega

/-- The texts are ordered as the instants are. -/
theorem isoformat_le_iff_time {s t : Datetime} : s.isoformat ≤ t.isoformat ↔ s.time ≤ t.time := by
  have hmicroseconds : s.time ≤ t.time ↔ s ≤ t :=
    (Int.sub_le_sub_right_iff.trans Int.ofNat_le).trans microseconds_strictMono.le_iff_le
  exact isoformat_le_iff.trans hmicroseconds.symm

/-- The range of a sum is that of the calendar. -/
theorem time_inRange (t : Datetime) : Time.InRange t.time := by
  obtain ⟨hyear, -, hday, -⟩ := t.valid
  have hfirst : 0 < (t.day : Nat) := hday
  have hmonths := @day_le t 12 (by omega)
  have hyears := @daysBeforeYear_lt t.year 10000 hyear t.year.isLt
  have hlast : daysBeforeYear 10000 = 3652059 := by decide
  rw [daysOfMonths_twelve] at hmonths
  have hordinal : 1 ≤ t.toordinal ∧ t.toordinal ≤ 3652059 := by
    unfold toordinal
    omega
  have hhour := t.hour.isLt
  have hminute := t.minute.isLt
  have hsecond := t.second.isLt
  have hmicro := t.microsecond.isLt
  have hrange : (-62135596800000000 : Int) ≤ t.microseconds - 719163 * 24 * 3600 * 1000000 ∧
      t.microseconds - 719163 * 24 * 3600 * 1000000 ≤ (253402300799999999 : Int) := by
    unfold microseconds
    omega
  exact hrange

end Datetime

end Trading
