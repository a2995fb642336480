import WalletBridge.Log.Moment

/-! # The calendar goes forward

A day is found from its number by way of the era of 400 years it lies in, and there by
its century, its cycle of four years, its year and its place in the year; years begin
in March, so that a leap day is the last one of its year, its cycle and its century,
and only the last century of an era ends with one. Later days have later dates, later
seconds have later moments, and every moment that there is has its second.
-/

namespace WalletBridge.Log

namespace Moment

/-! ## The days of an era -/

/-- A day of an era. -/
structure EraDay where
  century : Nat
  cycle : Nat
  year : Nat
  day : Nat
  century_lt : century < 4
  cycle_lt : cycle < 25
  year_lt : year < 4
  day_le : day ≤ 365
  leap : day = 365 → year = 3 ∧ (cycle = 24 → century = 3)

namespace EraDay

variable {e e' : EraDay}

def number (e : EraDay) : Nat := 36524 * e.century + 1461 * e.cycle + 365 * e.year + e.day

/-- The number of its year in the era. -/
def years (e : EraDay) : Nat := 100 * e.century + 4 * e.cycle + e.year

theorem years_lt (e : EraDay) : e.years < 400 := by
  have hcentury := e.century_lt
  have hcycle := e.cycle_lt
  have hyear := e.year_lt
  rw [years]
  omega

theorem number_lt (e : EraDay) : e.number < 146097 := by
  obtain ⟨century, cycle, year, day, hcentury, hcycle, hyear, hday, hleap⟩ := e
  dsimp only [number]
  omega

theorem exists_number {n : Nat} (h : n < 146097) : ∃ e : EraDay, e.number = n := by
  obtain ⟨century, hcentury⟩ : ∃ c, c = min (n / 36524) 3 := ⟨_, rfl⟩
  obtain ⟨inCentury, hinCentury⟩ : ∃ r, r = n - 36524 * century := ⟨_, rfl⟩
  obtain ⟨cycle, hcycle⟩ : ∃ c, c = inCentury / 1461 := ⟨_, rfl⟩
  obtain ⟨inCycle, hinCycle⟩ : ∃ r, r = inCentury - 1461 * cycle := ⟨_, rfl⟩
  obtain ⟨year, hyear⟩ : ∃ y, y = min (inCycle / 365) 3 := ⟨_, rfl⟩
  refine ⟨⟨century, cycle, year, inCycle - 365 * year, ?_, ?_, ?_, ?_, ?_⟩, ?_⟩
  case refine_6 =>
    dsimp only [number]
    omega
  all_goals omega

theorem years_lt_or (h : e.number < e'.number) :
    e.years < e'.years ∨ e.years = e'.years ∧ e.day < e'.day := by
  obtain ⟨century, cycle, year, day, hcentury, hcycle, hyear, hday, hleap⟩ := e
  obtain ⟨century', cycle', year', day', hcentury', hcycle', hyear', hday', hleap'⟩ := e'
  dsimp only [number, years] at h ⊢
  omega

/-! ### The year of a day -/

/-- How many leap days too many the cycles of 1460 days count up to a day: they count one more
than there are when the day is late in its own cycle. -/
def late (e : EraDay) : Nat := (24 * e.century + e.cycle + 365 * e.year + e.day) / 1460

theorem number_div_century (e : EraDay) : e.number / 36524 = e.century + e.number / 146096 := by
  have hcentury := e.century_lt
  have hlast : 1461 * e.cycle + 365 * e.year + e.day < 36524 ∨
      e.century = 3 ∧ e.number = 146096 := by
    have hcycle := e.cycle_lt
    have hyear := e.year_lt
    have hday := e.day_le
    by_cases hleap : e.day = 365
    · obtain ⟨hyears, hcenturies⟩ := e.leap hleap
      rw [number]
      omega
    · omega
  rcases hlast with hwithin | ⟨hlast, hnumber⟩
  · rw [number]
    omega
  · rw [hnumber, hlast]

theorem number_div_cycle (e : EraDay) : e.number / 1460 = 25 * e.century + e.cycle + e.late := by
  rw [number, late]
  omega

theorem late_le (e : EraDay) : e.late ≤ e.day ∧ e.day < e.late + 365 := by
  obtain ⟨century, cycle, year, day, hcentury, hcycle, hyear, hday, hleap⟩ := e
  dsimp only [late]
  omega

theorem years_eq (e : EraDay) :
    (e.number - e.number / 1460 + e.number / 36524 - e.number / 146096) / 365 = e.years := by
  have hdays : e.number - e.number / 1460 + e.number / 36524 - e.number / 146096 =
      365 * e.years + (e.day - e.late) := by
    rw [number_div_century, number_div_cycle, ← Nat.add_assoc, Nat.add_sub_cancel]
    have hlate := e.late_le.1
    dsimp only [number, years]
    omega
  have hday := e.late_le.2
  rw [hdays]
  omega

theorem day_eq (e : EraDay) :
    e.number - (365 * e.years + e.years / 4 - e.years / 100) = e.day := by
  obtain ⟨century, cycle, year, day, hcentury, hcycle, hyear, hday, hleap⟩ := e
  dsimp only [number, years]
  have hcycles : (100 * century + 4 * cycle + year) / 4 = 25 * century + cycle := by omega
  have hcenturies : (100 * century + 4 * cycle + year) / 100 = century := by omega
  rw [hcycles, hcenturies]
  omega

end EraDay

/-! ## Dates -/

/-- The date of a day of a year that begins in March. -/
def dateIn (year : Int) (day : Nat) : Int × Nat × Nat :=
  let month := (5 * day + 2) / 153
  (if month < 10 then year else year + 1, if month < 10 then month + 3 else month - 9,
    day - (153 * month + 2) / 5 + 1)

theorem dateOf_eq (era : Int) (e : EraDay) :
    dateOf (era * 146097 + e.number) = dateIn (era * 400 + e.years) e.day := by
  have hnumber := e.number_lt
  have hera : (era * 146097 + e.number).fdiv 146097 = era := by
    rw [Int.fdiv_eq_ediv_of_nonneg _ (by decide)]
    omega
  have hinEra : ((era * 146097 + e.number).fmod 146097).toNat = e.number := by
    rw [Int.fmod_eq_emod_of_nonneg _ (by decide)]
    omega
  simp only [dateOf, hera, hinEra, e.years_eq, e.day_eq]
  rfl

theorem exists_eraDay (n : Int) : ∃ era : Int, ∃ e : EraDay, n = era * 146097 + e.number := by
  obtain ⟨e, he⟩ := EraDay.exists_number (n := (n % 146097).toNat) (by omega)
  refine ⟨n / 146097, e, ?_⟩
  rw [he]
  omega

/-- One date is before another. -/
def DateBefore (date date' : Int × Nat × Nat) : Prop :=
  date.1 < date'.1 ∨ date.1 = date'.1 ∧
    (date.2.1 < date'.2.1 ∨ date.2.1 = date'.2.1 ∧ date.2.2 < date'.2.2)

theorem dateIn_before {year year' : Int} {day day' : Nat} (hday : day ≤ 365) (hday' : day' ≤ 365)
    (h : year < year' ∨ year = year' ∧ day < day') :
    DateBefore (dateIn year day) (dateIn year' day') := by
  simp only [DateBefore, dateIn]
  have hmonth : (5 * day + 2) / 153 < 12 := by omega
  have hmonth' : (5 * day' + 2) / 153 < 12 := by omega
  split <;> split <;> omega

theorem dateOf_before {n n' : Int} (h : n < n') : DateBefore (dateOf n) (dateOf n') := by
  obtain ⟨era, e, rfl⟩ := exists_eraDay n
  obtain ⟨era', e', rfl⟩ := exists_eraDay n'
  have hnumber := e.number_lt
  have hnumber' := e'.number_lt
  have hyears := e.years_lt
  have hyears' := e'.years_lt
  rw [dateOf_eq, dateOf_eq]
  refine dateIn_before e.day_le e'.day_le ?_
  rcases Int.lt_trichotomy era era' with hera | rfl | hera
  · omega
  · have hlater : e.number < e'.number := by omega
    have hdays := EraDay.years_lt_or hlater
    omega
  · omega

/-! ### Every date has its day -/

/-- The place of a month in a year that begins in March. -/
def fromMarch (month : Nat) : Nat := if month < 3 then month + 9 else month - 3

/-- The year that began in the last March. -/
def marchYear (year : Int) (month : Nat) : Int := if month < 3 then year - 1 else year

/-- The place of a day in a year that begins in March. -/
def marchDay (month day : Nat) : Nat := (153 * fromMarch month + 2) / 5 + day - 1

variable {year : Int} {month day : Nat}

/-- From March on five months at a time have 153 days, and the last month is cut short. -/
theorem daysIn_le (year : Int) (hfirst : 1 ≤ month) (hlast : month ≤ 12) :
    daysIn year month + (153 * fromMarch month + 2) / 5 ≤ (153 * (fromMarch month + 1) + 2) / 5 ∧
      (month = 2 → daysIn year month = if isLeap year then 29 else 28) := by
  match month with
  | 1 | 3 | 4 | 5 | 6 | 7 | 8 | 9 | 10 | 11 | 12 => simp [daysIn, fromMarch]
  | 2 => cases hleap : isLeap year <;> simp [daysIn, fromMarch, hleap]

section
variable (hfirst : 1 ≤ month) (hlast : month ≤ 12) (hday : 1 ≤ day)
variable (hdays : day ≤ daysIn year month)

include hfirst hlast hday hdays

theorem dateIn_march : dateIn (marchYear year month) (marchDay month day) = (year, month, day) := by
  have hlength := (daysIn_le year hfirst hlast).1
  have hmonth : (5 * marchDay month day + 2) / 153 = fromMarch month := by
    rw [marchDay]
    omega
  have hplace : marchDay month day - (153 * fromMarch month + 2) / 5 + 1 = day := by
    rw [marchDay]
    omega
  simp only [dateIn, hmonth, hplace]
  by_cases hmarch : month < 3
  · have hlate : ¬ month + 9 < 10 := by omega
    simp [fromMarch, marchYear, hmarch, hlate]
  · have hearly : month - 3 < 10 := by omega
    have hback : month - 3 + 3 = month := by omega
    simp [fromMarch, marchYear, hmarch, hearly, hback]

theorem marchDay_le : marchDay month day ≤ 365 ∧
    (marchDay month day = 365 → month = 2 ∧ isLeap year = true) := by
  obtain ⟨hlength, hfebruary⟩ := daysIn_le year hfirst hlast
  have hmonth : fromMarch month ≤ 10 ∨ month = 2 := by
    rw [fromMarch]
    split <;> omega
  rcases hmonth with hmonth | rfl
  · rw [marchDay]
    omega
  · have hplace : marchDay 2 day = 337 + day - 1 := rfl
    rw [hfebruary rfl] at hdays
    split at hdays
    · next hleap => exact ⟨by omega, fun _ => ⟨rfl, hleap⟩⟩
    · omega

theorem exists_day : ∃ n, dateOf n = (year, month, day) := by
  obtain ⟨hbound, hleapDay⟩ := marchDay_le hfirst hlast hday hdays
  obtain ⟨inEra, hinEra⟩ : ∃ y : Nat, y = marchYear year month % 400 :=
    ⟨_, Int.toNat_of_nonneg (by omega)⟩
  have hleap (h : marchDay month day = 365) :
      inEra % 4 = 3 ∧ (inEra % 100 / 4 = 24 → inEra / 100 = 3) := by
    obtain ⟨rfl, hleap⟩ := hleapDay h
    simp only [isLeap, Bool.and_eq_true, Bool.or_eq_true, beq_iff_eq, bne_iff_ne] at hleap
    have hyear : marchYear year 2 = year - 1 := rfl
    omega
  let e : EraDay :=
    ⟨inEra / 100, inEra % 100 / 4, inEra % 4, marchDay month day, by omega, by omega, by omega,
      hbound, hleap⟩
  have hyears : e.years = inEra := by
    change 100 * (inEra / 100) + 4 * (inEra % 100 / 4) + inEra % 4 = inEra
    omega
  have hyear : marchYear year month / 400 * 400 + (inEra : Int) = marchYear year month := by
    omega
  refine ⟨marchYear year month / 400 * 146097 + e.number, ?_⟩
  rw [dateOf_eq, hyears, hyear]
  exact dateIn_march hfirst hlast hday hdays

end

/-! ## Moments -/

/-- One moment is before another: the coarsest field that differs says so. -/
def Earlier (m m' : Moment) : Prop :=
  m.year < m'.year ∨ m.year = m'.year ∧ (m.month < m'.month ∨ m.month = m'.month ∧
    (m.day < m'.day ∨ m.day = m'.day ∧ (m.hour < m'.hour ∨ m.hour = m'.hour ∧
      (m.minute < m'.minute ∨ m.minute = m'.minute ∧ m.second < m'.second))))

theorem Earlier.asymm {m m' : Moment} (h : Earlier m m') : ¬ Earlier m' m := by
  rw [Earlier] at h ⊢
  omega

def date (m : Moment) : Int × Nat × Nat := (m.year, m.month, m.day)

theorem earlier_iff {m m' : Moment} : Earlier m m' ↔ DateBefore m.date m'.date ∨
    m.date = m'.date ∧ (m.hour < m'.hour ∨ m.hour = m'.hour ∧
      (m.minute < m'.minute ∨ m.minute = m'.minute ∧ m.second < m'.second)) := by
  simp only [Earlier, DateBefore, date, Prod.mk.injEq]
  omega

theorem ofSeconds_date (n : Int) : (ofSeconds n).date = dateOf (n / 86400 + epochDay) := by
  rw [← Int.fdiv_eq_ediv_of_nonneg n (by decide)]
  rfl

theorem ofSeconds_earlier {n n' : Int} (h : n < n') : Earlier (ofSeconds n) (ofSeconds n') := by
  rw [earlier_iff, ofSeconds_date, ofSeconds_date]
  by_cases hsame : n / 86400 = n' / 86400
  · refine .inr ⟨by rw [hsame], ?_⟩
    have hinDay (k : Int) : k.fmod 86400 = k % 86400 := Int.fmod_eq_emod_of_nonneg k (by decide)
    have hlater : (n % 86400).toNat < (n' % 86400).toNat := by omega
    simp only [ofSeconds, hinDay]
    omega
  · exact .inl (dateOf_before (by omega))

theorem ofSeconds_earlier_iff {n n' : Int} : Earlier (ofSeconds n) (ofSeconds n') ↔ n < n' := by
  refine ⟨fun hearlier => ?_, ofSeconds_earlier⟩
  rcases Int.lt_trichotomy n n' with hlt | rfl | hgt
  · exact hlt
  · exact absurd hearlier hearlier.asymm
  · exact absurd hearlier (ofSeconds_earlier hgt).asymm

theorem ofSeconds_inj {n n' : Int} : ofSeconds n = ofSeconds n' ↔ n = n' := by
  refine ⟨fun hsame => ?_, congrArg ofSeconds⟩
  have hnot (m : Moment) : ¬ Earlier m m := fun h => h.asymm h
  rcases Int.lt_trichotomy n n' with hlt | heq | hgt
  · have hearlier := ofSeconds_earlier hlt
    rw [hsame] at hearlier
    exact absurd hearlier (hnot _)
  · exact heq
  · have hearlier := ofSeconds_earlier hgt
    rw [hsame] at hearlier
    exact absurd hearlier (hnot _)

theorem exists_ofSeconds {m : Moment} (h : m.exists? = true) : ∃ n, ofSeconds n = m := by
  obtain ⟨year, month, day, hour, minute, second⟩ := m
  simp only [exists?, Bool.and_eq_true, decide_eq_true_eq] at h
  obtain ⟨⟨⟨⟨⟨⟨⟨-, hfirst⟩, hlast⟩, hday⟩, hdays⟩, hhour⟩, hminute⟩, hsecond⟩ := h
  obtain ⟨n, hn⟩ := exists_day hfirst hlast hday hdays
  obtain ⟨inDay, hinDay⟩ : ∃ k, k = 3600 * hour + 60 * minute + second := ⟨_, rfl⟩
  refine ⟨(n - epochDay) * 86400 + inDay, ?_⟩
  have hdate : ((n - epochDay) * 86400 + inDay).fdiv 86400 + epochDay = n := by
    rw [Int.fdiv_eq_ediv_of_nonneg _ (by decide)]
    omega
  have htime : (((n - epochDay) * 86400 + inDay).fmod 86400).toNat = inDay := by
    rw [Int.fmod_eq_emod_of_nonneg _ (by decide)]
    omega
  simp only [ofSeconds, hdate, htime, hn, Moment.mk.injEq, true_and]
  omega

end Moment

end WalletBridge.Log
