import WalletBridge.Log.FileName
import WalletBridge.Proofs.Log.Calendar
import WalletBridge.Proofs.Text.Padded

/-! # Names of log files sort like time

All parts of the name of a log file are of fixed width, the coarsest first. So the
names of two runs sort as their beginnings do, to the second, and they are the same
only for runs that began in the same second.
-/

namespace WalletBridge.Log

open Moment Text

variable {m m' : Moment}

/-- What calendar and clock can show in a year of four digits. A clock may show a leap second. -/
structure Shown (m : Moment) : Prop where
  year : 0 ≤ m.year ∧ m.year ≤ 9999
  month : m.month ≤ 12
  day : m.day ≤ 31
  hour : m.hour < 24
  minute : m.minute < 60
  second : m.second ≤ 60

/-- What a clock shows that has counted so many nanoseconds. -/
def counted (nanoseconds : Int) : Moment := ofSeconds (nanoseconds.fdiv 1000000000)

theorem exists_counted (h : m.exists? = true) : ∃ t, counted t = m := by
  obtain ⟨n, hn⟩ := exists_ofSeconds h
  refine ⟨n * 1000000000, ?_⟩
  rw [counted, Int.mul_fdiv_cancel n (by decide), hn]

theorem Shown.yearText_eq (h : Shown m) : yearText m.year = padded 4 m.year.toNat := by
  have hdigits : (0 ≤ m.year && m.year ≤ 9999) = true := by simpa using h.year
  rw [yearText, if_pos hdigits]

theorem ranked_two {n n' : Nat} (hn : n < 100) (hn' : n' < 100) :
    Ranked (padded 2 n).toList (padded 2 n').toList (n < n') (n = n') :=
  ranked_padded hn hn'

theorem ranked_year (hm : Shown m) (hm' : Shown m') :
    Ranked (yearText m.year).toList (yearText m'.year).toList (m.year < m'.year)
      (m.year = m'.year) := by
  have hyear := hm.year
  have hyear' := hm'.year
  have hnumber : m.year.toNat < 10000 := by omega
  have hnumber' : m'.year.toNat < 10000 := by omega
  rw [hm.yearText_eq, hm'.yearText_eq]
  exact (ranked_padded hnumber hnumber').congr (by omega) (by omega)

theorem ranked_fileName (hm : Shown m) (hm' : Shown m') :
    Ranked (fileName m).toList (fileName m').toList (Earlier m m') (m = m') := by
  have hmonth := ranked_two (Nat.lt_of_le_of_lt hm.month (by decide))
    (Nat.lt_of_le_of_lt hm'.month (by decide))
  have hday := ranked_two (Nat.lt_of_le_of_lt hm.day (by decide))
    (Nat.lt_of_le_of_lt hm'.day (by decide))
  have hhour := ranked_two (Nat.lt_trans hm.hour (by decide)) (Nat.lt_trans hm'.hour (by decide))
  have hminute := ranked_two (Nat.lt_trans hm.minute (by decide))
    (Nat.lt_trans hm'.minute (by decide))
  have hsecond := ranked_two (Nat.lt_of_le_of_lt hm.second (by decide))
    (Nat.lt_of_le_of_lt hm'.second (by decide))
  have hdash := Ranked.refl "-".toList
  have hname := (ranked_year hm hm').append (hdash.append (hmonth.append (hdash.append
    (hday.append (hdash.append (hhour.append (hminute.append (hsecond.append
      (Ranked.refl ".log".toList)))))))))
  simp only [fileName, String.toList_append, List.append_assoc]
  refine hname.congr ?_ ?_
  · simp only [false_or, true_and, and_false, or_false]
    rfl
  · obtain ⟨year, month, day, hour, minute, second⟩ := m
    obtain ⟨year', month', day', hour', minute', second'⟩ := m'
    simp only [true_and, and_true, Moment.mk.injEq]

/-- The names of the log files of two runs are of one length, and sort and agree as the beginnings
of the runs do. -/
structure SortLikeTime (m m' : Moment) : Prop where
  length : (fileName m).length = (fileName m').length
  order : fileName m < fileName m' ↔ Earlier m m'
  same : fileName m = fileName m' ↔ m = m'
  /-- What counts is the whole seconds that have passed. -/
  time : ∀ t t' : Int, counted t = m → counted t' = m' →
    (fileName m < fileName m' ↔ t.fdiv 1000000000 < t'.fdiv 1000000000) ∧
      (fileName m = fileName m' ↔ t.fdiv 1000000000 = t'.fdiv 1000000000)
  /-- Every reading that there is comes up some time. -/
  passed : m.exists? = true → ∃ t, counted t = m

theorem fileName_sorts (hm : Shown m) (hm' : Shown m') : SortLikeTime m m' := by
  have hranked := ranked_fileName hm hm'
  constructor
  case length => rw [← String.length_toList, ← String.length_toList, hranked.length]
  case order => exact hranked.less
  case same => rw [← String.toList_inj, hranked.same]
  case time =>
    rintro t t' rfl rfl
    rw [← ofSeconds_earlier_iff, ← ofSeconds_inj, ← String.toList_inj]
    exact ⟨hranked.less, hranked.same⟩
  case passed => exact exists_counted

/-- Two runs on one day, the second in the afternoon. -/
theorem fileName_sorts_morning :
    Shown ⟨2026, 3, 7, 3, 4, 5⟩ ∧ Shown ⟨2026, 3, 7, 15, 4, 5⟩ ∧
      SortLikeTime ⟨2026, 3, 7, 3, 4, 5⟩ ⟨2026, 3, 7, 15, 4, 5⟩ ∧
      counted 1772852645987654321 = ⟨2026, 3, 7, 3, 4, 5⟩ ∧
      counted 1772895845000000001 = ⟨2026, 3, 7, 15, 4, 5⟩ := by
  have hmorning : Shown ⟨2026, 3, 7, 3, 4, 5⟩ := by constructor <;> decide
  have hafternoon : Shown ⟨2026, 3, 7, 15, 4, 5⟩ := by constructor <;> decide
  exact ⟨hmorning, hafternoon, fileName_sorts hmorning hafternoon, by decide, by decide⟩

end WalletBridge.Log
