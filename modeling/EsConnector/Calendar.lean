import Mathlib.Algebra.Group.Int.Defs

namespace Calendar
set_option autoImplicit true

/-- A day of the proleptic Gregorian calendar. -/
structure Civil where
  year : Int
  month : Int
  day : Int
deriving DecidableEq, Repr

/-- A day of a year that begins in March, and so ends with the leap day. -/
structure MarchDay where
  year : Int
  inYear : Int
deriving DecidableEq, Repr

/-- The day at a distance from 1970-01-01. The 400 years of an era are divided into centuries,
blocks of four years, and years. -/
def marchOfDays (days : Int) : MarchDay :=
  let era := (days + 719468) / 146097
  let inEra := (days + 719468) % 146097
  let century := min (inEra / 36524) 3
  let block := (inEra - 36524 * century) / 1461
  let inBlock := (inEra - 36524 * century) % 1461
  let year := min (inBlock / 365) 3
  { year := 400 * era + 100 * century + 4 * block + year
    inYear := inBlock - 365 * year }

/-- The distance of a day from 1970-01-01. -/
def daysOfMarch (d : MarchDay) : Int :=
  365 * d.year + d.year / 4 - d.year / 100 + d.year / 400 + d.inYear - 719468

theorem daysOfMarch_parts {era century block year inYear : Int} (hc : 0 ≤ century ∧ century ≤ 3)
    (hb : 0 ≤ block ∧ block ≤ 24) (hy : 0 ≤ year ∧ year ≤ 3) :
    daysOfMarch ⟨400 * era + 100 * century + 4 * block + year, inYear⟩ =
      146097 * era + 36524 * century + 1461 * block + 365 * year + inYear - 719468 := by
  rw [daysOfMarch]
  dsimp only
  have hfour : (400 * era + 100 * century + 4 * block + year) / 4 =
      100 * era + 25 * century + block := by omega
  have hhundred : (400 * era + 100 * century + 4 * block + year) / 100 = 4 * era + century := by
    omega
  have hera : (400 * era + 100 * century + 4 * block + year) / 400 = era := by omega
  rw [hfour, hhundred, hera]
  omega

theorem daysOfMarch_marchOfDays (days : Int) : daysOfMarch (marchOfDays days) = days := by
  unfold marchOfDays
  dsimp only
  rw [daysOfMarch_parts (by omega) (by omega) (by omega)]
  omega

/-- The days of a year before its month, where March is month 0. -/
def daysBefore (month : Int) : Int := (153 * month + 2) / 5

def civilOfDays (days : Int) : Civil :=
  let d := marchOfDays days
  let month := (5 * d.inYear + 2) / 153
  { year := if month < 10 then d.year else d.year + 1
    month := if month < 10 then month + 3 else month - 9
    day := d.inYear - daysBefore month + 1 }

def daysOfCivil (c : Civil) : Int :=
  let month := if c.month ≤ 2 then c.month + 9 else c.month - 3
  let year := if c.month ≤ 2 then c.year - 1 else c.year
  daysOfMarch ⟨year, daysBefore month + c.day - 1⟩

theorem marchOfDays_inYear (days : Int) :
    0 ≤ (marchOfDays days).inYear ∧ (marchOfDays days).inYear ≤ 365 := by
  rw [marchOfDays]
  dsimp only
  omega

theorem daysOfCivil_civilOfDays (days : Int) : daysOfCivil (civilOfDays days) = days := by
  obtain ⟨hlo, hhi⟩ := marchOfDays_inYear days
  refine Eq.trans ?_ (daysOfMarch_marchOfDays days)
  rw [daysOfCivil, civilOfDays]
  dsimp only
  have hday (b d : Int) : b + (d - b + 1) - 1 = d := by omega
  by_cases hm : (5 * (marchOfDays days).inYear + 2) / 153 < 10
  · simp only [if_pos hm]
    rw [if_neg (by omega), if_neg (by omega), add_sub_cancel_right, hday]
  · simp only [if_neg hm]
    rw [if_pos (by omega), if_pos (by omega), add_sub_cancel_right, sub_add_cancel, hday]

example : civilOfDays 0 = ⟨1970, 1, 1⟩ := by decide

example : civilOfDays (-719162) = ⟨1, 1, 1⟩ := by decide

example : civilOfDays 11016 = ⟨2000, 2, 29⟩ := by decide

def microsPerDay : Int := 86400 * 1000000

/-- The fields of a wall clock: its day, and the microseconds of its hour, minute and second. -/
structure WallClock where
  civil : Civil
  hour : Int
  minute : Int
  second : Int
deriving DecidableEq, Repr

def WallClock.ofMicros (micros : Int) : WallClock where
  civil := civilOfDays (micros / microsPerDay)
  hour := micros % microsPerDay / 3600000000
  minute := micros % 3600000000 / 60000000
  second := micros % 60000000

def WallClock.toMicros (w : WallClock) : Int :=
  daysOfCivil w.civil * microsPerDay + w.hour * 3600000000 + w.minute * 60000000 + w.second

theorem WallClock.toMicros_ofMicros (micros : Int) :
    (WallClock.ofMicros micros).toMicros = micros := by
  rw [toMicros, ofMicros]
  dsimp only
  rw [daysOfCivil_civilOfDays]
  rw [microsPerDay]
  omega

end Calendar
