import EpskcCommissioner.Decimal

/-! Points of time in UTC as `datetime` has them: years 1 to 9999, microseconds, the calendar
and its text in milliseconds. -/
namespace EpskcCommissioner.UtcTime
open Decimal

def maxMicros : Nat := 3652059 * 86400000000

structure Time where
  micros : Nat
  inRange : micros < maxMicros
  deriving DecidableEq, Repr

/- `t - timedelta(milliseconds=ms)`; before year 1 it overflows. -/
def Time.minus (t : Time) (ms : Nat) : Option Time :=
  if 1000 * ms ≤ t.micros then
    some ⟨t.micros - 1000 * ms,Nat.lt_of_le_of_lt (Nat.sub_le _ _) t.inRange⟩
  else none

/- `_DAYS_BEFORE_MONTH`, with the day that a leap year has more. -/
def daysBefore (month : Nat) (leap : Bool) : Nat :=
  [0,31,59,90,120,151,181,212,243,273,304,334].getD (month - 1) 0 + if 2 < month ∧ leap then 1 else 0

/- `_ord2ymd`, counting days from zero. -/
def ymd (day : Nat) : Nat × Nat × Nat :=
  let n400 := day / 146097
  let n := day % 146097
  let n100 := n / 36524
  let n := n % 36524
  let n4 := n / 1461
  let n := n % 1461
  let n1 := n / 365
  let n := n % 365
  let year := n400 * 400 + 1 + n100 * 100 + n4 * 4 + n1
  if n1 = 4 ∨ n100 = 4 then (year - 1,12,31)
  else
    let leap := n1 == 3 && (n4 != 24 || n100 == 3)
    let month := (n + 50) / 32
    if n < daysBefore month leap then (year,month - 1,n - daysBefore (month - 1) leap + 1)
    else (year,month,n - daysBefore month leap + 1)

/- `isoformat(timespec='milliseconds')` -/
def Time.isoformat (t : Time) : List Char :=
  let date := ymd (t.micros / 86400000000)
  let millis := t.micros / 1000 % 86400000
  padded 4 date.1 ++ '-' :: padded 2 date.2.1 ++ '-' :: padded 2 date.2.2 ++
    'T' :: padded 2 (millis / 3600000) ++ ':' :: padded 2 (millis / 60000 % 60) ++
    ':' :: padded 2 (millis / 1000 % 60) ++ '.' :: padded 3 (millis % 1000) ++ "+00:00".toList

theorem ymdSmall {day : Nat} (inRange : day < 3652059) :
    (ymd day).1 < 100000 ∧ (ymd day).2.1 < 100 ∧ (ymd day).2.2 < 1000 := by
  unfold ymd
  dsimp only
  split
  · dsimp only
    omega
  · split
    · dsimp only
      omega
    · dsimp only
      omega

theorem isoformatFits (t : Time) : t.isoformat.length ≤ 40 ∧ '\n' ∉ t.isoformat := by
  have inYears : t.micros / 86400000000 < 3652059 :=
    (Nat.div_lt_iff_lt_mul (by decide)).mpr t.inRange
  obtain ⟨year,month,day⟩ := ymdSmall inYears
  have noLine : ∀ width n, '\n' ∉ padded width n :=
    fun width n => newlineNoDigit (fun c mem => .inr (paddedAll mem))
  constructor
  · have millis : t.micros / 1000 % 86400000 < 86400000 := Nat.mod_lt _ (by decide)
    have years : (padded 4 (ymd (t.micros / 86400000000)).1).length ≤ 5 :=
      paddedLength (by decide) (by decide) year
    have months : (padded 2 (ymd (t.micros / 86400000000)).2.1).length ≤ 2 :=
      paddedLength (by decide) (by decide) month
    have days : (padded 2 (ymd (t.micros / 86400000000)).2.2).length ≤ 3 :=
      paddedLength (by decide) (by decide) day
    have hours : (padded 2 (t.micros / 1000 % 86400000 / 3600000)).length ≤ 2 :=
      paddedLength (by decide) (by decide) (by omega)
    have minutes : (padded 2 (t.micros / 1000 % 86400000 / 60000 % 60)).length ≤ 2 :=
      paddedLength (by decide) (by decide) (by omega)
    have seconds : (padded 2 (t.micros / 1000 % 86400000 / 1000 % 60)).length ≤ 2 :=
      paddedLength (by decide) (by decide) (by omega)
    have part : (padded 3 (t.micros / 1000 % 86400000 % 1000)).length ≤ 3 :=
      paddedLength (by decide) (by decide) (by omega)
    have zone : "+00:00".toList.length = 6 := rfl
    simp only [Time.isoformat,List.length_append,List.length_cons,zone]
    omega
  · have zone : '\n' ∉ "+00:00".toList := by decide
    simp only [Time.isoformat,List.mem_append,List.mem_cons,noLine,zone,false_or,or_false]
    decide

example : (Time.mk 63902781045123456 (by decide)).isoformat = "2025-12-31T12:30:45.123+00:00".toList := by
  decide

end EpskcCommissioner.UtcTime
