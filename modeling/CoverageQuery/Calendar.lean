import CoverageQuery.Number.Digits

/-!
# Dates and times of day

Dates of the Gregorian calendar, extended to all years in range, and times of day in universal time.
A second may be a leap second: then it is the last of its minute and counts on to sixty. Years from
zero to 9999 are written with four digits, all others with a sign as well.
-/
namespace CoverageQuery

def isLeapYear (year : Int) : Bool :=
  year % 4 = 0 ∧ (year % 100 ≠ 0 ∨ year % 400 = 0)

def daysInMonth (year : Int) (month : Nat) : Nat :=
  if month = 2 then (if isLeapYear year then 29 else 28)
  else if month = 4 ∨ month = 6 ∨ month = 9 ∨ month = 11 then 30
  else 31

structure Date where
  year : Int
  month : Nat
  day : Nat
  year_mem : -262143 ≤ year ∧ year ≤ 262142
  month_mem : 1 ≤ month ∧ month ≤ 12
  day_mem : 1 ≤ day ∧ day ≤ daysInMonth year month

def Date.of? (year : Int) (month day : Nat) : Option Date :=
  if h : (-262143 ≤ year ∧ year ≤ 262142) ∧ (1 ≤ month ∧ month ≤ 12)
      ∧ (1 ≤ day ∧ day ≤ daysInMonth year month) then
    some ⟨year, month, day, h.1, h.2.1, h.2.2⟩
  else none

structure TimeOfDay where
  hour : Nat
  minute : Nat
  second : Nat
  leap : Bool
  hour_lt : hour < 24
  minute_lt : minute < 60
  second_lt : second < 60
  leap_last : leap = true → second = 59

/-- A time of day from its parts; a leap second is given by nanoseconds past a whole second. -/
def TimeOfDay.of? (hour minute second nanos : Nat) : Option TimeOfDay :=
  let leap : Bool := 1000000000 ≤ nanos
  if h : hour < 24 ∧ minute < 60 ∧ second < 60 ∧ (leap = true → second = 59) then
    if nanos < 2000000000 then some ⟨hour, minute, second, leap, h.1, h.2.1, h.2.2.1, h.2.2.2⟩
    else none
  else none

def padded (width n : Nat) : List Char :=
  List.replicate (width - Digits.count n) '0' ++ Digits.write n

def yearText (year : Int) : List Char :=
  if 0 ≤ year ∧ year ≤ 9999 then padded 4 year.natAbs
  else (if year < 0 then '-' else '+') :: padded 4 year.natAbs

def Date.text (d : Date) : List Char :=
  yearText d.year ++ '-' :: padded 2 d.month ++ '-' :: padded 2 d.day

def TimeOfDay.text (t : TimeOfDay) : List Char :=
  padded 2 t.hour ++ ':' :: padded 2 t.minute ++ ':' :: padded 2 (t.second + t.leap.toNat)

def momentText (d : Date) (t : TimeOfDay) : List Char :=
  d.text ++ 'T' :: t.text ++ ['Z']

end CoverageQuery
