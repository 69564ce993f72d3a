import Mathlib.Data.String.Basic
import Trading.Data.FixedWidth
import Trading.Domain

/-!
# Datetimes in UTC and their texts

`isoformat` leaves the microseconds out when there are none. The texts still compare as
the datetimes do, since `+` comes before `.`.
-/
namespace Trading

open Data

def isLeap (year : Nat) : Bool := year % 4 = 0 ∧ (year % 100 ≠ 0 ∨ year % 400 = 0)

def daysInMonth (year month : Nat) : Nat :=
  if month = 2 then if isLeap year then 29 else 28
  else if month = 4 ∨ month = 6 ∨ month = 9 ∨ month = 11 then 30
  else 31

/-- A `datetime` whose `tzinfo` is UTC. -/
structure Datetime where
  year : Fin 10000
  month : Fin 13
  day : Fin 32
  hour : Fin 24
  minute : Fin 60
  second : Fin 60
  microsecond : Fin 1000000
  valid : 0 < year ∧ 0 < month ∧ 0 < day ∧ day ≤ daysInMonth year month
  deriving DecidableEq

/-- A second of the first minute of a year. -/
def second (n : Fin 60) : Datetime := ⟨2024, 1, 1, 0, 0, n, 0, by decide⟩

namespace Datetime

/-- The fields from the greatest to the least. -/
def key (t : Datetime) :
    Fin 10000 ×ₗ Fin 13 ×ₗ Fin 32 ×ₗ Fin 24 ×ₗ Fin 60 ×ₗ Fin 60 ×ₗ Fin 1000000 :=
  toLex (t.year, toLex (t.month, toLex (t.day, toLex (t.hour, toLex (t.minute,
    toLex (t.second, t.microsecond))))))

theorem key_injective : Function.Injective key := by
  rintro ⟨⟩ ⟨⟩ h
  simpa [key] using h

instance : LinearOrder Datetime := LinearOrder.lift' key key_injective

def utcOffset : List Char := ['+', '0', '0', ':', '0', '0']

/-- The end of the text. -/
def fraction (microsecond : Fin 1000000) : List Char :=
  if microsecond = 0 then utcOffset else '.' :: padded 6 microsecond ++ utcOffset

def isoformat (t : Datetime) : String :=
  String.ofList <|
    padded 4 t.year ++ (['-'] ++ (padded 2 t.month ++ (['-'] ++ (padded 2 t.day ++ (['T'] ++
      (padded 2 t.hour ++ ([':'] ++ (padded 2 t.minute ++ ([':'] ++ (padded 2 t.second ++
        ([] ++ fraction t.microsecond)))))))))))

example : isoformat ⟨2024, 2, 29, 7, 5, 9, 0, by decide⟩ = "2024-02-29T07:05:09+00:00" := by
  decide

theorem fraction_strictMono : StrictMono fraction := by
  intro a b hab
  have hb : b ≠ 0 := Fin.pos_iff_ne_zero.mp (lt_of_le_of_lt (Fin.zero_le a) hab)
  rw [fraction, fraction, if_neg hb]
  split
  · exact List.Lex.rel (by decide)
  · apply List.Lex.cons
    have hlength : (padded 6 a).length = (padded 6 b).length :=
      (length_padded _ _).trans (length_padded _ _).symm
    exact append_lt_append hlength (padded_lt hab (b.isLt.trans_le (by decide))) _ _

/-- The order of the texts is the order of the datetimes. -/
theorem isoformat_strictMono : StrictMono isoformat := by
  have hsecond := strictMono_padded_append (n := 60) (w := 2) (by decide) [] fraction_strictMono
  have hminute := strictMono_padded_append (n := 60) (w := 2) (by decide) [':'] hsecond
  have hhour := strictMono_padded_append (n := 24) (w := 2) (by decide) [':'] hminute
  have hday := strictMono_padded_append (n := 32) (w := 2) (by decide) ['T'] hhour
  have hmonth := strictMono_padded_append (n := 13) (w := 2) (by decide) ['-'] hday
  have hyear := strictMono_padded_append (n := 10000) (w := 4) (by decide) ['-'] hmonth
  intro s t hst
  rw [String.lt_iff_toList_lt, isoformat, isoformat, String.toList_ofList, String.toList_ofList]
  have htexts := @hyear (key s) (key t) hst
  simp only [key, ofLex_toLex] at htexts
  exact htexts

theorem isoformat_le_iff {s t : Datetime} : s.isoformat ≤ t.isoformat ↔ s ≤ t :=
  isoformat_strictMono.le_iff_le

/-- A field and what parts it from the next one. -/
def readField (n w : Nat) (separator cs : List Char) : Option (Fin n × List Char) :=
  (readColumn n w cs).bind fun r => (readText separator r.2).map fun rest => (r.1, rest)

def readFraction (cs : List Char) : Option (Fin 1000000) :=
  match readText ['.'] cs with
  | some digits => (readField 1000000 6 utcOffset digits).bind fun r =>
      if r.2 = [] then some r.1 else none
  | none => if cs = utcOffset then some 0 else none

/-- `fromisoformat` of the texts that `isoformat` writes. -/
def fromisoformat? (text : String) : Option Datetime := do
  let (year, cs) ← readField 10000 4 ['-'] text.toList
  let (month, cs) ← readField 13 2 ['-'] cs
  let (day, cs) ← readField 32 2 ['T'] cs
  let (hour, cs) ← readField 24 2 [':'] cs
  let (minute, cs) ← readField 60 2 [':'] cs
  let (second, cs) ← readField 60 2 [] cs
  let microsecond ← readFraction cs
  if h : 0 < year ∧ 0 < month ∧ 0 < day ∧ day ≤ daysInMonth year month then
    some ⟨year, month, day, hour, minute, second, microsecond, h⟩
  else none

theorem readField_padded {n w : Nat} (h : n ≤ 10 ^ w) (a : Fin n) (separator cs : List Char) :
    readField n w separator (padded w a ++ (separator ++ cs)) = some (a, cs) := by
  rw [readField, readColumn_padded h, Option.bind_some, readText_append, Option.map_some]

theorem readFraction_fraction (microsecond : Fin 1000000) :
    readFraction (fraction microsecond) = some microsecond := by
  by_cases hzero : microsecond = 0
  · rw [fraction, if_pos hzero, hzero]
    rfl
  · have hdigits := readField_padded (w := 6) (by decide) microsecond utcOffset []
    rw [List.append_nil] at hdigits
    rw [fraction, if_neg hzero]
    simp only [readFraction, List.cons_append, readText, if_true, hdigits, Option.bind_some]

theorem bind_readField {α : Type} {n w : Nat} (h : n ≤ 10 ^ w) (a : Fin n)
    (separator cs : List Char) (f : Fin n × List Char → Option α) :
    (readField n w separator (padded w a ++ (separator ++ cs)) >>= f) = f (a, cs) := by
  rw [readField_padded h]
  rfl

theorem fromisoformat?_isoformat (t : Datetime) : fromisoformat? t.isoformat = some t := by
  rw [fromisoformat?, isoformat, String.toList_ofList]
  refine (bind_readField (by decide) t.year ['-'] _ _).trans ?_
  refine (bind_readField (by decide) t.month ['-'] _ _).trans ?_
  refine (bind_readField (by decide) t.day ['T'] _ _).trans ?_
  refine (bind_readField (by decide) t.hour [':'] _ _).trans ?_
  refine (bind_readField (by decide) t.minute [':'] _ _).trans ?_
  refine (bind_readField (by decide) t.second [] _ _).trans ?_
  dsimp only
  rw [readFraction_fraction]
  exact dif_pos t.valid

end Datetime

end Trading
