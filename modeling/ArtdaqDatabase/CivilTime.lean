import Mathlib.Tactic

/-!
# Civil time

Seconds are counted from the beginning of 1970; a broken-down time has the fields of the
Gregorian calendar.  A year begins in March here, so that the leap day is its last one.
A local time zone is the offset from universal time that is in force at each instant.
-/

namespace CivilTime

/-- `std::tm`, with the year and the month as they are written. -/
structure Tm where
  year : ℤ
  month : ℤ
  day : ℤ
  hour : ℤ
  minute : ℤ
  second : ℤ
  deriving DecidableEq

/-- The fields of a day and a time of day. -/
structure Tm.InRange (tm : Tm) : Prop where
  month : 1 ≤ tm.month ∧ tm.month ≤ 12
  day : 1 ≤ tm.day ∧ tm.day ≤ 31
  hour : 0 ≤ tm.hour ∧ tm.hour ≤ 23
  minute : 0 ≤ tm.minute ∧ tm.minute ≤ 59
  second : 0 ≤ tm.second ∧ tm.second ≤ 59

/-! ## Days -/

/-- The day since 1970 of a date. -/
def daysFromCivil (year month day : ℤ) : ℤ :=
  let y := if month ≤ 2 then year - 1 else year
  let m := if month ≤ 2 then month + 9 else month - 3
  let dayOfYear := (153 * m + 2) / 5 + day - 1
  y * 365 + y / 4 - y / 100 + y / 400 + dayOfYear - 719468

/-- A year, and the day in it. -/
def yearOfDay (days : ℤ) : ℤ × ℤ :=
  let era := (days + 719468) / 146097
  let dayOfEra := (days + 719468) % 146097
  let century := min (dayOfEra / 36524) 3
  let dayOfCentury := dayOfEra - 36524 * century
  let cycle := dayOfCentury / 1461
  let dayOfCycle := dayOfCentury % 1461
  let rest := min (dayOfCycle / 365) 3
  (400 * era + 100 * century + 4 * cycle + rest, dayOfCycle - 365 * rest)

/-- The year, the month and the day of a day since 1970. -/
def civilFromDays (days : ℤ) : ℤ × ℤ × ℤ :=
  let (y, dayOfYear) := yearOfDay days
  let m := (5 * dayOfYear + 2) / 153
  let day := dayOfYear - (153 * m + 2) / 5 + 1
  if m < 10 then (y, m + 3, day) else (y + 1, m - 9, day)

theorem yearOfDay_spec (days : ℤ) :
    0 ≤ (yearOfDay days).2 ∧ (yearOfDay days).2 ≤ 365 ∧
      (yearOfDay days).1 * 365 + (yearOfDay days).1 / 4 - (yearOfDay days).1 / 100 +
        (yearOfDay days).1 / 400 + (yearOfDay days).2 = days + 719468 := by
  unfold yearOfDay
  dsimp only
  generalize hera : (days + 719468) / 146097 = era
  generalize hday : (days + 719468) % 146097 = dayOfEra
  have hsplit : days + 719468 = 146097 * era + dayOfEra := by omega
  have hbounds : 0 ≤ dayOfEra ∧ dayOfEra < 146097 := by omega
  clear hera hday
  generalize hcentury : min (dayOfEra / 36524) 3 = century
  have hcenturies : 0 ≤ century ∧ century ≤ 3 ∧
      0 ≤ dayOfEra - 36524 * century ∧ dayOfEra - 36524 * century ≤ 36524 := by omega
  clear hcentury
  generalize hrest : dayOfEra - 36524 * century = dayOfCentury at *
  generalize hcycle : dayOfCentury / 1461 = cycle
  generalize hdayOfCycle : dayOfCentury % 1461 = dayOfCycle
  have hcycles : 0 ≤ cycle ∧ cycle ≤ 24 ∧ dayOfCentury = 1461 * cycle + dayOfCycle ∧
      0 ≤ dayOfCycle ∧ dayOfCycle ≤ 1460 := by omega
  clear hcycle hdayOfCycle
  generalize hyear : min (dayOfCycle / 365) 3 = rest
  have hyears : 0 ≤ rest ∧ rest ≤ 3 ∧ 0 ≤ dayOfCycle - 365 * rest ∧
      dayOfCycle - 365 * rest ≤ 365 := by omega
  clear hyear
  have hfour : (400 * era + 100 * century + 4 * cycle + rest) / 4 =
      100 * era + 25 * century + cycle := by omega
  have hhundred : (400 * era + 100 * century + 4 * cycle + rest) / 100 =
      4 * era + century := by omega
  have hfourHundred : (400 * era + 100 * century + 4 * cycle + rest) / 400 = era := by omega
  rw [hfour, hhundred, hfourHundred]
  omega

/-- The day of the date of a day is the day. -/
theorem daysFromCivil_civilFromDays (days : ℤ) :
    daysFromCivil (civilFromDays days).1 (civilFromDays days).2.1 (civilFromDays days).2.2 =
      days := by
  obtain ⟨hlow, hhigh, hdays⟩ := yearOfDay_spec days
  unfold civilFromDays daysFromCivil
  dsimp only
  split
  · rename_i hm
    dsimp only
    rw [if_neg (by omega), if_neg (by omega)]
    omega
  · rename_i hm
    dsimp only
    rw [if_pos (by omega), if_pos (by omega)]
    have hyear : (yearOfDay days).1 + 1 - 1 = (yearOfDay days).1 := by omega
    rw [hyear]
    omega

theorem civilFromDays_inRange (days : ℤ) :
    (1 ≤ (civilFromDays days).2.1 ∧ (civilFromDays days).2.1 ≤ 12) ∧
      1 ≤ (civilFromDays days).2.2 ∧ (civilFromDays days).2.2 ≤ 31 := by
  obtain ⟨hlow, hhigh, -⟩ := yearOfDay_spec days
  unfold civilFromDays
  dsimp only
  split
  · dsimp only
    omega
  · dsimp only
    omega

/-! ## Seconds -/

/-- The fields of a count of seconds. -/
def fields (seconds : ℤ) : Tm :=
  let date := civilFromDays (seconds / 86400)
  let time := seconds % 86400
  { year := date.1
    month := date.2.1
    day := date.2.2
    hour := time / 3600
    minute := time % 3600 / 60
    second := time % 60 }

/-- The count of seconds of a broken-down time. -/
def Tm.seconds (tm : Tm) : ℤ :=
  daysFromCivil tm.year tm.month tm.day * 86400 + tm.hour * 3600 + tm.minute * 60 + tm.second

theorem seconds_fields (seconds : ℤ) : (fields seconds).seconds = seconds := by
  rw [fields, Tm.seconds]
  dsimp only
  rw [daysFromCivil_civilFromDays]
  omega

theorem fields_inRange (seconds : ℤ) : (fields seconds).InRange where
  month := (civilFromDays_inRange (seconds / 86400)).1
  day := (civilFromDays_inRange (seconds / 86400)).2
  hour := by
    unfold fields
    dsimp only
    omega
  minute := by
    unfold fields
    dsimp only
    omega
  second := by
    unfold fields
    dsimp only
    omega

/-! ## Local time -/

/-- The offset in force at each instant, less than a day. -/
structure Zone where
  offset : ℤ → ℤ
  offset_gt : ∀ t, -86400 < offset t
  offset_lt : ∀ t, offset t < 86400

namespace Zone

variable (zone : Zone)

/-- The local seconds of an instant. -/
def localSeconds (t : ℤ) : ℤ :=
  t + zone.offset t

/-- `std::localtime`. -/
def localtime (t : ℤ) : Tm :=
  fields (zone.localSeconds t)

/-- `mktime` follows the zone: it gives an instant with the local time that it is given, if
there is one. -/
def Resolves (mktime : Tm → ℤ) : Prop :=
  ∀ tm t, zone.localSeconds t = tm.seconds → zone.localSeconds (mktime tm) = tm.seconds

/-- The instant is the only one with this local time. -/
def OnlyInstant (seconds t : ℤ) : Prop :=
  ∀ t', zone.localSeconds t' = seconds ↔ t' = t

theorem exists_resolves : ∃ mktime, zone.Resolves mktime := by
  classical
  refine ⟨fun tm => if h : ∃ t, zone.localSeconds t = tm.seconds then h.choose else 0, ?_⟩
  intro tm t ht
  dsimp only
  rw [dif_pos ⟨t, ht⟩]
  exact Exists.choose_spec (p := fun t => zone.localSeconds t = tm.seconds) ⟨t, ht⟩

variable {zone}

/-- Where several instants have the local time, or none has, `mktime` may give another one. -/
theorem Resolves.update {mktime : Tm → ℤ} (h : zone.Resolves mktime) {tm : Tm} {t : ℤ}
    (ht : (∃ t', zone.localSeconds t' = tm.seconds) → zone.localSeconds t = tm.seconds) :
    zone.Resolves (Function.update mktime tm t) := by
  intro tm' t' ht'
  by_cases htm : tm' = tm
  · subst htm
    rw [Function.update_self]
    exact ht ⟨t', ht'⟩
  · rw [Function.update_of_ne htm]
    exact h tm' t' ht'

variable (zone)

/-- Every `mktime` that follows the zone gives an instant if and only if no other instant has
the local time. -/
theorem resolves_iff (tm : Tm) (t : ℤ) :
    (∀ mktime, zone.Resolves mktime → mktime tm = t) ↔ zone.OnlyInstant tm.seconds t := by
  constructor
  · intro h
    obtain ⟨mktime, hmktime⟩ := zone.exists_resolves
    have hchoice : ∀ chosen, ((∃ t', zone.localSeconds t' = tm.seconds) →
        zone.localSeconds chosen = tm.seconds) → chosen = t := by
      intro chosen hchosen
      have hchosen' := h _ (hmktime.update hchosen)
      rwa [Function.update_self] at hchosen'
    have hsome : ∃ t', zone.localSeconds t' = tm.seconds := by
      by_contra hnone
      have hother := hchoice (t + 1) fun h => absurd h hnone
      omega
    intro t'
    constructor
    · exact fun ht' => hchoice t' fun _ => ht'
    · rintro rfl
      obtain ⟨t', ht'⟩ := hsome
      rwa [← hchoice t' fun _ => ht']
  · intro honly mktime hresolves
    exact (honly _).1 (hresolves tm t ((honly t).2 rfl))

end Zone

end CivilTime
