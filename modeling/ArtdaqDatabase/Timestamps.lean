import ArtdaqDatabase.JsonValue
import ArtdaqDatabase.TimeFormat

/-!
# Timestamps

`to_string` prints a time point in the local zone and puts the milliseconds into fixed
positions.  `to_timepoint` takes them out again, reads the rest, and asks `mktime` for the
instant of the local time.  The offset that was read is not used.
-/

namespace ArtdaqDatabase

open CivilTime TimeFormat

/-! ## The two functions -/

/-- `timestamp_faketime`. -/
def timestampFaketime : List Char :=
  "2017-07-18T12:48:10.123-0500".toList

/-- `to_string` of a time point, in nanoseconds from the epoch on. -/
def timePointToString (zone : Zone) (useFakeTime : Bool) (tp : ℕ) : List Char :=
  let time : ℤ := (tp / 10 ^ 9 : ℕ)
  let buff := strftime (zone.localtime time) (zone.offset time)
  let milliseconds := tp / 10 ^ 6 % 1000
  let patched := buff.take 20 ++ padded 3 milliseconds ++ buff.drop 23
  if useFakeTime then timestampFaketime else patched

/-- `to_timepoint`, in nanoseconds. -/
def toTimepoint (mktime : Tm → ℤ) (strtime : List Char) : Except Failure ℤ := do
  confirm (strtime ≠ [])
  if strtime.length < 20 then .error (.outOfRange "substr")
  else
    let milliseconds := atoi ((strtime.drop 20).take 3)
    if strtime.length < 23 then .error (.outOfRange "at")
    else
      let tmptime := ((strtime.set 20 '0').set 21 '0').set 22 '0'
      match strptime tmptime with
      | some ((timeinfo, _), _) => .ok (mktime timeinfo * 10 ^ 9 + milliseconds * 10 ^ 6)
      | none =>
          .error (.invalidArgument
            ("Failed calling to_timepoint(): format mismatch; format=<%FT%T.000%z>, timestamp=<" ++
              String.ofList strtime ++ ">"))

/-! ## Well-formed timestamps -/

/-- A date and a time with milliseconds and an offset from universal time. -/
structure Stamp where
  tm : Tm
  milliseconds : ℕ
  west : Bool
  hours : ℕ
  minutes : ℕ
  inRange : tm.InRange
  year_nonneg : 0 ≤ tm.year
  year_lt : tm.year < 10000
  milliseconds_lt : milliseconds < 1000
  hours_lt : hours < 24
  minutes_lt : minutes < 60

namespace Stamp

def text (stamp : Stamp) : List Char :=
  dateTimeText stamp.tm ++ '.' ::
    (padded 3 stamp.milliseconds ++ offsetText stamp.west stamp.hours stamp.minutes)

def offset (stamp : Stamp) : ℤ :=
  offsetSeconds stamp.west stamp.hours stamp.minutes

/-- The second that a timestamp denotes. -/
def second (stamp : Stamp) : ℤ :=
  stamp.tm.seconds - stamp.offset

/-- The time point that a timestamp denotes, in nanoseconds. -/
def instant (stamp : Stamp) : ℤ :=
  stamp.second * 10 ^ 9 + stamp.milliseconds * 10 ^ 6

end Stamp

/-- The fields of a printed number fit its width. -/
theorem length_dateTimeText {tm : Tm} (hrange : tm.InRange) (hyear : tm.year < 10000) :
    (dateTimeText tm).length = 19 := by
  obtain ⟨hmonth, hday, hhour, hminute, hsecond⟩ := hrange
  have hyear' : tm.year.toNat < 10 ^ 4 := by omega
  have hmonth' : tm.month.toNat < 10 ^ 2 := by omega
  have hday' : tm.day.toNat < 10 ^ 2 := by omega
  have hhour' : tm.hour.toNat < 10 ^ 2 := by omega
  have hminute' : tm.minute.toNat < 10 ^ 2 := by omega
  have hsecond' : tm.second.toNat < 10 ^ 2 := by omega
  simp only [dateTimeText, List.length_append, List.length_cons, length_padded hyear',
    length_padded hmonth', length_padded hday', length_padded hhour', length_padded hminute',
    length_padded hsecond']

/-- A time with no milliseconds is read back, together with the offset. -/
theorem strptime_text {tm : Tm} (hrange : tm.InRange) (hnonneg : 0 ≤ tm.year)
    (hyear : tm.year < 10000) {hours minutes : ℕ} (hhours : hours < 24) (hminutes : minutes < 60)
    (west : Bool) (rest : List Char) :
    strptime (dateTimeText tm ++ '.' :: '0' :: '0' :: '0' ::
        (offsetText west hours minutes ++ rest)) =
      some ((tm, offsetSeconds west hours minutes), rest) := by
  obtain ⟨hmonth, hday, hhour, hminute, hsecond⟩ := hrange
  have hyear' : ∀ rest, getNumber 0 9999 4 (padded 4 tm.year.toNat ++ rest) =
      some (tm.year.toNat, rest) :=
    getNumber_padded (by omega) (by omega) (by omega)
  have hmonth' : ∀ rest, getNumber 1 12 2 (padded 2 tm.month.toNat ++ rest) =
      some (tm.month.toNat, rest) :=
    getNumber_padded (by omega) (by omega) (by omega)
  have hday' : ∀ rest, getNumber 1 31 2 (padded 2 tm.day.toNat ++ rest) =
      some (tm.day.toNat, rest) :=
    getNumber_padded (by omega) (by omega) (by omega)
  have hhour' : ∀ rest, getNumber 0 23 2 (padded 2 tm.hour.toNat ++ rest) =
      some (tm.hour.toNat, rest) :=
    getNumber_padded (by omega) (by omega) (by omega)
  have hminute' : ∀ rest, getNumber 0 59 2 (padded 2 tm.minute.toNat ++ rest) =
      some (tm.minute.toNat, rest) :=
    getNumber_padded (by omega) (by omega) (by omega)
  have hsecond' : ∀ rest, getNumber 0 61 2 (padded 2 tm.second.toNat ++ rest) =
      some (tm.second.toNat, rest) :=
    getNumber_padded (by omega) (by omega) (by omega)
  have hoffset := getOffset_offsetText (show hours < 100 by omega) hminutes west rest
  have hfields : Tm.mk tm.year.toNat tm.month.toNat tm.day.toNat tm.hour.toNat
      tm.minute.toNat tm.second.toNat = tm := by
    rw [Int.toNat_of_nonneg hnonneg, Int.toNat_of_nonneg (show 0 ≤ tm.month by omega),
      Int.toNat_of_nonneg (show 0 ≤ tm.day by omega), Int.toNat_of_nonneg hhour.1,
      Int.toNat_of_nonneg hminute.1, Int.toNat_of_nonneg hsecond.1]
  simp only [dateTimeText, List.append_assoc, List.cons_append]
  unfold strptime
  rw [Scanner.bind_taken (hyear' _), Scanner.bind_taken (run_matchChar _ _),
    Scanner.bind_taken (hmonth' _), Scanner.bind_taken (run_matchChar _ _),
    Scanner.bind_taken (hday' _), Scanner.bind_taken (run_matchChar _ _),
    Scanner.bind_taken (hhour' _), Scanner.bind_taken (run_matchChar _ _),
    Scanner.bind_taken (hminute' _), Scanner.bind_taken (run_matchChar _ _),
    Scanner.bind_taken (hsecond' _), Scanner.bind_taken (run_matchChar _ _),
    Scanner.bind_taken (run_matchChar _ _), Scanner.bind_taken (run_matchChar _ _),
    Scanner.bind_taken (run_matchChar _ _), Scanner.bind_taken hoffset]
  exact congrArg (fun tm' => some ((tm', offsetSeconds west hours minutes), rest)) hfields

theorem length_offsetText (west : Bool) {hours minutes : ℕ} (hhours : hours < 24)
    (hminutes : minutes < 60) : (offsetText west hours minutes).length = 5 := by
  have hhours' : hours < 10 ^ 2 := by omega
  have hminutes' : minutes < 10 ^ 2 := by omega
  simp [offsetText, length_padded hhours', length_padded hminutes']

/-- `to_timepoint` of a well-formed timestamp is the instant that `mktime` gives for its date
and time, whatever its offset. -/
theorem toTimepoint_text (mktime : Tm → ℤ) (stamp : Stamp) :
    toTimepoint mktime stamp.text =
      .ok (mktime stamp.tm * 10 ^ 9 + stamp.milliseconds * 10 ^ 6) := by
  have hdate := length_dateTimeText stamp.inRange stamp.year_lt
  have hmilliseconds : (padded 3 stamp.milliseconds).length = 3 :=
    length_padded stamp.milliseconds_lt
  obtain ⟨a, b, c, hdigits⟩ : ∃ a b c, padded 3 stamp.milliseconds = [a, b, c] :=
    List.length_eq_three.1 hmilliseconds
  have hfront : (dateTimeText stamp.tm ++ ['.']).length = 20 := by simp [hdate]
  have htext : stamp.text = (dateTimeText stamp.tm ++ ['.']) ++
      ([a, b, c] ++ offsetText stamp.west stamp.hours stamp.minutes) := by
    rw [Stamp.text, hdigits]
    simp
  have hlength : stamp.text.length = 28 := by
    rw [htext, List.length_append, hfront, List.length_append,
      length_offsetText stamp.west stamp.hours_lt stamp.minutes_lt]
    rfl
  have htaken : (stamp.text.drop 20).take 3 = padded 3 stamp.milliseconds := by
    rw [htext, ← hfront, List.drop_left, hdigits]
    exact List.take_left' rfl
  have hzeros : ((stamp.text.set 20 '0').set 21 '0').set 22 '0' =
      dateTimeText stamp.tm ++ '.' :: '0' :: '0' :: '0' ::
        (offsetText stamp.west stamp.hours stamp.minutes ++ []) := by
    rw [htext, List.set_append_right _ _ (by omega), List.set_append_right _ _ (by omega),
      List.set_append_right _ _ (by omega), hfront]
    simp
  have hread := strptime_text stamp.inRange stamp.year_nonneg stamp.year_lt stamp.hours_lt
    stamp.minutes_lt stamp.west []
  have hne : stamp.text ≠ [] := by
    intro h
    rw [h] at hlength
    cases hlength
  rw [← hzeros] at hread
  unfold toTimepoint
  dsimp only
  rw [htaken, hread, atoi_padded stamp.milliseconds_lt]
  simp [confirm, hne, hlength, bind, Except.bind]

/-! ## The timestamp of a time point -/

/-- The zone has a four-digit year at the time point. -/
def FourDigitYear (zone : Zone) (tp : ℕ) : Prop :=
  0 ≤ (zone.localtime (tp / 10 ^ 9 : ℕ)).year ∧ (zone.localtime (tp / 10 ^ 9 : ℕ)).year < 10000

def printedStamp (zone : Zone) (tp : ℕ) (hyear : FourDigitYear zone tp) : Stamp where
  tm := zone.localtime (tp / 10 ^ 9 : ℕ)
  milliseconds := tp / 10 ^ 6 % 1000
  west := zone.offset (tp / 10 ^ 9 : ℕ) < 0
  hours := (zone.offset (tp / 10 ^ 9 : ℕ)).natAbs / 3600
  minutes := (zone.offset (tp / 10 ^ 9 : ℕ)).natAbs % 3600 / 60
  inRange := fields_inRange _
  year_nonneg := hyear.1
  year_lt := hyear.2
  milliseconds_lt := Nat.mod_lt _ (by omega)
  hours_lt := by
    have hgt := zone.offset_gt (tp / 10 ^ 9 : ℕ)
    have hlt := zone.offset_lt (tp / 10 ^ 9 : ℕ)
    omega
  minutes_lt := by omega

/-- The time that the fake timestamp shows. -/
def fakeStamp : Stamp where
  tm := { year := 2017, month := 7, day := 18, hour := 12, minute := 48, second := 10 }
  milliseconds := 123
  west := true
  hours := 5
  minutes := 0
  inRange := by constructor <;> decide
  year_nonneg := by decide
  year_lt := by decide
  milliseconds_lt := by decide
  hours_lt := by decide
  minutes_lt := by decide

theorem timePointToString_fake (zone : Zone) (tp : ℕ) :
    timePointToString zone true tp = fakeStamp.text := by
  have hfake : timestampFaketime = fakeStamp.text := by decide
  simp [timePointToString, hfake]

theorem timePointToString_eq (zone : Zone) (tp : ℕ) (hyear : FourDigitYear zone tp) :
    timePointToString zone false tp = (printedStamp zone tp hyear).text := by
  have hdate := length_dateTimeText (printedStamp zone tp hyear).inRange
    (printedStamp zone tp hyear).year_lt
  have hfront : (dateTimeText (zone.localtime (tp / 10 ^ 9 : ℕ)) ++ ['.']).length = 20 := by
    rw [List.length_append]
    exact congrArg (· + 1) hdate
  have hbuff : strftime (zone.localtime (tp / 10 ^ 9 : ℕ)) (zone.offset (tp / 10 ^ 9 : ℕ)) =
      (dateTimeText (zone.localtime (tp / 10 ^ 9 : ℕ)) ++ ['.']) ++ (['0', '0', '0'] ++
        offsetText (zone.offset (tp / 10 ^ 9 : ℕ) < 0)
          ((zone.offset (tp / 10 ^ 9 : ℕ)).natAbs / 3600)
          ((zone.offset (tp / 10 ^ 9 : ℕ)).natAbs % 3600 / 60)) := by
    simp [strftime]
  have hback : ∀ front zeros back : List Char, front.length = 20 → zeros.length = 3 →
      (front ++ (zeros ++ back)).drop 23 = back := by
    intro front zeros back hlength hzeros
    rw [← List.append_assoc]
    apply List.drop_left'
    rw [List.length_append, hlength, hzeros]
  unfold timePointToString
  dsimp only
  rw [hbuff, List.take_left' hfront, hback _ _ _ hfront rfl]
  simp [Stamp.text, printedStamp]

/-! ## Round trips -/

/-- The time point comes back, without what is below its milliseconds. -/
def ComesBack (zone : Zone) (useFakeTime : Bool) (tp : ℕ) : Prop :=
  ∀ mktime, zone.Resolves mktime →
    toTimepoint mktime (timePointToString zone useFakeTime tp) = .ok (tp / 10 ^ 6 * 10 ^ 6 : ℕ)

/-- The timestamp is read as the instant that it denotes. -/
def ReadAsDenoted (zone : Zone) (stamp : Stamp) : Prop :=
  ∀ mktime, zone.Resolves mktime → toTimepoint mktime stamp.text = .ok stamp.instant

/-- No other instant has the same local time; with a fixed time, the time point is the one that
is shown. -/
def Distinct (zone : Zone) (useFakeTime : Bool) (tp : ℕ) : Prop :=
  if useFakeTime then
    tp / 10 ^ 6 % 1000 = fakeStamp.milliseconds ∧
      zone.OnlyInstant fakeStamp.tm.seconds (tp / 10 ^ 9 : ℕ)
  else zone.OnlyInstant (zone.localSeconds (tp / 10 ^ 9 : ℕ)) (tp / 10 ^ 9 : ℕ)

theorem readAsDenoted_iff (zone : Zone) (stamp : Stamp) :
    ReadAsDenoted zone stamp ↔ zone.OnlyInstant stamp.tm.seconds stamp.second := by
  rw [← zone.resolves_iff]
  refine forall₂_congr fun mktime _ => ?_
  rw [toTimepoint_text, Stamp.instant, Except.ok.injEq]
  omega

/-- A timestamp is read as a time point if the milliseconds are its own and every `mktime` that
follows the zone gives its second. -/
theorem read_eq_iff (zone : Zone) (stamp : Stamp) (tp : ℕ) :
    (∀ mktime, zone.Resolves mktime →
        toTimepoint mktime stamp.text = .ok (tp / 10 ^ 6 * 10 ^ 6 : ℕ)) ↔
      tp / 10 ^ 6 % 1000 = stamp.milliseconds ∧
        zone.OnlyInstant stamp.tm.seconds (tp / 10 ^ 9 : ℕ) := by
  have hparts : ∀ second : ℤ, second * 10 ^ 9 + stamp.milliseconds * 10 ^ 6 =
      (tp / 10 ^ 6 * 10 ^ 6 : ℕ) ↔
        tp / 10 ^ 6 % 1000 = stamp.milliseconds ∧ second = (tp / 10 ^ 9 : ℕ) := by
    intro second
    have hlt := stamp.milliseconds_lt
    push_cast
    omega
  rw [← zone.resolves_iff]
  simp only [toTimepoint_text, Except.ok.injEq, hparts]
  constructor
  · intro h
    obtain ⟨mktime, hmktime⟩ := zone.exists_resolves
    exact ⟨(h mktime hmktime).1, fun other hother => (h other hother).2⟩
  · rintro ⟨hmilliseconds, hsecond⟩ mktime hmktime
    exact ⟨hmilliseconds, hsecond mktime hmktime⟩

theorem comesBack_iff {zone : Zone} {tp : ℕ} (hyear : FourDigitYear zone tp)
    (useFakeTime : Bool) : ComesBack zone useFakeTime tp ↔ Distinct zone useFakeTime tp := by
  unfold ComesBack Distinct
  cases useFakeTime with
  | true =>
      rw [timePointToString_fake, read_eq_iff]
      exact Iff.rfl
  | false =>
      have hseconds : (printedStamp zone tp hyear).tm.seconds =
          zone.localSeconds (tp / 10 ^ 9 : ℕ) := seconds_fields _
      rw [timePointToString_eq zone tp hyear, read_eq_iff, hseconds]
      exact and_iff_right rfl

def utc : Zone where
  offset _ := 0
  offset_gt _ := by decide
  offset_lt _ := by decide

/-- Five hours west. -/
def fixedWest : Zone where
  offset _ := -18000
  offset_gt _ := by decide
  offset_lt _ := by decide

/-- The clocks are set back by an hour at one instant. -/
def clockChange : Zone where
  offset t := if t < 1500000000 then 3600 else 0
  offset_gt t := by
    split <;> decide
  offset_lt t := by
    split <;> decide

/-- The time of the fake timestamp, in universal time. -/
def universalStamp : Stamp :=
  { fakeStamp with
    west := false
    hours := 0
    hours_lt := by decide }

end ArtdaqDatabase
