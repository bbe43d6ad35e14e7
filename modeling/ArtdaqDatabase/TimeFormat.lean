import ArtdaqDatabase.CivilTime
import ArtdaqDatabase.OrderedChoice

/-!
# Printed times

`strftime` and `strptime` for a date, a time, zeros for the milliseconds and an offset from
universal time.  A number is printed with a fixed width, and read up to that width as long
as it can still be in its range.
-/

namespace TimeFormat

open CivilTime ArtdaqDatabase Scanner

/-! ## Digits -/

def digitValue (c : Char) : ℕ :=
  c.toNat - '0'.toNat

/-- The last `width` decimal digits of a number. -/
def digits : ℕ → ℕ → List Char
  | 0, _ => []
  | width + 1, number =>
      Nat.digitChar (number / 10 ^ width % 10) :: digits width (number % 10 ^ width)

/-- A number with a least width. -/
def padded (width number : ℕ) : List Char :=
  if number < 10 ^ width then digits width number else Nat.toDigits 10 number

/-- The offset `%z`: a sign, hours and minutes. -/
def offsetText (west : Bool) (hours minutes : ℕ) : List Char :=
  (if west then '-' else '+') :: (padded 2 hours ++ padded 2 minutes)

/-- `%FT%T`. -/
def dateTimeText (tm : Tm) : List Char :=
  padded 4 tm.year.toNat ++ '-' :: (padded 2 tm.month.toNat ++ '-' :: (padded 2 tm.day.toNat ++
    'T' :: (padded 2 tm.hour.toNat ++ ':' :: (padded 2 tm.minute.toNat ++
      ':' :: padded 2 tm.second.toNat))))

/-- `strftime` with the format `%FT%T.000%z`. -/
def strftime (tm : Tm) (offset : ℤ) : List Char :=
  dateTimeText tm ++ '.' :: '0' :: '0' :: '0' ::
    offsetText (offset < 0) (offset.natAbs / 3600) (offset.natAbs % 3600 / 60)

/-! ## Reading -/

/-- More digits are read while the number stays below the end of its range. -/
def moreDigits (high : ℕ) : ℕ → ℕ → List Char → ℕ × List Char
  | left + 1, number, c :: rest =>
      if number * 10 ≤ high ∧ c.isDigit = true then
        moreDigits high left (number * 10 + digitValue c) rest
      else (number, c :: rest)
  | _, number, input => (number, input)

/-- A number of at most `width` digits between two bounds. -/
def getNumber (low high width : ℕ) : Scanner Char ℕ := fun input =>
  match input.dropWhile (· = ' ') with
  | [] => none
  | c :: rest =>
      if c.isDigit = true then
        let (number, rest) := moreDigits high (width - 1) (digitValue c) rest
        if low ≤ number ∧ number ≤ high then some (number, rest) else none
      else none

def matchChar (c : Char) : Scanner Char Char :=
  satisfy fun d => d = c

/-- A colon in front of a digit. -/
def skipColon : List Char → List Char
  | c :: d :: more => if c = ':' ∧ d.isDigit = true then d :: more else c :: d :: more
  | rest => rest

/-- The four digits of an offset, with a colon that may stand in the middle. -/
def offsetDigits : ℕ → ℕ → List Char → ℕ × ℕ × List Char
  | 0, number, input => (0, number, input)
  | left + 1, number, [] => (left + 1, number, [])
  | left + 1, number, c :: rest =>
      if c.isDigit = true then
        offsetDigits left (number * 10 + digitValue c) (if left = 2 then skipColon rest else rest)
      else (left + 1, number, c :: rest)

/-- `%z`. -/
def getOffset : Scanner Char ℤ := fun input =>
  match input.dropWhile Char.isWhitespace with
  | 'Z' :: rest => some (0, rest)
  | c :: rest =>
      if c = '+' ∨ c = '-' then
        let (left, number, rest) := offsetDigits 4 0 rest
        let number := if left = 2 then number * 100 else number
        if (left = 0 ∧ number % 100 < 60) ∨ left = 2 then
          let seconds : ℤ := number / 100 * 3600 + number % 100 * 60
          some (if c = '-' then -seconds else seconds, rest)
        else none
      else none
  | [] => none

/-- `strptime` with the format `%FT%T.000%z`. -/
def strptime : Scanner Char (Tm × ℤ) := do
  let year ← getNumber 0 9999 4
  let _ ← matchChar '-'
  let month ← getNumber 1 12 2
  let _ ← matchChar '-'
  let day ← getNumber 1 31 2
  let _ ← matchChar 'T'
  let hour ← getNumber 0 23 2
  let _ ← matchChar ':'
  let minute ← getNumber 0 59 2
  let _ ← matchChar ':'
  let second ← getNumber 0 61 2
  let _ ← matchChar '.'
  let _ ← matchChar '0'
  let _ ← matchChar '0'
  let _ ← matchChar '0'
  let offset ← getOffset
  return ({ year := year, month := month, day := day, hour := hour, minute := minute,
            second := second }, offset)

/-- `atoi`. -/
def atoi (text : List Char) : ℤ :=
  let number : List Char → ℤ := fun rest =>
    ((rest.takeWhile Char.isDigit).foldl (fun n c => n * 10 + digitValue c) 0 : ℕ)
  match text.dropWhile Char.isWhitespace with
  | '-' :: rest => -number rest
  | '+' :: rest => number rest
  | rest => number rest

/-! ## Reading what was printed -/

theorem digitChar_spec {d : ℕ} (hd : d < 10) :
    (Nat.digitChar d).isDigit = true ∧ digitValue (Nat.digitChar d) = d ∧
      Nat.digitChar d ≠ ' ' ∧ (Nat.digitChar d).isWhitespace = false ∧
      Nat.digitChar d ≠ ':' := by
  have hall : ∀ d < 10, (Nat.digitChar d).isDigit = true ∧ digitValue (Nat.digitChar d) = d ∧
      Nat.digitChar d ≠ ' ' ∧ (Nat.digitChar d).isWhitespace = false ∧
      Nat.digitChar d ≠ ':' := by
    decide
  exact hall d hd

theorem padded_eq {width number : ℕ} (h : number < 10 ^ width) :
    padded width number = digits width number :=
  if_pos h

theorem length_digits (width number : ℕ) : (digits width number).length = width := by
  induction width generalizing number with
  | zero => rfl
  | succ width ih => rw [digits, List.length_cons, ih]

theorem length_padded {width number : ℕ} (h : number < 10 ^ width) :
    (padded width number).length = width := by
  rw [padded_eq h, length_digits]

theorem moreDigits_digits {high width start number : ℕ} (hnumber : number < 10 ^ width)
    (hhigh : start * 10 ^ width + number ≤ high) (rest : List Char) :
    moreDigits high width start (digits width number ++ rest) =
      (start * 10 ^ width + number, rest) := by
  induction width generalizing start number with
  | zero =>
      have hzero : number = 0 := by omega
      simp [digits, moreDigits, hzero]
  | succ width ih =>
      have hpow : 10 ^ (width + 1) = 10 * 10 ^ width := by rw [pow_succ, Nat.mul_comm]
      have hdigit : number / 10 ^ width < 10 := by
        apply Nat.div_lt_of_lt_mul
        rw [Nat.mul_comm, ← hpow]
        exact hnumber
      obtain ⟨hisDigit, hvalue, -⟩ := digitChar_spec hdigit
      have hsplit := Nat.div_add_mod number (10 ^ width)
      have hmod := Nat.mod_lt number (Nat.pow_pos (n := width) (show 0 < 10 by omega))
      have hnext : (start * 10 + number / 10 ^ width) * 10 ^ width + number % 10 ^ width =
          start * 10 ^ (width + 1) + number := by
        calc (start * 10 + number / 10 ^ width) * 10 ^ width + number % 10 ^ width
            = start * (10 * 10 ^ width) +
                (10 ^ width * (number / 10 ^ width) + number % 10 ^ width) := by ring
          _ = start * 10 ^ (width + 1) + number := by rw [hsplit, hpow]
      have hbelow : start * 10 ≤ high := by
        have hpos : 1 ≤ 10 ^ width := Nat.one_le_pow _ _ (by omega)
        calc start * 10 ≤ start * 10 * 10 ^ width := Nat.le_mul_of_pos_right _ hpos
          _ = start * 10 ^ (width + 1) := by rw [hpow, Nat.mul_assoc]
          _ ≤ high := by omega
      rw [digits, List.cons_append, moreDigits, Nat.mod_eq_of_lt hdigit,
        if_pos ⟨hbelow, hisDigit⟩, hvalue, ih hmod (by rw [hnext]; exact hhigh), hnext]

/-- A number that was printed is read back, whatever follows. -/
theorem getNumber_padded {low high width number : ℕ} (hnumber : number < 10 ^ (width + 1))
    (hlow : low ≤ number) (hhigh : number ≤ high) (rest : List Char) :
    getNumber low high (width + 1) (padded (width + 1) number ++ rest) = some (number, rest) := by
  have hdigit : number / 10 ^ width < 10 := by
    apply Nat.div_lt_of_lt_mul
    rw [Nat.mul_comm, Nat.mul_comm, ← pow_succ]
    exact hnumber
  obtain ⟨hisDigit, hvalue, hspace, -⟩ := digitChar_spec hdigit
  have hsplit : number / 10 ^ width * 10 ^ width + number % 10 ^ width = number := by
    rw [Nat.mul_comm]
    exact Nat.div_add_mod number (10 ^ width)
  have hmod := Nat.mod_lt number (Nat.pow_pos (n := width) (show 0 < 10 by omega))
  have hmore : moreDigits high width (number / 10 ^ width)
      (digits width (number % 10 ^ width) ++ rest) = (number, rest) := by
    have hdigits := moreDigits_digits hmod (hsplit.trans_le hhigh) rest
    rwa [hsplit] at hdigits
  rw [padded_eq hnumber, digits, List.cons_append, Nat.mod_eq_of_lt hdigit]
  unfold getNumber
  rw [List.dropWhile_cons_of_neg (by simp [hspace])]
  dsimp only
  rw [if_pos hisDigit, hvalue, Nat.add_sub_cancel, hmore]
  exact if_pos ⟨hlow, hhigh⟩

theorem run_matchChar (c : Char) (rest : List Char) :
    matchChar c (c :: rest) = some (c, rest) := by
  simp [matchChar, satisfy]

/-- The offset that a printed one stands for. -/
def offsetSeconds (west : Bool) (hours minutes : ℕ) : ℤ :=
  if west then -(hours * 3600 + minutes * 60 : ℤ) else hours * 3600 + minutes * 60

theorem padded_two {number : ℕ} (h : number < 100) :
    padded 2 number = [Nat.digitChar (number / 10), Nat.digitChar (number % 10)] := by
  have hdigit : number / 10 % 10 = number / 10 := Nat.mod_eq_of_lt (by omega)
  rw [padded_eq h]
  simp [digits, hdigit]

theorem offsetDigits_padded {hours minutes : ℕ} (hhours : hours < 100) (hminutes : minutes < 100)
    (rest : List Char) :
    offsetDigits 4 0 (padded 2 hours ++ (padded 2 minutes ++ rest)) =
      (0, hours * 100 + minutes, rest) := by
  obtain ⟨ha, hav, -⟩ := digitChar_spec (d := hours / 10) (by omega)
  obtain ⟨hb, hbv, -⟩ := digitChar_spec (d := hours % 10) (by omega)
  obtain ⟨hc, hcv, -, -, hcolon⟩ := digitChar_spec (d := minutes / 10) (by omega)
  obtain ⟨hd, hdv, -⟩ := digitChar_spec (d := minutes % 10) (by omega)
  rw [padded_two hhours, padded_two hminutes]
  simp [offsetDigits, skipColon, ha, hb, hc, hd, hav, hbv, hcv, hdv, hcolon]
  omega

theorem getOffset_offsetText {hours minutes : ℕ} (hhours : hours < 100) (hminutes : minutes < 60)
    (west : Bool) (rest : List Char) :
    getOffset (offsetText west hours minutes ++ rest) =
      some (offsetSeconds west hours minutes, rest) := by
  have hdigits := offsetDigits_padded hhours (show minutes < 100 by omega) rest
  have hminute : (hours * 100 + minutes) % 100 = minutes := by omega
  have hhour' : ((hours : ℤ) * 100 + minutes) / 100 = hours := by omega
  have hminute' : ((hours : ℤ) * 100 + minutes) % 100 = minutes := by omega
  rw [offsetText, List.cons_append, List.append_assoc]
  cases west with
  | true =>
      have hsign : ('-' : Char).isWhitespace = false := by decide
      simp [getOffset, hdigits, hminute, hminutes, hhour', hminute', offsetSeconds, hsign]
  | false =>
      have hsign : ('+' : Char).isWhitespace = false := by decide
      simp [getOffset, hdigits, hminute, hminutes, hhour', hminute', offsetSeconds, hsign]

theorem atoi_padded {number : ℕ} (hnumber : number < 1000) : atoi (padded 3 number) = number := by
  have hall : ∀ number < 1000, atoi (padded 3 number) = number := by
    decide +kernel
  exact hall number hnumber

end TimeFormat
