import GbfCore.Lib.Decimal

/-!
# Instants as RFC 3339 text

The calendar computations of package `time`, on the proleptic Gregorian calendar with
years that begin in March, and the two text forms the engine uses: RFC 3339 in UTC as
`Format` writes it, and what `Parse` accepts for it.

* `daysOfDate_dateOfDays`: the date of a day count gives the day count back;
* `day_le_daysIn`: it is a date that exists;
* `parseRFC3339_format`: an instant between the years 0 and 9999 is read back from
  its text.
-/

namespace GbfCore

open List Option

variable {century cyear n unix : Int} {rest s : Bytes}

/-! ## Dates -/

/-- A date. -/
structure Date where
  year : Int
  month : Int
  day : Int
deriving DecidableEq, Repr

/-- `dateToAbsDays`: the days since 1 March of the year 0. -/
def daysOfDate (d : Date) : Int :=
  -- January and February belong to the year before
  let janFeb : Int := if d.month < 3 then 1 else 0
  let amonth := d.month + 12 * janFeb
  let y := d.year - janFeb
  146097 * (y / 100) / 4 + 1461 * (y % 100) / 4 + (153 * amonth - 457) / 5 + d.day - 1

/-- `absYday.split`: the date of a day of a year that begins in March. -/
def dateOfYearDay (y yday : Int) : Date :=
  let amonth := (5 * yday + 461) / 153
  let mday := (5 * yday + 461) % 153 / 5 + 1
  if 12 < amonth then ⟨y + 1, amonth - 12, mday⟩ else ⟨y, amonth, mday⟩

/-- `absDays.date`. -/
def dateOfDays (n : Int) : Date :=
  let century := (4 * n + 3) / 146097
  let cday := (4 * n + 3) % 146097 / 4
  let cyear := (4 * cday + 3) / 1461
  let yday := (4 * cday + 3) % 1461 / 4
  dateOfYearDay (100 * century + cyear) yday

/-- `isLeap`. -/
def isLeap (year : Int) : Bool :=
  decide (year % 4 = 0) && (decide (year % 100 ≠ 0) || decide (year % 400 = 0))

/-- `daysIn`. -/
def daysIn (month year : Int) : Int :=
  if month = 2 then if isLeap year then 29 else 28
  else if month = 4 ∨ month = 6 ∨ month = 9 ∨ month = 11 then 30
  else 31

/-- A day count cut into whole periods and a rest, both counted in quarter days. -/
theorem quarter_days {periods rest : Int} (h : periods + rest = 4 * n + 3) :
    periods / 4 + rest / 4 = n := by
  omega

theorem isLeap_iff {year : Int} :
    isLeap year = true ↔ year % 4 = 0 ∧ (year % 100 ≠ 0 ∨ year % 400 = 0) := by
  simp only [isLeap, Bool.and_eq_true, Bool.or_eq_true, decide_eq_true_eq]

/-- A leap day is the last of four years. -/
theorem cyear_of_last {day cday : Int} (h : 1461 * cyear + day = 4 * cday + 3) (hday : day = 1460) :
    cyear % 4 = 3 := by
  subst hday
  omega

/-- At the end of a century it is the last of four centuries. -/
theorem century_of_last {rest : Int} (h : 146097 * century + rest = 4 * n + 3)
    (hrest : rest = 146096) : century % 4 = 3 := by
  subst hrest
  omega

theorem isLeap_of_last {rest day : Int} (hcentury : 146097 * century + rest = 4 * n + 3)
    (hcyear : 1461 * cyear + day = 4 * (rest / 4) + 3) (hrest : rest < 146097) (hlo : 0 ≤ cyear)
    (hhi : cyear < 100) (hday : day = 1460) :
    isLeap (100 * century + cyear + 1) = true := by
  have h4 : cyear % 4 = 3 := cyear_of_last hcyear hday
  have h100 : cyear = 99 → century % 4 = 3 := by
    intro hend
    refine century_of_last hcentury ?_
    clear hcentury
    omega
  clear hcentury hcyear hrest hday
  rw [isLeap_iff]
  constructor
  · omega
  · by_cases hend : cyear = 99
    · have := h100 hend
      right
      omega
    · left
      omega

/-- **The date of a day count.** Its year has a whole number of days before it, and
only a leap year has a day 365. -/
theorem exists_yearDay (n : Int) :
    ∃ century cyear yday : Int, dateOfDays n = dateOfYearDay (100 * century + cyear) yday ∧
      146097 * century / 4 + 1461 * cyear / 4 + yday = n ∧ 0 ≤ cyear ∧ cyear < 100 ∧
      0 ≤ yday ∧ yday ≤ 365 ∧ (yday = 365 → isLeap (100 * century + cyear + 1) = true) := by
  obtain ⟨century, hc⟩ : ∃ c, c = (4 * n + 3) / 146097 := ⟨_, rfl⟩
  obtain ⟨rest, hr⟩ : ∃ r, r = (4 * n + 3) % 146097 := ⟨_, rfl⟩
  obtain ⟨cyear, hy⟩ : ∃ y, y = (4 * (rest / 4) + 3) / 1461 := ⟨_, rfl⟩
  obtain ⟨day, hd⟩ : ∃ d, d = (4 * (rest / 4) + 3) % 1461 := ⟨_, rfl⟩
  have hcentury : 146097 * century + rest = 4 * n + 3 := by omega
  have hcyear : 1461 * cyear + day = 4 * (rest / 4) + 3 := by omega
  have hrest : 0 ≤ rest ∧ rest < 146097 := by omega
  have hday : 0 ≤ day ∧ day < 1461 := by omega
  have hyears : 0 ≤ cyear ∧ cyear < 100 := by omega
  refine ⟨century, cyear, day / 4, ?_, ?_, hyears.1, hyears.2, ?_, ?_, ?_⟩
  · unfold dateOfDays
    dsimp only
    rw [← hc, ← hr, ← hy, ← hd]
  · rw [Int.add_assoc, quarter_days hcyear, quarter_days hcentury]
  · omega
  · omega
  · intro hlast
    refine isLeap_of_last hcentury hcyear hrest.2 hyears.1 hyears.2 ?_
    clear hcentury hcyear
    omega

theorem daysOfDate_dateOfYearDay {yday : Int} (hlo : 0 ≤ cyear) (hhi : cyear < 100)
    (hdlo : 0 ≤ yday) (hdhi : yday ≤ 365) :
    daysOfDate (dateOfYearDay (100 * century + cyear) yday) =
      146097 * century / 4 + 1461 * cyear / 4 + yday := by
  have hcentury : (100 * century + cyear) / 100 = century := by omega
  have hcyear : (100 * century + cyear) % 100 = cyear := by omega
  unfold dateOfYearDay daysOfDate
  dsimp only
  split
  · -- January or February
    have hsmall : (5 * yday + 461) / 153 - 12 < 3 := by omega
    dsimp only
    rw [if_pos hsmall, Int.add_sub_cancel, hcentury, hcyear]
    omega
  · have hlarge : ¬ (5 * yday + 461) / 153 < 3 := by omega
    dsimp only
    rw [if_neg hlarge, Int.sub_zero, hcentury, hcyear]
    omega

theorem daysOfDate_dateOfDays (n : Int) : daysOfDate (dateOfDays n) = n := by
  obtain ⟨century, cyear, yday, hdate, hsum, hlo, hhi, hdlo, hdhi, -⟩ := exists_yearDay n
  rw [hdate, daysOfDate_dateOfYearDay hlo hhi hdlo hdhi, hsum]

theorem month_dateOfDays (n : Int) :
    1 ≤ (dateOfDays n).month ∧ (dateOfDays n).month ≤ 12 := by
  obtain ⟨century, cyear, yday, hdate, -, -, -, hdlo, hdhi, -⟩ := exists_yearDay n
  rw [hdate]
  unfold dateOfYearDay
  dsimp only
  split <;> dsimp only <;> omega

theorem day_le_daysIn (n : Int) : 1 ≤ (dateOfDays n).day ∧
    (dateOfDays n).day ≤ daysIn (dateOfDays n).month (dateOfDays n).year := by
  obtain ⟨century, cyear, yday, hdate, -, -, -, hdlo, hdhi, hleap⟩ := exists_yearDay n
  rw [hdate]
  unfold dateOfYearDay
  dsimp only
  split
  · rename_i hbig
    dsimp only
    refine ⟨by omega, ?_⟩
    unfold daysIn
    split
    · by_cases hlast : yday = 365
      · rw [hleap hlast, if_pos rfl]
        omega
      · split <;> omega
    · split <;> omega
  · rename_i hbig
    dsimp only
    refine ⟨by omega, ?_⟩
    unfold daysIn
    split
    · omega
    · split <;> omega

/-! ## Writing -/

/-- The day 1 January 1970, in days since 1 March of the year 0. -/
def unixEpochDays : Int := 719468

/-- The distance of the Unix epoch from the one that instants are counted from. -/
def unixToAbsolute : Int := 9223372028741760000

/-- The instant as 64-bit arithmetic sees it: only instants billions of years away
are moved. -/
def wrapUnix (unix : Int) : Int := (unix + unixToAbsolute) % 2 ^ 64 - unixToAbsolute

/-- The UTC date of an instant. -/
def dateOfUnix (unix : Int) : Date := dateOfDays (wrapUnix unix / 86400 + unixEpochDays)

/-- The second of its UTC day. -/
def secondOfDay (unix : Int) : Nat := (wrapUnix unix % 86400).toNat

/-- `appendInt`. -/
def appendInt (x : Int) (w : Nat) : Bytes :=
  if x < 0 then minus :: padText w (-x).toNat else padText w x.toNat

/-- Date and time up to the second. -/
def formatDateTime (unix : Int) : Bytes :=
  let d := dateOfUnix unix
  let t := secondOfDay unix
  appendInt d.year 4 ++ minus :: appendInt d.month 2 ++ minus :: appendInt d.day 2 ++
    0x54 :: padText 2 (t / 3600) ++ colon :: padText 2 (t / 60 % 60) ++ colon :: padText 2 (t % 60)

/-- `appendNano`, without trailing zeros. -/
def fracText (nsec : Nat) : Bytes :=
  if nsec = 0 then []
  else 0x2e :: ((padText 9 nsec).reverse.dropWhile (· == 0x30)).reverse

/-- `t.UTC().Format(time.RFC3339)`. -/
def formatRFC3339 (unix : Int) : Bytes := formatDateTime unix ++ ascii "Z"

/-- `t.UTC().Format(time.RFC3339Nano)`. -/
def formatRFC3339Nano (unix : Int) (nsec : Nat) : Bytes :=
  formatDateTime unix ++ fracText nsec ++ ascii "Z"

/-! ## Reading -/

/-- The layout has this byte here. -/
def skip (c : UInt8) : Bytes → Option Bytes
  | b :: rest => if b = c then some rest else none
  | [] => none

/-- `getnum`: two digits, or one if the width is not fixed. -/
def getnum (fixed : Bool) : Bytes → Option (Nat × Bytes)
  | a :: b :: rest =>
    if ¬ isDigit a then none
    else if isDigit b then some ((a.toNat - 48) * 10 + (b.toNat - 48), rest)
    else if fixed then none
    else some (a.toNat - 48, b :: rest)
  | [a] => if isDigit a ∧ ¬ fixed then some (a.toNat - 48, []) else none
  | [] => none

/-- The year of the layout. -/
def getYear : Bytes → Option (Nat × Bytes)
  | a :: b :: c :: d :: rest => (parseDigits 0 [a, b, c, d]).map fun year => (year, rest)
  | _ => none

/-- A fraction of a second, which the layout does not ask for. Digits after the ninth
are dropped. -/
def getFraction : Bytes → Nat × Bytes
  | p :: d :: rest =>
    if (p = 0x2e ∨ p = 0x2c) ∧ isDigit d then
      let digits := (d :: rest).takeWhile isDigit
      let nanos := digits.take 9
      (((parseDigits 0 nanos).getD 0) * 10 ^ (9 - nanos.length), (d :: rest).drop digits.length)
    else (0, p :: d :: rest)
  | s => (0, s)

/-- The offset from UTC in seconds. 24 hours and 60 minutes are let through. -/
def getZone : Bytes → Option (Int × Bytes)
  | 0x5a :: rest => some (0, rest)
  | sign :: h₁ :: h₂ :: c :: m₁ :: m₂ :: rest => do
    let (hours, _) ← getnum true [h₁, h₂]
    let (minutes, _) ← getnum true [m₁, m₂]
    let offset : Int := (hours * 60 + minutes) * 60
    if c ≠ colon ∨ 24 < hours ∨ 60 < minutes then none
    else if sign = 0x2b then some (offset, rest)
    else if sign = minus then some (-offset, rest)
    else none
  | _ => none

/-- `time.Parse(time.RFC3339, s)`: the Unix second and the nanosecond. -/
def parseRFC3339 (s : Bytes) : Option (Int × Nat) := do
  let (year, s) ← getYear s
  let (month, s) ← (skip minus s).bind (getnum true)
  let (day, s) ← (skip minus s).bind (getnum true)
  -- a single digit is accepted for the hour
  let (hour, s) ← (skip 0x54 s).bind (getnum false)
  let (min, s) ← (skip colon s).bind (getnum true)
  let (sec, s) ← (skip colon s).bind (getnum true)
  let (nsec, s) := getFraction s
  let (offset, s) ← getZone s
  if s = [] ∧ 1 ≤ month ∧ month ≤ 12 ∧ 1 ≤ day ∧ (day : Int) ≤ daysIn month year ∧ hour < 24 ∧
      min < 60 ∧ sec < 60 then
    let days := daysOfDate ⟨year, month, day⟩ - unixEpochDays
    some (days * 86400 + (hour * 3600 + min * 60 + sec) - offset, nsec)
  else none

/-! ## Bounds -/

theorem getYear_lt {year : Nat} (h : getYear s = some (year, rest)) :
    year < 10000 := by
  unfold getYear at h
  split at h
  · obtain ⟨n, hn, heq⟩ := map_eq_some_iff.mp h
    cases heq
    simpa using parseDigits_lt hn
  · cases h

theorem getnum_lt {fixed : Bool} {n : Nat} (h : getnum fixed s = some (n, rest)) :
    n < 100 := by
  unfold getnum at h
  split at h
  · rename_i a b tail
    split at h
    · cases h
    · rename_i ha
      have ha := digit_lt (not_not.mp ha)
      split at h
      · rename_i hb
        have hb := digit_lt hb
        cases h
        omega
      · split at h
        · cases h
        · cases h
          omega
  · rename_i a
    split at h
    · rename_i ha
      have ha := digit_lt ha.1
      cases h
      omega
    · cases h
  · cases h

theorem getZone_bounds {offset : Int} (h : getZone s = some (offset, rest)) :
    -100000 ≤ offset ∧ offset ≤ 100000 := by
  unfold getZone at h
  split at h
  · cases h
    decide
  · simp only [bind_eq_bind, bind_eq_some_iff, Prod.exists] at h
    obtain ⟨hours, _, hhours, minutes, _, hminutes, h⟩ := h
    have hh := getnum_lt hhours
    have hm := getnum_lt hminutes
    split at h
    · cases h
    · rename_i hlim
      split at h
      · cases h
        omega
      · split at h
        · cases h
          omega
        · cases h
  · cases h

theorem daysOfDate_bounds {y m d : Nat} (hy : y < 10000) (hm : m ≤ 12) (hd : d < 100) :
    -1000 ≤ daysOfDate ⟨y, m, d⟩ ∧ daysOfDate ⟨y, m, d⟩ ≤ 4000000 := by
  unfold daysOfDate
  dsimp only
  split <;> omega

/-- What is read is an instant that `time` can count. -/
theorem parseRFC3339_bounds {nsec : Nat} (h : parseRFC3339 s = some (unix, nsec)) :
    -2 ^ 63 ≤ unix ∧ unix < 2 ^ 63 := by
  simp only [parseRFC3339, bind_eq_bind, bind_eq_some_iff, Prod.exists] at h
  obtain ⟨year, _, hyear, month, _, ⟨_, -, hmonth⟩, day, _, ⟨_, -, hday⟩, hour, _, ⟨_, -, hhour⟩,
    min, _, ⟨_, -, hmin⟩, sec, _, ⟨_, -, hsec⟩, offset, _, hzone, h⟩ := h
  split at h
  · rename_i hlim
    cases h
    have hdays := daysOfDate_bounds (getYear_lt hyear) hlim.2.2.1 (getnum_lt hday)
    have hoff := getZone_bounds hzone
    have := getnum_lt hhour
    have := getnum_lt hmin
    have := getnum_lt hsec
    unfold unixEpochDays
    omega
  · cases h
/-! ## Reading what was written -/

theorem getnum_padText {k : Nat} (hk : k < 100) (fixed : Bool) (rest : Bytes) :
    getnum fixed (padText 2 k ++ rest) = some (k, rest) := by
  have key : ∀ k < 100, padText 2 k = [digitByte (k / 10), digitByte (k % 10)] := by decide
  have htens : k / 10 < 10 := by omega
  have hones : k % 10 < 10 := by omega
  have hsum : k / 10 * 10 + k % 10 = k := by omega
  rw [key k hk, cons_append, singleton_append, getnum, isDigit_digitByte htens,
    isDigit_digitByte hones, toNat_digitByte htens, toNat_digitByte hones, hsum]
  rfl

theorem length_padText {w n : Nat} (hw : 0 < w) (hn : n < 10 ^ w) : (padText w n).length = w := by
  have hle : (natText n).length ≤ w := by
    unfold natText
    split
    · exact hw
    · rw [length_map, length_reverse]
      exact (Nat.digits_length_le_iff (by decide) n).mpr hn
  rw [padText, length_append, length_replicate]
  omega

theorem getYear_padText {y : Nat} (hy : y < 10000) (rest : Bytes) :
    getYear (padText 4 y ++ rest) = some (y, rest) := by
  have hlen : (padText 4 y).length = 4 := length_padText (by decide) hy
  have hparse := parseDigits_padText 4 y
  generalize padText 4 y = text at hlen hparse
  match text, hlen with
  | [a, b, c, d], _ =>
    show (parseDigits 0 [a, b, c, d]).map _ = _
    rw [hparse]
    rfl

theorem appendInt_of_nonneg {x : Int} (hx : 0 ≤ x) (w : Nat) :
    appendInt x w = padText w x.toNat :=
  if_neg (Int.not_lt.mpr hx)

/-- The year that begins in March, or the next one. -/
theorem year_dateOfYearDay (y yday : Int) :
    y ≤ (dateOfYearDay y yday).year ∧ (dateOfYearDay y yday).year ≤ y + 1 := by
  unfold dateOfYearDay
  dsimp only
  split <;> dsimp only <;> omega

/-- The days of the years with four digits; the bounds are generous. -/
theorem days_of_year (hlo : 0 ≤ (dateOfDays n).year) (hhi : (dateOfDays n).year ≤ 9999) :
    -40000 ≤ n ∧ n ≤ 4000000 := by
  obtain ⟨century, cyear, yday, hdate, hsum, hclo, hchi, hdlo, hdhi, -⟩ := exists_yearDay n
  have hyear := year_dateOfYearDay (100 * century + cyear) yday
  rw [← hdate] at hyear
  have hcentury : -1 ≤ century ∧ century ≤ 99 := by omega
  clear hdate
  omega

/-- The days of the first ten thousand years; the bounds are narrow. -/
theorem year_of_days (hlo : 1000 ≤ n) (hhi : n ≤ 3000000) :
    0 ≤ (dateOfDays n).year ∧ (dateOfDays n).year ≤ 9999 := by
  obtain ⟨century, cyear, yday, hdate, hsum, hclo, hchi, hdlo, hdhi, -⟩ := exists_yearDay n
  have hyear := year_dateOfYearDay (100 * century + cyear) yday
  rw [← hdate] at hyear
  have hcentury : 0 ≤ century ∧ century ≤ 98 := by
    clear hdate hyear
    omega
  omega

/-- A 64-bit instant with a four-digit year is not moved. -/
theorem wrapUnix_of_year (h64 : -2 ^ 63 ≤ unix) (h64' : unix < 2 ^ 63)
    (hlo : 0 ≤ (dateOfUnix unix).year) (hhi : (dateOfUnix unix).year ≤ 9999) :
    wrapUnix unix = unix := by
  obtain ⟨hdlo, hdhi⟩ := days_of_year hlo hhi
  unfold unixEpochDays at hdlo hdhi
  unfold wrapUnix unixToAbsolute at *
  omega

theorem secondOfDay_lt (unix : Int) : secondOfDay unix < 86400 := by
  unfold secondOfDay
  omega

theorem skip_cons (c : UInt8) (rest : Bytes) : skip c (c :: rest) = some rest :=
  if_pos rfl

/-- The text of a date and time, as `Parse` takes it apart. -/
theorem formatDateTime_eq (hlo : 0 ≤ (dateOfUnix unix).year) :
    formatDateTime unix =
      padText 4 (dateOfUnix unix).year.toNat ++ minus ::
        (padText 2 (dateOfUnix unix).month.toNat ++ minus ::
          (padText 2 (dateOfUnix unix).day.toNat ++ 0x54 ::
            (padText 2 (secondOfDay unix / 3600) ++ colon ::
              (padText 2 (secondOfDay unix / 60 % 60) ++ colon ::
                padText 2 (secondOfDay unix % 60))))) := by
  have hmonth : 1 ≤ (dateOfUnix unix).month := (month_dateOfDays _).1
  have hday : 1 ≤ (dateOfUnix unix).day := (day_le_daysIn _).1
  unfold formatDateTime
  dsimp only
  rw [appendInt_of_nonneg hlo, appendInt_of_nonneg (by omega), appendInt_of_nonneg (by omega)]
  simp only [append_assoc, cons_append]

/-- **An instant with a four-digit year is read back from its text.** -/
theorem parseRFC3339_format (h64 : -2 ^ 63 ≤ unix) (h64' : unix < 2 ^ 63)
    (hlo : 0 ≤ (dateOfUnix unix).year) (hhi : (dateOfUnix unix).year ≤ 9999) :
    parseRFC3339 (formatRFC3339 unix) = some (unix, 0) := by
  have hmonth : 1 ≤ (dateOfUnix unix).month ∧ (dateOfUnix unix).month ≤ 12 := month_dateOfDays _
  have hday : 1 ≤ (dateOfUnix unix).day ∧
      (dateOfUnix unix).day ≤ daysIn (dateOfUnix unix).month (dateOfUnix unix).year :=
    day_le_daysIn _
  have hdays : daysOfDate (dateOfUnix unix) = unix / 86400 + unixEpochDays := by
    unfold dateOfUnix
    rw [daysOfDate_dateOfDays, wrapUnix_of_year h64 h64' hlo hhi]
  have hsec : (secondOfDay unix : Int) = unix % 86400 := by
    unfold secondOfDay
    rw [wrapUnix_of_year h64 h64' hlo hhi]
    omega
  have hlt := secondOfDay_lt unix
  have hmax : daysIn (dateOfUnix unix).month (dateOfUnix unix).year ≤ 31 := by
    unfold daysIn
    split
    · split <;> decide
    · split <;> decide
  have hformat := formatDateTime_eq hlo
  generalize secondOfDay unix = t at hsec hlt hformat
  generalize dateOfUnix unix = d at hlo hhi hmonth hday hdays hmax hformat
  obtain ⟨year, month, day⟩ := d
  dsimp only at hlo hhi hmonth hday hmax hformat
  have hy : (year.toNat : Int) = year := Int.toNat_of_nonneg hlo
  have hm : (month.toNat : Int) = month := Int.toNat_of_nonneg (by omega)
  have hd : (day.toNat : Int) = day := Int.toNat_of_nonneg (by omega)
  rw [formatRFC3339, hformat]
  simp only [append_assoc, cons_append]
  -- field by field, as the layout goes
  simp only [parseRFC3339, bind_eq_bind]
  rw [getYear_padText (by omega)]
  iterate 5
    simp only [bind_some, skip_cons]
    rw [getnum_padText (by omega)]
  have hfrac : getFraction (ascii "Z") = (0, ascii "Z") := rfl
  have hzone : getZone (ascii "Z") = some (0, []) := rfl
  simp only [bind_some, hfrac, hzone]
  rw [if_pos, hy, hm, hd, hdays]
  · refine congrArg some (Prod.ext ?_ rfl)
    dsimp only
    omega
  · rw [hy, hm, hd]
    refine ⟨trivial, ?_, ?_, ?_, hday.2, ?_, ?_, ?_⟩ <;> omega

example : parseRFC3339 (ascii "2024-02-29T23:59:60Z") = none := by decide

example : parseRFC3339 (ascii "2024-02-29T5:04:05,25+01:30") = some (1709177645, 250000000) := by
  decide

/-! ## Instants -/

/-- A `time.Time`. -/
structure Instant where
  unix : Int
  nsec : Nat
  nsec_lt : nsec < 10 ^ 9

namespace Instant

/-- A whole second. -/
theorem zero_nsec_lt : 0 < 10 ^ 9 := by decide

/-- `t.UnixMicro()` -/
def unixMicro (t : Instant) : Int := t.unix * 10 ^ 6 + t.nsec / 1000

def unixNano (t : Instant) : Int := t.unix * 10 ^ 9 + t.nsec

/-- Its UTC year is one from 0000 to 9999. -/
structure FourDigits (t : Instant) : Prop where
  lower : -2 ^ 63 ≤ t.unix
  upper : t.unix < 2 ^ 63
  year_nonneg : 0 ≤ (dateOfUnix t.unix).year
  year_le : (dateOfUnix t.unix).year ≤ 9999

theorem FourDigits.parse {t : Instant} (h : t.FourDigits) :
    parseRFC3339 (formatRFC3339 t.unix) = some (t.unix, 0) :=
  parseRFC3339_format h.lower h.upper h.year_nonneg h.year_le

/-- The instants of the first ten thousand million seconds. -/
theorem fourDigits_of_lt (hlo : 0 ≤ unix) (hhi : unix < 10 ^ 10) {nsec : Nat}
    (hnsec : nsec < 10 ^ 9) : FourDigits ⟨unix, nsec, hnsec⟩ := by
  have hwrap : wrapUnix unix = unix := by
    unfold wrapUnix unixToAbsolute
    omega
  obtain ⟨hylo, hyhi⟩ := year_of_days (n := unix / 86400 + unixEpochDays)
    (by unfold unixEpochDays; omega) (by unfold unixEpochDays; omega)
  refine ⟨?_, ?_, ?_, ?_⟩
  · show -2 ^ 63 ≤ unix
    omega
  · show unix < 2 ^ 63
    omega
  · show 0 ≤ (dateOfDays (wrapUnix unix / 86400 + unixEpochDays)).year
    rwa [hwrap]
  · show (dateOfDays (wrapUnix unix / 86400 + unixEpochDays)).year ≤ 9999
    rwa [hwrap]

end Instant

/-- Instants are told apart by their texts up to the second. -/
theorem formatRFC3339_inj {t t' : Instant} (h : t.FourDigits) (h' : t'.FourDigits) :
    formatRFC3339 t.unix = formatRFC3339 t'.unix ↔ t.unix = t'.unix := by
  refine ⟨fun heq => ?_, fun heq => by rw [heq]⟩
  have hparse := h.parse
  rw [heq, h'.parse] at hparse
  exact (congrArg Prod.fst (Option.some.inj hparse)).symm

theorem ascii_of_isDigit {b : UInt8} (h : isDigit b = true) : b < 0x80 := by
  rw [isDigit, Bool.and_eq_true, decide_eq_true_eq, decide_eq_true_eq] at h
  exact UInt8.lt_of_le_of_lt h.2 (by decide)

theorem ascii_padText (w n : Nat) : ∀ b ∈ padText w n, b < 0x80 := by
  intro b hb
  rcases mem_append.mp hb with hzero | hdigit
  · rw [(mem_replicate.mp hzero).2]
    decide
  · exact ascii_of_isDigit (isDigit_natText n b hdigit)

theorem ascii_formatRFC3339 (hyear : 0 ≤ (dateOfUnix unix).year) :
    ∀ b ∈ formatRFC3339 unix, b < 0x80 := by
  intro b hb
  rw [formatRFC3339, formatDateTime_eq hyear] at hb
  simp only [mem_append, mem_cons] at hb
  rcases hb with (h | rfl | h | rfl | h | rfl | h | rfl | h | rfl | h) | hzone
  all_goals try exact ascii_padText _ _ b h
  all_goals try decide
  rw [mem_singleton.mp (show b ∈ [0x5a] from hzone)]
  decide

/-! ## Texts of instants are ASCII -/

/-- What was read of a text is ASCII. -/
def ReadsAscii (s rest : Bytes) : Prop := ∃ used, s = used ++ rest ∧ ∀ b ∈ used, b < 0x80

theorem ReadsAscii.refl (s : Bytes) : ReadsAscii s s := ⟨[], rfl, nofun⟩

theorem ReadsAscii.trans {t u : Bytes} (h : ReadsAscii s t) (h' : ReadsAscii t u) :
    ReadsAscii s u := by
  obtain ⟨a, rfl, ha⟩ := h
  obtain ⟨b, rfl, hb⟩ := h'
  refine ⟨a ++ b, (append_assoc a b u).symm, fun x hx => ?_⟩
  exact (mem_append.mp hx).elim (ha x) (hb x)

theorem ReadsAscii.cons {b : UInt8} (hb : b < 0x80) (h : ReadsAscii s rest) :
    ReadsAscii (b :: s) rest :=
  .trans ⟨[b], rfl, fun _ hx => mem_singleton.mp hx ▸ hb⟩ h

theorem readsAscii_skip {c : UInt8} (hc : c < 0x80) (h : skip c s = some rest) :
    ReadsAscii s rest := by
  unfold skip at h
  split at h
  · split at h
    · rename_i heq
      cases h
      exact .cons (heq ▸ hc) (.refl _)
    · cases h
  · cases h

theorem readsAscii_getnum {fixed : Bool} {n : Nat} (h : getnum fixed s = some (n, rest)) :
    ReadsAscii s rest := by
  unfold getnum at h
  split at h
  · split at h
    · cases h
    rename_i ha
    have ha := ascii_of_isDigit (not_not.mp ha)
    split at h
    · rename_i hb
      cases h
      exact .cons ha (.cons (ascii_of_isDigit hb) (.refl _))
    split at h
    · cases h
    · cases h
      exact .cons ha (.refl _)
  · split at h
    · rename_i ha
      cases h
      exact .cons (ascii_of_isDigit ha.1) (.refl _)
    · cases h
  · cases h

theorem isDigit_of_parseDigits : ∀ {acc n : Nat}, parseDigits acc s = some n →
    ∀ b ∈ s, isDigit b = true := by
  induction s with
  | nil => exact fun _ b hb => absurd hb not_mem_nil
  | cons b rest ih =>
    intro acc n h
    unfold parseDigits at h
    split at h
    · rename_i hb
      exact forall_mem_cons.mpr ⟨hb, ih h⟩
    · cases h

theorem readsAscii_getYear {year : Nat} (h : getYear s = some (year, rest)) :
    ReadsAscii s rest := by
  unfold getYear at h
  split at h
  · rename_i a b c d tail
    obtain ⟨n, hn, heq⟩ := map_eq_some_iff.mp h
    cases heq
    exact ⟨[a, b, c, d], rfl, fun x hx => ascii_of_isDigit (isDigit_of_parseDigits hn x hx)⟩
  · cases h

theorem readsAscii_getFraction (s : Bytes) : ReadsAscii s (getFraction s).2 := by
  unfold getFraction
  split
  · rename_i p d rest
    split
    · rename_i h
      have hp : p < 0x80 := by
        rcases h.1 with rfl | rfl <;> decide
      refine .cons hp ⟨(d :: rest).takeWhile isDigit, ?_, fun b hb => ?_⟩
      · have hsplit := (takeWhile_append_dropWhile (p := isDigit) (l := d :: rest)).symm
        dsimp only
        generalize (d :: rest).takeWhile isDigit = digits at hsplit
        rw [hsplit, drop_left]
      · exact ascii_of_isDigit (mem_takeWhile_imp hb)
    · exact .refl _
  · exact .refl _

theorem readsAscii_getZone {offset : Int} (h : getZone s = some (offset, rest)) :
    ReadsAscii s rest := by
  unfold getZone at h
  split at h
  · cases h
    exact .cons (by decide) (.refl _)
  · rename_i sign h₁ h₂ c m₁ m₂ tail _
    simp only [bind_eq_bind, bind_eq_some_iff, Prod.exists] at h
    obtain ⟨hours, _, hhours, minutes, _, hminutes, h⟩ := h
    have hpair : ∀ {a b : UInt8} {n : Nat} {rest : Bytes}, getnum true [a, b] = some (n, rest) →
        a < 0x80 ∧ b < 0x80 := by
      intro a b n rest hn
      unfold getnum at hn
      dsimp only at hn
      split at hn
      · cases hn
      rename_i ha
      split at hn
      · rename_i hb
        exact ⟨ascii_of_isDigit (not_not.mp ha), ascii_of_isDigit hb⟩
      · cases hn
    obtain ⟨hh₁, hh₂⟩ := hpair hhours
    obtain ⟨hm₁, hm₂⟩ := hpair hminutes
    split at h
    · cases h
    rename_i hlim
    have hc : c < 0x80 := by
      rw [not_not.mp (not_or.mp hlim).1]
      decide
    have hrest : sign < 0x80 → ReadsAscii (sign :: h₁ :: h₂ :: c :: m₁ :: m₂ :: tail) tail :=
      fun hsign => .cons hsign (.cons hh₁ (.cons hh₂ (.cons hc (.cons hm₁ (.cons hm₂ (.refl _))))))
    split at h
    · rename_i hsign
      cases h
      exact hrest (hsign ▸ by decide)
    split at h
    · rename_i hsign
      cases h
      exact hrest (hsign ▸ by decide)
    · cases h
  · cases h

theorem ascii_of_parseRFC3339 {time : Int × Nat} (h : parseRFC3339 s = some time) :
    ∀ b ∈ s, b < 0x80 := by
  simp only [parseRFC3339, bind_eq_bind, bind_eq_some_iff, Prod.exists] at h
  obtain ⟨year, _, hyear, month, _, ⟨_, hskip₁, hmonth⟩, day, _, ⟨_, hskip₂, hday⟩, hour, _,
    ⟨_, hskip₃, hhour⟩, min, _, ⟨_, hskip₄, hmin⟩, sec, afterSec, ⟨_, hskip₅, hsec⟩, offset, rest,
    hzone, h⟩ := h
  split at h
  · rename_i hlim
    have hall : ReadsAscii s rest :=
      ((readsAscii_getYear hyear).trans <| (readsAscii_skip (by decide) hskip₁).trans <|
        (readsAscii_getnum hmonth).trans <| (readsAscii_skip (by decide) hskip₂).trans <|
        (readsAscii_getnum hday).trans <| (readsAscii_skip (by decide) hskip₃).trans <|
        (readsAscii_getnum hhour).trans <| (readsAscii_skip (by decide) hskip₄).trans <|
        (readsAscii_getnum hmin).trans <| (readsAscii_skip (by decide) hskip₅).trans <|
        (readsAscii_getnum hsec).trans <| (readsAscii_getFraction afterSec).trans <|
        readsAscii_getZone hzone)
    obtain ⟨used, rfl, hused⟩ := hall
    rw [hlim.1, append_nil]
    exact hused
  · cases h

end GbfCore
