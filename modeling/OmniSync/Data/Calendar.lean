import Mathlib.Order.Monotone.Basic
import OmniSync.Data.Digits

/-!
# Calendar time and its ISO 8601 text

A civil time is a time of the proleptic Gregorian calendar, with microseconds. A datetime may
have a UTC offset as well. `isoformat` writes one like Python, without the microseconds if
there are none, and `fromisoformat` reads the extended format with calendar dates. The text of
a civil time up to the second is ordered like the number of its second: `stamp_lt_iff`.
-/

namespace Calendar

open Digits

def leap (year : Nat) : Bool := decide (year % 4 = 0 ∧ (year % 100 ≠ 0 ∨ year % 400 = 0))

def daysInMonth (year month : Nat) : Nat :=
  if month = 2 then (if leap year then 29 else 28)
  else if month = 4 ∨ month = 6 ∨ month = 9 ∨ month = 11 then 30
  else 31

/-- A time of the calendar. -/
structure Civil where
  year : Nat
  month : Nat
  day : Nat
  hour : Nat
  minute : Nat
  second : Nat
  microsecond : Nat
  year_bounds : 1 ≤ year ∧ year ≤ 9999
  month_bounds : 1 ≤ month ∧ month ≤ 12
  day_bounds : 1 ≤ day ∧ day ≤ daysInMonth year month
  hour_lt : hour < 24
  minute_lt : minute < 60
  second_lt : second < 60
  microsecond_lt : microsecond < 1000000
  deriving DecidableEq

/-- A UTC offset, in microseconds. -/
structure UtcOffset where
  microseconds : Int
  bounds : -86400000000 < microseconds ∧ microseconds < 86400000000
  deriving DecidableEq

/-- A datetime. Without an offset it is naive. -/
structure CivilDatetime where
  civil : Civil
  offset : Option UtcOffset
  deriving DecidableEq

section Text

def fraction (microsecond : Nat) : List Char :=
  if microsecond = 0 then [] else '.' :: pad 10 6 microsecond

def dateText (c : Civil) : List Char :=
  pad 10 4 c.year ++ '-' :: (pad 10 2 c.month ++ '-' :: pad 10 2 c.day)

def timeText (c : Civil) : List Char :=
  pad 10 2 c.hour ++ ':' :: (pad 10 2 c.minute ++ ':' :: pad 10 2 c.second)

/-- The text up to the second. -/
def stamp (c : Civil) : List Char := dateText c ++ 'T' :: timeText c

/-- The distance of an offset from zero. Seconds are written if there are any. -/
def distance (n : Nat) : List Char :=
  pad 10 2 (n / 3600000000) ++ ':' :: (pad 10 2 (n / 60000000 % 60) ++
    if n % 60000000 = 0 then []
    else ':' :: (pad 10 2 (n / 1000000 % 60) ++ fraction (n % 1000000)))

def offsetText (o : UtcOffset) : List Char :=
  (if o.microseconds < 0 then '-' else '+') :: distance o.microseconds.natAbs

def isoformat (d : CivilDatetime) : List Char :=
  stamp d.civil ++ (fraction d.civil.microsecond ++ (d.offset.map offsetText).getD [])

end Text

section Parse

/-- A time of day as it is written. -/
structure Clock where
  hour : Nat
  minute : Nat := 0
  second : Nat := 0
  microsecond : Nat := 0

def readFraction : List Char → Option (Nat × List Char)
  | '.' :: cs => (read 10 6 0 cs).or ((read 10 3 0 cs).map (fun r => (r.1 * 1000, r.2)))
  | cs => some (0, cs)

def readSeconds (clock : Clock) : List Char → Option (Clock × List Char)
  | ':' :: cs => do
      let (second, cs) ← read 10 2 0 cs
      let (microsecond, cs) ← readFraction cs
      return ({ clock with second := second, microsecond := microsecond }, cs)
  | cs => some (clock, cs)

def readMinutes (clock : Clock) : List Char → Option (Clock × List Char)
  | ':' :: cs => do
      let (minute, cs) ← read 10 2 0 cs
      readSeconds { clock with minute := minute } cs
  | cs => some (clock, cs)

/-- `HH[:MM[:SS[.fff[fff]]]]`. -/
def readClock (cs : List Char) : Option (Clock × List Char) := do
  let (hour, cs) ← read 10 2 0 cs
  readMinutes { hour := hour } cs

def UtcOffset.ofInt (n : Int) : Option UtcOffset :=
  if bounds : -86400000000 < n ∧ n < 86400000000 then some ⟨n, bounds⟩ else none

/-- An offset that reads like a time of day, up to the end of the text. -/
def readDistance (sign : Int) (cs : List Char) : Option (Option UtcOffset) := do
  let (clock, cs) ← readClock cs
  if cs = [] then
    some <$> UtcOffset.ofInt (sign * (((clock.hour * 60 + clock.minute) * 60 + clock.second) * 1000000 +
      clock.microsecond : Nat))
  else none

/-- The end of the text: an offset, or nothing. -/
def readOffset : List Char → Option (Option UtcOffset)
  | [] => some none
  | ['Z'] => some <$> UtcOffset.ofInt 0
  | '+' :: cs => readDistance 1 cs
  | '-' :: cs => readDistance (-1) cs
  | _ => none

def Civil.of (year month day : Nat) (clock : Clock) : Option Civil :=
  if h : (1 ≤ year ∧ year ≤ 9999) ∧ (1 ≤ month ∧ month ≤ 12) ∧
      (1 ≤ day ∧ day ≤ daysInMonth year month) ∧ clock.hour < 24 ∧ clock.minute < 60 ∧
      clock.second < 60 ∧ clock.microsecond < 1000000 then
    some ⟨year, month, day, clock.hour, clock.minute, clock.second, clock.microsecond, h.1, h.2.1,
      h.2.2.1, h.2.2.2.1, h.2.2.2.2.1, h.2.2.2.2.2.1, h.2.2.2.2.2.2⟩
  else none

/-- One character that must be there. -/
def expect (c : Char) : List Char → Option (List Char)
  | d :: cs => if d = c then some cs else none
  | [] => none

/-- `YYYY-MM-DD[*HH[:MM[:SS[.fff[fff]]]][+HH:MM[:SS[.ffffff]]]]`. These are the texts that
`isoformat` writes, and some more. Since version 3.11 Python also reads dates without hyphens,
week dates and other fractions of a second, which nothing here writes: they are `none`. -/
def fromisoformat (cs : List Char) : Option CivilDatetime := do
  let (year, cs) ← read 10 4 0 cs
  let cs ← expect '-' cs
  let (month, cs) ← read 10 2 0 cs
  let cs ← expect '-' cs
  let (day, cs) ← read 10 2 0 cs
  match cs with
  | [] => (fun civil => ⟨civil, none⟩) <$> Civil.of year month day { hour := 0 }
  | _ :: cs =>
      let (clock, cs) ← readClock cs
      let offset ← readOffset cs
      (fun civil => ⟨civil, offset⟩) <$> Civil.of year month day clock

end Parse

theorem daysInMonth_le (year month : Nat) : daysInMonth year month ≤ 31 := by
  unfold daysInMonth
  split
  · split <;> decide
  · split <;> decide

theorem Civil.year_lt (c : Civil) : c.year < place 10 4 := Nat.lt_succ_of_le c.year_bounds.2

theorem Civil.month_lt (c : Civil) : c.month < place 10 2 :=
  Nat.lt_of_le_of_lt c.month_bounds.2 (by decide)

theorem Civil.day_lt (c : Civil) : c.day < place 10 2 :=
  Nat.lt_of_le_of_lt (c.day_bounds.2.trans (daysInMonth_le _ _)) (by decide)

section RoundTrip

variable {rest : List Char}

theorem read_pad_ten {k n : Nat} (h : n < place 10 k) (rest : List Char) :
    read 10 k 0 (pad 10 k n ++ rest) = some (n, rest) :=
  read_pad_of_lt (by decide) (by decide) h rest

/-- The text after a clock does not go on with a fraction of a second. -/
def Ends (rest : List Char) : Prop := ∀ c cs, rest = c :: cs → c ≠ '.' ∧ c ≠ ':'

theorem readFraction_fraction {n : Nat} (h : n < 1000000) (ends : Ends rest) :
    readFraction (fraction n ++ rest) = some (n, rest) := by
  unfold fraction
  split
  · rename_i zero
    rw [List.nil_append, zero]
    unfold readFraction
    split
    · exact ((ends _ _ rfl).1 rfl).elim
    · rfl
  · rw [List.cons_append, readFraction, read_pad_ten h]
    rfl

theorem readSeconds_of_ends (clock : Clock) (ends : Ends rest) :
    readSeconds clock rest = some (clock, rest) := by
  unfold readSeconds
  split
  · exact ((ends _ _ rfl).2 rfl).elim
  · rfl

theorem readSeconds_text {clock : Clock} {s us : Nat} (hs : s < 60) (hus : us < 1000000)
    (ends : Ends rest) :
    readSeconds clock (':' :: (pad 10 2 s ++ (fraction us ++ rest))) =
      some ({ clock with second := s, microsecond := us }, rest) := by
  have bound : s < place 10 2 := Nat.lt_trans hs (by decide)
  rw [readSeconds, read_pad_ten bound]
  change (readFraction (fraction us ++ rest)).bind _ = _
  rw [readFraction_fraction hus ends]
  rfl

/-- The hour and the minute of a clock. -/
theorem readClock_text {h m : Nat} (hh : h < 100) (hm : m < 60) (cs : List Char) :
    readClock (pad 10 2 h ++ ':' :: (pad 10 2 m ++ cs)) =
      readSeconds { hour := h, minute := m } cs := by
  have bound : m < place 10 2 := Nat.lt_trans hm (by decide)
  rw [readClock, read_pad_ten hh]
  change readMinutes { hour := h } (':' :: (pad 10 2 m ++ cs)) = _
  rw [readMinutes, read_pad_ten bound]
  rfl

theorem ends_nil : Ends [] := fun _ _ impossible => (nomatch impossible)

/-- The distance of an offset is read back. -/
theorem readClock_distance {n : Nat} (h : n < 86400000000) : ∃ clock : Clock,
    readClock (distance n) = some (clock, []) ∧
      ((clock.hour * 60 + clock.minute) * 60 + clock.second) * 1000000 + clock.microsecond = n := by
  unfold distance
  rw [readClock_text (by omega) (Nat.mod_lt _ (by decide))]
  split
  · rename_i whole
    refine ⟨_, readSeconds_of_ends _ ends_nil, ?_⟩
    dsimp only
    omega
  · have whole : fraction (n % 1000000) = fraction (n % 1000000) ++ [] := (List.append_nil _).symm
    rw [whole]
    refine ⟨_, readSeconds_text (Nat.mod_lt _ (by decide)) (Nat.mod_lt _ (by decide)) ends_nil, ?_⟩
    dsimp only
    omega

theorem readDistance_distance {n : Nat} {sign : Int} {o : UtcOffset} (h : n < 86400000000)
    (same : sign * n = o.microseconds) : readDistance sign (distance n) = some (some o) := by
  obtain ⟨clock, reads, total⟩ := readClock_distance h
  rw [readDistance, reads]
  change some <$> UtcOffset.ofInt (sign * (((clock.hour * 60 + clock.minute) * 60 +
    clock.second) * 1000000 + clock.microsecond : Nat)) = _
  rw [total, same, UtcOffset.ofInt]
  rw [dif_pos o.bounds]
  rfl

theorem readOffset_offsetText (o : UtcOffset) : readOffset (offsetText o) = some (some o) := by
  have bound : o.microseconds.natAbs < 86400000000 := by
    have := o.bounds
    omega
  unfold offsetText
  split
  · have read : readDistance (-1) (distance o.microseconds.natAbs) = some (some o) :=
      readDistance_distance bound (by omega)
    exact read
  · have read : readDistance 1 (distance o.microseconds.natAbs) = some (some o) :=
      readDistance_distance bound (by omega)
    exact read

theorem Civil.of_fields (c : Civil) :
    Civil.of c.year c.month c.day ⟨c.hour, c.minute, c.second, c.microsecond⟩ = some c :=
  dif_pos ⟨c.year_bounds, c.month_bounds, c.day_bounds, c.hour_lt, c.minute_lt, c.second_lt,
    c.microsecond_lt⟩

/-- A datetime is read back from its text. -/
theorem fromisoformat_isoformat (d : CivilDatetime) : fromisoformat (isoformat d) = some d := by
  obtain ⟨c, offset⟩ := d
  have hour : c.hour < 100 := c.hour_lt.trans (by decide)
  have ends : Ends ((offset.map offsetText).getD []) := by
    cases offset with
    | none => exact ends_nil
    | some o =>
        rintro a cs text
        have first : (if o.microseconds < 0 then '-' else '+') = a := (List.cons.inj text).1
        rw [← first]
        split <;> decide
  have last : readOffset ((offset.map offsetText).getD []) = some offset := by
    cases offset with
    | none => rfl
    | some o => exact readOffset_offsetText o
  unfold isoformat stamp dateText timeText
  simp only [List.append_assoc, List.cons_append]
  unfold fromisoformat
  rw [read_pad_ten c.year_lt]
  change (read 10 2 0 (pad 10 2 c.month ++ _)).bind _ = _
  rw [read_pad_ten c.month_lt]
  change (read 10 2 0 (pad 10 2 c.day ++ _)).bind _ = _
  rw [read_pad_ten c.day_lt]
  change (readClock (pad 10 2 c.hour ++ ':' :: (pad 10 2 c.minute ++ _))).bind _ = _
  rw [readClock_text hour c.minute_lt, readSeconds_text c.second_lt c.microsecond_lt ends]
  change (readOffset _).bind _ = _
  rw [last]
  change (fun civil => (⟨civil, offset⟩ : CivilDatetime)) <$> Civil.of c.year c.month c.day
    ⟨c.hour, c.minute, c.second, c.microsecond⟩ = _
  rw [c.of_fields]
  rfl

end RoundTrip

section Order

/-- The number of the days before a year. -/
def daysBeforeYear (year : Nat) : Nat :=
  (year - 1) * 365 + (year - 1) / 4 - (year - 1) / 100 + (year - 1) / 400

/-- The number of the days of a year before a month. -/
def daysBeforeMonth (year month : Nat) : Nat :=
  [0, 31, 59, 90, 120, 151, 181, 212, 243, 273, 304, 334].getD (month - 1) 0 +
    if 2 < month ∧ leap year then 1 else 0

/-- The number of a day. -/
def Civil.ordinal (c : Civil) : Nat :=
  daysBeforeYear c.year + daysBeforeMonth c.year c.month + c.day

def Civil.secondOfDay (c : Civil) : Nat := c.hour * 3600 + c.minute * 60 + c.second

/-- The number of a second. -/
def Civil.totalSeconds (c : Civil) : Nat := c.ordinal * 86400 + c.secondOfDay

theorem daysBeforeMonth_add {year m m' : Nat} (bounds : 1 ≤ m) (later : m < m') (last : m' ≤ 12) :
    daysBeforeMonth year m + daysInMonth year m ≤ daysBeforeMonth year m' := by
  unfold daysBeforeMonth daysInMonth
  have all : ∀ b : Bool, ∀ m' ≤ 12, ∀ m < m', 1 ≤ m →
      ([0, 31, 59, 90, 120, 151, 181, 212, 243, 273, 304, 334].getD (m - 1) 0 +
        if 2 < m ∧ b then 1 else 0) + (if m = 2 then (if b then 29 else 28)
          else if m = 4 ∨ m = 6 ∨ m = 9 ∨ m = 11 then 30 else 31) ≤
      [0, 31, 59, 90, 120, 151, 181, 212, 243, 273, 304, 334].getD (m' - 1) 0 +
        if 2 < m' ∧ b then 1 else 0 := by decide
  exact all (leap year) m' last m later bounds

theorem daysBeforeYear_succ (n : Nat) : daysBeforeYear (n + 2) =
    daysBeforeYear (n + 1) + (365 + if leap (n + 1) then 1 else 0) := by
  have four : (n + 1) / 4 = n / 4 + if (n + 1) % 4 = 0 then 1 else 0 := by
    split <;> omega
  have hundred : (n + 1) / 100 = n / 100 + if (n + 1) % 100 = 0 then 1 else 0 := by
    split <;> omega
  have fourHundred : (n + 1) / 400 = n / 400 + if (n + 1) % 400 = 0 then 1 else 0 := by
    split <;> omega
  have leapDay : ((if leap (n + 1) then 1 else 0) + if (n + 1) % 100 = 0 then 1 else 0) =
      (if (n + 1) % 4 = 0 then 1 else 0) + if (n + 1) % 400 = 0 then 1 else 0 := by
    unfold leap
    simp only [decide_eq_true_eq]
    split_ifs <;> omega
  have below : n / 100 ≤ n * 365 := by omega
  have once : (if (n + 1) % 100 = 0 then 1 else 0) ≤ 1 := by split <;> decide
  unfold daysBeforeYear
  rw [show n + 2 - 1 = n + 1 from rfl, Nat.add_sub_cancel, four, hundred, fourHundred]
  generalize (if leap (n + 1) then 1 else 0) = l at leapDay ⊢
  generalize (if (n + 1) % 4 = 0 then 1 else 0) = l₄ at leapDay ⊢
  generalize (if (n + 1) % 100 = 0 then 1 else 0) = l₁ at leapDay once ⊢
  generalize (if (n + 1) % 400 = 0 then 1 else 0) = l₂ at leapDay ⊢
  generalize n / 4 = p
  generalize n / 100 = q at below ⊢
  generalize n / 400 = r
  omega

theorem daysBeforeYear_mono : Monotone daysBeforeYear := by
  refine monotone_nat_of_le_succ (fun n => ?_)
  cases n with
  | zero => exact Nat.le_refl 0
  | succ n =>
      rw [daysBeforeYear_succ]
      exact Nat.le_add_right _ _

theorem ordinal_le (c : Civil) : c.ordinal ≤ daysBeforeYear (c.year + 1) := by
  have inYear : daysBeforeMonth c.year c.month + c.day ≤ 365 + if leap c.year then 1 else 0 := by
    have all : ∀ b : Bool, ∀ m ≤ 12, 1 ≤ m →
        ([0, 31, 59, 90, 120, 151, 181, 212, 243, 273, 304, 334].getD (m - 1) 0 +
          if 2 < m ∧ b then 1 else 0) + (if m = 2 then (if b then 29 else 28)
            else if m = 4 ∨ m = 6 ∨ m = 9 ∨ m = 11 then 30 else 31) ≤
          365 + if b then 1 else 0 := by decide
    exact (Nat.add_le_add_left c.day_bounds.2 _).trans
      (all (leap c.year) c.month c.month_bounds.2 c.month_bounds.1)
  obtain ⟨n, year⟩ := Nat.exists_eq_add_of_le' c.year_bounds.1
  have next : daysBeforeYear (c.year + 1) =
      daysBeforeYear c.year + (365 + if leap c.year then 1 else 0) := by
    rw [year]
    exact daysBeforeYear_succ n
  unfold Civil.ordinal
  rw [next, Nat.add_assoc]
  exact Nat.add_le_add_left inYear _

/-- Days are numbered in the order of their dates. -/
theorem ordinal_lt_iff (a b : Civil) : a.ordinal < b.ordinal ↔
    a.year < b.year ∨ a.year = b.year ∧ (a.month < b.month ∨ a.month = b.month ∧ a.day < b.day) := by
  have earlier : ∀ a b : Civil, a.year < b.year → a.ordinal < b.ordinal := by
    intro a b less
    have le := (ordinal_le a).trans (daysBeforeYear_mono (Nat.succ_le_of_lt less))
    have day := b.day_bounds.1
    unfold Civil.ordinal at le ⊢
    omega
  have months : ∀ a b : Civil, a.year = b.year → a.month < b.month → a.ordinal < b.ordinal := by
    intro a b same less
    have le := @daysBeforeMonth_add a.year _ _ a.month_bounds.1 less b.month_bounds.2
    have day := b.day_bounds.1
    have last := a.day_bounds.2
    unfold Civil.ordinal
    rw [← same]
    omega
  have days : ∀ a b : Civil, a.year = b.year → a.month = b.month →
      (a.ordinal < b.ordinal ↔ a.day < b.day) := by
    intro a b same same'
    unfold Civil.ordinal
    rw [same, same']
    omega
  rcases Nat.lt_trichotomy a.year b.year with lt | eq | gt
  · exact ⟨fun _ => .inl lt, fun _ => earlier a b lt⟩
  · rcases Nat.lt_trichotomy a.month b.month with lt | eq' | gt
    · exact ⟨fun _ => .inr ⟨eq, .inl lt⟩, fun _ => months a b eq lt⟩
    · rw [days a b eq eq']
      omega
    · have := months b a eq.symm gt
      omega
  · have := earlier b a gt
    omega

/-- Fields of a fixed width, with a separator behind them. -/
theorem field_lt_iff {k m n : Nat} (hm : m < place 10 k) (hn : n < place 10 k) (c : Char)
    (xs ys : List Char) :
    pad 10 k m ++ c :: xs < pad 10 k n ++ c :: ys ↔ m < n ∨ m = n ∧ xs < ys := by
  rw [append_lt_append_iff (by rw [length_pad, length_pad]),
    pad_lt_pad_of_lt (by decide) (by decide) hm hn,
    pad_inj_of_lt (by decide) (by decide) hm hn, List.cons_lt_cons_iff]
  simp only [Char.lt_irrefl, true_and, false_or]

theorem dateText_lt_iff (a b : Civil) : dateText a < dateText b ↔ a.ordinal < b.ordinal := by
  unfold dateText
  rw [field_lt_iff a.year_lt b.year_lt, field_lt_iff a.month_lt b.month_lt,
    pad_lt_pad_of_lt (by decide) (by decide) a.day_lt b.day_lt, ordinal_lt_iff]

theorem timeText_lt_iff (a b : Civil) :
    timeText a < timeText b ↔ a.secondOfDay < b.secondOfDay := by
  have wide : ∀ {n}, n < 60 → n < place 10 2 := fun h => Nat.lt_trans h (by decide)
  have minute := a.minute_lt
  have minute' := b.minute_lt
  have second := a.second_lt
  have second' := b.second_lt
  unfold timeText Civil.secondOfDay
  rw [field_lt_iff (wide (a.hour_lt.trans (by decide))) (wide (b.hour_lt.trans (by decide))),
    field_lt_iff (wide minute) (wide minute'),
    pad_lt_pad_of_lt (by decide) (by decide) (wide second) (wide second')]
  omega

theorem secondOfDay_lt (c : Civil) : c.secondOfDay < 86400 := by
  have hour := c.hour_lt
  have minute := c.minute_lt
  have second := c.second_lt
  unfold Civil.secondOfDay
  omega

/-- The texts up to the second are ordered like the seconds. -/
theorem stamp_lt_iff (a b : Civil) : stamp a < stamp b ↔ a.totalSeconds < b.totalSeconds := by
  have length : ∀ c : Civil, (dateText c).length = 10 := fun c => by
    simp [dateText]
  have same : dateText a = dateText b ↔ a.ordinal = b.ordinal := by
    have less := dateText_lt_iff a b
    have more := dateText_lt_iff b a
    constructor
    · intro eq
      have never : ¬ dateText b < dateText b :=
        fun lt => Nat.lt_irrefl _ ((dateText_lt_iff b b).mp lt)
      rw [eq] at less more
      exact Nat.le_antisymm (Nat.not_lt.mp (mt more.mpr never)) (Nat.not_lt.mp (mt less.mpr never))
    · intro eq
      have year := mt (ordinal_lt_iff a b).mpr (by omega)
      have year' := mt (ordinal_lt_iff b a).mpr (by omega)
      have fields : a.year = b.year ∧ a.month = b.month ∧ a.day = b.day := by omega
      rw [dateText, fields.1, fields.2.1, fields.2.2]
      rfl
  have ha := secondOfDay_lt a
  have hb := secondOfDay_lt b
  unfold stamp Civil.totalSeconds
  rw [append_lt_append_iff ((length a).trans (length b).symm), List.cons_lt_cons_iff,
    dateText_lt_iff, same, timeText_lt_iff]
  simp only [Char.lt_irrefl, true_and, false_or]
  omega

end Order

end Calendar
