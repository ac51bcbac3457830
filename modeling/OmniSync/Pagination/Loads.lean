import OmniSync.Data.Digits
import OmniSync.RawPayloads.Canonical

/-!
# Reading JSON

`json.loads`, which reads one value with white space around its tokens. The escape of a
surrogate that is not part of a pair denotes no character and is rejected; a float keeps the
text of its number. A dictionary of plain strings is read back from its text.
-/

namespace OmniSync

namespace Json

/-- White space. -/
def blank (c : Char) : Bool := c = ' ' || c = '\t' || c = '\n' || c = '\r'

def skip (cs : List Char) : List Char := cs.dropWhile blank

section Strings

/-- A code unit behind `\\u`, and the one of its pair if it is the first one of a pair. -/
def readEscaped (cs : List Char) : Option (Char × List Char) := do
  let (high, cs) ← Digits.read 16 4 0 cs
  if 55296 ≤ high ∧ high < 56320 then
    match cs with
    | '\\' :: 'u' :: cs =>
        let (low, cs) ← Digits.read 16 4 0 cs
        if 56320 ≤ low ∧ low < 57344 then
          return (Char.ofNat (65536 + (high - 55296) * 1024 + (low - 56320)), cs)
        else none
    | _ => none
  else if 56320 ≤ high ∧ high < 57344 then none
  else return (Char.ofNat high, cs)

/-- The character of a short escape. -/
def escaped (d : Char) : Option Char :=
  if d = '"' ∨ d = '\\' ∨ d = '/' then some d
  else if d = 'b' ∨ d = 'f' ∨ d = 'n' ∨ d = 'r' ∨ d = 't' then some (shortUnescape d)
  else none

/-- One character of a string. Control characters have to be escaped. -/
def readChar : List Char → Option (Char × List Char)
  | [] => none
  | c :: cs =>
      if c = '\\' then
        match cs with
        | [] => none
        | d :: cs => if d = 'u' then readEscaped cs else (escaped d).map (fun c => (c, cs))
      else if c.toNat < 32 then none
      else some (c, cs)

/-- The rest of a string. -/
def readString : Nat → List Char → Option (List Char × List Char)
  | 0, _ => none
  | fuel + 1, cs =>
      match cs with
      | '"' :: cs => some ([], cs)
      | cs => do
          let (c, cs) ← readChar cs
          let (text, cs) ← readString fuel cs
          return (c :: text, cs)

end Strings

section Numbers

def readFraction : List Char → List Char
  | '.' :: cs => if cs.takeWhile Char.isDigit = [] then [] else '.' :: cs.takeWhile Char.isDigit
  | _ => []

def readExponent : List Char → List Char
  | e :: cs =>
      if e = 'e' ∨ e = 'E' then
        let sign := match cs with
          | '+' :: _ => ['+']
          | '-' :: _ => ['-']
          | _ => []
        let digits := (cs.drop sign.length).takeWhile Char.isDigit
        if digits = [] then [] else e :: (sign ++ digits)
      else []
  | [] => []

/-- A number, or none of the constants. -/
def readNumber (cs : List Char) : Option (Json × List Char) :=
  let sign := match cs with
    | '-' :: _ => ['-']
    | _ => []
  let whole := match cs.drop sign.length with
    | '0' :: _ => ['0']
    | cs => cs.takeWhile Char.isDigit
  if whole = [] then none
  else
    let fraction := readFraction (cs.drop (sign ++ whole).length)
    let exponent := readExponent (cs.drop (sign ++ whole ++ fraction).length)
    let text := sign ++ whole ++ fraction ++ exponent
    let value := (unsigned whole).getD 0
    some (if fraction = [] ∧ exponent = [] then .int (if sign = [] then value else -value)
      else .float (String.ofList text), cs.drop text.length)

end Numbers

/-- The names of constants, and what they denote. -/
def constants : List (List Char × Json) :=
  [("null".toList, .null), ("true".toList, .bool true), ("false".toList, .bool false),
    ("NaN".toList, .float "nan"), ("Infinity".toList, .float "inf"),
    ("-Infinity".toList, .float "-inf")]

/-- A constant or a number. -/
def readScalar (cs : List Char) : Option (Json × List Char) :=
  match constants.find? (fun constant => constant.1.isPrefixOf cs) with
  | some constant => some (constant.2, cs.drop constant.1.length)
  | none => readNumber cs

section Values

variable (one : List Char → Option (Json × List Char))

/-- The rest of a list that is not empty. -/
def readItems : Nat → List Char → Option (List Json × List Char)
  | 0, _ => none
  | fuel + 1, cs => do
      let (item, cs) ← one (skip cs)
      match skip cs with
      | ']' :: cs => return ([item], cs)
      | ',' :: cs =>
          let (items, cs) ← readItems fuel cs
          return (item :: items, cs)
      | _ => none

/-- A key with its value. -/
def readField (cs : List Char) : Option ((String × Json) × List Char) :=
  match skip cs with
  | '"' :: cs => do
      let (name, cs) ← readString (cs.length + 1) cs
      match skip cs with
      | ':' :: cs =>
          let (value, cs) ← one (skip cs)
          return ((String.ofList name, value), cs)
      | _ => none
  | _ => none

/-- The rest of a dictionary that is not empty. -/
def readFields : Nat → List Char → Option (List (String × Json) × List Char)
  | 0, _ => none
  | fuel + 1, cs => do
      let (field, cs) ← readField one cs
      match skip cs with
      | '}' :: cs => return ([field], cs)
      | ',' :: cs =>
          let (fields, cs) ← readFields fuel cs
          return (field :: fields, cs)
      | _ => none

end Values

/-- One value. -/
def readValue : Nat → List Char → Option (Json × List Char)
  | 0, _ => none
  | fuel + 1, cs =>
      match cs with
      | '"' :: cs => (readString (cs.length + 1) cs).map (fun r => (.str (String.ofList r.1), r.2))
      | '[' :: cs =>
          match skip cs with
          | ']' :: cs => some (.arr [], cs)
          | cs => (readItems (readValue fuel) (cs.length + 1) cs).map (fun r => (.arr r.1, r.2))
      | '{' :: cs =>
          match skip cs with
          | '}' :: cs => some (.obj [], cs)
          | cs => (readFields (readValue fuel) (cs.length + 1) cs).map (fun r => (.obj r.1, r.2))
      | cs => readScalar cs

/-- `json.loads` of a text. -/
def loads (text : List Char) : Option Json := do
  let (value, cs) ← readValue (text.length + 1) (skip text)
  if skip cs = [] then return value else none

section Strings

/-- The digits of a unit are read back. -/
theorem read_unit {n : Nat} (h : n < 65536) (s : List Char) :
    Digits.read 16 4 0 (hexDigit (n / 4096) :: hexDigit (n / 256 % 16) ::
      hexDigit (n / 16 % 16) :: hexDigit (n % 16) :: s) = some (n, s) := by
  have digits : hexDigit (n / 4096) :: hexDigit (n / 256 % 16) :: hexDigit (n / 16 % 16) ::
      hexDigit (n % 16) :: s = Digits.pad 16 4 n ++ s := by
    have top : n / 4096 % 16 = n / 4096 := Nat.mod_eq_of_lt (by omega)
    have first : hexDigit (n / 4096) = Digits.digit (n / 4096 % 16) := by rw [top]; rfl
    have last : hexDigit (n % 16) = Digits.digit (n / 1 % 16) := by rw [Nat.div_one]; rfl
    rw [first, last]
    rfl
  rw [digits, Digits.read_pad_of_lt (by decide) (by decide) h]

/-- A unit that is no surrogate is a character. -/
theorem readChar_unit {n : Nat} (h : n < 55296 ∨ 57344 ≤ n ∧ n < 65536) (s : List Char) :
    readChar (unit n ++ s) = some (Char.ofNat n, s) := by
  change readEscaped (hexDigit (n / 4096) :: hexDigit (n / 256 % 16) :: hexDigit (n / 16 % 16) ::
    hexDigit (n % 16) :: s) = _
  rw [readEscaped, read_unit (by omega)]
  change (if _ then _ else _) = _
  rw [if_neg (by omega), if_neg (by omega)]
  rfl

/-- A pair of surrogates is a character. -/
theorem readChar_pair {m n : Nat} (high : 55296 ≤ m ∧ m < 56320) (low : 56320 ≤ n ∧ n < 57344)
    (s : List Char) : readChar (unit m ++ (unit n ++ s)) =
      some (Char.ofNat (65536 + (m - 55296) * 1024 + (n - 56320)), s) := by
  change readEscaped (hexDigit (m / 4096) :: hexDigit (m / 256 % 16) :: hexDigit (m / 16 % 16) ::
    hexDigit (m % 16) :: '\\' :: 'u' :: hexDigit (n / 4096) :: hexDigit (n / 256 % 16) ::
      hexDigit (n / 16 % 16) :: hexDigit (n % 16) :: s) = _
  rw [readEscaped, read_unit (by omega)]
  change (if _ then (Digits.read 16 4 0 (hexDigit (n / 4096) :: hexDigit (n / 256 % 16) ::
    hexDigit (n / 16 % 16) :: hexDigit (n % 16) :: s)).bind _ else _) = _
  rw [if_pos high, read_unit (by omega)]
  exact if_pos low

/-- What was escaped is read as one character. -/
theorem readChar_escape (c : Char) (s : List Char) : readChar (escape c ++ s) = some (c, s) := by
  have valid : c.toNat < 55296 ∨ 57343 < c.toNat ∧ c.toNat < 1114112 := c.valid
  unfold escape
  cases short : shortEscape c with
  | some d =>
      obtain ⟨other, back⟩ := shortEscape_some short
      have letter : escaped d = some c := by
        rw [← back]
        unfold shortEscape at short
        repeat' split at short
        all_goals cases short
        all_goals rfl
      change (if d = 'u' then _ else (escaped d).map (fun c => (c, s))) = _
      rw [if_neg other, letter]
      rfl
  | none =>
      obtain ⟨_, other⟩ := shortEscape_none short
      dsimp only
      split
      · rename_i printable
        change (if c = '\\' then _ else if c.toNat < 32 then none else some (c, s)) = _
        rw [if_neg other, if_neg (by omega)]
      split
      · rw [readChar_unit (by omega), Char.ofNat_toNat]
      · have sum : 65536 + (55296 + (c.toNat - 65536) / 1024 - 55296) * 1024 +
            (56320 + (c.toNat - 65536) % 1024 - 56320) = c.toNat := by omega
        rw [List.append_assoc, readChar_pair (by omega) (by omega), sum, Char.ofNat_toNat]

/-- A string is read up to its closing quote. -/
theorem readString_escape (text rest : List Char) {fuel : Nat} (enough : text.length < fuel) :
    readString fuel (text.flatMap escape ++ '"' :: rest) = some (text, rest) := by
  induction text generalizing fuel with
  | nil =>
      obtain ⟨fuel, rfl⟩ := Nat.exists_eq_add_of_lt enough
      rfl
  | cons c text ih =>
      obtain ⟨n, rfl⟩ := Nat.exists_eq_add_of_lt (Nat.zero_lt_of_lt enough)
      rw [List.flatMap_cons, List.append_assoc]
      obtain ⟨d, tail, starts, other⟩ := escape_starts c (text.flatMap escape ++ '"' :: rest)
      have char := readChar_escape c (text.flatMap escape ++ '"' :: rest)
      rw [starts] at char ⊢
      have step : readString (0 + n + 1) (d :: tail) = (readChar (d :: tail)).bind (fun r =>
          (readString (0 + n) r.2).bind (fun r' => some (r.1 :: r'.1, r'.2))) := by
        rw [readString]
        · rfl
        · rintro _ quote
          exact other (List.cons.inj quote).1
      rw [step, char, Option.bind_some, ih (by rw [List.length_cons] at enough; omega)]
      rfl

theorem length_le_flatMap_escape (text : List Char) :
    text.length ≤ (text.flatMap escape).length := by
  induction text with
  | nil => exact Nat.le_refl 0
  | cons c text ih =>
      have one : 1 ≤ (escape c).length := by
        obtain ⟨d, rest, starts, _⟩ := escape_starts c []
        rw [List.append_nil] at starts
        rw [starts]
        exact Nat.succ_le_succ (Nat.zero_le _)
      rw [List.flatMap_cons, List.length_append, List.length_cons]
      omega

/-- A string in quotes is read as a value. -/
theorem readValue_encodeString (text : String) (rest : List Char) (fuel : Nat) :
    readValue (fuel + 1) (encodeString text ++ rest) = some (.str text, rest) := by
  have length := length_le_flatMap_escape text.toList
  unfold encodeString
  rw [List.cons_append, List.append_assoc, readValue, List.singleton_append,
    readString_escape _ _ (by rw [List.length_append]; omega), Option.map_some,
    String.ofList_toList]

end Strings

/-- `data[name]`, where the last one of several equal keys counts. -/
def item (data : Json) (name : String) : Option Json :=
  match data with
  | .obj fields => (fields.reverse.find? (fun field => field.1 = name)).map Prod.snd
  | _ => none

section Dictionaries

/-- `json.dumps` of a field that holds a string, with the default separators. -/
def fieldText (field : String × String) : List Char :=
  encodeString field.1 ++ ':' :: ' ' :: encodeString field.2

/-- The rest of a dictionary of strings. -/
def fieldTexts (field : String × String) : List (String × String) → List Char
  | [] => fieldText field ++ ['}']
  | next :: fields => fieldText field ++ ',' :: ' ' :: fieldTexts next fields

def ofField (field : String × String) : String × Json := (field.1, .str field.2)

theorem skip_encodeString (text : String) (rest : List Char) :
    skip (encodeString text ++ rest) = encodeString text ++ rest := rfl

theorem readField_fieldText (field : String × String) (rest : List Char) (fuel : Nat) :
    readField (readValue (fuel + 1)) (fieldText field ++ rest) = some (ofField field, rest) := by
  have length := length_le_flatMap_escape field.1.toList
  have value := readValue_encodeString field.2 rest fuel
  unfold fieldText
  rw [List.append_assoc, readField, skip_encodeString]
  unfold encodeString
  rw [List.cons_append, List.append_assoc]
  change (readString _ (field.1.toList.flatMap escape ++ '"' :: _)).bind _ = _
  rw [readString_escape _ _ (by rw [List.length_append]; omega)]
  change (readValue (fuel + 1) (skip (encodeString field.2 ++ rest))).bind _ = _
  rw [skip_encodeString, value]
  change some ((String.ofList field.1.toList, Json.str field.2), rest) = _
  rw [String.ofList_toList]
  rfl

/-- A dictionary of strings is read back. -/
theorem readFields_fieldTexts (field : String × String) (fields : List (String × String))
    {fuel n : Nat} (enough : fields.length < n) (rest : List Char) :
    readFields (readValue (fuel + 1)) n (fieldTexts field fields ++ rest) =
      some ((field :: fields).map ofField, rest) := by
  induction fields generalizing field n with
  | nil =>
      obtain ⟨n, rfl⟩ := Nat.exists_eq_add_of_lt enough
      rw [fieldTexts, List.append_assoc, readFields, readField_fieldText]
      rfl
  | cons next fields ih =>
      obtain ⟨n, rfl⟩ := Nat.exists_eq_add_of_lt (Nat.zero_lt_of_lt enough)
      have space : ∀ cs, readFields (readValue (fuel + 1)) (0 + n) (' ' :: cs) =
          readFields (readValue (fuel + 1)) (0 + n) cs := by
        intro cs
        cases n <;> rfl
      rw [fieldTexts, List.append_assoc, readFields, readField_fieldText]
      change (readFields (readValue (fuel + 1)) (0 + n) (' ' :: (fieldTexts next fields ++ rest))).bind
        _ = _
      rw [space, ih next (by rw [List.length_cons] at enough; omega)]
      rfl

theorem length_lt_fieldTexts (field : String × String) (fields : List (String × String)) :
    fields.length < (fieldTexts field fields).length := by
  induction fields generalizing field with
  | nil => exact Nat.succ_pos _
  | cons next fields ih =>
      have := ih next
      rw [fieldTexts, List.length_append, List.length_cons, List.length_cons, List.length_cons]
      omega

theorem loads_fieldTexts (field : String × String) (fields : List (String × String)) :
    loads ('{' :: fieldTexts field fields) = some (.obj ((field :: fields).map ofField)) := by
  have starts : ∃ cs, fieldTexts field fields = '"' :: cs := by
    cases fields <;> exact ⟨_, rfl⟩
  obtain ⟨cs, text⟩ := starts
  have enough := Nat.lt_succ_of_lt (length_lt_fieldTexts field fields)
  have reads := @readFields_fieldTexts field fields (cs.length + 1) _ enough []
  rw [List.append_nil, text] at reads
  rw [text, loads]
  change ((readFields (readValue (cs.length + 1 + 1)) _ ('"' :: cs)).map _).bind _ = _
  rw [reads]
  rfl

end Dictionaries

end Json

end OmniSync
