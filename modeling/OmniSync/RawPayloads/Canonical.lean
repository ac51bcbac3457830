import OmniSync.Data.Code
import OmniSync.Schema
import Mathlib.Data.List.Sort
import Mathlib.Data.Nat.Digits.Defs

/-!
# The canonical JSON of a value

`json.dumps` with `default=str`, `sort_keys` and the shortest separators, and what it says
about the value: two values have the same canonical JSON if and only if they are equal as
dictionaries once `json` has coerced them, `Json.canonical_eq_iff`.
-/

namespace OmniSync

namespace Json

section Text

/-- One of the sixteen lower-case hexadecimal digits. -/
def hexDigit (n : Nat) : Char := if n < 10 then Char.ofNat (48 + n) else Char.ofNat (87 + n)

def hexValue (c : Char) : Nat := if c.toNat < 58 then c.toNat - 48 else c.toNat - 87

/-- `\\u` and the four digits of a UTF-16 unit. -/
def unit (n : Nat) : List Char :=
  ['\\', 'u', hexDigit (n / 4096), hexDigit (n / 256 % 16), hexDigit (n / 16 % 16),
    hexDigit (n % 16)]

/-- The letter that stands for a character after a backslash. -/
def shortEscape (c : Char) : Option Char :=
  if c = '"' then some '"'
  else if c = '\\' then some '\\'
  else if c = '\n' then some 'n'
  else if c = '\r' then some 'r'
  else if c = '\t' then some 't'
  else if c.toNat = 12 then some 'f'
  else if c.toNat = 8 then some 'b'
  else none

/-- A character in a string of ASCII characters. -/
def escape (c : Char) : List Char :=
  match shortEscape c with
  | some d => ['\\', d]
  | none =>
      if 32 ≤ c.toNat ∧ c.toNat ≤ 126 then [c]
      else if c.toNat < 65536 then unit c.toNat
      else unit (55296 + (c.toNat - 65536) / 1024) ++ unit (56320 + (c.toNat - 65536) % 1024)

def encodeString (text : String) : List Char := '"' :: (text.toList.flatMap escape ++ ['"'])

/-- Read one unit. -/
def readUnit : List Char → Option (Nat × List Char)
  | '\\' :: 'u' :: a :: b :: c :: d :: rest =>
      some (((hexValue a * 16 + hexValue b) * 16 + hexValue c) * 16 + hexValue d, rest)
  | _ => none

/-- Read the character of one unit or of two. -/
def readUnits (cs : List Char) : Option (Char × List Char) :=
  (readUnit cs).bind (fun high =>
    if 55296 ≤ high.1 ∧ high.1 < 57344 then
      (readUnit high.2).map (fun low =>
        (Char.ofNat (65536 + (high.1 - 55296) * 1024 + (low.1 - 56320)), low.2))
    else some (Char.ofNat high.1, high.2))

/-- The character for which a letter stands after a backslash. -/
def shortUnescape (d : Char) : Char :=
  if d = 'n' then '\n'
  else if d = 'r' then '\r'
  else if d = 't' then '\t'
  else if d = 'f' then Char.ofNat 12
  else if d = 'b' then Char.ofNat 8
  else d

/-- Read one character. -/
def unescape : List Char → Option (Char × List Char)
  | [] => none
  | c :: rest =>
      if c = '\\' then
        match rest with
        | [] => none
        | d :: behind =>
            if d = 'u' then readUnits (c :: rest) else some (shortUnescape d, behind)
      else some (c, rest)

theorem hexValue_hexDigit {n : Nat} (h : n < 16) : hexValue (hexDigit n) = n := by
  have all : ∀ n < 16, hexValue (hexDigit n) = n := by decide
  exact all n h

theorem readUnit_unit {n : Nat} (h : n < 65536) (s : List Char) :
    readUnit (unit n ++ s) = some (n, s) := by
  change some _ = _
  rw [hexValue_hexDigit (by omega), hexValue_hexDigit (Nat.mod_lt _ (by omega)),
    hexValue_hexDigit (Nat.mod_lt _ (by omega)), hexValue_hexDigit (Nat.mod_lt _ (by omega))]
  congr 2
  omega

theorem shortEscape_some {c d : Char} (h : shortEscape c = some d) :
    d ≠ 'u' ∧ shortUnescape d = c := by
  unfold shortEscape at h
  have toNat : ∀ n, c.toNat = n → Char.ofNat n = c := fun n same => same ▸ Char.ofNat_toNat c
  repeat' split at h
  all_goals cases h
  all_goals rename_i same
  all_goals first
    | exact ⟨by decide, same.symm⟩
    | exact ⟨by decide, toNat _ same⟩

theorem shortEscape_none {c : Char} (h : shortEscape c = none) : c ≠ '"' ∧ c ≠ '\\' := by
  constructor
  · rintro rfl
    cases h
  · rintro rfl
    cases h

theorem unescape_escape (c : Char) (s : List Char) : unescape (escape c ++ s) = some (c, s) := by
  have valid : c.toNat < 55296 ∨ 57343 < c.toNat ∧ c.toNat < 1114112 := c.valid
  have unescaped : ∀ n s, unescape (unit n ++ s) = readUnits (unit n ++ s) := fun _ _ => rfl
  unfold escape
  cases short : shortEscape c with
  | some d =>
      obtain ⟨other, back⟩ := shortEscape_some short
      change (if d = 'u' then _ else some (shortUnescape d, s)) = _
      rw [if_neg other, back]
  | none =>
      obtain ⟨_, other⟩ := shortEscape_none short
      dsimp only
      split
      · exact if_neg other
      split
      · rename_i small
        rw [unescaped, readUnits, readUnit_unit small, Option.bind_some, if_neg, Char.ofNat_toNat]
        dsimp only
        omega
      · rw [List.append_assoc, unescaped, readUnits, readUnit_unit (by omega), Option.bind_some,
          if_pos (by dsimp only; omega), readUnit_unit (by omega), Option.map_some]
        have sum : 65536 + (55296 + (c.toNat - 65536) / 1024 - 55296) * 1024 +
            (56320 + (c.toNat - 65536) % 1024 - 56320) = c.toNat := by omega
        dsimp only
        rw [sum, Char.ofNat_toNat]

theorem escape_starts (c : Char) (s : List Char) :
    ∃ d rest, escape c ++ s = d :: rest ∧ d ≠ '"' := by
  unfold escape
  cases short : shortEscape c with
  | some d => exact ⟨_, _, rfl, by decide⟩
  | none =>
      dsimp only
      split
      · exact ⟨_, _, rfl, (shortEscape_none short).1⟩
      split
      · exact ⟨_, _, rfl, by decide⟩
      · exact ⟨_, _, rfl, by decide⟩

/-- A string in quotes can be read back, whatever follows. -/
theorem reads_encodeString (text : String) :
    Reads (fun _ => True) (fun _ => True) encodeString text := by
  intro text' _ s t _ _ same
  have chars := Reads.terminated (Reads.of_decode unescape_escape) escape_starts text.toList
  obtain ⟨same, behind⟩ := chars text'.toList trivial s t trivial trivial (List.cons.inj same).2
  exact ⟨String.toList_inj.mp same, behind⟩

end Text

mutual

/-- `json.dumps`, with the separators `,` and `:`. -/
def dumps : Json → List Char
  | .null => "null".toList
  | .bool b => (if b then "true" else "false").toList
  | .int n => (toString n).toList
  | .float repr => repr.toList
  | .str text => encodeString text
  | .arr items => '[' :: dumpsItems true items
  | .obj fields => '{' :: dumpsFields true fields
  | .other text _ => encodeString text

def dumpsItems : Bool → List Json → List Char
  | _, [] => [']']
  | first, x :: xs => (if first then [] else [',']) ++ (x.dumps ++ dumpsItems false xs)

def dumpsFields : Bool → List (String × Json) → List Char
  | _, [] => ['}']
  | first, f :: fs =>
      (if first then [] else [',']) ++
        (encodeString f.1 ++ ':' :: f.2.dumps ++ dumpsFields false fs)

end

mutual

/-- The value with everything that `json` does not know replaced by its `str`. -/
def coerce : Json → Json
  | .arr items => .arr (coerceItems items)
  | .obj fields => .obj (coerceFields fields)
  | .other text _ => .str text
  | j => j

def coerceItems : List Json → List Json
  | [] => []
  | x :: xs => x.coerce :: coerceItems xs

def coerceFields : List (String × Json) → List (String × Json)
  | [] => []
  | f :: fs => (f.1, f.2.coerce) :: coerceFields fs

end

mutual

/-- The value with the keys of every dictionary in order. -/
def sorted : Json → Json
  | .arr items => .arr (sortedItems items)
  | .obj fields => .obj ((sortedFields fields).insertionSort (fun f g => f.1 ≤ g.1))
  | j => j

def sortedItems : List Json → List Json
  | [] => []
  | x :: xs => x.sorted :: sortedItems xs

def sortedFields : List (String × Json) → List (String × Json)
  | [] => []
  | f :: fs => (f.1, f.2.sorted) :: sortedFields fs

end

/-- The text of a value, whatever the order of the keys was. -/
def canonical (j : Json) : String := String.ofList j.coerce.sorted.dumps

/-- The same up to the order of the keys of dictionaries. -/
def Equal (j k : Json) : Prop := j.sorted = k.sorted

section Leaves

/-- Not a list and not a dictionary. -/
def isLeaf : Json → Bool
  | .arr _ => false
  | .obj _ => false
  | _ => true

/-- Every leaf of the value is as `ok` says. -/
inductive Leaves (ok : Json → Prop) : Json → Prop where
  | leaf {j : Json} (leaf : j.isLeaf = true) (holds : ok j) : Leaves ok j
  | arr {items : List Json} (each : ∀ x ∈ items, Leaves ok x) : Leaves ok (.arr items)
  | obj {fields : List (String × Json)} (each : ∀ f ∈ fields, Leaves ok f.2) :
      Leaves ok (.obj fields)

/-- The characters of a number. -/
def numeric (c : Char) : Bool :=
  c.isDigit || decide (c = '-') || decide (c = '+') || decide (c = '.') || decide (c = 'e')

/-- The `repr` of a finite float. -/
structure FiniteRepr (repr : String) : Prop where
  numeric : ∀ c ∈ repr.toList, Json.numeric c = true
  point : '.' ∈ repr.toList ∨ 'e' ∈ repr.toList

/-- A finite scalar, or a value that `json` coerces. -/
def serializableLeaf (j : Json) : Prop := ∀ repr, j = .float repr → FiniteRepr repr

/-- `json` can write the value, and read it back. -/
def Serializable : Json → Prop := Leaves serializableLeaf

/-- A value as `json` reads it. -/
def Plain : Json → Prop := Leaves (fun j => serializableLeaf j ∧ ∀ text t, j ≠ .other text t)

end Leaves

section Fields

theorem coerceItems_eq (items : List Json) : coerceItems items = items.map coerce := by
  induction items with
  | nil => rfl
  | cons x xs ih => rw [coerceItems, ih, List.map_cons]

theorem coerceFields_eq (fields : List (String × Json)) :
    coerceFields fields = fields.map (fun f => (f.1, f.2.coerce)) := by
  induction fields with
  | nil => rfl
  | cons f fs ih => rw [coerceFields, ih, List.map_cons]

theorem sortedItems_eq (items : List Json) : sortedItems items = items.map sorted := by
  induction items with
  | nil => rfl
  | cons x xs ih => rw [sortedItems, ih, List.map_cons]

theorem sortedFields_eq (fields : List (String × Json)) :
    sortedFields fields = fields.map (fun f => (f.1, f.2.sorted)) := by
  induction fields with
  | nil => rfl
  | cons f fs ih => rw [sortedFields, ih, List.map_cons]

theorem dumpsItems_eq (first : Bool) (items : List Json) :
    dumpsItems first items = separated ',' ']' dumps first items := by
  induction items generalizing first with
  | nil => rfl
  | cons x xs ih => rw [dumpsItems, ih, separated]

/-- One item of a dictionary. -/
def dumpsField (f : String × Json) : List Char := encodeString f.1 ++ ':' :: f.2.dumps

theorem dumpsFields_eq (first : Bool) (fields : List (String × Json)) :
    dumpsFields first fields = separated ',' '}' dumpsField first fields := by
  induction fields generalizing first with
  | nil => rfl
  | cons f fs ih => rw [dumpsFields, ih, separated, dumpsField]

theorem Serializable.coerce {j : Json} (h : j.Serializable) : j.coerce.Plain := by
  induction h with
  | @leaf j leaf holds =>
      cases j with
      | arr items => cases leaf
      | obj fields => cases leaf
      | other text t => exact .leaf rfl ⟨fun _ => nofun, fun _ _ => nofun⟩
      | _ => exact .leaf rfl ⟨holds, fun _ _ => nofun⟩
  | arr each ih =>
      rw [Json.coerce, coerceItems_eq]
      exact .arr (List.forall_mem_map.mpr ih)
  | obj each ih =>
      rw [Json.coerce, coerceFields_eq]
      exact .obj (List.forall_mem_map.mpr ih)

theorem Plain.sorted {j : Json} (h : j.Plain) : j.sorted.Plain := by
  induction h with
  | @leaf j leaf holds =>
      cases j with
      | arr items => cases leaf
      | obj fields => cases leaf
      | _ => exact .leaf rfl holds
  | arr each ih =>
      rw [Json.sorted, sortedItems_eq]
      exact .arr (List.forall_mem_map.mpr ih)
  | obj each ih =>
      rw [Json.sorted, sortedFields_eq]
      refine .obj (fun f hf => ?_)
      rw [List.mem_insertionSort] at hf
      obtain ⟨g, hg, rfl⟩ := List.mem_map.mp hf
      exact ih g hg

end Fields

section Injective

/-- What the first character of the text says about a value. -/
def kind : Json → Char
  | .null => 'n'
  | .bool _ => 'b'
  | .int _ => '0'
  | .float _ => '0'
  | .str _ => '"'
  | .arr _ => '['
  | .obj _ => '{'
  | .other _ _ => '"'

def kindOf (c : Char) : Char :=
  if numeric c then '0' else if c = 't' ∨ c = 'f' then 'b' else c

theorem numeric_of_isDigit {c : Char} (h : c.isDigit = true) : numeric c = true := by
  simp [numeric, h]

theorem numeric_toString (n : Int) : ∀ c ∈ (toString n).toList, numeric c = true := by
  intro c hc
  obtain ⟨m, ⟨_, text⟩ | ⟨_, _, text⟩⟩ := int_toString_toList n
  · rw [text] at hc
    exact numeric_of_isDigit (isDigit_of_mem_toString hc)
  · rw [text] at hc
    rcases List.mem_cons.mp hc with rfl | digit
    · rfl
    · exact numeric_of_isDigit (isDigit_of_mem_toString digit)

theorem toString_ne_nil (n : Int) : (toString n).toList ≠ [] := by
  obtain ⟨m, ⟨_, text⟩ | ⟨_, _, text⟩⟩ := int_toString_toList n
  · rw [text]
    exact toString_toList_ne_nil m
  · rw [text]
    exact List.cons_ne_nil _ _

/-- The text of a number. -/
structure NumberText (j : Json) : Prop where
  kind : j.kind = '0'
  numeric : ∀ c ∈ j.dumps, numeric c = true
  nonempty : j.dumps ≠ []

theorem numberText_int (n : Int) : (Json.int n).NumberText :=
  ⟨rfl, numeric_toString n, toString_ne_nil n⟩

theorem numberText_float {repr : String} (finite : FiniteRepr repr) :
    (Json.float repr).NumberText := by
  refine ⟨rfl, finite.numeric, ?_⟩
  intro empty
  have empty : repr.toList = [] := empty
  rcases finite.point with dot | exponent
  · rw [empty] at dot
    cases dot
  · rw [empty] at exponent
    cases exponent

theorem Plain.number {j : Json} (h : j.Plain) (kind : j.kind = '0') : j.NumberText := by
  cases h with
  | arr each => cases kind
  | obj each => cases kind
  | leaf leaf holds =>
      cases j with
      | int n => exact numberText_int n
      | float repr => exact numberText_float (holds.1 repr rfl)
      | _ => cases kind

theorem Plain.starts {j : Json} (h : j.Plain) (s : List Char) :
    ∃ c rest, j.dumps ++ s = c :: rest ∧ kindOf c = j.kind := by
  by_cases number : j.kind = '0'
  · obtain ⟨_, numeric, nonempty⟩ := h.number number
    obtain ⟨c, rest, text⟩ := List.exists_cons_of_ne_nil nonempty
    refine ⟨c, rest ++ s, by rw [text]; rfl, ?_⟩
    rw [number]
    exact if_pos (numeric c (by rw [text]; simp))
  · cases j with
    | int n => exact (number rfl).elim
    | float repr => exact (number rfl).elim
    | bool b => cases b <;> exact ⟨_, _, rfl, rfl⟩
    | _ => exact ⟨_, _, rfl, rfl⟩

/-- A number ends where its text ends. -/
def AfterValue (s : List Char) : Prop := ∀ c rest, s = c :: rest → ¬ numeric c = true

/-- No integer is written like a finite float. -/
theorem int_ne_float {n : Int} {repr : String} (finite : FiniteRepr repr) :
    (toString n).toList ≠ repr.toList := by
  intro same
  have digits : ∀ c ∈ repr.toList, c = '-' ∨ c.isDigit = true := by
    intro c hc
    rw [← same] at hc
    obtain ⟨m, ⟨_, text⟩ | ⟨_, _, text⟩⟩ := int_toString_toList n
    · rw [text] at hc
      exact .inr (isDigit_of_mem_toString hc)
    · rw [text] at hc
      exact (List.mem_cons.mp hc).imp id isDigit_of_mem_toString
  rcases finite.point with dot | exponent
  · rcases digits '.' dot with impossible | impossible <;> cases impossible
  · rcases digits 'e' exponent with impossible | impossible <;> cases impossible

theorem eq_of_number {j k : Json} (hj : j.Plain) (hk : k.Plain) (kind : j.kind = '0')
    (kind' : k.kind = '0') (same : j.dumps = k.dumps) : j = k := by
  have float : ∀ {repr}, (Json.float repr).Plain → FiniteRepr repr := by
    intro repr plain
    cases plain with
    | leaf leaf holds => exact holds.1 repr rfl
  cases j with
  | int n =>
      cases k with
      | int n' => exact congrArg Json.int (int_toString_inj.mp (String.toList_inj.mp same))
      | float repr => exact (int_ne_float (float hk) same).elim
      | _ => cases kind'
  | float repr =>
      cases k with
      | int n => exact (int_ne_float (float hj) same.symm).elim
      | float repr' => exact congrArg Json.float (String.toList_inj.mp same)
      | _ => cases kind'
  | _ => cases kind

theorem afterValue_cons {c : Char} (h : numeric c = false) (s : List Char) :
    AfterValue (c :: s) := by
  rintro _ _ ⟨⟩
  rw [h]
  exact Bool.false_ne_true

theorem kindOf_bracket_ne (k : Json) : kindOf ']' ≠ kind k := by
  have kinds : kind k ∈ ['n', 'b', '0', '"', '[', '{'] := by cases k <;> simp [kind]
  intro same
  rw [← same] at kinds
  exact absurd kinds (by decide)

/-- The first character of a value is not the end of a list or a dictionary. -/
theorem Plain.starts_ne {j : Json} (h : j.Plain) {stop : Char} (other : ∀ k, kindOf stop ≠ kind k)
    (s : List Char) : ∃ c rest, j.dumps ++ s = c :: rest ∧ c ≠ stop := by
  obtain ⟨c, rest, text, same⟩ := h.starts s
  refine ⟨c, rest, text, ?_⟩
  rintro rfl
  exact other j same

theorem reads_dumpsField {f : String × Json} (h : Reads Plain AfterValue dumps f.2) :
    Reads (fun f => f.2.Plain) AfterValue dumpsField f := by
  intro g plain s t hs ht same
  simp only [dumpsField, List.append_assoc, List.cons_append] at same
  obtain ⟨key, rest⟩ := reads_encodeString f.1 g.1 trivial _ _ trivial trivial same
  obtain ⟨value, behind⟩ := h g.2 plain s t hs ht (List.cons.inj rest).2
  exact ⟨Prod.ext key value, behind⟩

/-- A value can be read back from its text. -/
theorem Plain.reads {j : Json} (h : j.Plain) : Reads Plain AfterValue dumps j := by
  have kinds : ∀ {j k : Json}, j.Plain → k.Plain → ∀ {s t}, j.dumps ++ s = k.dumps ++ t →
      j.kind = k.kind := by
    intro j k hj hk s t same
    obtain ⟨c, rest, text, kind⟩ := hj.starts s
    obtain ⟨c', rest', text', kind'⟩ := hk.starts t
    rw [text, text'] at same
    rw [← kind, ← kind', (List.cons.inj same).1]
  induction h with
  | @leaf j leaf holds =>
      have hj : j.Plain := .leaf leaf holds
      intro k hk s t hs ht same
      have kind := kinds hj hk same
      by_cases number : j.kind = '0'
      · obtain ⟨texts, behind⟩ := append_inj_of_symbols (hj.number number).numeric
          (hk.number (kind ▸ number)).numeric hs ht same
        exact ⟨eq_of_number hj hk number (kind ▸ number) texts, behind⟩
      cases j with
      | arr items => cases leaf
      | obj fields => cases leaf
      | int n => exact (number rfl).elim
      | float repr => exact (number rfl).elim
      | other text t => exact (holds.2 text t rfl).elim
      | null =>
          cases k with
          | null => exact ⟨rfl, List.append_cancel_left same⟩
          | _ => cases kind
      | bool b =>
          cases k with
          | bool b' => cases b <;> cases b' <;> cases same <;> exact ⟨rfl, rfl⟩
          | _ => cases kind
      | str text =>
          cases k with
          | str text' =>
              obtain ⟨rfl, behind⟩ := reads_encodeString text text' trivial s t trivial trivial same
              exact ⟨rfl, behind⟩
          | other text' t =>
              cases hk with
              | leaf leaf' holds' => exact (holds'.2 text' t rfl).elim
          | _ => cases kind
  | @arr items each ih =>
      intro k hk s t _ _ same
      have kind := kinds (.arr each) hk same
      cases k with
      | arr items' =>
          cases hk with
          | leaf leaf => cases leaf
          | arr each' =>
              have inside := (List.cons.inj same).2
              rw [dumpsItems_eq, dumpsItems_eq] at inside
              obtain ⟨rfl, behind⟩ := Reads.of_separated ih
                (fun s => ⟨afterValue_cons rfl s, afterValue_cons rfl s⟩) (by decide)
                (fun x plain => plain.starts_ne kindOf_bracket_ne) each true items'
                each' s t trivial trivial inside
              exact ⟨rfl, behind⟩
      | _ => cases kind
  | @obj fields each ih =>
      intro k hk s t _ _ same
      have kind := kinds (.obj each) hk same
      cases k with
      | obj fields' =>
          cases hk with
          | leaf leaf => cases leaf
          | obj each' =>
              have inside := (List.cons.inj same).2
              rw [dumpsFields_eq, dumpsFields_eq] at inside
              obtain ⟨rfl, behind⟩ := Reads.of_separated (fun f hf => reads_dumpsField (ih f hf))
                (fun s => ⟨afterValue_cons rfl s, afterValue_cons rfl s⟩) (by decide)
                (fun f _ s => ⟨'"', _, rfl, by decide⟩) each true fields' each' s t trivial trivial
                inside
              exact ⟨rfl, behind⟩
      | _ => cases kind

/-- Two values have the same canonical JSON if and only if they are equal once they have been
coerced. -/
theorem canonical_eq_iff {j k : Json} (hj : j.Serializable) (hk : k.Serializable) :
    j.canonical = k.canonical ↔ j.coerce.Equal k.coerce := by
  constructor
  · intro same
    have texts : j.coerce.sorted.dumps ++ [] = k.coerce.sorted.dumps ++ [] := by
      rw [List.append_nil, List.append_nil]
      exact String.ofList_inj.mp same
    have ends : AfterValue [] := fun _ _ impossible => by cases impossible
    exact (hj.coerce.sorted.reads _ hk.coerce.sorted [] [] ends ends texts).1
  · intro same
    unfold canonical
    rw [same]

end Injective

end Json

end OmniSync
