import OmniSync.Data.Base64
import OmniSync.Data.Calendar
import OmniSync.Data.Text
import OmniSync.Data.Utf8
import OmniSync.Pagination.Loads

/-!
# Cursors

A cursor is the URL-safe base64 text of a JSON dictionary with the ISO 8601 text of a timestamp
and the text of a UUID. `decode_cursor` reads back what `encode_cursor` wrote, for every
datetime and every UUID: `decodeCursor_encodeCursor`.
-/

namespace OmniSync

open Calendar Digits

section Uuids

/-- `str` of a UUID. -/
def uuidText (id : Nat) : List Char :=
  (pad 16 32 id).take 8 ++ '-' :: (((pad 16 32 id).drop 8).take 4 ++
    '-' :: (((pad 16 32 id).drop 12).take 4 ++ '-' :: (((pad 16 32 id).drop 16).take 4 ++
      '-' :: (pad 16 32 id).drop 20)))

/-- White space that `int` accepts around a number. -/
def intBlank (c : Char) : Bool :=
  (9 ≤ c.toNat && c.toNat ≤ 13) || (28 ≤ c.toNat && c.toNat ≤ 32)

/-- The digits of a hexadecimal number. One underscore may stand before a digit. -/
def hexDigits (acc : Nat) : List Char → Option Nat
  | [] => some acc
  | '_' :: c :: cs => (hexValue c).bind (fun v => hexDigits (acc * 16 + v) cs)
  | c :: cs => (hexValue c).bind (fun v => hexDigits (acc * 16 + v) cs)

/-- The digits behind the sign. -/
def unsignedHex : List Char → Option Nat
  | '0' :: 'x' :: c :: cs => hexDigits 0 (c :: cs)
  | '0' :: 'X' :: c :: cs => hexDigits 0 (c :: cs)
  | '_' :: _ => none
  | [] => none
  | cs => hexDigits 0 cs

/-- `int(text, 16)` of an ASCII text. -/
def intOfHex (text : List Char) : Option Int :=
  match strip intBlank text with
  | '-' :: cs => (unsignedHex cs).map (fun n => -(n : Int))
  | '+' :: cs => (unsignedHex cs).map (fun n => (n : Int))
  | cs => (unsignedHex cs).map (fun n => (n : Int))

/-- `UUID(text)`. -/
def parseUuid (text : List Char) : Option (BitVec 128) :=
  let hex := removeAll "uuid:".toList 0 (removeAll "urn:".toList 0 text)
  let hex := (strip (fun c => c = '{' || c = '}') hex).filter (fun c => c ≠ '-')
  if hex.length = 32 then
    (intOfHex hex).bind (fun n => if 0 ≤ n then some (BitVec.ofNat 128 n.toNat) else none)
  else none

/-- A hexadecimal digit in lower case. -/
def Hex (c : Char) : Prop := ∃ v < 16, c = digit v

theorem hex_of_mem_pad {k n : Nat} {c : Char} (hc : c ∈ pad 16 k n) : Hex c :=
  exists_digit_of_mem_pad (by decide) hc

/-- What a digit is not. -/
theorem Hex.other {c : Char} (h : Hex c) : c ≠ 'u' ∧ c ≠ '{' ∧ c ≠ '}' ∧ c ≠ '-' ∧ c ≠ '+' ∧
    c ≠ '_' ∧ c ≠ 'x' ∧ c ≠ 'X' ∧ intBlank c = false := by
  obtain ⟨v, hv, rfl⟩ := h
  have all : ∀ v < 16, digit v ≠ 'u' ∧ digit v ≠ '{' ∧ digit v ≠ '}' ∧ digit v ≠ '-' ∧
      digit v ≠ '+' ∧ digit v ≠ '_' ∧ digit v ≠ 'x' ∧ digit v ≠ 'X' ∧
      intBlank (digit v) = false := by decide
  exact all v hv

theorem mem_uuidText {id : Nat} {c : Char} (hc : c ∈ uuidText id) : Hex c ∨ c = '-' := by
  simp only [uuidText, List.mem_append, List.mem_cons] at hc
  rcases hc with h | rfl | h | rfl | h | rfl | h | rfl | h
  · exact .inl (hex_of_mem_pad (List.mem_of_mem_take h))
  · exact .inr rfl
  · exact .inl (hex_of_mem_pad (List.mem_of_mem_drop (List.mem_of_mem_take h)))
  · exact .inr rfl
  · exact .inl (hex_of_mem_pad (List.mem_of_mem_drop (List.mem_of_mem_take h)))
  · exact .inr rfl
  · exact .inl (hex_of_mem_pad (List.mem_of_mem_drop (List.mem_of_mem_take h)))
  · exact .inr rfl
  · exact .inl (hex_of_mem_pad (List.mem_of_mem_drop h))

/-- Without its dashes the text is the hexadecimal number. -/
theorem filter_uuidText (id : Nat) :
    (uuidText id).filter (fun c => c ≠ '-') = pad 16 32 id := by
  have kept : ∀ cs : List Char, (∀ c ∈ cs, c ∈ pad 16 32 id) → cs.filter (fun c => c ≠ '-') = cs := by
    intro cs digits
    apply List.filter_eq_self.mpr
    intro c hc
    exact decide_eq_true (hex_of_mem_pad (digits c hc)).other.2.2.2.1
  have dash : ∀ cs : List Char, ('-' :: cs).filter (fun c => c ≠ '-') =
      cs.filter (fun c => c ≠ '-') := fun _ => rfl
  have rest : ∀ k m, ((pad 16 32 id).drop k).take m ++ (pad 16 32 id).drop (k + m) =
      (pad 16 32 id).drop k := by
    intro k m
    rw [← List.drop_drop, List.take_append_drop]
  simp only [uuidText, List.filter_append, dash]
  rw [kept _ (fun _ hc => List.mem_of_mem_take hc),
    kept _ (fun _ hc => List.mem_of_mem_drop (List.mem_of_mem_take hc)),
    kept _ (fun _ hc => List.mem_of_mem_drop (List.mem_of_mem_take hc)),
    kept _ (fun _ hc => List.mem_of_mem_drop (List.mem_of_mem_take hc)),
    kept _ (fun _ hc => List.mem_of_mem_drop hc), rest 16 4, rest 12 4, rest 8 4,
    List.take_append_drop]

/-- The digits of a number are read back. -/
theorem hexDigits_pad (k n acc : Nat) :
    hexDigits acc (pad 16 k n) = some (acc * place 16 k + n % place 16 k) := by
  induction k generalizing acc with
  | zero => rw [place, Nat.mul_one, Nat.mod_one, Nat.add_zero]; rfl
  | succ k ih =>
      have small : n / place 16 k % 16 < 16 := Nat.mod_lt _ (by decide)
      have value : hexValue (digit (n / place 16 k % 16)) = some (n / place 16 k % 16) := by
        have all : ∀ n < 16, hexValue (digit n) = some n := by decide
        exact all _ small
      have other : digit (n / place 16 k % 16) ≠ '_' := (Hex.other ⟨_, small, rfl⟩).2.2.2.2.2.1
      have step : ∀ c cs, c ≠ '_' → hexDigits acc (c :: cs) =
          (hexValue c).bind (fun v => hexDigits (acc * 16 + v) cs) := by
        intro c cs other
        rw [hexDigits]
        rintro c' cs' rfl
        exact absurd rfl other
      rw [pad, step _ _ other, value, Option.bind_some, ih, mod_place_succ, place, Nat.add_mul,
        Nat.mul_assoc, Nat.mul_comm 16, Nat.add_assoc]

/-- A text of digits is a number without a sign. -/
theorem intOfHex_of_hex {cs : List Char} (hex : ∀ c ∈ cs, Hex c) (nonempty : cs ≠ []) :
    intOfHex cs = (hexDigits 0 cs).map (fun n => (n : Int)) := by
  have blank : strip intBlank cs = cs :=
    strip_of_not (fun c hc => (hex c hc).other.2.2.2.2.2.2.2.2)
  have unsigned : unsignedHex cs = hexDigits 0 cs := by
    unfold unsignedHex
    split
    · exact absurd rfl (hex 'x' (by simp)).other.2.2.2.2.2.2.1
    · exact absurd rfl (hex 'X' (by simp)).other.2.2.2.2.2.2.2.1
    · exact absurd rfl (hex '_' (by simp)).other.2.2.2.2.2.1
    · exact absurd rfl nonempty
    · rfl
  rw [intOfHex, blank]
  split
  · exact absurd rfl (hex '-' (by simp)).other.2.2.2.1
  · exact absurd rfl (hex '+' (by simp)).other.2.2.2.2.1
  · rw [unsigned]

/-- A UUID is read back from its text. -/
theorem parseUuid_uuidText (id : BitVec 128) : parseUuid (uuidText id.toNat) = some id := by
  have plain : ∀ c, c ∈ uuidText id.toNat → c ≠ 'u' ∧ c ≠ '{' ∧ c ≠ '}' := by
    intro c hc
    rcases mem_uuidText hc with hex | rfl
    · exact ⟨hex.other.1, hex.other.2.1, hex.other.2.2.1⟩
    · decide
  have urn : removeAll "urn:".toList 0 (uuidText id.toNat) = uuidText id.toNat :=
    removeAll_of_absent (fun occurs =>
      (plain 'u' (occurs.subset (by decide))).1 rfl)
  have uuid : removeAll "uuid:".toList 0 (uuidText id.toNat) = uuidText id.toNat :=
    removeAll_of_absent (fun occurs =>
      (plain 'u' (occurs.subset (by decide))).1 rfl)
  have braces : strip (fun c => c = '{' || c = '}') (uuidText id.toNat) = uuidText id.toNat := by
    apply strip_of_not
    intro c hc
    simp [(plain c hc).2.1, (plain c hc).2.2]
  have number : intOfHex (pad 16 32 id.toNat) = some (id.toNat : Int) := by
    have bound : id.toNat < place 16 32 := id.isLt
    have nonempty : pad 16 32 id.toNat ≠ [] := List.cons_ne_nil _ _
    rw [intOfHex_of_hex (fun c hc => hex_of_mem_pad hc) nonempty, hexDigits_pad,
      Nat.zero_mul, Nat.zero_add, Nat.mod_eq_of_lt bound]
    rfl
  rw [parseUuid]
  simp only [urn, uuid, braces, filter_uuidText, length_pad, if_true, number, Option.bind_some]
  rw [if_pos (Int.natCast_nonneg _), Int.toNat_natCast, BitVec.ofNat_toNat, BitVec.setWidth_eq]

end Uuids

section Cursors

/-- `json.dumps(data)` for the data of a cursor. -/
def cursorText (timestamp : CivilDatetime) (eventId : BitVec 128) : List Char :=
  '{' :: Json.fieldTexts ("ts", String.ofList (isoformat timestamp))
    [("id", String.ofList (uuidText eventId.toNat))]

def encodeCursor (timestamp : CivilDatetime) (eventId : BitVec 128) : List Char :=
  Base64.encode (Utf8.encode (cursorText timestamp eventId))

/-- UTF-16 or UTF-32, told by a byte order mark or by a zero among the first bytes. -/
def wide : List UInt8 → Bool
  | [] => false
  | [_] => false
  | [a, b] => a = 0 || b = 0 || (a = 254 && b = 255) || (a = 255 && b = 254)
  | [a, b, _] => (a = 254 && b = 255) || (a = 255 && b = 254)
  | a :: b :: _ => a = 0 || b = 0 || (a = 254 && b = 255) || (a = 255 && b = 254)

/-- The bytes after a UTF-8 byte order mark, if there is one. -/
def withoutMark : List UInt8 → List UInt8
  | 239 :: 187 :: 191 :: bytes => bytes
  | bytes => bytes

variable (decodeWide : List UInt8 → Option (List Char))

/-- The text that `json.loads` reads from bytes. `decodeWide` decodes UTF-16 and UTF-32. -/
def jsonText (bytes : List UInt8) : Option (List Char) :=
  if wide bytes then decodeWide bytes else Utf8.decode (withoutMark bytes)

/-- The text of a value that has to be a string. -/
def textOf : Json → Option (List Char)
  | .str text => some text.toList
  | _ => none

/-- The position that a client sent. -/
def decodeCursor (cursor : List Char) : Option (CivilDatetime × BitVec 128) := do
  let bytes ← Base64.decode cursor
  let text ← jsonText decodeWide bytes
  let data ← Json.loads text
  let ts ← (Json.item data "ts").bind textOf
  let timestamp ← fromisoformat ts
  let id ← (Json.item data "id").bind textOf
  let eventId ← parseUuid id
  return (timestamp, eventId)

/-- The bytes of a cursor are read as its text. -/
theorem jsonText_cursorText (timestamp : CivilDatetime) (eventId : BitVec 128) :
    jsonText decodeWide (Utf8.encode (cursorText timestamp eventId)) =
      some (cursorText timestamp eventId) := by
  obtain ⟨rest, text⟩ : ∃ rest, cursorText timestamp eventId = '{' :: '"' :: 't' :: 's' :: rest := by
    have name : Json.encodeString "ts" = '"' :: 't' :: 's' :: ['"'] := by decide
    rw [cursorText, Json.fieldTexts, Json.fieldText, name]
    exact ⟨_, rfl⟩
  have bytes : Utf8.encode (cursorText timestamp eventId) =
      123 :: 34 :: 116 :: 115 :: Utf8.encode rest := by
    rw [text, Utf8.encode_cons_of_lt (by decide), Utf8.encode_cons_of_lt (by decide),
      Utf8.encode_cons_of_lt (by decide), Utf8.encode_cons_of_lt (by decide)]
    rfl
  have narrow : wide (Utf8.encode (cursorText timestamp eventId)) = false := by
    rw [bytes]
    rfl
  have unmarked : withoutMark (Utf8.encode (cursorText timestamp eventId)) =
      Utf8.encode (cursorText timestamp eventId) := by
    rw [bytes]
    rfl
  rw [jsonText, narrow, unmarked, Utf8.decode_encode]
  rfl

/-- A paging position survives the way through a client, whose query parameter needs no
escaping. -/
theorem decodeCursor_encodeCursor (timestamp : CivilDatetime) (eventId : BitVec 128) :
    decodeCursor decodeWide (encodeCursor timestamp eventId) = some (timestamp, eventId) ∧
      ∀ c ∈ encodeCursor timestamp eventId, Base64.UrlSafe c := by
  constructor
  · have ts : (Json.item (.obj [("ts", .str (String.ofList (isoformat timestamp))),
        ("id", .str (String.ofList (uuidText eventId.toNat)))]) "ts").bind textOf =
          some (isoformat timestamp) := by
      change some (String.ofList (isoformat timestamp)).toList = _
      rw [String.toList_ofList]
    have id : (Json.item (.obj [("ts", .str (String.ofList (isoformat timestamp))),
        ("id", .str (String.ofList (uuidText eventId.toNat)))]) "id").bind textOf =
          some (uuidText eventId.toNat) := by
      change some (String.ofList (uuidText eventId.toNat)).toList = _
      rw [String.toList_ofList]
    have data : Json.loads (cursorText timestamp eventId) =
        some (.obj [("ts", .str (String.ofList (isoformat timestamp))),
          ("id", .str (String.ofList (uuidText eventId.toNat)))]) := Json.loads_fieldTexts _ _
    simp only [decodeCursor, encodeCursor, Base64.decode_encode, jsonText_cursorText, data, ts, id,
      fromisoformat_isoformat, parseUuid_uuidText, Option.bind_eq_bind, Option.bind_some,
      Option.pure_def]
  · intro c hc
    exact Base64.urlSafe_of_mem_encode hc

end Cursors

end OmniSync
