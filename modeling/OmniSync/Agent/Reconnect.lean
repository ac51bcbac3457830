import OmniSync.Agent.Paging
import OmniSync.Pagination.Cursor

/-!
# Reconnecting to the stream of changes

A client that was disconnected passes the `id` of the last event that it received as the
cursor of its next request. The stream writes the text of the row's UUID there, which
`decode_cursor` does not read: `not_resumes`. A cursor of `encode_cursor` for the same row
would start a stream right after it: `streamChanges_encodeCursor`.
-/

namespace OmniSync

open Calendar Digits

/-- The instant of a datetime. A naive one has none that the database could compare. -/
def instant (d : CivilDatetime) : Option Time :=
  d.offset.map (fun o => ((d.civil.totalSeconds : Int) - 719163 * 86400) * second +
    (d.civil.microsecond : Int) - o.microseconds)

example : instant ⟨⟨1970, 1, 1, 1, 0, 0, 5, by decide, by decide, by decide, by decide, by decide,
    by decide, by decide⟩, some ⟨3600000000, by decide⟩⟩ = some 5 := by decide

variable (decodeWide : List UInt8 → Option (List Char))

/-- The position after which a stream starts, or nothing if the request fails. -/
def startAfter : Option (List Char) → Option (Option (Time × Uuid))
  | none => some none
  | some [] => some none
  | some cursor => do
      let (timestamp, id) ← decodeCursor decodeWide cursor
      let t ← instant timestamp
      return some (t, id.toNat)

/-- Server-Sent Events stream of the change feed: the generator of a request with this cursor. -/
def streamChanges (cursor : Option (List Char)) : Option EventGenerator :=
  (startAfter decodeWide cursor).map (fun after => { after := after })

/-- The `id` field of the event that carries an item. -/
def eventId (item : ChangeItem) : List Char := uuidText item.id

/-- A request with the `id` of the item streams exactly the items after it. -/
def Resumes (s : Store) (item : ChangeItem) : Prop :=
  ∃ g, streamChanges decodeWide (some (eventId item)) = some g ∧
    s.feed g.after = s.feed (some (item.createdAt, item.id))

section Text

/-- The value of a hexadecimal digit as a digit of base64. -/
def sextet (v : Nat) : Nat := if v < 10 then v + 52 else v + 16

theorem digit_eq {v : Nat} (h : v < 16) : digit v = Base64.digit (sextet v) := by
  have all : ∀ v < 16, digit v = Base64.digit (sextet v) := by decide
  exact all v h

theorem sextet_bounds {v : Nat} (h : v < 16) :
    26 ≤ sextet v ∧ sextet v < 62 ∧ (sextet v < 32 ∨ 52 ≤ sextet v) := by
  unfold sextet
  split <;> omega

/-- The first two bytes that a text with three hexadecimal digits decodes to. -/
theorem decode_digits {a b c : Nat} (ha : a < 16) (hb : b < 16) (hc : c < 16) (cs : List Char) :
    Base64.decode (digit a :: digit b :: digit c :: cs) =
      ((Base64.decodeFrom 3 (sextet c % 4) 0 cs).map
        (UInt8.ofNat (sextet b % 16 * 16 + sextet c / 4) :: ·)).map
          (UInt8.ofNat (sextet a * 4 + sextet b / 16) :: ·) := by
  have below : ∀ {v}, v < 16 → sextet v < 64 := fun h =>
    (sextet_bounds h).2.1.trans (by decide)
  rw [digit_eq ha, digit_eq hb, digit_eq hc, Base64.decode, Base64.decodeFrom_first (below ha),
    Base64.decodeFrom_second (below hb), Base64.decodeFrom_third (below hc)]

theorem readScalar_item {cs rest : List Char} {data : Json}
    (h : Json.readScalar cs = some (data, rest)) (name : String) : Json.item data name = none := by
  unfold Json.readScalar at h
  split at h
  · rename_i constant found
    have listed := List.mem_of_find?_eq_some found
    have value := (Prod.mk.inj (Option.some.inj h)).1
    rw [← value]
    have all : ∀ c ∈ Json.constants, Json.item c.2 name = none := by
      simp only [Json.constants, List.forall_mem_cons, List.not_mem_nil, false_imp_iff,
        implies_true, and_true]
      exact ⟨rfl, rfl, rfl, rfl, rfl, rfl⟩
    exact all constant listed
  · unfold Json.readNumber at h
    extract_lets sign whole at h
    split at h
    · cases h
    · have value := (Prod.mk.inj (Option.some.inj h)).1
      rw [← value]
      split <;> rfl

/-- A text of JSON whose first character is not a brace is no dictionary. -/
theorem item_of_not_brace {c : Char} {cs rest : List Char} {fuel : Nat} {data : Json}
    (other : c ≠ '{') (h : Json.readValue fuel (c :: cs) = some (data, rest)) (name : String) :
    Json.item data name = none := by
  cases fuel with
  | zero => cases h
  | succ fuel =>
      unfold Json.readValue at h
      split at h
      · obtain ⟨_, _, same⟩ := Option.map_eq_some_iff.mp h
        rw [← (Prod.mk.inj same).1]
        rfl
      · split at h
        · rw [← (Prod.mk.inj (Option.some.inj h)).1]
          rfl
        · obtain ⟨_, _, same⟩ := Option.map_eq_some_iff.mp h
          rw [← (Prod.mk.inj same).1]
          rfl
      · rename_i brace
        exact absurd (List.cons.inj brace).1 other
      · exact readScalar_item h name

/-- A text of JSON with a brace and neither a quote nor white space behind it is an empty
dictionary, if it is one at all. -/
theorem item_of_brace {c : Char} {cs rest : List Char} {fuel : Nat} {data : Json}
    (quote : c ≠ '"') (blank : Json.blank c = false)
    (h : Json.readValue fuel ('{' :: c :: cs) = some (data, rest)) (name : String) :
    Json.item data name = none := by
  have skip : Json.skip (c :: cs) = c :: cs := by
    rw [Json.skip, List.dropWhile_cons, blank]
    rfl
  cases fuel with
  | zero => cases h
  | succ fuel =>
      rw [Json.readValue, skip] at h
      split at h
      · rw [← (Prod.mk.inj (Option.some.inj h)).1]
        rfl
      · obtain ⟨_, fields, _⟩ := Option.map_eq_some_iff.mp h
        rw [Json.readFields, Json.readField, skip] at fields
        split at fields
        · rename_i same
          exact absurd (List.cons.inj same).1 quote
        · cases fields

/-- The text of a UUID starts with three digits. -/
theorem uuidText_digits (id : Nat) : ∃ a < 16, ∃ b < 16, ∃ c < 16, ∃ cs,
    uuidText id = digit a :: digit b :: digit c :: cs :=
  ⟨_, Nat.mod_lt _ (by decide), _, Nat.mod_lt _ (by decide), _, Nat.mod_lt _ (by decide), _, rfl⟩

/-- What is at the start of a text that consists of these bytes. -/
theorem toNat_of_encode {c : Char} {cs : List Char} {b : UInt8} {bytes : List UInt8}
    (same : Utf8.encode (c :: cs) = b :: bytes) (ascii : c.toNat < 128) :
    c.toNat = b.toNat ∧ Utf8.encode cs = bytes := by
  rw [Utf8.encode_cons_of_lt ascii] at same
  obtain ⟨first, later⟩ := List.cons.inj same
  refine ⟨?_, later⟩
  rw [← first, UInt8.toNat_ofNat']
  exact (Nat.mod_eq_of_lt (ascii.trans (by decide))).symm

/-- Bytes that start neither with a mark nor with a zero. -/
theorem wide_of_between {x y : UInt8} {bytes : List UInt8} (low : 0 < x.toNat)
    (high : x.toNat < 254) (next : 0 < y.toNat) : wide (x :: y :: bytes) = false := by
  have zero : x ≠ 0 := by rintro rfl; exact absurd low (by decide)
  have zero' : y ≠ 0 := by rintro rfl; exact absurd next (by decide)
  have big : x ≠ 254 := by rintro rfl; exact absurd high (by decide)
  have little : x ≠ 255 := by rintro rfl; exact absurd high (by decide)
  match bytes with
  | [] => simp [wide, zero, zero', big, little]
  | [_] => simp [wide, big, little]
  | _ :: _ :: _ => simp [wide, zero, zero', big, little]

theorem withoutMark_of_ne {x y : UInt8} {bytes : List UInt8} (other : ¬ (x = 239 ∧ y = 187)) :
    withoutMark (x :: y :: bytes) = x :: y :: bytes := by
  unfold withoutMark
  split
  · rename_i same
    obtain ⟨first, later⟩ := List.cons.inj same
    exact (other ⟨first, (List.cons.inj later).1⟩).elim
  · rfl

theorem not_blank {c : Char} (h : 32 < c.toNat) : Json.blank c = false := by
  have other : ∀ d : Char, d.toNat ≤ 32 → c ≠ d := by
    rintro d small rfl
    exact absurd h (Nat.not_lt.mpr small)
  simp [Json.blank, other ' ' (by decide), other '\t' (by decide), other '\n' (by decide),
    other '\r' (by decide)]

theorem readValue_of_loads {c : Char} {cs : List Char} {data : Json}
    (visible : Json.blank c = false) (h : Json.loads (c :: cs) = some data) :
    ∃ rest, Json.readValue ((c :: cs).length + 1) (c :: cs) = some (data, rest) := by
  have skip : Json.skip (c :: cs) = c :: cs := by
    rw [Json.skip, List.dropWhile_cons, visible]
    rfl
  rw [Json.loads, skip] at h
  obtain ⟨⟨value, rest⟩, read, ends⟩ := Option.bind_eq_some_iff.mp h
  dsimp only at ends
  split at ends
  · rw [← Option.some.inj ends]
    exact ⟨rest, read⟩
  · cases ends

end Text

/-- The text of a UUID is not a cursor. -/
theorem decodeCursor_uuidText (id : Nat) : decodeCursor decodeWide (uuidText id) = none := by
  obtain ⟨a, ha, b, hb, c, hc, cs, text⟩ := uuidText_digits id
  obtain ⟨a_low, a_high, _⟩ := sextet_bounds ha
  obtain ⟨b_low, b_high, b_gap⟩ := sextet_bounds hb
  obtain ⟨c_low, c_high, c_gap⟩ := sextet_bounds hc
  have first : (UInt8.ofNat (sextet a * 4 + sextet b / 16)).toNat =
      sextet a * 4 + sextet b / 16 := by
    rw [UInt8.toNat_ofNat']
    exact Nat.mod_eq_of_lt (by change _ < 256; omega)
  have second : (UInt8.ofNat (sextet b % 16 * 16 + sextet c / 4)).toNat =
      sextet b % 16 * 16 + sextet c / 4 := by
    rw [UInt8.toNat_ofNat']
    exact Nat.mod_eq_of_lt (by change _ < 256; omega)
  apply Option.eq_none_iff_forall_ne_some.mpr
  intro position h
  simp only [decodeCursor, Option.bind_eq_bind, Option.bind_eq_some_iff] at h
  obtain ⟨bytes, decoded, chars, read, data, loaded, ts, found, _⟩ := h
  rw [text, decode_digits ha hb hc] at decoded
  generalize UInt8.ofNat (sextet a * 4 + sextet b / 16) = x at first decoded
  generalize UInt8.ofNat (sextet b % 16 * 16 + sextet c / 4) = y at second decoded
  obtain ⟨_, inner, rfl⟩ := Option.map_eq_some_iff.mp decoded
  obtain ⟨tail, _, rfl⟩ := Option.map_eq_some_iff.mp inner
  have narrow : wide (x :: y :: tail) = false := wide_of_between (by omega) (by omega) (by omega)
  have unmarked : withoutMark (x :: y :: tail) = x :: y :: tail := by
    apply withoutMark_of_ne
    rintro ⟨rfl, rfl⟩
    change 239 = _ at first
    change 187 = _ at second
    omega
  rw [jsonText, narrow, unmarked] at read
  have encoded := Utf8.decode_eq_some_iff.mp read
  -- The text starts with a character from `h` on, and has no quote behind a brace.
  have absent : Json.item data "ts" = none := by
    cases chars with
    | nil => cases encoded
    | cons d chars =>
        have large : 104 ≤ d.toNat := by
          rcases Nat.lt_or_ge d.toNat 128 with ascii | above
          · rw [(toNat_of_encode encoded ascii).1]
            omega
          · omega
        obtain ⟨rest, value⟩ := readValue_of_loads (not_blank (by omega)) loaded
        by_cases brace : d = '{'
        · subst brace
          obtain ⟨same, later⟩ := toNat_of_encode encoded (by decide)
          change 123 = _ at same
          cases chars with
          | nil => cases later
          | cons e chars =>
              have large : 64 ≤ e.toNat := by
                rcases Nat.lt_or_ge e.toNat 128 with ascii | above
                · rw [(toNat_of_encode later ascii).1]
                  omega
                · omega
              have quote : e ≠ '"' := by
                rintro rfl
                exact absurd large (by decide)
              exact item_of_brace quote (not_blank (by omega)) value "ts"
        · exact item_of_not_brace brace value "ts"
  obtain ⟨ts', item, _⟩ := found
  rw [absent] at item
  cases item

/-- A client that reconnects with the `id` of an item does not resume behind it: its request
fails, whatever the item is. -/
theorem not_resumes (s : Store) (item : ChangeItem) : ¬ Resumes decodeWide s item := by
  rintro ⟨g, started, _⟩
  have nonempty : ∃ c cs, eventId item = c :: cs := ⟨_, _, rfl⟩
  obtain ⟨c, cs, text⟩ := nonempty
  have none : decodeCursor decodeWide (c :: cs) = none := by
    rw [← text]
    exact decodeCursor_uuidText decodeWide item.id
  rw [streamChanges, text, startAfter, none] at started
  · cases started
  · exact List.cons_ne_nil _ _

/-- With a cursor of `encode_cursor` the stream starts right after the position. -/
theorem streamChanges_encodeCursor (timestamp : CivilDatetime) (id : BitVec 128) {t : Time}
    (aware : instant timestamp = some t) :
    streamChanges decodeWide (some (encodeCursor timestamp id)) =
      some { after := some (t, id.toNat) } := by
  have read := (decodeCursor_encodeCursor decodeWide timestamp id).1
  have nonempty : encodeCursor timestamp id ≠ [] := by
    intro empty
    rw [empty] at read
    cases read
  obtain ⟨c, cs, text⟩ := List.exists_cons_of_ne_nil nonempty
  rw [text] at read ⊢
  rw [streamChanges, startAfter, read]
  · change Option.map _ ((instant timestamp).bind _) = _
    rw [aware]
    rfl
  · exact List.cons_ne_nil _ _

/-- The stream has sent the first of two commits when it is cut off. -/
theorem reconnect_fails : ∃ st c g, PagingRun none twoCommits st c g ∧
    ∃ item, g.sent = [item] ∧ ¬ Resumes (fun _ => none) st.shared.store item := by
  have shape : twoPolls.map (fun x => x.2.2.sent.map ChangeItem.id) = some [12] := by
    decide +kernel
  obtain ⟨⟨st, c, g⟩, run, ids⟩ := Option.map_eq_some_iff.mp shape
  obtain ⟨item, sent, _⟩ := List.map_eq_singleton_iff.mp ids
  exact ⟨st, c, g, pagingRun_of_twoPolls run, item, sent, not_resumes _ _ _⟩

end OmniSync
