import OmniSync.Data.Outcome
import OmniSync.Imap.Message

/-!
# Which emails are parsed

An email is parsed if and only if the library can read its bytes and Python can decode what the
code decodes: the encoded words of two headers and the first plain text, in the charsets that they
declare. Two headers must not have bytes that are not ASCII, nor must the Message-ID, and the
plain text must not be nested too deeply. One email that is not parsed fails the whole fetch. A
fetch that does not fail returns what `fetchLetters` makes of the letters in the emails.
-/

namespace OmniSync

section Nodes

mutual

/-- The part and the parts in it, in the order of the document, each with its depth. -/
def Mime.nodes (depth : Nat) : Mime → List (Nat × Mime)
  | .leaf contentType charset payload => [(depth, .leaf contentType charset payload)]
  | .multipart contentType parts =>
      (depth, .multipart contentType parts) :: Mime.nodesOf (depth + 1) parts

def Mime.nodesOf (depth : Nat) : List Mime → List (Nat × Mime)
  | [] => []
  | part :: parts => part.nodes depth ++ Mime.nodesOf depth parts

end

/-- The search stops at a plain text, and at a depth that it cannot reach. -/
def Mime.stops (limit : Nat) (x : Nat × Mime) : Bool :=
  decide (limit ≤ x.1) || x.2.contentType == "text/plain"

end Nodes

section Condition

/-- Python can decode the bytes of a part, if it has any. -/
def Mime.Decodes (lib : MailLib) : Mime → Prop
  | .leaf _ charset payload => payload = .ok none ∨ ∃ bytes declared decoded,
      payload = .ok (some bytes) ∧ charset = .ok declared ∧
        lib.decode (IMAPClient.charsetOr declared) bytes = .ok decoded
  | .multipart .. => True

/-- The header can be split, and its pieces decoded. -/
def HeaderValue.Readable (lib : MailLib) : HeaderValue → Prop
  | .text header => header = "" ∨ ∃ parts, lib.decodeHeader header = .ok parts ∧
      ∀ bytes charset, .bytes bytes charset ∈ parts →
        ∃ decoded, lib.decode (IMAPClient.charsetOr charset) bytes = .ok decoded
  | .eightBit _ _ => False

/-- The body is decoded, or that part at which the search of it stops. -/
def Email.BodyReadable (lib : MailLib) (frames : Nat) (msg : Email) : Prop :=
  match msg.body with
  | .leaf .. => msg.body.Decodes lib
  | .multipart .. => ∀ x, (msg.body.nodes 0).find? (Mime.stops frames) = some x →
      x.1 < frames ∧ x.2.Decodes lib

structure Email.Readable (lib : MailLib) (frames : Nat) (msg : Email) : Prop where
  subject : ∀ header, msg.get "Subject" = some header → header.Readable lib
  sender : ∀ header, msg.get "From" = some header → header.Readable lib
  messageId : ∀ bytes high, msg.get "Message-ID" ≠ some (.eightBit bytes high)
  body : msg.BodyReadable lib frames

/-- The library makes an email of the bytes that can be read. -/
def ReadableBytes (lib : MailLib) (frames : Nat) (rawEmail : List UInt8) : Prop :=
  ∃ msg, lib.messageFromBytes rawEmail = .ok msg ∧ msg.Readable lib frames

/-- Every email that a fetch reaches can be read. -/
def MailServer.Readable (lib : MailLib) (frames : Nat) (server : MailServer (List UInt8))
    (since : Option Datetime) (limit : Nat) : Prop :=
  ∀ msgId ∈ IMAPClient.lastOf limit (IMAPClient.search server since), ∀ m,
    IMAPClient.fetch server msgId = some m → ReadableBytes lib frames m.email

/-- Python has no codec for the charset that the library gives to bytes that are not ASCII. -/
def MailLib.LacksUnknown (lib : MailLib) : Prop :=
  ∀ bytes, bytes ≠ [] → ∀ text, lib.decode "unknown-8bit" bytes ≠ .ok text

end Condition

section Search

open IMAPClient

/-- What the search makes of the node at which it stops. -/
def stoppedAt (limit : Nat) : Option (Nat × Mime) → Except Exn (Option Mime)
  | none => .ok none
  | some x =>
      if limit ≤ x.1 then .error ⟨"RecursionError", "maximum recursion depth exceeded"⟩
      else .ok (some x.2)

theorem findSomeM?_nodesOf {frames limit depth : Nat} {parts : List Mime}
    (each : ∀ part ∈ parts, firstPlain frames part =
      stoppedAt limit ((part.nodes depth).find? (Mime.stops limit))) :
    parts.findSomeM? (firstPlain frames) =
      stoppedAt limit ((Mime.nodesOf depth parts).find? (Mime.stops limit)) := by
  induction parts with
  | nil => rfl
  | cons part parts ih =>
      rw [Mime.nodesOf, List.find?_append]
      unfold List.findSomeM?
      rw [each part List.mem_cons_self]
      cases first : (part.nodes depth).find? (Mime.stops limit) with
      | none => exact ih (fun other there => each other (List.mem_cons_of_mem part there))
      | some x =>
          change (stoppedAt limit (some x) >>= _) = stoppedAt limit (some x)
          by_cases deep : limit ≤ x.1
          · simp only [stoppedAt, if_pos deep]
            rfl
          · simp only [stoppedAt, if_neg deep]
            rfl

/-- The search looks at the nodes in the order of the document. -/
theorem firstPlain_eq {frames depth : Nat} {part : Mime} : firstPlain frames part =
    stoppedAt (depth + frames) ((part.nodes depth).find? (Mime.stops (depth + frames))) := by
  induction frames generalizing depth part with
  | zero =>
      have deep : Mime.stops (depth + 0) (depth, part) = true := by simp [Mime.stops]
      have first : (part.nodes depth).find? (Mime.stops (depth + 0)) = some (depth, part) := by
        cases part with
        | leaf contentType charset payload => exact List.find?_cons_of_pos deep
        | multipart contentType parts => exact List.find?_cons_of_pos deep
      rw [first]
      exact (if_pos (Nat.le_refl depth)).symm
  | succ frames ih =>
      have shallow : ¬ depth + (frames + 1) ≤ depth := by omega
      have here : Mime.stops (depth + (frames + 1)) (depth, part) =
          (part.contentType == "text/plain") := by simp [Mime.stops]
      have all : part.nodes depth = (depth, part) :: (part.nodes depth).tail := by
        cases part <;> rfl
      unfold firstPlain
      by_cases plain : part.contentType = "text/plain"
      · have stops : Mime.stops (depth + (frames + 1)) (depth, part) = true :=
          here.trans (beq_iff_eq.mpr plain)
        rw [if_pos plain, all, List.find?_cons_of_pos stops]
        exact (if_neg shallow).symm
      · have passes : ¬ Mime.stops (depth + (frames + 1)) (depth, part) = true := by
          rw [here]
          exact fun same => plain (beq_iff_eq.mp same)
        rw [if_neg plain, all, List.find?_cons_of_neg passes]
        cases part with
        | leaf contentType charset payload => rfl
        | multipart contentType parts =>
            refine findSomeM?_nodesOf (fun part _ => ?_)
            have deeper := @ih (depth + 1) part
            rw [Nat.add_right_comm] at deeper
            exact deeper

end Search

section Parse

open IMAPClient

variable {α : Type} {lib : MailLib} {frames : Nat} {server : MailServer α} {folder : String}
variable {msgId : Nat} {msg : Email}

theorem decodeParts_ok_iff {parts : List HeaderPart} :
    (∃ texts, parts.mapM (decodePart lib) = .ok texts) ↔
      ∀ bytes charset, .bytes bytes charset ∈ parts →
        ∃ decoded, lib.decode (charsetOr charset) bytes = .ok decoded := by
  refine mapM_ok_iff.trans ⟨fun each bytes charset there => each _ there, ?_⟩
  intro decodes part there
  cases part with
  | text text => exact ⟨text, rfl⟩
  | bytes bytes charset => exact decodes bytes charset there

/-- A header is decoded if it can be split and its pieces can be decoded. -/
theorem decodeHeader_ok {header : HeaderValue} (some : header ≠ .text "") :
    (∃ text, decodeHeader lib header = .ok text) ↔ ∃ parts, headerParts lib header = .ok parts ∧
      ∀ bytes charset, .bytes bytes charset ∈ parts →
        ∃ decoded, lib.decode (charsetOr charset) bytes = .ok decoded := by
  unfold decodeHeader
  rw [if_neg some, exists_bind_iff]
  refine exists_congr (fun parts => and_congr_right (fun _ => ?_))
  rw [exists_bind_iff, ← decodeParts_ok_iff]
  exact exists_congr (fun texts => and_iff_left ⟨_, rfl⟩)

theorem decodeHeader_of_readable {header : HeaderValue} (readable : header.Readable lib) :
    ∃ text, decodeHeader lib header = .ok text := by
  by_cases empty : header = .text ""
  · rw [empty]
    exact ⟨"", rfl⟩
  · rw [decodeHeader_ok empty]
    cases header with
    | text value => exact readable.resolve_left (fun same => empty (congrArg _ same))
    | eightBit bytes high => exact readable.elim

theorem eightBit_ne_nil {bytes : List UInt8}
    (high : bytes.any (fun byte => decide (128 ≤ byte)) = true) : bytes ≠ [] := by
  rintro rfl
  cases high

/-- A header is decoded if and only if it can be read. -/
theorem decodeHeader_ok_iff (unknown : lib.LacksUnknown) {header : HeaderValue} :
    (∃ text, decodeHeader lib header = .ok text) ↔ header.Readable lib := by
  refine ⟨fun decodes => ?_, decodeHeader_of_readable⟩
  by_cases empty : header = .text ""
  · rw [empty]
    exact .inl rfl
  · rw [decodeHeader_ok empty] at decodes
    cases header with
    | text value => exact .inr decodes
    | eightBit bytes high =>
        obtain ⟨_, ⟨⟩, decodes⟩ := decodes
        obtain ⟨text, decoded⟩ := decodes bytes _ List.mem_cons_self
        exact unknown bytes (eightBit_ne_nil high) text decoded

theorem decodeBody_ok_iff {part : Mime} :
    (∃ text, decodeBody lib part = .ok text) ↔ part.Decodes lib := by
  cases part with
  | multipart contentType parts => exact ⟨fun _ => trivial, fun _ => ⟨"", rfl⟩⟩
  | leaf contentType charset payload =>
      unfold decodeBody Mime.Decodes
      constructor
      · rintro ⟨text, decoded⟩
        obtain ⟨bytes, loaded, decoded⟩ := bind_ok_iff.mp decoded
        cases bytes with
        | none => exact .inl loaded
        | some bytes =>
            obtain ⟨declared, known, decoded⟩ := bind_ok_iff.mp decoded
            exact .inr ⟨bytes, declared, text, loaded, known, decoded⟩
      · rintro (nothing | ⟨bytes, declared, text, loaded, known, decoded⟩)
        · exact ⟨"", bind_ok_iff.mpr ⟨none, nothing, rfl⟩⟩
        · exact ⟨text, bind_ok_iff.mpr ⟨some bytes, loaded,
            bind_ok_iff.mpr ⟨declared, known, decoded⟩⟩⟩

theorem bodyOf_ok_iff : (∃ text, bodyOf lib frames msg = .ok text) ↔
    msg.BodyReadable lib frames := by
  unfold bodyOf Email.BodyReadable
  cases msg.body with
  | leaf contentType charset payload => exact decodeBody_ok_iff
  | multipart contentType parts =>
      have search := @firstPlain_eq frames 0 (.multipart contentType parts)
      rw [Nat.zero_add] at search
      rw [exists_bind_iff, search]
      cases stop : ((Mime.multipart contentType parts).nodes 0).find? (Mime.stops frames) with
      | none => exact ⟨fun _ _ impossible => (nomatch impossible), fun _ => ⟨none, rfl, "", rfl⟩⟩
      | some x =>
          by_cases deep : frames ≤ x.1
          · simp only [stoppedAt, if_pos deep]
            constructor
            · rintro ⟨_, impossible, _⟩
              cases impossible
            · exact fun h => absurd (h x rfl).1 (Nat.not_lt.mpr deep)
          · simp only [stoppedAt, if_neg deep]
            constructor
            · rintro ⟨_, ⟨⟩, decoded⟩ _ ⟨⟩
              exact ⟨Nat.not_le.mp deep, decodeBody_ok_iff.mp decoded⟩
            · exact fun h => ⟨_, rfl, decodeBody_ok_iff.mpr (h x rfl).2⟩

theorem messageId_ok_iff : (∃ text, messageId msg = .ok text) ↔
    ∀ bytes high, msg.get "Message-ID" ≠ some (.eightBit bytes high) := by
  unfold messageId
  cases msg.get "Message-ID" with
  | none => exact ⟨fun _ _ _ impossible => (nomatch impossible), fun _ => ⟨"", rfl⟩⟩
  | some header =>
      cases header with
      | text value => exact ⟨fun _ _ _ impossible => (nomatch impossible), fun _ => ⟨_, rfl⟩⟩
      | eightBit bytes high => exact ⟨fun ⟨_, impossible⟩ => (nomatch impossible),
          fun h => (h bytes high rfl).elim⟩

/-- A missing header is an empty one. -/
theorem header_readable_iff {name : String} : ((msg.get name).getD (.text "")).Readable lib ↔
    ∀ header, msg.get name = some header → header.Readable lib := by
  cases msg.get name with
  | none => exact ⟨fun _ _ impossible => (nomatch impossible), fun _ => .inl rfl⟩
  | some header =>
      constructor
      · rintro readable _ ⟨⟩
        exact readable
      · exact fun h => h header rfl

theorem decodeEmail_of_readable (readable : msg.Readable lib frames) :
    ∃ letter, decodeEmail lib frames msg = .ok letter := by
  obtain ⟨subject, sender, messageId, body⟩ := readable
  obtain ⟨subject, first⟩ := decodeHeader_of_readable (header_readable_iff.mpr subject)
  obtain ⟨sender, second⟩ := decodeHeader_of_readable (header_readable_iff.mpr sender)
  obtain ⟨messageId, third⟩ := messageId_ok_iff.mpr messageId
  obtain ⟨body, fourth⟩ := bodyOf_ok_iff.mpr body
  exact ⟨_, bind_ok_iff.mpr ⟨subject, first, bind_ok_iff.mpr ⟨sender, second,
    bind_ok_iff.mpr ⟨messageId, third, bind_ok_iff.mpr ⟨body, fourth, rfl⟩⟩⟩⟩⟩

/-- The headers and the text of an email are decoded if and only if it can be read. -/
theorem decodeEmail_ok_iff (unknown : lib.LacksUnknown) :
    (∃ letter, decodeEmail lib frames msg = .ok letter) ↔ msg.Readable lib frames := by
  refine ⟨?_, decodeEmail_of_readable⟩
  rintro ⟨letter, decoded⟩
  obtain ⟨subject, first, decoded⟩ := bind_ok_iff.mp decoded
  obtain ⟨sender, second, decoded⟩ := bind_ok_iff.mp decoded
  obtain ⟨messageId, third, decoded⟩ := bind_ok_iff.mp decoded
  obtain ⟨body, fourth, _⟩ := bind_ok_iff.mp decoded
  exact ⟨header_readable_iff.mp ((decodeHeader_ok_iff unknown).mp ⟨subject, first⟩),
    header_readable_iff.mp ((decodeHeader_ok_iff unknown).mp ⟨sender, second⟩),
    messageId_ok_iff.mp ⟨messageId, third⟩, bodyOf_ok_iff.mp ⟨body, fourth⟩⟩

/-- The date of a letter is that of its header. -/
theorem decodeEmail_date {letter : Letter} (h : decodeEmail lib frames msg = .ok letter) :
    letter.date = dateOf lib msg := by
  obtain ⟨_, _, h⟩ := bind_ok_iff.mp h
  obtain ⟨_, _, h⟩ := bind_ok_iff.mp h
  obtain ⟨_, _, h⟩ := bind_ok_iff.mp h
  obtain ⟨_, _, ⟨⟩⟩ := bind_ok_iff.mp h
  rfl

theorem parseMessage_ok {raw : RawMessage} :
    parseMessage lib frames server folder msgId msg = .ok raw ↔
      ∃ letter, decodeEmail lib frames msg = .ok letter ∧
        messageOf server folder msgId letter = raw := by
  refine bind_ok_iff.trans (exists_congr (fun letter => and_congr_right (fun _ => ?_)))
  exact ⟨Except.ok.inj, congrArg Except.ok⟩

/-- An email is parsed if and only if it can be read. -/
theorem parseMessage_ok_iff (unknown : lib.LacksUnknown) :
    (∃ raw, parseMessage lib frames server folder msgId msg = .ok raw) ↔
      msg.Readable lib frames := by
  simp only [parseMessage_ok]
  rw [← decodeEmail_ok_iff unknown]
  constructor
  · rintro ⟨_, letter, decoded, _⟩
    exact ⟨letter, decoded⟩
  · rintro ⟨letter, decoded⟩
    exact ⟨_, letter, decoded, rfl⟩

/-- The letter in the bytes of an email. -/
def letterIn (lib : MailLib) (frames : Nat) (rawEmail : List UInt8) : Except Exn Letter :=
  lib.messageFromBytes rawEmail >>= decodeEmail lib frames

theorem parseBytes_eq {rawEmail : List UInt8} :
    parseBytes lib frames server folder msgId rawEmail =
      (letterIn lib frames rawEmail).map (messageOf server folder msgId) := by
  unfold parseBytes letterIn parseMessage
  cases lib.messageFromBytes rawEmail with
  | error e => rfl
  | ok msg => rfl

theorem letterIn_of_readable {rawEmail : List UInt8} (h : ReadableBytes lib frames rawEmail) :
    ∃ letter, letterIn lib frames rawEmail = .ok letter := by
  obtain ⟨msg, made, readable⟩ := h
  obtain ⟨letter, decoded⟩ := decodeEmail_of_readable readable
  exact ⟨letter, bind_ok_iff.mpr ⟨msg, made, decoded⟩⟩

theorem letterIn_ok_iff (unknown : lib.LacksUnknown) {rawEmail : List UInt8} :
    (∃ letter, letterIn lib frames rawEmail = .ok letter) ↔ ReadableBytes lib frames rawEmail := by
  refine ⟨?_, letterIn_of_readable⟩
  rintro ⟨letter, found⟩
  obtain ⟨msg, made, decoded⟩ := bind_ok_iff.mp found
  exact ⟨msg, made, (decodeEmail_ok_iff unknown).mp ⟨letter, decoded⟩⟩

end Parse

section Fetch

open IMAPClient

variable {lib : MailLib} {frames : Nat} {server : MailServer (List UInt8)} {folder : String}
variable {since : Option Datetime} {limit : Nat}

/-- A fetch succeeds if and only if each email that it reaches has a letter in it. -/
theorem fetchMessages_returns_iff :
    (∃ raws, fetchMessages lib frames server folder since limit = .ok raws) ↔
      ∀ msgId ∈ lastOf limit (search server since), ∀ m, fetch server msgId = some m →
        ∃ letter, letterIn lib frames m.email = .ok letter := by
  have step : ∀ messages : List RawMessage, ∀ msgId ∈ lastOf limit (search server since),
      (∃ more, collectEmail lib frames server folder messages msgId = .ok more ∧ True) ↔
        True ∧ ∀ m, fetch server msgId = some m →
          ∃ letter, letterIn lib frames m.email = .ok letter := by
    intro messages msgId _
    unfold collectEmail
    cases fetch server msgId with
    | none => exact ⟨fun _ => ⟨trivial, fun _ impossible => (nomatch impossible)⟩,
        fun _ => ⟨messages, rfl, trivial⟩⟩
    | some m =>
        dsimp only
        rw [parseBytes_eq]
        constructor
        · rintro ⟨_, collected, _⟩
          refine ⟨trivial, ?_⟩
          rintro _ ⟨⟩
          obtain ⟨_, parsed, _⟩ := bind_ok_iff.mp collected
          cases found : letterIn lib frames m.email with
          | error e =>
              rw [found] at parsed
              cases parsed
          | ok letter => exact ⟨letter, rfl⟩
        · rintro ⟨_, each⟩
          obtain ⟨letter, found⟩ := each m rfl
          rw [found]
          exact ⟨_, rfl, trivial⟩
  have loop := foldlM_ok_iff step []
  simp only [and_true, true_and] at loop
  exact loop

theorem fetchMessages_of_readable (readable : server.Readable lib frames since limit) :
    ∃ raws, fetchMessages lib frames server folder since limit = .ok raws :=
  fetchMessages_returns_iff.mpr (fun msgId there m fetched =>
    letterIn_of_readable (readable msgId there m fetched))

theorem fetchMessages_ok_iff (unknown : lib.LacksUnknown) :
    (∃ raws, fetchMessages lib frames server folder since limit = .ok raws) ↔
      server.Readable lib frames since limit :=
  fetchMessages_returns_iff.trans (forall₂_congr (fun _ _ => forall₂_congr (fun _ _ =>
    letterIn_ok_iff unknown)))

/-- The mailbox of the letters in the emails. One that cannot be read is an empty letter. -/
def MailServer.letters (lib : MailLib) (frames : Nat) (server : MailServer (List UInt8)) :
    MailServer Letter where
  host := server.host
  uidvalidity := server.uidvalidity
  messages := server.messages.map (fun m => ⟨m.uid, m.arrival,
    (letterIn lib frames m.email).toOption.getD ⟨"", "", "", none, ""⟩⟩)
  refuses := server.refuses
  now := server.now

theorem search_letters : search (server.letters lib frames) since = search server since := by
  unfold search
  have length : (server.letters lib frames).messages.length = server.messages.length :=
    List.length_map _
  rw [length]
  refine List.filter_congr (fun msgId _ => ?_)
  change ((server.messages.map _)[msgId - 1]?).any _ = _
  rw [List.getElem?_map, Option.any_map]
  rfl

/-- A fetch that succeeds returns what is made of the letters. -/
theorem fetchMessages_letters {raws : List RawMessage}
    (h : fetchMessages lib frames server folder since limit = .ok raws) :
    raws = fetchLetters (server.letters lib frames) folder since limit := by
  unfold fetchLetters
  rw [search_letters]
  have each := fetchMessages_returns_iff.mp ⟨raws, h⟩
  unfold fetchMessages at h
  generalize lastOf limit (search server since) = msgIds at h each
  have loop : ∀ messages, msgIds.foldlM (collectEmail lib frames server folder) messages =
      .ok (messages ++ msgIds.filterMap (fun msgId => (fetch (server.letters lib frames) msgId).map
        (fun m => messageOf (server.letters lib frames) folder msgId m.email))) := by
    clear h
    induction msgIds with
    | nil => exact fun messages => congrArg Except.ok (List.append_nil messages).symm
    | cons msgId msgIds ih =>
        obtain ⟨here, rest⟩ := List.forall_mem_cons.mp each
        intro messages
        have fetched : fetch (server.letters lib frames) msgId = (fetch server msgId).map
            (fun m => ⟨m.uid, m.arrival,
              (letterIn lib frames m.email).toOption.getD ⟨"", "", "", none, ""⟩⟩) := by
          unfold fetch
          change (if server.refuses msgId = true then none else _) = _
          split
          · rfl
          · exact List.getElem?_map ..
        rw [List.foldlM_cons, List.filterMap_cons, fetched]
        unfold collectEmail
        cases delivered : fetch server msgId with
        | none => exact ih rest messages
        | some m =>
            obtain ⟨letter, found⟩ := here m delivered
            dsimp only [Option.map_some]
            rw [parseBytes_eq, found, List.append_cons]
            exact ih rest _
  exact Except.ok.inj (h.symm.trans (loop []))

end Fetch

/-- A header is decoded if it can be read, and an email is parsed if it can be. A fetch
succeeds if each of the emails that it reaches can be read. -/
theorem emails_parsed_iff {lib : MailLib} (unknown : lib.LacksUnknown) (frames : Nat)
    (server : MailServer (List UInt8)) (folder : String) :
    (∀ header, (∃ text, IMAPClient.decodeHeader lib header = .ok text) ↔ header.Readable lib) ∧
    (∀ msgId msg, (∃ raw, IMAPClient.parseMessage lib frames server folder msgId msg = .ok raw) ↔
      msg.Readable lib frames) ∧
    ∀ since limit, (∃ raws,
      IMAPClient.fetchMessages lib frames server folder since limit = .ok raws) ↔
        server.Readable lib frames since limit :=
  ⟨fun _ => decodeHeader_ok_iff unknown, fun _ _ => parseMessage_ok_iff unknown,
    fun _ _ => fetchMessages_ok_iff unknown⟩

section Example

/-- Decoding of ASCII characters. Nothing needs no codec. -/
def decodeAscii (charset : String) (bytes : List UInt8) : Except Exn String :=
  if bytes = [] then .ok ""
  else if charset = "utf-8" ∨ charset = "us-ascii" then
    .ok (String.ofList (bytes.map (fun byte =>
      if byte < 128 then Char.ofNat byte.toNat else Char.ofNat 65533)))
  else .error ⟨"LookupError", "unknown encoding: " ++ charset⟩

/-- An email with a plain text. -/
def greeting (subject : HeaderValue) (charset : String) : Email where
  headers := [("Subject", subject), ("From", .text "a@b")]
  body := .leaf "text/plain" (.ok (some charset)) (.ok (some [104, 105]))

/-- The greeting as it is delivered. -/
def greetingBytes (charset : String) : List UInt8 :=
  ("Subject: Hello\nFrom: a@b\nContent-Type: text/plain; charset=" ++ charset ++
    "\n\nhi").toList.map (fun c => UInt8.ofNat c.toNat)

/-- Headers without encoded words, and one with a word in an unknown charset. -/
def asciiLib : MailLib where
  messageFromBytes rawEmail :=
    if rawEmail = greetingBytes "us-ascii" then .ok (greeting (.text "Hello") "us-ascii")
    else .ok (greeting (.text "Hello") "x-none")
  decodeHeader text :=
    if text = "=?x-none?q?a?=" then .ok [.bytes [97] (some "x-none")] else .ok [.text text]
  decode := decodeAscii
  parsedate _ := .error ⟨"ValueError", "Invalid date value or format"⟩

theorem asciiLib_reads : asciiLib.messageFromBytes (greetingBytes "us-ascii") =
    .ok (greeting (.text "Hello") "us-ascii") := by simp only [asciiLib, if_true]

theorem asciiLib_reads_other : asciiLib.messageFromBytes (greetingBytes "x-none") =
    .ok (greeting (.text "Hello") "x-none") := by
  have other : greetingBytes "x-none" ≠ greetingBytes "us-ascii" := by decide +kernel
  simp only [asciiLib, if_neg other]

/-- A mailbox with the greeting. -/
def greetingServer (charset : String) : MailServer (List UInt8) :=
  ⟨"mail", some "1", [⟨1, 0, greetingBytes charset⟩], fun _ => false, fun _ => .utc 0⟩

theorem greeting_headers (subject : HeaderValue) (charset : String) :
    (greeting subject charset).get "Subject" = some subject ∧
      (greeting subject charset).get "From" = some (.text "a@b") ∧
        (greeting subject charset).get "Message-ID" = none := by
  have subjectNot : caseless "Subject" ≠ caseless "Message-ID" := by decide
  have fromNot : caseless "From" ≠ caseless "Message-ID" := by decide
  have different : caseless "Subject" ≠ caseless "From" := by decide
  refine ⟨?_, ?_, ?_⟩
  · simp [Email.get, greeting]
  · simp [Email.get, greeting, different]
  · simp [Email.get, greeting, subjectNot, fromNot]

theorem asciiLib_lacksUnknown : asciiLib.LacksUnknown := by
  intro bytes some text decoded
  change decodeAscii "unknown-8bit" bytes = .ok text at decoded
  unfold decodeAscii at decoded
  rw [if_neg some, if_neg (by decide)] at decoded
  cases decoded

theorem greeting_readable : (greeting (.text "Hello") "us-ascii").Readable asciiLib 1000 := by
  have plain : ∀ text, (text = "Hello" ∨ text = "a@b") →
      (HeaderValue.text text).Readable asciiLib := by
    rintro text known
    refine .inr ⟨[.text text], ?_, fun _ _ impossible => ?_⟩
    · rcases known with rfl | rfl <;> rfl
    · cases List.mem_singleton.mp impossible
  obtain ⟨subject, sender, messageId⟩ := greeting_headers (.text "Hello") "us-ascii"
  refine ⟨fun header there => ?_, fun header there => ?_, fun bytes high there => ?_,
    .inr ⟨_, _, "hi", rfl, rfl, rfl⟩⟩
  · rw [subject] at there
    cases there
    exact plain _ (.inl rfl)
  · rw [sender] at there
    cases there
    exact plain _ (.inr rfl)
  · rw [messageId] at there
    cases there

/-- A mailbox with an email in ASCII is fetched. -/
theorem greeting_fetched : ∃ raws, IMAPClient.fetchMessages asciiLib 1000
    (greetingServer "us-ascii") "INBOX" none 100 = .ok raws := by
  refine ((emails_parsed_iff asciiLib_lacksUnknown 1000 (greetingServer "us-ascii")
    "INBOX").2.2 none 100).mpr ?_
  intro msgId there m fetched
  obtain rfl : msgId = 1 := by
    have only : IMAPClient.lastOf 100 (IMAPClient.search (greetingServer "us-ascii") none) = [1] := rfl
    rw [only] at there
    exact List.mem_singleton.mp there
  cases fetched
  exact ⟨_, asciiLib_reads, greeting_readable⟩

/-- A charset that Python does not know, which also fails the fetch, a subject that is not ASCII,
and an encoded word in an unknown charset. -/
theorem greetings_raise :
    (¬ ∃ raw, IMAPClient.parseMessage asciiLib 1000 (greetingServer "x-none") "INBOX" 1
      (greeting (.text "Hello") "x-none") = .ok raw) ∧
    (¬ ∃ raws, IMAPClient.fetchMessages asciiLib 1000 (greetingServer "x-none") "INBOX" none 100 =
      .ok raws) ∧
    (¬ ∃ raw, IMAPClient.parseMessage asciiLib 1000 (greetingServer "x-none") "INBOX" 1
      (greeting (.eightBit [228] rfl) "us-ascii") = .ok raw) ∧
    ¬ ∃ text, IMAPClient.decodeHeader asciiLib (.text "=?x-none?q?a?=") = .ok text := by
  have unknown : ¬ (greeting (.text "Hello") "x-none").Readable asciiLib 1000 := by
    intro readable
    rcases readable.body with nothing | decodes
    · cases nothing
    · obtain ⟨_, _, _, ⟨⟩, ⟨⟩, decoded⟩ := decodes
      cases decoded
  refine ⟨fun parsed => ?_, fun fetched => ?_, fun parsed => ?_, ?_⟩
  · exact unknown ((parseMessage_ok_iff asciiLib_lacksUnknown).mp parsed)
  · obtain ⟨msg, made, readable⟩ := (fetchMessages_ok_iff asciiLib_lacksUnknown).mp fetched 1
      (by decide) ⟨1, 0, greetingBytes "x-none"⟩ rfl
    cases asciiLib_reads_other.symm.trans made
    exact unknown readable
  · obtain ⟨subject, _⟩ := greeting_headers (.eightBit [228] rfl) "us-ascii"
    exact ((parseMessage_ok_iff asciiLib_lacksUnknown).mp parsed).subject _ subject
  · rintro ⟨text, impossible⟩
    cases impossible

end Example

end OmniSync
