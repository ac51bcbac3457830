import OmniSync.Imap.Service

/-!
# How an email is parsed

A server delivers an email as bytes. The library makes headers of them, which are texts or bytes
that are not ASCII, and a tree of parts. The code decodes both with the charsets that the sender
has declared. Any of this may fail, and with it the whole fetch.
-/

namespace OmniSync

/-- A header. The library wraps one whose bytes are not ASCII into an object. -/
inductive HeaderValue where
  | text (text : String)
  | eightBit (bytes : List UInt8) (high : bytes.any (fun byte => decide (128 ≤ byte)) = true)
  deriving DecidableEq, Repr

/-- A piece of a header: a text, or bytes with a charset. -/
inductive HeaderPart where
  | text (text : String)
  | bytes (bytes : List UInt8) (charset : Option String)
  deriving DecidableEq, Repr

/-- A part of an email. A leaf has the charset that it declares and the bytes that its transfer
encoding decodes to, unless the library fails to make them out. -/
inductive Mime where
  | leaf (contentType : String) (charset : Except Exn (Option String))
      (payload : Except Exn (Option (List UInt8)))
  | multipart (contentType : String) (parts : List Mime)

/-- `get_content_type`. -/
def Mime.contentType : Mime → String
  | leaf contentType _ _ => contentType
  | multipart contentType _ => contentType

/-- An email. The root of its parts is the email itself. -/
structure Email where
  headers : List (String × HeaderValue)
  body : Mime

/-- The name without regard to case. -/
def caseless (name : String) : List Char := name.toList.map Char.toLower

/-- `msg.get(name)`. -/
def Email.get (msg : Email) (name : String) : Option HeaderValue :=
  (msg.headers.find? (fun header => caseless header.1 = caseless name)).map Prod.snd

/-- What the libraries do for the code. `messageFromBytes` reads headers and parts, `decode`
replaces the bytes that a charset does not have, and `decodeHeader` splits a header into its
encoded words. -/
structure MailLib where
  messageFromBytes : List UInt8 → Except Exn Email
  decodeHeader : String → Except Exn (List HeaderPart)
  decode : String → List UInt8 → Except Exn String
  parsedate : HeaderValue → Except Exn Datetime

/-- `text.strip()`, for a text of ASCII characters. -/
def stripped (text : String) : String :=
  let blank := fun c : Char => (9 ≤ c.toNat && c.toNat ≤ 13) || (28 ≤ c.toNat && c.toNat ≤ 32)
  String.ofList ((text.toList.dropWhile blank).reverse.dropWhile blank).reverse

namespace IMAPClient

/-- `charset or "utf-8"`. -/
def charsetOr : Option String → String
  | some charset => if charset = "" then "utf-8" else charset
  | none => "utf-8"

def decodePart (lib : MailLib) : HeaderPart → Except Exn String
  | .text text => .ok text
  | .bytes bytes charset => lib.decode (charsetOr charset) bytes

/-- The pieces of a header. The library gives the bytes of an object a charset of its own. -/
def headerParts (lib : MailLib) : HeaderValue → Except Exn (List HeaderPart)
  | .text text => lib.decodeHeader text
  | .eightBit bytes _ => .ok [.bytes bytes (some "unknown-8bit")]

def decodeHeader (lib : MailLib) (header : HeaderValue) : Except Exn String :=
  if header = .text "" then .ok ""
  else do
    let parts ← headerParts lib header
    return " ".intercalate (← parts.mapM (decodePart lib))

/-- The Message-ID. Both spellings name one header. -/
def messageId (msg : Email) : Except Exn String :=
  match msg.get "Message-ID" with
  | some (.text text) => .ok (stripped text)
  | some (.eightBit _ _) => .error ⟨"AttributeError", "'Header' object has no attribute 'strip'"⟩
  | none => .ok ""

/-- The first part of a plain text, with `frames` nested generators left. -/
def firstPlain : Nat → Mime → Except Exn (Option Mime)
  | 0, _ => .error ⟨"RecursionError", "maximum recursion depth exceeded"⟩
  | frames + 1, part =>
      if part.contentType = "text/plain" then .ok (some part)
      else match part with
        | .leaf .. => .ok none
        | .multipart _ parts => parts.findSomeM? (firstPlain frames)

/-- The text of a part. A multipart has no bytes of its own. -/
def decodeBody (lib : MailLib) : Mime → Except Exn String
  | .leaf _ charset payload => do
      match ← payload with
      | some bytes => lib.decode (charsetOr (← charset)) bytes
      | none => return ""
  | .multipart .. => .ok ""

def bodyOf (lib : MailLib) (frames : Nat) (msg : Email) : Except Exn String :=
  match msg.body with
  | .leaf .. => decodeBody lib msg.body
  | .multipart .. => do
      match ← firstPlain frames msg.body with
      | some part => decodeBody lib part
      | none => return ""

/-- The date, unless the header cannot be read. -/
def dateOf (lib : MailLib) (msg : Email) : Option Datetime :=
  match msg.get "Date" with
  | some header => if header = .text "" then none else (lib.parsedate header).toOption
  | none => none

/-- The headers and the text of an email. -/
def decodeEmail (lib : MailLib) (frames : Nat) (msg : Email) : Except Exn Letter := do
  let subject ← decodeHeader lib ((msg.get "Subject").getD (.text ""))
  let sender ← decodeHeader lib ((msg.get "From").getD (.text ""))
  let messageId ← messageId msg
  let body ← bodyOf lib frames msg
  return ⟨messageId, subject, sender, dateOf lib msg, body⟩

section Fetch

variable {α : Type} (lib : MailLib) (frames : Nat)

def parseMessage (server : MailServer α) (folder : String) (msgId : Nat) (msg : Email) :
    Except Exn RawMessage := do
  let letter ← decodeEmail lib frames msg
  return messageOf server folder msgId letter

/-- What is made of the bytes of an email. -/
def parseBytes (server : MailServer α) (folder : String) (msgId : Nat) (rawEmail : List UInt8) :
    Except Exn RawMessage := do
  let msg ← lib.messageFromBytes rawEmail
  parseMessage lib frames server folder msgId msg

/-- One iteration of the loop over the sequence numbers. What is not delivered is skipped. -/
def collectEmail (server : MailServer (List UInt8)) (folder : String)
    (messages : List RawMessage) (msgId : Nat) : Except Exn (List RawMessage) :=
  match fetch server msgId with
  | none => return messages
  | some m => return messages ++ [← parseBytes lib frames server folder msgId m.email]

/-- The messages of a mailbox, if no command to the server fails. -/
def fetchMessages (server : MailServer (List UInt8)) (folder : String) (since : Option Datetime)
    (limit : Nat := 100) : Except Exn (List RawMessage) :=
  (lastOf limit (search server since)).foldlM (collectEmail lib frames server folder) []

end Fetch

end IMAPClient

end OmniSync
