import OmniSync.Database

/-!
# Webhook deliveries

A webhook request with a delivery id looks the delivery up and records it, in the session of its
work. How the work has ended is written after the commit, or after the rollback.
-/

namespace OmniSync

open Txn

/-- Record a delivery, if there is one, unless it is known. The answer is whether it is known. -/
def claimDelivery (delivery : Option (String × String)) : Tx Bool :=
  match delivery with
  | none => pure false
  | some key => do
      match ← Db.selectDelivery key with
      | some _ => return true
      | none =>
          let _ ← Db.insertDelivery (fun id receivedAt =>
            { id := id
              source := key.1
              deliveryId := key.2
              status := .processing
              receivedAt := receivedAt })
          return false

/-- Write how the work of a delivery has ended, if there is one. -/
def settleDelivery (delivery : Option (String × String)) (status : DeliveryStatus)
    (errorText : Option String) : Tx Unit :=
  match delivery with
  | none => pure ()
  | some key => Db.updateDelivery key status errorText

/-- The answer to a webhook request. -/
inductive WebhookResponse where
  | duplicate
  | processed (eventsCreated : Nat)
  deriving DecidableEq, Repr

/-- The text has ASCII characters only. -/
def isAscii (text : String) : Bool := text.toList.all (fun c => decide (c.toNat < 128))

/-- `hmac.compare_digest` of two texts. -/
def compareDigest (a b : String) : Except Exn Bool :=
  if isAscii a && isAscii b then .ok (decide (a = b))
  else .error ⟨"TypeError", "comparing strings with non-ASCII characters is not supported"⟩

/-- The secrets of the webhooks, and the digest that GitHub signs with. -/
structure WebhookSettings where
  GITHUB_WEBHOOK_SECRET : String := ""
  TELEGRAM_WEBHOOK_SECRET : String := ""
  hmacSha256 : String → String → String

end OmniSync
