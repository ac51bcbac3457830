import OmniSync.Github.Polling
import OmniSync.Github.Router
import OmniSync.Integrations.Verification
import OmniSync.Telegram.Router

/-!
# Webhook requests

The requests of both webhooks, and what they have in common: a request that passes the checks of
its handler is a logged one under the id of its delivery, and its work ingests.
-/

namespace OmniSync

open Txn

/-- What the handlers of the webhooks run with. -/
structure WebhookConfig where
  lib : DatetimeLib
  rt : Runtime
  settings : Settings
  webhooks : WebhookSettings

/-- A webhook request. The body of a Telegram one is read as JSON, or it is refused. -/
inductive Webhook where
  | github (body : String) (signature deliveryHeader : Option String)
  | telegram (token : Option String) (json : Except Exn Json)

namespace Webhook

/-- The handler of a webhook request. -/
def run (c : WebhookConfig) : Webhook → Tx WebhookResponse
  | github body signature deliveryHeader =>
      githubWebhook c.lib c.rt c.settings c.webhooks body signature deliveryHeader
  | telegram token json => telegramWebhook c.rt c.settings c.webhooks token json

/-- The source of the entry that a webhook request opens in the log. -/
def operation : Webhook → String
  | github _ _ _ => "github_webhook"
  | telegram _ _ => "telegram_webhook"

/-- The delivery of a webhook request, if it has a delivery id. -/
def delivery (c : WebhookConfig) : Webhook → Option (String × String)
  | github _ _ deliveryHeader => githubDelivery deliveryHeader
  | telegram _ json =>
      telegramDelivery c.rt (json.toOption.bind (fun body => (body.get? "update_id").toOption.join))

end Webhook

section Ingests

variable {lib : DatetimeLib} {rt : Runtime} {settings : Settings} {correlationId : String}

theorem upsertEvent_ingests (event : NormalizedEventCreate) (changedBy : Option String) :
    (NormalizedEventService.upsertEvent event changedBy).Within Stmt.Ingesting := by
  refine .bind (upsertEventsBulk_ingests _ _) (fun rows => ?_)
  cases rows <;> trivial

theorem githubWebhookRequest_ingests (body : String) (delivery : Option (String × String)) :
    ((githubWebhookRequest lib rt settings body delivery).body correlationId).Within
      Stmt.Ingesting := by
  refine .bind (ofAnswer_ingests _) (fun payload => ?_)
  refine .bind (saveRawPayload_ingests _ _ _) (fun id => ?_)
  refine .bind ?_ (fun events => .bind (upsertEventsBulk_ingests _ _) (fun _ => trivial))
  exact .bind (parseItems_ingests _ _ _ _) (fun _ => parseItems_ingests _ _ _ _)

theorem telegramWebhookRequest_ingests (body : Json) (delivery : Option (String × String)) :
    ((telegramWebhookRequest rt settings body delivery).body correlationId).Within
      Stmt.Ingesting := by
  refine .bind (ofAnswer_ingests _) (fun update => ?_)
  cases update.message with
  | none => trivial
  | some message =>
      refine .bind (saveRawPayload_ingests _ _ _) (fun id => .bind utcNow_ingests (fun now => ?_))
      refine .bind (ofAnswer_ingests _) (fun result => ?_)
      cases result with
      | none => trivial
      | some event => exact .bind (upsertEvent_ingests _ _) (fun _ => trivial)

end Ingests

/-- A webhook request is refused, or it is a logged one whose work ingests. -/
theorem Webhook.run_cases (c : WebhookConfig) (w : Webhook) :
    (∃ e, w.run c = throw e) ∨
      ∃ R : LoggedRequest Nat WebhookResponse, w.run c = R.received ∧ R.delivery = w.delivery c ∧
        R.operation = w.operation ∧ (∀ a, R.result a = .processed a) ∧
          ∀ cid, (R.body cid).Within Stmt.Ingesting := by
  cases w with
  | github body signature deliveryHeader =>
      simp only [run, githubWebhook_eq]
      cases verifyWebhookSignature c.webhooks body signature with
      | error e => exact .inl ⟨e, rfl⟩
      | ok verified =>
          cases verified with
          | false => exact .inl ⟨_, rfl⟩
          | true =>
              exact .inr ⟨_, rfl, rfl, rfl, fun _ => rfl,
                fun cid => githubWebhookRequest_ingests body _⟩
  | telegram token json =>
      simp only [run, telegramWebhook_eq]
      cases verifySecretToken c.webhooks token with
      | error e => exact .inl ⟨e, rfl⟩
      | ok _ =>
          cases json with
          | error e => exact .inl ⟨e, rfl⟩
          | ok body =>
              simp only [delivery, Except.toOption, Option.bind_some, Prog.ofAnswer_ok,
                Prog.bind_eq, Prog.ret_bind]
              cases body.get? "update_id" with
              | error e => exact .inl ⟨e, rfl⟩
              | ok updateId =>
                  exact .inr ⟨_, rfl, rfl, rfl, fun _ => rfl,
                    fun cid => telegramWebhookRequest_ingests body _⟩

end OmniSync
