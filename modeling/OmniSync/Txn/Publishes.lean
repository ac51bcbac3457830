import OmniSync.Txn.Answered
import OmniSync.Txn.History

/-!
# What a program may publish

`Prog.Publishes good` is a property of a program and of what it has pending: whatever its
statements are answered, every write set that it commits is `good`. A session keeps it in every
interleaving, since nothing is assumed of the answers.
-/

namespace Txn

variable {Stmt : Type} {Ans : Stmt → Type} {Err Store Write World Choice ι α β : Type}

namespace Prog

/-- Whatever the statements are answered, the program commits only good write sets. -/
def Publishes (E : Engine Ans Err Store Write World Choice) (good : List Write → Prop) :
    Prog Ans Err α → List Write → Prop
  | ret _, _ => True
  | raise _, _ => True
  | stmt s next, ws => (∀ e, (next (.error e)).Publishes E good ws) ∧
      ∀ choice world view locked answer new world',
        E.exec s choice world view locked = some (answer, new, world') →
          (next answer).Publishes E good (ws ++ new)
  | commit next, ws => good ws ∧ ∀ answer, (next answer).Publishes E good []
  | rollback next, _ => next.Publishes E good []

namespace Publishes

variable {E : Engine Ans Err Store Write World Choice} {good good' : List Write → Prop}
variable {p : Prog Ans Err α} {ws : List Write}

theorem mono (h : p.Publishes E good ws) (imp : ∀ ws, good ws → good' ws) :
    p.Publishes E good' ws := by
  induction p generalizing ws with
  | ret | raise => trivial
  | stmt s next ih =>
      exact ⟨fun e => ih _ (h.1 e), fun choice world view locked answer new world' run =>
        ih _ (h.2 choice world view locked answer new world' run)⟩
  | commit next ih => exact ⟨imp _ h.1, fun answer => ih _ (h.2 answer)⟩
  | rollback next ih => exact ih h

/-- What the program does after its last commit does not matter. -/
theorem bind_pure {f : α → β} (h : p.Publishes E good ws) :
    (p >>= fun a => pure (f a)).Publishes E good ws := by
  rw [bind_eq]
  induction p generalizing ws with
  | ret | raise => trivial
  | stmt s next ih =>
      exact ⟨fun e => ih _ (h.1 e), fun choice world view locked answer new world' run =>
        ih _ (h.2 choice world view locked answer new world' run)⟩
  | commit next ih => exact ⟨h.1, fun answer => ih _ (h.2 answer)⟩
  | rollback next ih => exact ih h

/-- A program commits what its statements write. -/
theorem of_issuing {allowed : Stmt → Prop} {ok : Write → Prop} (h : p.Issuing allowed)
    (each : ∀ s w, allowed s → E.Writes s w → ok w) (pending : ∀ w ∈ ws, ok w) :
    p.Publishes E (fun ws => ∀ w ∈ ws, ok w) ws := by
  have nothing : ∀ w ∈ ([] : List Write), ok w := fun _ hw => (List.not_mem_nil hw).elim
  induction p generalizing ws with
  | ret | raise => trivial
  | stmt s next ih =>
      refine ⟨fun e => ih _ (h.2 _) pending, ?_⟩
      intro choice world view locked answer new world' run
      refine ih _ (h.2 _) (fun w hw => ?_)
      rcases List.mem_append.mp hw with old | added
      · exact pending w old
      · exact each s w h.1 ⟨choice, world, view, locked, answer, new, world', run, added⟩
  | commit next ih => exact ⟨pending, fun answer => ih _ (h answer) nothing⟩
  | rollback next ih => exact ih h nothing

end Publishes

end Prog

variable {E : Engine Ans Err Store Write World Choice} {good : List Write → Prop}

/-- One move of a session that publishes good write sets only. -/
theorem Prog.Publishes.advance {i : ι} {locked : Write → Bool} {σ τ : Shared Store Write World ι}
    {session next : Session Ans Err Write α} {m : Move Err Choice}
    (h : session.prog.Publishes E good session.writes)
    (step : E.advance i locked σ session m = some (next, τ)) :
    next.prog.Publishes E good next.writes ∧
      (session.commits m = [] ∨ good (session.commits m)) := by
  obtain ⟨prog, ws⟩ := session
  cases m with
  | crash e =>
      have moved : (⟨.raise e, []⟩, σ) = (next, τ) := by cases prog <;> exact Option.some.inj step
      cases moved
      refine ⟨trivial, .inl ?_⟩
      cases prog <;> rfl
  | close => cases prog <;> cases step <;> exact ⟨trivial, .inl rfl⟩
  | fail e =>
      cases prog with
      | stmt s k =>
          simp only [Engine.advance] at step
          split at step
          · cases step
            exact ⟨h.1 e, .inl rfl⟩
          · cases step
      | commit k =>
          cases step
          exact ⟨h.2 _, .inl rfl⟩
      | _ => cases step
  | step choice =>
      cases prog with
      | ret a => cases step
      | raise e => cases step
      | stmt s k =>
          simp only [Engine.advance] at step
          split at step
          · cases step
          · rename_i answer new world run
            split at step
            · cases step
            · cases step
              exact ⟨h.2 _ _ _ _ _ _ _ run, .inl rfl⟩
      | commit k =>
          cases step
          exact ⟨h.2 _, .inr h.1⟩
      | rollback k =>
          cases step
          exact ⟨h, .inl rfl⟩

end Txn
