import Mathlib
import SignedNames.Publisher

/-!
# Requests of programs

What a program asks for and how it ends, whatever the replies are, and how operations go on after a
reply.
-/
namespace SignedNames

namespace Program

variable {α β : Type}

def Asks (P : Request → Prop) : Program α → Prop
  | .done _ => True
  | .ask r next => P r ∧ ∀ reply, (next reply).Asks P

def Ends (Q : α → Prop) : Program α → Prop
  | .done a => Q a
  | .ask _ next => ∀ reply, (next reply).Ends Q

def asked {σ : Type} (b : Backend σ) : Program α → σ → List Request
  | .done _, _ => []
  | .ask r next, s => r :: asked b (next (b r s).1) (b r s).2

@[simp] theorem bind_done (a : α) (f : α → Program β) : (Program.done a).bind f = f a := rfl

@[simp] theorem bind_ask (r : Request) (next : r.Reply → Program α) (f : α → Program β) :
    (Program.ask r next).bind f = .ask r fun reply => (next reply).bind f := rfl

theorem bind_assoc {γ : Type} (p : Program α) (f : α → Program β) (g : β → Program γ) :
    (p.bind f).bind g = p.bind fun a => (f a).bind g := by
  induction p with
  | done a => rfl
  | ask r next ih => simp only [bind_ask, ih]

theorem Asks.bind {P : Request → Prop} {p : Program α} {f : α → Program β} (hp : p.Asks P)
    (hf : ∀ a, (f a).Asks P) : (p.bind f).Asks P := by
  induction p with
  | done a => exact hf a
  | ask r next ih => exact ⟨hp.1, fun reply => ih reply (hp.2 reply)⟩

theorem Asks.mono {P Q : Request → Prop} {p : Program α} (h : p.Asks P) (hPQ : ∀ r, P r → Q r) :
    p.Asks Q := by
  induction p with
  | done a => trivial
  | ask r next ih => exact ⟨hPQ r h.1, fun reply => ih reply (h.2 reply)⟩

theorem Ends.bind {Q : α → Prop} {R : β → Prop} {p : Program α} {f : α → Program β}
    (hp : p.Ends Q) (hf : ∀ a, Q a → (f a).Ends R) : (p.bind f).Ends R := by
  induction p with
  | done a => exact hf a hp
  | ask r next ih => exact fun reply => ih reply (hp reply)

theorem Ends.mono {Q R : α → Prop} {p : Program α} (h : p.Ends Q) (hQR : ∀ a, Q a → R a) :
    p.Ends R := by
  induction p with
  | done a => exact hQR a h
  | ask r next ih => exact fun reply => ih reply (h reply)

theorem ends_of_forall {Q : α → Prop} (h : ∀ a, Q a) (p : Program α) : p.Ends Q := by
  induction p with
  | done a => exact h a
  | ask r next ih => exact fun reply => ih reply

theorem run_ask {σ : Type} (b : Backend σ) (r : Request) (next : r.Reply → Program α) (s : σ) :
    (Program.ask r next).run b s = (next (b r s).1).run b (b r s).2 := rfl

theorem run_bind {σ : Type} (b : Backend σ) (p : Program α) (f : α → Program β) (s : σ) :
    (p.bind f).run b s = (f (p.run b s).1).run b (p.run b s).2 := by
  induction p generalizing s with
  | done a => rfl
  | ask r next ih => exact ih _ _

theorem asked_bind {σ : Type} (b : Backend σ) (p : Program α) (f : α → Program β) (s : σ) :
    (p.bind f).asked b s = p.asked b s ++ (f (p.run b s).1).asked b (p.run b s).2 := by
  induction p generalizing s with
  | done a => rfl
  | ask r next ih => exact congrArg (r :: ·) (ih _ _)

end Program

namespace Operation

variable {α β : Type}

def program (o : Operation α) : Program (Except OperationError α) := ExceptT.run o

def after (f : α → Operation β) : Except OperationError α → Program (Except OperationError β)
  | .ok a => (f a).program
  | .error e => .done (.error e)

lemma program_bind (o : Operation α) (f : α → Operation β) :
    (o >>= f).program = o.program.bind (after f) := by
  change o.program.bind _ = _
  congr 1
  funext outcome
  cases outcome <;> rfl

@[simp] theorem program_check (outcome : Except DataError α) :
    (check outcome).program = .done (outcome.mapError .data) := rfl

@[simp] theorem program_attempt (o : Operation α) :
    o.attempt.program = o.program.bind fun outcome => .done (.ok outcome) := rfl

lemma program_map (f : α → β) (o : Operation α) :
    (f <$> o).program = o.program.bind fun outcome => .done (outcome.map f) := by
  change o.program.bind _ = _
  congr 1
  funext outcome
  cases outcome <;> rfl

@[simp] theorem after_ok (f : α → Operation β) (a : α) : after f (.ok a) = (f a).program := rfl

@[simp] theorem after_mapError_ok {ε : Type} (f : α → Operation β) (g : ε → OperationError)
    (a : α) : after f ((Except.ok a : Except ε α).mapError g) = (f a).program := rfl

theorem program_ask_bind (r : Request) (f : r.Answer → Operation β) :
    (ask r >>= f).program = .ask r fun reply => after f (reply.mapError .store) := by
  rw [program_bind]
  rfl

theorem program_putChunk_bind (c : Chunk) (f : Cid → Operation β) :
    (access (Access.putChunk c) >>= f).program =
      .ask (.put c.bytes) fun reply => after f (reply.mapError .store) := by
  rw [program_bind]
  rfl

/-- The rest of an access, as part of an operation, after the reply to a request. -/
def afterReply (f : α → Access β) : Except StoreError α → Program (Except OperationError β)
  | .ok a => (access (f a)).program
  | .error e => .done (.error (.store e))

theorem program_access_bind (r : Request) (f : r.Answer → Access β) :
    (access (Access.ask r >>= f)).program = .ask r (afterReply f) := by
  change Program.ask r (fun reply => Program.bind (ExceptT.bindCont f reply) _) = _
  congr 1
  funext reply
  cases reply <;> rfl

theorem program_access_putChunk (c : Chunk) (f : Cid → Access β) :
    (access (Access.putChunk c >>= f)).program = .ask (.put c.bytes) (afterReply f) :=
  program_access_bind ..

theorem asks_bind {P : Request → Prop} {o : Operation α} {f : α → Operation β}
    (ho : o.program.Asks P) (hf : ∀ a, (f a).program.Asks P) : (o >>= f).program.Asks P := by
  rw [program_bind]
  refine ho.bind fun outcome => ?_
  cases outcome with
  | ok a => exact hf a
  | error e => trivial

end Operation
end SignedNames
