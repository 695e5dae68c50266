import CrudLayers.Program.Call

namespace CrudLayers

inductive Program (α : Type) where
  | done (a : α)
  | ask (call : Call) (next : call.Reply → Program α)

namespace Program

def bind {α β : Type} : Program α → (α → Program β) → Program β
  | done a, f => f a
  | ask call next, f => ask call (fun reply => (next reply).bind f)

instance : Monad Program where
  pure := done
  bind := bind

def call (c : Call) : Program c.Reply :=
  ask c done

theorem bind_assoc {α β γ : Type} (p : Program α) (f : α → Program β) (g : β → Program γ) :
    (p.bind f).bind g = p.bind (fun a => (f a).bind g) := by
  induction p with
  | done a => rfl
  | ask c next ih => exact congrArg (ask c) (funext ih)

end Program

/-- A program that may give up with a fault. -/
abbrev Attempt (ε α : Type) :=
  ExceptT ε Program α

def ask {ε : Type} (c : Call) : Attempt ε c.Reply :=
  ExceptT.lift (Program.call c)

/-- Makes one call that may fail and gives up with a fault of its own if it does. -/
def attempt {ε α : Type} (p : Program (Except DiskFault α)) (fault : DiskFault → ε) : Attempt ε α :=
  ExceptT.mk (p.bind (fun reply => .done (reply.mapError fault)))

end CrudLayers
