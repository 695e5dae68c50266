import CrudLayers.Proofs.Delegation
import CrudLayers.Proofs.JsonReading
import CrudLayers.Proofs.Resolution
import CrudLayers.Proofs.ResolverText
import CrudLayers.Proofs.Stages

namespace CrudLayers

section Reading

namespace Json

end Json

namespace Directive

end Directive

end Reading

section Cells

end Cells

section Rows

variable {b : Blueprint} {names : ModuleNames}

namespace Blueprint

end Blueprint

end Rows

namespace CommandLine

variable {s : Surroundings} {c : Config} {flags : Overrides} {n : EntityName}

theorem run_noteAll (events : List Event) (scene : Scene) :
    (noteAll events).run scene = ((), { scene with noted := scene.noted ++ events }) := by
  induction events generalizing scene with
  | nil =>
    rw [List.append_nil]
    rfl
  | cons event rest ih =>
    change (noteAll rest).run { scene with noted := scene.noted ++ [event] } = _
    rw [ih, List.append_assoc]
    rfl

section Order

open Blueprint (orderName)

end Order

end CommandLine

end CrudLayers
