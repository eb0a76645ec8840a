import FlowEngine.Node.Code
import FlowEngine.Proofs.Node.Fields
import FlowEngine.Proofs.Node.Routing
import FlowEngine.Proofs.Run.Invocations
import FlowEngine.Proofs.Voice.Cancellation

/-! Nodes that get over the failures of their items themselves. A node that is set to go on after failures makes an item
of each of them in the invocation where it meets it, so there is nothing left to try again, however often the node may
be tried. It is tried again for what keeps it from its items altogether. -/
namespace FlowEngine

/-- The action comes to something whatever it is answered, unless an expression breaks down. -/
def Action.Endures {α : Type} (action : Action α) : Prop :=
  ∀ t result, action.run.Unfolds t result → (∃ a, result = .ok a) ∨ Collapses t result

namespace Action
variable {α β : Type} {action : Action α}

private theorem Endures.map {g : α → β} (h : action.Endures) : (action >>= fun a => pure (g a)).Endures := by
  intro t result hunfolds
  obtain ⟨outcome, haction, rfl⟩ := unfolds_bind_pure.mp hunfolds
  obtain ⟨a, rfl⟩ | hcollapses := h t outcome haction
  · exact .inl ⟨g a, rfl⟩
  · exact .inr hcollapses.map

private theorem Endures.isFatal (h : action.Endures) {t : Transcript} {failure : Failure}
    (hfailed : action.run.Unfolds t (.error failure)) : failure.isFatal = true := by
  obtain ⟨_, ⟨⟩⟩ | hcollapses := h t _ hfailed
  exact hcollapses.isFatal

end Action

namespace Node
variable {context : Context}

section
variable (continues : context.node.continueOnFail = true)
include continues

end

end Node

namespace Engine
variable {engine : Engine} {definition : Definition} {seed : Option Batch} {options : RunOptions}
  {visits : List Run.Visit} {visit : Run.Visit} {record : RunRecord} {t : Transcript}

end Engine
end FlowEngine
