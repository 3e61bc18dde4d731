import AgentBridge.Records.Error
import AgentBridge.Model

/-! # Host-authorized child execution -/

namespace AgentBridge

structure DelegationGrant where
  issuer : ActorId
  subject : ActorId
  parent : RunId
  context : ContextManifest
  tools : List ToolRef
deriving DecidableEq

structure ExecutionRelation where
  parent : RunId
  child : RunId
  parentAuthority : ToolGrant
  delegation : DelegationGrant
  childAuthority : ToolGrant
deriving DecidableEq

namespace ExecutionRelation

def validate (relation : ExecutionRelation) (parent child : RunSpec) : Except StoreError Unit :=
  let parentScope : ToolScope := ⟨parent.sessionId, parent.slotId⟩
  let childScope : ToolScope := ⟨child.sessionId, child.slotId⟩
  if relation.parent = relation.child ∨
      relation.parent ≠ parent.id ∨
      relation.child ≠ child.id ∨
      relation.delegation.parent ≠ parent.id ∨
      parent.sessionId ≠ child.sessionId ∨
      child.continuation.isSome ∨
      relation.parentAuthority.scope ≠ parentScope ∨
      relation.childAuthority.scope ≠ childScope ∨
      relation.parentAuthority.issuer ≠ relation.delegation.issuer ∨
      relation.childAuthority.issuer ≠ relation.delegation.issuer ∨
      relation.parentAuthority.subject ≠ relation.delegation.subject ∨
      (relation.childAuthority.tools.any fun tool =>
        !relation.parentAuthority.tools.contains tool ||
          !relation.delegation.tools.contains tool) ∨
      (child.context.records.any fun id => !relation.delegation.context.records.contains id) ∨
      (child.context.resources.any fun reference =>
        !relation.delegation.context.resources.contains reference) ∨
      (child.context.instructions.any fun reference =>
        !relation.delegation.context.instructions.contains reference) then
    .error .invalidExecutionRelation
  else .ok ()

theorem validate_ne {relation : ExecutionRelation} {parent child : RunSpec}
    (h : relation.validate parent child = .ok ()) : relation.parent ≠ relation.child := by
  unfold validate at h
  intro heq
  rw [if_pos (.inl heq)] at h
  cases h

end ExecutionRelation

end AgentBridge
