/-
Operands with operators between them, put together by how tightly the operators bind.

* `OperatorChain.cut`: a chain cut at some of its operators.
* `OperatorChain.resolve`: one operand, for operators given level by level from the loosest on.
  Operators of one level are taken from left to right.
-/

namespace MplsReach

/-- An operand, and further ones behind their operators. -/
structure OperatorChain (α ω : Type) where
  first : α
  rest : List (ω × α)

namespace OperatorChain

variable {α ω : Type}

/-- The chains between some of the operators. -/
def cut (p : ω → Bool) (first : α) :
    List (ω × α) → OperatorChain α ω × List (ω × OperatorChain α ω)
  | [] => (⟨first, []⟩, [])
  | (op, a) :: rest =>
    let (chain, chains) := cut p a rest
    if p op then (⟨first, []⟩, (op, chain) :: chains)
    else (⟨first, (op, chain.first) :: chain.rest⟩, chains)

/-- The operand that a chain amounts to; operators of no level are passed over. -/
def resolve (join : ω → α → α → α) : List (ω → Bool) → OperatorChain α ω → α
  | [], c => c.first
  | p :: levels, c =>
    let (chain, chains) := cut p c.first c.rest
    chains.foldl (fun a (op, c) => join op a (resolve join levels c)) (resolve join levels chain)

end OperatorChain

end MplsReach
