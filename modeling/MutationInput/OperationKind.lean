/-!
# Kinds of operation

A document asks for a query, a mutation or a subscription.
-/
namespace MutationInput

/-- The kind of an operation. -/
inductive OperationKind where
  | query
  | mutation
  | subscription
  deriving DecidableEq, Repr, Inhabited

/-- The word for a kind of operation. -/
def OperationKind.word : OperationKind → String
  | .query => "query"
  | .mutation => "mutation"
  | .subscription => "subscription"

end MutationInput
