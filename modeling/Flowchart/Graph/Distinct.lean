/-!
# `Flowchart.Graph.Distinct`: lists without repetitions

Items count as the same when they show the same face. Of those that do, the
first one is kept.
-/

set_option autoImplicit false

namespace Flowchart

variable {ε φ : Type} [DecidableEq φ]

/-- The items whose faces are not among the ones seen, each face once. -/
def distinctFrom (face : ε → φ) (seen : List φ) : List ε → List ε
  | [] => []
  | item :: rest =>
    if face item ∈ seen then distinctFrom face seen rest
    else item :: distinctFrom face (face item :: seen) rest

/-- Items without repetitions, in order, the first of each face kept. -/
def distinctBy (face : ε → φ) (items : List ε) : List ε :=
  distinctFrom face [] items

end Flowchart
