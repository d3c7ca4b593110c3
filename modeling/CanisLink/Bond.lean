import CanisLink.Protocol
import CanisLink.HashMap
import Mathlib.Data.List.Sort
import Mathlib.Algebra.Order.Field.Rat
/-!
# Bond — the mutual bond graph of `crates/bond`
-/
namespace CanisLink

/-- Directed weights; mutual required for eligibility. -/
structure BondGraph where
  edges : HashMap (DogId × DogId) Rat := ∅

namespace BondGraph

/-- `w.clamp(0.0, 1.0)`. -/
def clamp (w : Rat) : Rat := max 0 (min w 1)

def setWeight (g : BondGraph) (a b : DogId) (weight : Rat) : BondGraph :=
  { edges := AList.insert (a, b) (clamp weight) g.edges }

/-- Bootstrap a mutual pair (steward). -/
def bootstrapMutual (g : BondGraph) (a b : DogId) (weight : Rat) : BondGraph :=
  let w := max (clamp weight) W_MIN
  (g.setWeight a b w).setWeight b a w

def weight (g : BondGraph) (a b : DogId) : Rat := (AList.lookup (a, b) g.edges).getD 0

def mutualEligible (g : BondGraph) (a b : DogId) : Bool :=
  decide (g.weight a b ≥ W_MIN) && decide (g.weight b a ≥ W_MIN)

/-- Peers dog may call, sorted by weight desc; equal weights stay in iteration order. -/
def candidates (ord : IterOrder) (g : BondGraph) (dog : DogId) : List (DogId × Rat) :=
  ((ord.visit g.edges.entries).filterMap (fun e =>
    if e.1.1 = dog ∧ e.2 ≥ W_MIN ∧ g.weight e.1.2 dog ≥ W_MIN then some (e.1.2, e.2) else none)).insertionSort
    (fun a b => b.2 ≤ a.2)

end BondGraph
end CanisLink
