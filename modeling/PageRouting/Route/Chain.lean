import PageRouting.Route

/-! Chains of routes, and trees of chains. -/
namespace PageRouting

variable {W : Type}

/-- A member of a chain with its position and its score for an address. -/
structure Candidate (W : Type) where
  score : Int
  index : Nat
  route : Route W

namespace Candidate

/-- The members of a chain with their scores, each asked once and in order. -/
def scored (u : Url) (routes : List (Route W)) : Run W (List (Candidate W)) :=
  routes.zipIdx.mapM fun (route, index) => do return ⟨← route.score u, index, route⟩

/-- Higher scores first; equal ones stay in the order of the chain. -/
def ranked (cs : List (Candidate W)) : List (Candidate W) := cs.mergeSort fun a b => b.score ≤ a.score

/-- The first handler that a candidate answers. -/
def dispatch (u : Url) : List (Candidate W) → Run W (Option Handler)
  | [] => return none
  | c :: cs => do
    match ← c.route.dispatch u with
    | some h =>
      .log (.requestMapped c.index c.score h.kind)
      return some h
    | none => dispatch u cs

end Candidate

namespace Route

/-- The first address that a route answers, in the order of the chain. -/
def linkFirst (h : Handler) : List (Route W × Nat) → Run W (Option Url)
  | [] => return none
  | (route, index) :: rest => do
    match ← route.link h with
    | some u =>
      .log (.handlerMapped index h.kind u)
      return some u
    | none => linkFirst h rest

/-- Addresses go to the routes by score, handlers by position. A chain fits as well as the best of
its routes, and an empty one with score zero. -/
def chain (routes : List (Route W)) : Route W where
  score u := do return ((← routes.mapM (·.score u)).max?).getD 0
  dispatch u := do Candidate.dispatch u (Candidate.ranked (← Candidate.scored u routes))
  link h := linkFirst h routes.zipIdx

end Route

/-- Chains within chains, over leaves of any kind. -/
inductive RouteTree (α : Type)
  | leaf (value : α)
  | chain (children : List (RouteTree α))

instance {α : Type} : Inhabited (RouteTree α) := ⟨.chain []⟩

namespace RouteTree
variable {α : Type}

mutual

/-- The route of a tree, given those of its leaves. -/
def toRoute (f : α → Route W) : RouteTree α → Route W
  | .leaf a => f a
  | .chain ts => .chain (toRoutes f ts)

def toRoutes (f : α → Route W) : List (RouteTree α) → List (Route W)
  | [] => []
  | t :: ts => t.toRoute f :: toRoutes f ts

end

mutual

/-- The leaves from left to right. -/
def leaves : RouteTree α → List α
  | .leaf a => [a]
  | .chain ts => leavesOf ts

def leavesOf : List (RouteTree α) → List α
  | [] => []
  | t :: ts => t.leaves ++ leavesOf ts

end

end RouteTree
end PageRouting
