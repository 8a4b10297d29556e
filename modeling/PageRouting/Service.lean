import PageRouting.Route

/-! Serving a request: it is mapped and responded to, failures are recovered from, and every handler
is let go again. -/
namespace PageRouting

/-- Is told about requests. -/
structure Observer (W : Type) where
  begun : Url → Run W Unit
  ended : Url → Run W Unit
  failed : Url → RoutingError → Run W Unit

/-- Produces responses and releases what they held. -/
structure Executor (W : Type) where
  respond : Handler → Run W (Except RoutingError Unit)
  detach : Handler → Run W Unit

/-- Chooses the handler that responds in place of one that failed. -/
abbrev Recovery (W : Type) := RoutingError → Run W (Option Handler)

structure Service (W : Type) where
  route : Route W
  executor : Executor W
  recovery : Recovery W
  observers : List (Observer W) := []

namespace Service
variable {W : Type}

/-- Responds once more in place of a handler that failed; a second failure is only reported. -/
def replace (s : Service W) (h : Handler) : Run W Unit := do
  match ← s.executor.respond h with
  | .ok () => s.executor.detach h
  | .error e =>
    .log (.recoveryFailed h.kind e)
    s.executor.detach h

/-- What follows a response. After a failure the observers are told before a replacement is sought. -/
def settle (s : Service W) (observers : List (Observer W)) (u : Url) (h : Handler) :
    Except RoutingError Unit → Run W Unit
  | .ok () => return ()
  | .error e => do
    .log (.responseFailed h.kind e)
    observers.forM fun o => o.failed u e
    match ← s.recovery e with
    | some replacement => s.replace replacement
    | none => return ()

/-- Responds to a handler, and detaches it after any replacement. -/
def execute (s : Service W) (observers : List (Observer W)) (u : Url) (h : Handler) : Run W Unit := do
  s.settle observers u h (← s.executor.respond h)
  s.executor.detach h

/-- Whether there was a handler to execute. -/
def answer (s : Service W) (observers : List (Observer W)) (u : Url) : Option Handler → Run W Bool
  | some h => do
    s.execute observers u h
    return true
  | none => do
    .log (.requestUnmatched u)
    return false

/-- Serves a request and answers whether a route knew its address. Observers of this request alone
come after those of the service. -/
def serve (s : Service W) (own : List (Observer W)) (u : Url) : Run W Bool := do
  let observers := s.observers ++ own
  .log (.requestStarted u)
  observers.forM fun o => o.begun u
  let handled ← s.answer observers u (← s.route.dispatch u)
  observers.forM fun o => o.ended u
  .log (.requestFinished u handled)
  return handled

end Service
end PageRouting
