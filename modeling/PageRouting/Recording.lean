import PageRouting.PageSource
import PageRouting.Service

/-! Collaborators that note what they are asked for. -/
namespace PageRouting

variable {W : Type}

namespace Route

/-- The same route, noting each address and each handler that it is asked for. -/
def recorded (name : Text) (r : Route W) : Route W where
  score := r.score
  dispatch u := do
    .record (.dispatch name)
    r.dispatch u
  link h := do
    .record (.link name)
    r.link h

/-- A route that fits everything or nothing. Its name is the class that it leads to and the only
segment of its addresses. -/
def fixed (name : Text) (score : Int) (fits : Bool) : Route W where
  score _ := return score
  dispatch _ := return if fits then some (.bookmarkablePage ⟨name⟩ {}) else none
  link _ := return if fits then some ⟨[name], []⟩ else none

end Route

namespace Observer

def silent : Observer W where
  begun _ := return ()
  ended _ := return ()
  failed _ _ := return ()

/-- The same observer, noting each time that it is told of something. -/
def recorded (name : Text) (o : Observer W) : Observer W where
  begun u := do
    .record (.requestBegun name u)
    o.begun u
  ended u := do
    .record (.requestEnded name u)
    o.ended u
  failed u e := do
    .record (.requestFailed name u e)
    o.failed u e

end Observer

/-- Responds by resolving the page, except that handlers of some kinds fail with a given reason, and
notes each response. -/
def Executor.recording (pages : PageSource W) (failing : List HandlerKind) (reason : Text)
    (notesDetach : Bool) : Executor W where
  respond h := do
    let result ← if h.kind ∈ failing then pure (.error (.handlerFailed reason)) else h.resolve pages
    .record (.respond h (result.map (·.id)))
    return result.map fun _ => ()
  detach h := if notesDetach then .record (.detach h) else return ()

/-- A fixed choice of replacements, noted. -/
def Recovery.recording (choose : RoutingError → Option Handler) : Recovery W := fun e => do
  .record (.recover e (choose e))
  return choose e

end PageRouting
