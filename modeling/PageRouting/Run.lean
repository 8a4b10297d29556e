import PageRouting.Event

/-! Actions over a world, which note the events they report and the calls they make on others. -/
namespace PageRouting

/-- A call on a collaborator. -/
inductive Call
  | create (cls : PageClass) (parameters : Parameters)
  | find (id : UInt32) (cls : Option PageClass) (renderCount : Option UInt32) (parameters : Parameters)
  | resolve (name : Text)
  | dispatch (route : Text)
  | link (route : Text)
  | requestBegun (observer : Text) (url : Url)
  | requestEnded (observer : Text) (url : Url)
  | requestFailed (observer : Text) (url : Url) (error : RoutingError)
  /-- A response with the id of the page that it came from. -/
  | respond (handler : Handler) (result : Except RoutingError UInt32)
  | detach (handler : Handler)
  | recover (error : RoutingError) (replacement : Option Handler)

inductive Note
  | event (event : Event)
  | call (call : Call)

namespace Note

def event? : Note → Option Event
  | .event e => some e
  | .call _ => none

def call? : Note → Option Call
  | .event _ => none
  | .call c => some c

end Note

structure Outcome (W α : Type) where
  answer : α
  notes : List Note
  world : W

namespace Outcome

def events {W α : Type} (o : Outcome W α) : List Event := o.notes.filterMap Note.event?

def calls {W α : Type} (o : Outcome W α) : List Call := o.notes.filterMap Note.call?

end Outcome

/-- From a world to an answer, the notes made on the way, in order, and the world left behind. -/
def Run (W α : Type) : Type := W → Outcome W α

namespace Run
variable {W α β : Type}

protected def pure (a : α) : Run W α := fun w => ⟨a, [], w⟩

protected def bind (m : Run W α) (f : α → Run W β) : Run W β := fun w =>
  let first := m w
  let second := f first.answer first.world
  ⟨second.answer, first.notes ++ second.notes, second.world⟩

instance : Monad (Run W) where
  pure := Run.pure
  bind := Run.bind

@[simp] theorem pure_apply (a : α) (w : W) : (pure a : Run W α) w = ⟨a, [], w⟩ := rfl

theorem bind_apply (m : Run W α) (f : α → Run W β) (w : W) :
    (m >>= f) w = ⟨(f (m w).answer (m w).world).answer,
      (m w).notes ++ (f (m w).answer (m w).world).notes, (f (m w).answer (m w).world).world⟩ := rfl

@[simp] theorem bind_answer (m : Run W α) (f : α → Run W β) (w : W) :
    ((m >>= f) w).answer = (f (m w).answer (m w).world).answer := rfl

@[simp] theorem bind_notes (m : Run W α) (f : α → Run W β) (w : W) :
    ((m >>= f) w).notes = (m w).notes ++ (f (m w).answer (m w).world).notes := rfl

@[simp] theorem bind_world (m : Run W α) (f : α → Run W β) (w : W) :
    ((m >>= f) w).world = (f (m w).answer (m w).world).world := rfl

instance : LawfulMonad (Run W) := LawfulMonad.mk' (Run W)
  (fun m => by funext w; change Run.bind m Run.pure w = m w; simp [Run.bind, Run.pure])
  (fun _ _ => rfl)
  (fun _ _ _ => by funext w; simp [bind_apply])

def note (n : Note) : Run W Unit := fun w => ⟨(), [n], w⟩

def log (e : Event) : Run W Unit := note (.event e)

def logAll (es : List Event) : Run W Unit := fun w => ⟨(), es.map .event, w⟩

def record (c : Call) : Run W Unit := note (.call c)

/-- The world as it is. -/
def world : Run W W := fun w => ⟨w, [], w⟩

def setWorld (w : W) : Run W Unit := fun _ => ⟨(), [], w⟩

end Run
end PageRouting
