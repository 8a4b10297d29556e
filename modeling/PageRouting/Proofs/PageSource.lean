import PageRouting.PageSource
import PageRouting.Proofs.Run

/-! What is asked of a page source when a reference is followed, and what sources have in common that know the
same classes. -/
namespace PageRouting

variable {W W' : Type}

namespace PageSource

/-- The same source with each call on it noted, and none of those that it makes in turn. -/
def watched (s : PageSource W) : PageSource W :=
  recorded ⟨fun cls ps => (s.create cls ps).muted, fun id cls count ps => (s.find id cls count ps).muted,
    fun name => (s.resolve name).muted⟩

theorem calls_record_muted {α : Type} (c : Call) (r : Run W α) (w : W) :
    ((Run.record c >>= fun _ => r.muted) w).calls = [c] := by
  rw [Run.calls_bind, Run.calls_muted]
  rfl

theorem calls_resolve_watched (s : PageSource W) (name : Text) (w : W) :
    (s.watched.resolve name w).calls = [.resolve name] :=
  calls_record_muted _ _ w

/-- Sources that give the same classes for any series of names. -/
def AgreesWith (s : PageSource W) (w : W) (s' : PageSource W') (w' : W') : Prop :=
  ∀ names : List Text, (names.mapM s.resolve w).answer = (names.mapM s'.resolve w').answer

/-- Sources that agree still do so after a name has been looked up. -/
theorem alike_resolve (s : PageSource W) (s' : PageSource W') (name : Text) :
    Run.Alike (fun w w' => s.AgreesWith w s' w') (s.resolve name) (s'.resolve name) := by
  intro w w' h
  have hcons (names : List Text) : (s.resolve name w).answer :: (names.mapM s.resolve (s.resolve name w).world).answer =
      (s'.resolve name w').answer :: (names.mapM s'.resolve (s'.resolve name w').world).answer := by
    rw [← Run.answer_mapM_cons, ← Run.answer_mapM_cons]
    exact h (name :: names)
  exact ⟨(List.cons.inj (hcons [])).1, fun names => (List.cons.inj (hcons names)).2⟩

/-- Steady sources agree if they give the same class for each name. -/
theorem agreesWith_of_steady {s : PageSource W} {s' : PageSource W'} (hs : Run.Steady s.resolve)
    (hs' : Run.Steady s'.resolve) {w : W} {w' : W'}
    (h : ∀ name, (s.resolve name w).answer = (s'.resolve name w').answer) : s.AgreesWith w s' w' := by
  intro names
  rw [hs.answer_mapM, hs'.answer_mapM, funext h]

end PageSource

namespace PageReference

/-- The calls that it takes to follow a reference. -/
def lookups (r : PageReference) : List Call :=
  match r.target with
  | .loaded _ => []
  | .fresh cls => if r.sourced then [.create cls r.parameters] else []
  | .stored id cls count => if r.sourced then [.find id cls count r.parameters] else []

theorem resolve_not_mem_lookups (r : PageReference) (name : Text) : Call.resolve name ∉ r.lookups := by
  obtain ⟨target, ps, sourced⟩ := r
  cases target <;> cases sourced <;> simp [lookups]

theorem calls_page_watched (s : PageSource W) (r : PageReference) (w : W) :
    (r.page s.watched w).calls = r.lookups := by
  obtain ⟨target, ps, sourced⟩ := r
  cases target with
  | loaded page => rfl
  | fresh cls =>
    cases sourced with
    | false => rfl
    | true => exact PageSource.calls_record_muted _ _ w
  | stored id cls count =>
    cases sourced with
    | false => rfl
    | true => exact PageSource.calls_record_muted _ _ w

theorem world_page_watched (s : PageSource W) (r : PageReference) (w : W) :
    (r.page s.watched w).world = (r.page s w).world := by
  obtain ⟨target, ps, sourced⟩ := r
  cases target with
  | loaded page => rfl
  | fresh cls => cases sourced <;> rfl
  | stored id cls count => cases sourced <;> rfl

end PageReference
end PageRouting
