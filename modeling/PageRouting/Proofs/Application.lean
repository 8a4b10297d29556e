import PageRouting.Proofs.Except
import PageRouting.Proofs.Registry

/-! Applications whose settings have been checked, and what the check establishes. -/
namespace PageRouting

namespace Settings

theorem checkSegment_eq_ok_iff (segment : ReservedSegment) {t : Text} :
    checkSegment segment t = .ok () ↔ isSegment t := by
  rw [checkSegment]
  split
  · next h => exact iff_of_true rfl h
  · next h => exact iff_of_false (fun he => nomatch he) h

/-- Settings are valid if every field passes its own check. -/
theorem validate_eq_ok_iff {s : Settings} :
    s.validate = .ok () ↔
      isSegment s.rootSegment ∧ isSegment s.pageSegment ∧ isSegment s.classSegment ∧
        s.pageSegment ≠ s.classSegment ∧ checkInterfaces [] s.interfaces = .ok () := by
  rw [← checkSegment_eq_ok_iff .root, ← checkSegment_eq_ok_iff .page, ← checkSegment_eq_ok_iff .byClass,
    validate]
  constructor
  · intro h
    obtain ⟨_, hr, h⟩ := except_bind_eq_ok_iff.mp h
    obtain ⟨_, hp, h⟩ := except_bind_eq_ok_iff.mp h
    obtain ⟨_, hc, h⟩ := except_bind_eq_ok_iff.mp h
    split at h
    · cases h
    · next hne => exact ⟨hr, hp, hc, hne, h⟩
  · rintro ⟨hr, hp, hc, hne, hi⟩
    rw [hr, hp, hc, if_neg hne, hi]
    rfl

theorem ne_nil_of_isSegment {t : Text} (h : isSegment t) : t ≠ [] := by
  rintro rfl
  cases h

end Settings

namespace Application
variable {W : Type}

/-- Applications as routes are given them: their settings are valid, and their registry came about by
registration. -/
structure Valid (app : Application W) : Prop where
  settings : app.settings.validate = .ok ()
  registry : app.registry.Reachable

theorem valid_of_ofSettings {s : Settings} {pages : PageSource W} {w : W} {app : Application W}
    (h : (ofSettings s pages w).answer = .ok app) : app.Valid := by
  rw [ofSettings] at h
  cases hs : s.validate with
  | error fault =>
    rw [hs] at h
    cases h
  | ok =>
    rw [hs, Run.bind_answer] at h
    cases hd : (Registry.builtins.declare s.interfaces w).answer with
    | error e =>
      rw [hd] at h
      cases h
    | ok r =>
      rw [hd] at h
      cases h
      exact ⟨hs, Registry.Reachable.builtins.declare hd⟩

theorem Valid.rootSegment_ne_nil {app : Application W} (h : app.Valid) : app.settings.rootSegment ≠ [] :=
  Settings.ne_nil_of_isSegment (Settings.validate_eq_ok_iff.mp h.settings).1

end Application
end PageRouting
