import Mathlib.Data.List.Find
import PageRouting.PageStore
import PageRouting.Proofs.Application
import PageRouting.Proofs.Registry.History

/-! Settings that pass their check declare distinct identifiers, so that only the name of a built-in interface
can still keep an application from coming about. -/
namespace PageRouting

/-- The check of declared interfaces passes if each has an identifier of its own. -/
theorem Settings.checkInterfaces_eq_ok_iff {seen : List Text} {is : List ListenerInterface} :
    checkInterfaces seen is = .ok () ↔
      (∀ i ∈ is, i.name.isIdentifier = true) ∧ (is.map (·.name)).Nodup ∧ ∀ i ∈ is, i.name ∉ seen := by
  induction is generalizing seen with
  | nil => simp [checkInterfaces]
  | cons i is ih =>
    rw [checkInterfaces]
    by_cases hi : i.name.isIdentifier = true
    · by_cases hseen : i.name ∈ seen
      · simp [hi, hseen]
      · -- the rest has to keep clear of `i` as well, which makes its own names distinct from that of `i`
        have hclear : (∀ j ∈ is, j.name ∉ i.name :: seen) ↔
            i.name ∉ is.map (·.name) ∧ ∀ j ∈ is, j.name ∉ seen := by
          simp only [List.mem_cons, not_or, List.mem_map, not_exists, not_and, forall_and]
        rw [hi, Bool.not_true, if_neg Bool.false_ne_true, if_neg hseen, ih, hclear]
        simp only [List.forall_mem_cons, List.map_cons, List.nodup_cons, hi, hseen, not_false_eq_true, true_and,
          and_assoc, and_left_comm]
    · simp [hi]

namespace Registry
variable {r : Registry} {is : List ListenerInterface}

/-- The registry with interfaces entered under their own names. -/
def declaring (r : Registry) (is : List ListenerInterface) : Registry :=
  ⟨r.entries ++ is.map fun i => (i.name, i)⟩

/-- Interfaces of distinct names are kept out by what was registered before all of them, and not by each
other. -/
theorem registerAll_eq (hi : ∀ i ∈ is, i.name.isIdentifier = true) (hn : (is.map (·.name)).Nodup) :
    r.registerAll is = match is.find? (·.name ∈ r.names) with
      | none => .ok (r.declaring is)
      | some i => .error (.interfaceTaken i.name) := by
  induction is generalizing r with
  | nil =>
    rw [declaring, List.map_nil, List.append_nil]
    rfl
  | cons i is ih =>
    have hhead : i.name.isIdentifier = true := hi i List.mem_cons_self
    obtain ⟨hnew, hrest⟩ : i.name ∉ is.map (·.name) ∧ (is.map (·.name)).Nodup := List.nodup_cons.mp hn
    rw [registerAll]
    by_cases ht : i.name ∈ r.names
    · rw [register_of_taken hhead (isSome_resolve_iff.mpr ht), List.find?_cons_of_pos (by simpa using ht)]
    · -- with `i` the registry holds no other name of the rest than before
      have hsame : is.find? (·.name ∈ names ⟨r.entries ++ [(i.name, i)]⟩) = is.find? (·.name ∈ r.names) := by
        apply List.find?_congr
        intro j hj
        have hne : j.name ≠ i.name := ne_of_mem_of_not_mem (List.mem_map_of_mem hj) hnew
        refine decide_eq_decide.mpr ?_
        rw [names, List.map_append, List.mem_append]
        exact or_iff_left (by simpa using hne)
      have htail := ih (r := ⟨r.entries ++ [(i.name, i)]⟩) (fun j hj => hi j (List.mem_cons_of_mem i hj)) hrest
      rw [hsame, declaring, List.append_assoc] at htail
      rw [register_of_free hhead (resolve_eq_none_iff.mpr ht), List.find?_cons_of_neg (by simpa using ht)]
      exact htail

/-- What is entered stands there, under its own name. -/
theorem Keyed.resolve_declaring (h : (r.declaring is).Keyed) {n : Text} {i : ListenerInterface} :
    (r.declaring is).resolve n = some i ↔ (i ∈ r.entries.map (·.2) ∨ i ∈ is) ∧ i.name = n := by
  have hmem : (n, i) ∈ (r.declaring is).entries ↔ (n, i) ∈ r.entries ∨ i ∈ is ∧ i.name = n := by
    simp [declaring, eq_comm]
  rw [h.resolve_eq_some_iff]
  constructor
  · intro hi
    have hname : i.name = n := h.name_eq _ hi
    exact ⟨(hmem.mp hi).imp (List.mem_map_of_mem ·) And.left, hname⟩
  · rintro ⟨hi | hi, rfl⟩
    · obtain ⟨⟨m, j⟩, he, rfl⟩ := List.mem_map.mp hi
      have hname : j.name = m := h.name_eq _ (List.mem_append_left _ he)
      subst hname
      exact hmem.mpr (.inl he)
    · exact hmem.mpr (.inr ⟨hi, rfl⟩)

end Registry

namespace Application
variable {W : Type} {s : Settings} {pages : PageSource W} {w : W}

theorem answer_ofSettings_of_fault {fault : SettingsFault} (h : s.validate = .error fault) :
    (ofSettings s pages w).answer = .error (.invalidSettings fault) := by
  rw [ofSettings, h]
  rfl

theorem answer_ofSettings_of_valid (h : s.validate = .ok ()) :
    (ofSettings s pages w).answer = match s.interfaces.find? (·.name ∈ Registry.builtins.names) with
      | none => .ok ⟨s, Registry.builtins.declaring s.interfaces, pages⟩
      | some i => .error (.interfaceTaken i.name) := by
  obtain ⟨-, -, -, -, hinterfaces⟩ := Settings.validate_eq_ok_iff.mp h
  obtain ⟨hi, hn, -⟩ := Settings.checkInterfaces_eq_ok_iff.mp hinterfaces
  rw [ofSettings, h, Run.bind_answer, Registry.answer_declare, Registry.registerAll_eq hi hn]
  cases s.interfaces.find? (·.name ∈ Registry.builtins.names) <;> rfl

/-- An application comes about of valid settings that declare no built-in name. -/
theorem answer_ofSettings_eq_ok_iff {app : Application W} :
    (ofSettings s pages w).answer = .ok app ↔
      s.validate = .ok () ∧ (∀ i ∈ s.interfaces, i.name ∉ Registry.builtins.names) ∧
        app = ⟨s, Registry.builtins.declaring s.interfaces, pages⟩ := by
  cases hv : s.validate with
  | error fault => simp [answer_ofSettings_of_fault hv]
  | ok =>
    have hnone : s.interfaces.find? (·.name ∈ Registry.builtins.names) = none ↔
        ∀ i ∈ s.interfaces, i.name ∉ Registry.builtins.names := by simp
    rw [answer_ofSettings_of_valid hv, ← hnone]
    cases s.interfaces.find? (·.name ∈ Registry.builtins.names) with
    | none => simp [eq_comm]
    | some i => simp

/-- Valid settings fail by the first built-in name that they declare. -/
theorem answer_ofSettings_eq_error_iff (hv : s.validate = .ok ()) {e : RoutingError} :
    (ofSettings s pages w).answer = .error e ↔
      ∃ before i after, s.interfaces = before ++ i :: after ∧
        (∀ j ∈ before, j.name ∉ Registry.builtins.names) ∧ i.name ∈ Registry.builtins.names ∧
        e = .interfaceTaken i.name := by
  have hfirst (i : ListenerInterface) : s.interfaces.find? (·.name ∈ Registry.builtins.names) = some i ↔
      ∃ before after, s.interfaces = before ++ i :: after ∧
        (∀ j ∈ before, j.name ∉ Registry.builtins.names) ∧ i.name ∈ Registry.builtins.names := by
    rw [List.find?_eq_some_iff_append]
    simp only [decide_eq_true_eq, Bool.not_eq_true', decide_eq_false_iff_not]
    constructor
    · rintro ⟨hi, before, after, hs, hb⟩
      exact ⟨before, after, hs, hb, hi⟩
    · rintro ⟨before, after, hs, hb, hi⟩
      exact ⟨hi, before, after, hs, hb⟩
  have herror : (ofSettings s pages w).answer = .error e ↔
      ∃ i, s.interfaces.find? (·.name ∈ Registry.builtins.names) = some i ∧ e = .interfaceTaken i.name := by
    rw [answer_ofSettings_of_valid hv]
    cases s.interfaces.find? (·.name ∈ Registry.builtins.names) with
    | none => simp
    | some i => simp [eq_comm]
  rw [herror]
  constructor
  · rintro ⟨i, hi, he⟩
    obtain ⟨before, after, hs, hb, ht⟩ := (hfirst i).mp hi
    exact ⟨before, i, after, hs, hb, ht, he⟩
  · rintro ⟨before, i, after, hs, hb, ht, he⟩
    exact ⟨i, (hfirst i).mpr ⟨before, after, hs, hb, ht⟩, he⟩

/-- An application comes about if its settings are valid and declare no built-in name, with the built-in
interfaces and the declared ones. Else the fault of the settings is reported, or the first built-in name. -/
theorem ofSettings_outcome (s : Settings) (pages : PageSource W) (w : W) :
    ((∃ app, (ofSettings s pages w).answer = .ok app) ↔
      s.validate = .ok () ∧ ∀ i ∈ s.interfaces, i.name ∉ Registry.builtins.names) ∧
    (∀ app, (ofSettings s pages w).answer = .ok app →
      app.settings = s ∧ app.pages = pages ∧ app.registry.size = 6 + s.interfaces.length ∧
      ∀ n i, app.registry.resolve n = some i ↔
        (i ∈ ListenerInterface.builtins ∨ i ∈ s.interfaces) ∧ i.name = n) ∧
    (∀ fault, s.validate = .error fault →
      (ofSettings s pages w).answer = .error (.invalidSettings fault) ∧
      (RoutingError.invalidSettings fault).message = "invalid mapper settings: " ++ fault.message) ∧
    (s.validate = .ok () → (s.interfaces.map (·.name)).Nodup ∧
      ∀ e, (ofSettings s pages w).answer = .error e ↔
        ∃ before i after, s.interfaces = before ++ i :: after ∧
          (∀ j ∈ before, j.name ∉ Registry.builtins.names) ∧ i.name ∈ Registry.builtins.names ∧
          e = .interfaceTaken i.name) ∧
    ∀ name, (ofSettings s pages w).answer ≠ .error (.invalidInterfaceName name) := by
  refine ⟨?_, ?_, ?_, ?_, ?_⟩
  · constructor
    · rintro ⟨app, h⟩
      obtain ⟨hv, hnew, -⟩ := answer_ofSettings_eq_ok_iff.mp h
      exact ⟨hv, hnew⟩
    · rintro ⟨hv, hnew⟩
      exact ⟨_, answer_ofSettings_eq_ok_iff.mpr ⟨hv, hnew, rfl⟩⟩
  · intro app h
    have hreachable := (valid_of_ofSettings h).registry
    obtain ⟨-, -, rfl⟩ := answer_ofSettings_eq_ok_iff.mp h
    refine ⟨rfl, rfl, ?_, fun n i => hreachable.keyed.resolve_declaring⟩
    rw [Registry.size, Registry.declaring, List.length_append, List.length_map]
    rfl
  · intro fault hv
    exact ⟨answer_ofSettings_of_fault hv, rfl⟩
  · intro hv
    obtain ⟨-, -, -, -, hinterfaces⟩ := Settings.validate_eq_ok_iff.mp hv
    obtain ⟨-, hnodup, -⟩ := Settings.checkInterfaces_eq_ok_iff.mp hinterfaces
    exact ⟨hnodup, fun e => answer_ofSettings_eq_error_iff hv⟩
  · intro name h
    cases hv : s.validate with
    | error fault =>
      rw [answer_ofSettings_of_fault hv] at h
      cases h
    | ok =>
      obtain ⟨_, _, _, _, _, _, he⟩ := (answer_ofSettings_eq_error_iff hv).mp h
      cases he

namespace Clashing

def hover : ListenerInterface := ⟨"IHoverListener".toList, false⟩

def link : ListenerInterface := ⟨"ILinkListener".toList, false⟩

def form : ListenerInterface := ⟨"IFormSubmitListener".toList, true⟩

/-- Of two built-in names that settings declare, the first one is reported. Alone, what is declared before it
comes beside the built-in interfaces. -/
theorem ofSettings_outcome_clashing :
    (ofSettings { interfaces := [hover, link, form] } PageStore.source {}).answer =
        .error (.interfaceTaken link.name) ∧
      ∃ app, (ofSettings { interfaces := [hover] } PageStore.source {}).answer = .ok app ∧
        app.registry.size = 7 ∧ app.registry.resolve hover.name = some hover := by
  constructor
  · obtain ⟨_, _, _, hvalid, _⟩ :=
      ofSettings_outcome { interfaces := [hover, link, form] } PageStore.source {}
    have hv : Settings.validate { interfaces := [hover, link, form] } = .ok () := rfl
    apply ((hvalid hv).2 _).mpr
    refine ⟨[hover], link, [form], rfl, ?_, ?_, rfl⟩ <;> decide +kernel
  · obtain ⟨hok, hregistry, _⟩ := ofSettings_outcome { interfaces := [hover] } PageStore.source {}
    obtain ⟨app, happ⟩ := hok.mpr ⟨rfl, by decide +kernel⟩
    obtain ⟨-, -, hsize, hresolve⟩ := hregistry app happ
    refine ⟨app, happ, hsize, (hresolve _ _).mpr ⟨?_, rfl⟩⟩
    exact .inr List.mem_cons_self

end Clashing

end Application
end PageRouting
