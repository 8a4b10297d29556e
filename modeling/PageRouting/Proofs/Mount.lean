import PageRouting.Mount
import PageRouting.Proofs.Application
import PageRouting.Proofs.MountPath
import PageRouting.Proofs.Token.Query
import PageRouting.Proofs.Url

/-! Mounts read the addresses that they write. What is lost is the empty token, and positional values
that are empty. -/
namespace PageRouting

/-- What an address keeps of parameters. -/
structure Parameters.KeptAs (p q : Parameters) : Prop where
  values : ∀ n, q.values n = p.values n
  indexed : q.indexed = p.indexed.filter (!·.isEmpty)

namespace Mount
variable {W : Type} {app : Application W} {m : Mount} {a : PageAddress} {u : Url} {w : W}

/-- Whether addresses of a class lead to it: those that name it need a source that knows the name. -/
def Reaches (m : Mount) (app : Application W) (cls : PageClass) (w : W) : Prop :=
  m = .byClass → cls.name ≠ [] ∧ (app.pages.resolve cls.name w).answer = some cls

/-- The parameters of an address: values of placeholders, then those of the query, then positional
ones. -/
theorem address_toQuery {t : Option Token} {rest : Parameters} (ht : ∀ token ∈ t, token.Callable)
    (hp : rest.named.WellFormed) (segments : List Text) (cls : PageClass) (bound : List (Text × Text))
    (tail : List Text) :
    ∃ ps, address ⟨segments, Token.toQuery t rest⟩ cls bound tail =
        ⟨t.filter (!·.isEmpty), cls, ps⟩ ∧
      (∀ n, ps.values n = NamedValues.valuesIn bound n ++ rest.values n) ∧
      ps.indexed = tail.filter (!·.isEmpty) := by
  refine ⟨_, by rw [address, Token.ofQuery_toQuery ht hp], fun n => ?_, ?_⟩
  · have hq : (Parameters.mk [] rest.named).named.WellFormed := hp
    rw [Parameters.values_eq_of_named (Parameters.named_pushAll _ _), Parameters.values_merge hq,
      Parameters.values_addAll]
    rfl
  · rw [Parameters.indexed_pushAll, Parameters.indexed_merge, Parameters.indexed_addAll]
    rfl

theorem className?_byClass {s : Settings} (hr : s.rootSegment ≠ []) {name : Text} (hn : name ≠ [])
    (rest : List Text) (q : Query) :
    className? s ⟨s.rootSegment :: s.classSegment :: name :: rest, q⟩ = some (name, rest) := by
  rw [className?, Url.path_cons hr]
  exact if_pos ⟨rfl, rfl, hn⟩

theorem className?_eq_some_iff {s : Settings} {name : Text} {rest : List Text} :
    className? s u = some (name, rest) ↔ name ≠ [] ∧ u.path = s.rootSegment :: s.classSegment :: name :: rest := by
  rw [className?]
  constructor
  · intro h
    split at h
    · next hp =>
      split at h
      · next hc =>
        obtain ⟨rfl, rfl, hn⟩ := hc
        cases h
        exact ⟨hn, hp⟩
      · cases h
    · cases h
  · rintro ⟨hn, hp⟩
    rw [hp]
    exact if_pos ⟨rfl, rfl, hn⟩

/-- An address by class is read if the page source knows the name in it. -/
theorem read_byClass_answer_eq_some_iff :
    (byClass.read app u w).answer = some a ↔ ∃ name rest cls,
      className? app.settings u = some (name, rest) ∧ (app.pages.resolve name w).answer = some cls ∧
        a = address u cls [] rest := by
  rw [read]
  cases className? app.settings u with
  | none => exact ⟨fun h => (by cases h), fun ⟨_, _, _, h, _⟩ => (by cases h)⟩
  | some found =>
    obtain ⟨name, rest⟩ := found
    dsimp only
    rw [Run.bind_answer]
    cases hres : (app.pages.resolve name w).answer with
    | none =>
      refine ⟨fun h => (by cases h), ?_⟩
      rintro ⟨_, _, _, ⟨⟩, h, -⟩
      rw [hres] at h
      cases h
    | some cls =>
      constructor
      · rintro ⟨⟩
        exact ⟨name, rest, cls, rfl, hres, rfl⟩
      · rintro ⟨_, _, cls', ⟨⟩, h, rfl⟩
        rw [hres] at h
        cases h
        rfl

/-- The written form of an address has a text of its own, and the mount reads it as it was meant. -/
def Recovers (m : Mount) (app : Application W) (w : W) (a : PageAddress) (u : Url) : Prop :=
  u.Legible ∧ ∃ ps, a.parameters.KeptAs ps ∧
    (m.read app u w).answer = some ⟨a.token.filter (!·.isEmpty), a.cls, ps⟩

section
variable (ht : ∀ token ∈ a.token, token.Callable) (hp : a.parameters.named.WellFormed)
include ht hp

theorem path_recovers {mp : MountPath} (hw : (Mount.path mp a.cls).write app.settings a = .ok u) :
    (Mount.path mp a.cls).Recovers app w a u := by
  rw [write] at hw
  cases hf : MountSegment.fill mp.segments a.parameters with
  | error name =>
    rw [hf] at hw
    cases hw
  | ok r =>
    obtain ⟨path, rest⟩ := r
    rw [hf] at hw
    cases hw
    have hfill := MountSegment.filled_of_fill hf
    obtain ⟨s, path', rfl, hs⟩ := hfill.exists_cons mp.segments_ne_nil mp.literal_nil_not_mem
    obtain ⟨bound, hread, hbound⟩ := hfill.read? rest.indexed
    obtain ⟨ps, haddr, hval, hidx⟩ := address_toQuery ht (hfill.wellFormed hp)
      (s :: path' ++ rest.indexed) a.cls bound rest.indexed
    have hkept : a.parameters.KeptAs ps := ⟨fun n => (hval n).trans (hbound n), hfill.indexed ▸ hidx⟩
    refine ⟨⟨fun hn => hs (List.cons.inj hn).1, Token.flag_nil_not_mem_toQuery ht rest⟩, ps, hkept, ?_⟩
    rw [read, List.cons_append, Url.path_cons hs, ← List.cons_append, hread]
    exact congrArg some haddr

theorem home_recovers (hw : (Mount.home a.cls).write app.settings a = .ok u) :
    (Mount.home a.cls).Recovers app w a u := by
  rw [write] at hw
  split at hw
  · next hi =>
    cases hw
    obtain ⟨ps, haddr, hval, hidx⟩ := address_toQuery ht hp [] a.cls [] []
    have hkept : a.parameters.KeptAs ps := ⟨hval, by rw [hidx, List.isEmpty_iff.mp hi]⟩
    refine ⟨⟨(List.cons_ne_nil _ _).symm, Token.flag_nil_not_mem_toQuery ht a.parameters⟩, ps, hkept, ?_⟩
    exact congrArg some haddr
  · cases hw

theorem byClass_recovers (hr : app.settings.rootSegment ≠ []) (hn : a.cls.name ≠ [])
    (hres : (app.pages.resolve a.cls.name w).answer = some a.cls)
    (hw : byClass.write app.settings a = .ok u) : byClass.Recovers app w a u := by
  cases hw
  obtain ⟨ps, haddr, hval, hidx⟩ := address_toQuery ht hp
    (app.settings.rootSegment :: app.settings.classSegment :: a.cls.name :: a.parameters.indexed)
    a.cls [] a.parameters.indexed
  refine ⟨⟨fun hc => List.cons_ne_nil _ _ (List.cons.inj hc).2,
    Token.flag_nil_not_mem_toQuery ht a.parameters⟩, ps, ⟨hval, hidx⟩, ?_⟩
  rw [read, className?_byClass hr hn, Run.bind_answer, hres]
  exact congrArg some haddr

theorem recovers (hv : app.Valid) (ha : m.accepts a.cls) (hm : m.Reaches app a.cls w)
    (hw : m.write app.settings a = .ok u) : m.Recovers app w a u := by
  cases m with
  | path mp cls =>
    have hcls : a.cls = cls := of_decide_eq_true ha
    subst hcls
    exact path_recovers ht hp hw
  | home cls =>
    have hcls : a.cls = cls := of_decide_eq_true ha
    subst hcls
    exact home_recovers ht hp hw
  | byClass =>
    obtain ⟨hn, hres⟩ := hm rfl
    exact byClass_recovers ht hp hv.rootSegment_ne_nil hn hres hw

end

end Mount
end PageRouting
