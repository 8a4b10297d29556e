import PageRouting.Proofs.Path

/-! Relative paths that climb. Climbing in two steps is climbing at once, and it ends at the root of the base, which
is the host of an address only where a `/` follows the host. -/
namespace PageRouting.Path

variable {base rel scheme host : Text}

theorem resolve_climbs (base rel : Text) (n : Nat) :
    resolve base (climbs n ++ rel) = below (ascend (directories base) ((climb rel).1 + n)) (climb rel).2 := by
  rw [resolve_eq, climb_climbs]

theorem resolve_of_no_parent (h : ¬ "../".toList <+: rel) : resolve base rel = below (directories base) rel := by
  rw [resolve_eq, climb_of_no_parent h, ascend_zero]

theorem directories_resolve_climbs (base : Text) (n : Nat) :
    directories (resolve base (climbs n)) = ascend (directories base) n := by
  have hdirs : ∀ d ∈ ascend (directories base) n, '/' ∉ d :=
    fun d hd => not_mem_of_mem_directories (mem_of_mem_ascend hd)
  have hstop := resolve_climbs base [] n
  rw [List.append_nil] at hstop
  rw [hstop]
  change directories (below (ascend (directories base) (0 + n)) []) = _
  rw [Nat.zero_add, directories_below hdirs]
  exact List.append_nil _

/-- What follows the last `/` of the base makes room for a path that does not climb, or all of the base where it
has no `/`. -/
theorem resolve_in_place (base : Text) (h : ¬ "../".toList <+: rel) :
    '/' ∉ base ∧ resolve base rel = rel ∨
      ∃ before name, '/' ∉ name ∧ base = before ++ '/' :: name ∧ resolve base rel = before ++ '/' :: rel := by
  obtain ⟨name, hname, hbase⟩ := exists_eq_below base
  rw [resolve_of_no_parent h]
  by_cases hdirs : directories base = []
  · rw [hdirs] at hbase ⊢
    subst hbase
    exact .inl ⟨hname, rfl⟩
  · rw [← join_append_slash hdirs] at hbase ⊢
    exact .inr ⟨_, name, hname, hbase, rfl⟩

/-- Climbing composes, whether or not the root is reached on the way. -/
theorem resolve_climbs_add (base rel : Text) (m n : Nat) :
    resolve base (climbs (m + n) ++ rel) = resolve (resolve base (climbs m)) (climbs n ++ rel) ∧
      (¬ "../".toList <+: rel →
        '/' ∉ base ∧ resolve base rel = rel ∨
          ∃ before name, '/' ∉ name ∧ base = before ++ '/' :: name ∧ resolve base rel = before ++ '/' :: rel) := by
  refine ⟨?_, resolve_in_place base⟩
  rw [resolve_climbs, resolve_climbs, directories_resolve_climbs, ← ascend_add]
  congr 2
  omega

/-- The root is reached in the second of two climbs. -/
theorem resolve_climbs_add_sample :
    resolve "http://x/a/b".toList (climbs 3 ++ "d".toList) =
        resolve (resolve "http://x/a/b".toList (climbs 1)) (climbs 2 ++ "d".toList) ∧
      resolve "http://x/a/b".toList (climbs 3 ++ "d".toList) = "http://x/d".toList ∧
      ¬ "../".toList <+: "d".toList ∧
      ∃ before name, '/' ∉ name ∧ "http://x/a/b".toList = before ++ '/' :: name ∧
        resolve "http://x/a/b".toList "d".toList = before ++ '/' :: "d".toList := by
  have hstays : ¬ "../".toList <+: "d".toList := by decide
  obtain ⟨hclimbs, hplace⟩ := resolve_climbs_add "http://x/a/b".toList "d".toList 1 2
  exact ⟨hclimbs, by decide, hstays, (hplace hstays).resolve_left fun h => absurd h.1 (by decide)⟩

/-- Climbing never takes the root away. -/
theorem root_prefix_resolve (base relative : Text) :
    below ((directories base).take (rootDepth (directories base))) [] <+: resolve base relative := by
  obtain ⟨more, hmore⟩ := root_prefix_ascend (directories base) (climb relative).1
  rw [resolve_eq, ← hmore, below_append]
  exact ⟨_, (below_append_text _ [] _).symm⟩

theorem resolve_rooted (t relative : Text) : ∃ r, resolve ('/' :: t) relative = '/' :: r := by
  have hdirs : directories ('/' :: t) = [] :: directories t :=
    @directories_below [[]] (by simp) t
  obtain ⟨r, hr⟩ := root_prefix_resolve ('/' :: t) relative
  rw [hdirs, rootDepth_rooted] at hr
  exact ⟨r, hr.symm⟩

/-- An address without a path. -/
def origin (scheme host : Text) : Text := scheme ++ "://".toList ++ host

theorem origin_append_slash (scheme host path : Text) :
    origin scheme host ++ '/' :: path = below [scheme ++ [':'], [], host] path := by
  simp [origin, below]

theorem origin_eq_below (scheme host : Text) : origin scheme host = below [scheme ++ [':'], []] host := by
  simp [origin, below]

section
variable (hscheme : '/' ∉ scheme) (hhost : '/' ∉ host)
include hscheme hhost

theorem directories_origin_append_slash (path : Text) :
    directories (origin scheme host ++ '/' :: path) = (scheme ++ [':']) :: [] :: host :: directories path := by
  rw [origin_append_slash, directories_below (by simp [hscheme, hhost])]
  rfl

theorem directories_origin : directories (origin scheme host) = [scheme ++ [':'], []] := by
  rw [origin_eq_below, directories_below (by simp [hscheme]), directories_of_not_mem hhost]
  rfl

theorem origin_prefix_resolve (path relative : Text) :
    origin scheme host ++ ['/'] <+: resolve (origin scheme host ++ '/' :: path) relative := by
  have hroot := root_prefix_resolve (origin scheme host ++ '/' :: path) relative
  rw [directories_origin_append_slash hscheme hhost, rootDepth_schemed List.getLast?_concat] at hroot
  rw [origin_append_slash scheme host []]
  exact hroot

/-- The host of an address without a path is its last segment, and so makes room like any other. -/
theorem resolve_origin (h : ¬ "../".toList <+: rel) :
    resolve (origin scheme host) rel = origin scheme rel ∧
      resolve (origin scheme host) (climbs 1 ++ rel) = scheme ++ ":/".toList ++ rel ∧
      ∀ n, resolve (origin scheme host) (climbs (n + 2) ++ rel) = rel := by
  have hdirs := directories_origin hscheme hhost
  obtain ⟨c, s, hs⟩ := List.exists_cons_of_ne_nil (List.append_ne_nil_of_right_ne_nil scheme (List.cons_ne_nil ':' []))
  have hclimb (n : Nat) : resolve (origin scheme host) (climbs n ++ rel) =
      below ([scheme ++ [':'], []].take (2 - n)) rel := by
    rw [resolve_climbs, climb_of_no_parent h, hdirs, ascend, hs]
    simp [rootDepth]
  refine ⟨?_, ?_, fun n => ?_⟩
  · rw [origin_eq_below scheme rel]
    exact hclimb 0
  · rw [hclimb]
    simp [below]
  · rw [hclimb]
    simp [below]

/-- Where a `/` follows the host, no climbing gets above it. Where none does, the host is not kept: one `../`
leads to the first `/` after the scheme, and two lead out of the scheme as well. A base that begins with `/` keeps
it. -/
theorem resolve_keeps_root (relative : Text) :
    (∀ path, origin scheme host ++ ['/'] <+: resolve (origin scheme host ++ '/' :: path) relative) ∧
      (∀ rel, ¬ "../".toList <+: rel →
        resolve (origin scheme host) rel = origin scheme rel ∧
        resolve (origin scheme host) (climbs 1 ++ rel) = scheme ++ ":/".toList ++ rel ∧
        ∀ n, resolve (origin scheme host) (climbs (n + 2) ++ rel) = rel) ∧
      ∀ t, ∃ r, resolve ('/' :: t) relative = '/' :: r :=
  ⟨fun path => origin_prefix_resolve hscheme hhost path relative, fun _ => resolve_origin hscheme hhost,
    fun t => resolve_rooted t relative⟩

end

/-- Three steps up from a page two directories deep end at the host, and from the bare host in nothing. -/
theorem resolve_keeps_root_sample :
    '/' ∉ "http".toList ∧ '/' ∉ "host".toList ∧
      "http://host/".toList <+: resolve "http://host/app/page".toList "../../../login".toList ∧
      resolve "http://host".toList "../../../login".toList = "login".toList := by
  have hscheme : '/' ∉ "http".toList := by decide
  have hhost : '/' ∉ "host".toList := by decide
  obtain ⟨hpath, hbare, -⟩ := resolve_keeps_root hscheme hhost "../../../login".toList
  exact ⟨hscheme, hhost, hpath "app/page".toList, (hbare "login".toList (by decide)).2.2 1⟩

/-- So not every base keeps its scheme and host. -/
theorem resolve_leaves_host :
    ¬ ∀ scheme host path relative : Text, scheme ≠ [] → '/' ∉ scheme → host ≠ [] → '/' ∉ host →
      (path = [] ∨ path.head? = some '/') →
      origin scheme host ++ ['/'] <+: resolve (origin scheme host ++ path) relative := by
  intro h
  have hroot := h "http".toList "x".toList [] "../../d".toList
    (by decide) (by decide) (by decide) (by decide) (.inl rfl)
  revert hroot
  decide

end PageRouting.Path
