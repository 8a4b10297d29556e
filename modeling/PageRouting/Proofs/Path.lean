import PageRouting.Path

/-! Paths by their directories, each of which ends with a `/`. Climbing takes directories away and stops at the
root. -/
namespace PageRouting.Path

variable {base rel t : Text} {dirs : List Text} {n : Nat}

/-- A text below some directories. -/
def below : List Text → Text → Text
  | [], t => t
  | d :: ds, t => d ++ '/' :: below ds t

theorem below_append (ds es : List Text) (t : Text) : below (ds ++ es) t = below ds (below es t) := by
  induction ds with
  | nil => rfl
  | cons d ds ih => rw [List.cons_append, below, below, ih]

theorem below_append_text (dirs : List Text) (t u : Text) : below dirs (t ++ u) = below dirs t ++ u := by
  induction dirs with
  | nil => rfl
  | cons d ds ih => rw [below, below, ih, List.append_assoc, List.cons_append]

theorem join_concat (dirs : List Text) (t : Text) : Text.join '/' (dirs ++ [t]) = below dirs t := by
  induction dirs with
  | nil => exact List.append_nil t
  | cons d ds ih =>
    rw [Text.join, List.cons_append, List.intercalate_cons_of_ne_nil (by simp), below, ← ih, Text.join,
      List.append_assoc]
    rfl

theorem join_append_slash (h : dirs ≠ []) (t : Text) : Text.join '/' dirs ++ '/' :: t = below dirs t := by
  obtain ⟨init, d, rfl⟩ : ∃ init d, dirs = init ++ [d] := ⟨_, _, (List.dropLast_concat_getLast h).symm⟩
  rw [join_concat, ← below_append_text, below_append]
  rfl

theorem join_append {segments : List Text} (h : segments ≠ []) (dirs : List Text) :
    Text.join '/' (dirs ++ segments) = below dirs (Text.join '/' segments) := by
  obtain ⟨init, last, rfl⟩ : ∃ init last, segments = init ++ [last] := ⟨_, _, (List.dropLast_concat_getLast h).symm⟩
  rw [← List.append_assoc, join_concat, join_concat, below_append]

theorem getLast?_below (h : dirs ≠ []) (t : Text) : (below dirs t).getLast? = ('/' :: t).getLast? := by
  rw [← join_append_slash h, List.getLast?_append, List.getLast?_cons, Option.some_or]

theorem splitOn_below (h : ∀ d ∈ dirs, '/' ∉ d) (t : Text) :
    (below dirs t).splitOn '/' = dirs ++ t.splitOn '/' := by
  induction dirs with
  | nil => rfl
  | cons d ds ih =>
    have hds : ∀ e ∈ ds, '/' ∉ e := fun e he => h e (List.mem_cons_of_mem _ he)
    rw [below, List.splitOn_append_cons_self_of_not_mem (h d List.mem_cons_self), ih hds, List.cons_append]

theorem directories_below (h : ∀ d ∈ dirs, '/' ∉ d) (t : Text) :
    directories (below dirs t) = dirs ++ directories t := by
  rw [directories, splitOn_below h, List.dropLast_append_of_ne_nil (List.splitOn_ne_nil _ _), directories]

theorem directories_of_not_mem (h : '/' ∉ t) : directories t = [] := by
  rw [directories, List.splitOn_eq_singleton h]
  rfl

theorem not_mem_of_mem_directories {d : Text} (h : d ∈ directories base) : '/' ∉ d :=
  Text.not_mem_of_mem_splitOn (List.dropLast_subset _ h)

/-- Every text is a last segment below its directories. -/
theorem exists_eq_below (base : Text) : ∃ name, '/' ∉ name ∧ base = below (directories base) name := by
  have hne := List.splitOn_ne_nil '/' base
  refine ⟨(base.splitOn '/').getLast hne, Text.not_mem_of_mem_splitOn (List.getLast_mem hne), ?_⟩
  rw [← join_concat, directories, List.dropLast_concat_getLast, Text.join_splitOn]

/-- A `../` for each directory to climb. -/
def climbs (n : Nat) : Text := (List.replicate n "../".toList).flatten

theorem climbs_succ (n : Nat) : climbs (n + 1) = "../".toList ++ climbs n := by
  rw [climbs, List.replicate_succ, List.flatten_cons]
  rfl

theorem climb_climbs (n : Nat) (rel : Text) : climb (climbs n ++ rel) = ((climb rel).1 + n, (climb rel).2) := by
  induction n with
  | zero => rfl
  | succ n ih =>
    rw [climbs_succ, List.append_assoc]
    change ((climb (climbs n ++ rel)).1 + 1, (climb (climbs n ++ rel)).2) = _
    rw [ih, Nat.add_assoc]

theorem climb_of_no_parent (h : ¬ "../".toList <+: rel) : climb rel = (0, rel) := by
  unfold climb
  split
  · next t => exact absurd ⟨t, rfl⟩ h
  · rfl

theorem climbs_append (n : Nat) (t : Text) : climbs n ++ t = below (List.replicate n parent) t := by
  induction n with
  | zero => rfl
  | succ n ih =>
    rw [climbs_succ, List.append_assoc, ih, List.replicate_succ]
    rfl

theorem climbs_climb (rel : Text) : climbs (climb rel).1 ++ (climb rel).2 = rel := by
  fun_induction climb rel with
  | case1 t ih =>
    rw [climbs_succ, List.append_assoc, ih]
    rfl
  | case2 t => rfl

theorem climbs_add (m n : Nat) : climbs (m + n) = climbs m ++ climbs n := by
  rw [climbs, ← List.replicate_append_replicate, List.flatten_append, climbs, climbs]

theorem climbs_prefix_iff {n : Nat} : climbs n <+: rel ↔ n ≤ (climb rel).1 := by
  constructor
  · rintro ⟨t, rfl⟩
    rw [climb_climbs]
    exact Nat.le_add_left _ _
  · intro h
    obtain ⟨m, hm⟩ := Nat.exists_eq_add_of_le h
    rw [← climbs_climb rel, hm, climbs_add, List.append_assoc]
    exact List.prefix_append _ _

/-- A path that climbs is its rest below that many `..`. -/
theorem below_climb (rel : Text) : below (List.replicate (climb rel).1 parent) (climb rel).2 = rel := by
  rw [← climbs_append, climbs_climb]

theorem splitOn_climb (rel : Text) :
    rel.splitOn '/' = List.replicate (climb rel).1 parent ++ (climb rel).2.splitOn '/' := by
  have hups : ∀ d ∈ List.replicate (climb rel).1 parent, '/' ∉ d := by
    intro d hd
    rw [List.eq_of_mem_replicate hd]
    decide
  rw [← splitOn_below hups, below_climb]

theorem getLast?_climb (rel : Text) : ('/' :: rel).getLast? = ('/' :: (climb rel).2).getLast? := by
  have hlast := getLast?_below (List.cons_ne_nil [] (List.replicate (climb rel).1 parent)) (climb rel).2
  rw [below, below_climb] at hlast
  exact hlast

theorem rootDepth_rooted (dirs : List Text) : rootDepth ([] :: dirs) = 1 := by
  match dirs with
  | [] | [[]] | [_ :: _] | [] :: _ :: _ | (_ :: _) :: _ :: _ => rfl

theorem rootDepth_schemed {scheme : Text} (h : scheme.getLast? = some ':') (host : Text) (dirs : List Text) :
    rootDepth (scheme :: [] :: host :: dirs) = 3 := if_pos h

/-- The directories that remain after climbing. -/
def ascend (dirs : List Text) (n : Nat) : List Text := dirs.take (max (dirs.length - n) (rootDepth dirs))

theorem resolve_eq (base relative : Text) :
    resolve base relative = below (ascend (directories base) (climb relative).1) (climb relative).2 := by
  change (if (ascend (directories base) (climb relative).1).isEmpty then _ else _) = _
  split
  · next h => rw [List.isEmpty_iff.mp h, below]
  · next h => exact join_append_slash (mt List.isEmpty_iff.mpr h) _

theorem rootDepth_le_length (dirs : List Text) : rootDepth dirs ≤ dirs.length := by
  fun_cases rootDepth dirs <;> simp

theorem rootDepth_unrooted {c : Char} {s host : Text} (h : rootDepth ((c :: s) :: [] :: host :: dirs) < 3) :
    rootDepth ((c :: s) :: [] :: host :: dirs) = 0 := by
  refine if_neg fun hs => ?_
  rw [rootDepth_schemed hs] at h
  exact Nat.lt_irrefl 3 h

theorem rootDepth_take (h : rootDepth dirs ≤ n) : rootDepth (dirs.take n) = rootDepth dirs := by
  match dirs, n with
  | [], _ => rw [List.take_nil]
  | _ :: _, 0 => exact (Nat.le_zero.mp h).symm
  | [] :: _, _ + 1 => rw [List.take_succ_cons, rootDepth_rooted, rootDepth_rooted]
  | [_ :: _], _ + 1 => rw [List.take_succ_cons, List.take_nil]
  | (_ :: _) :: (_ :: _) :: _, n + 1 => cases n <;> simp [rootDepth]
  | [_ :: _, []], n + 1 => cases n <;> simp [rootDepth]
  -- a host that is cut off was not one
  | (_ :: _) :: [] :: _ :: _, 1 => exact (rootDepth_unrooted (Nat.lt_of_le_of_lt h (by decide))).symm
  | (_ :: _) :: [] :: _ :: _, 2 => exact (rootDepth_unrooted (Nat.lt_of_le_of_lt h (by decide))).symm
  | (_ :: _) :: [] :: _ :: _, _ + 3 => rfl

theorem mem_of_mem_ascend {d : Text} (h : d ∈ ascend dirs n) : d ∈ dirs := List.mem_of_mem_take h

theorem ascend_zero (dirs : List Text) : ascend dirs 0 = dirs :=
  List.take_of_length_le (Nat.le_max_left _ _)

theorem rootDepth_ascend (dirs : List Text) (n : Nat) : rootDepth (ascend dirs n) = rootDepth dirs :=
  rootDepth_take (Nat.le_max_right _ _)

/-- The root is counted anew in what remains, and comes out the same. -/
theorem ascend_add (dirs : List Text) (m n : Nat) : ascend dirs (m + n) = ascend (ascend dirs m) n := by
  have hroot := rootDepth_le_length dirs
  have hlen : (ascend dirs m).length = max (dirs.length - m) (rootDepth dirs) := by
    rw [ascend, List.length_take]
    omega
  rw [ascend, ascend, hlen, rootDepth_ascend, ascend, List.take_take]
  congr 1
  omega

theorem root_prefix_ascend (dirs : List Text) (n : Nat) : dirs.take (rootDepth dirs) <+: ascend dirs n :=
  List.take_prefix_take_left (Nat.le_max_right _ _)

end PageRouting.Path
