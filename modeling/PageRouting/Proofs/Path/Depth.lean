import PageRouting.Proofs.Path.Climbing
import PageRouting.Proofs.Path.NormalForm

/-! How deep paths lead. Collapsing keeps the depth, since with each `..` a segment goes; resolving stops at the root. So
a relative path that is resolved and one that is put behind its base and collapsed lead to the same place, exactly as
long as it does not climb above the root. -/
namespace PageRouting.Path

variable {s rel root file : Text} {segments a b top dirs : List Text}

/-- What a segment adds to the depth. -/
def rise (s : Text) : Int := if s = [] then 0 else if s = parent then -1 else 1

def depth : List Text → Int
  | [] => 0
  | s :: segments => rise s + depth segments

@[simp] theorem depth_nil : depth [] = 0 := rfl

@[simp] theorem depth_cons (s : Text) (segments : List Text) : depth (s :: segments) = rise s + depth segments := rfl

@[simp] theorem depth_append (a b : List Text) : depth (a ++ b) = depth a + depth b := by
  induction a with
  | nil => simp
  | cons s a ih => simp [ih, Int.add_assoc]

theorem rise_of_ordinary (h : Ordinary s) : rise s = 1 := by
  rw [rise, if_neg h.1, if_neg h.2]

theorem rise_parent : rise parent = -1 := rfl

theorem depth_of_ordinary (h : ∀ d ∈ dirs, Ordinary d) : depth dirs = dirs.length := by
  induction dirs with
  | nil => rfl
  | cons d ds ih =>
    have hds : ∀ e ∈ ds, Ordinary e := fun e he => h e (List.mem_cons_of_mem _ he)
    rw [depth_cons, rise_of_ordinary (h d List.mem_cons_self), ih hds, List.length_cons]
    omega

theorem depth_replicate_parent (n : Nat) : depth (List.replicate n parent) = -n := by
  induction n with
  | zero => rfl
  | succ n ih =>
    rw [List.replicate_succ, depth_cons, ih, rise_parent]
    omega

theorem Collapses.depth_eq (h : Collapses a b) : depth a = depth b := by
  cases h with
  | pair before hs after =>
    rw [depth_append, depth_append, depth_cons, depth_cons, rise_of_ordinary hs, rise_parent]
    omega

theorem CollapsesTo.depth_eq (h : CollapsesTo a b) : depth a = depth b := by
  induction h with
  | refl => rfl
  | tail _ hstep ih => rw [ih, hstep.depth_eq]

/-- Collapsing changes the way but not how deep it leads. -/
theorem depth_splitOn_collapse (path : Text) : depth ((collapse path).splitOn '/') = depth (path.splitOn '/') := by
  rw [(collapsesTo_kept (path.splitOn '/')).depth_eq]
  rcases splitOn_collapse_cases path with h | ⟨hkept, h⟩ | ⟨hkept, h⟩
  · rw [h]
  · rw [h, hkept]
    rfl
  · rw [h, hkept]
    rfl

/-- Directories go with as many `..` after them. -/
theorem collapsesTo_of_ups (h : ∀ d ∈ dirs, Ordinary d) :
    CollapsesTo (dirs ++ List.replicate dirs.length parent) [] := by
  induction dirs with
  | nil => exact .refl
  | cons d ds ih =>
    have hds : ∀ e ∈ ds, Ordinary e := fun e he => h e (List.mem_cons_of_mem _ he)
    have hinner := ((ih hds).append_left [d]).append_right [parent]
    rw [List.length_cons, List.replicate_succ', List.cons_append, ← List.append_assoc]
    exact hinner.tail (.pair [] (h d List.mem_cons_self) [])

/-- Of more directories those are left that no `..` is for. -/
theorem collapsesTo_take (h : ∀ d ∈ dirs, Ordinary d) {n : Nat} (hn : n ≤ dirs.length) :
    CollapsesTo (dirs ++ List.replicate n parent) (dirs.take (dirs.length - n)) := by
  have hordinary : ∀ d ∈ dirs.drop (dirs.length - n), Ordinary d := fun d hd => h d (List.mem_of_mem_drop hd)
  have hlength : (dirs.drop (dirs.length - n)).length = n := by
    rw [List.length_drop]
    omega
  have hups := collapsesTo_of_ups hordinary
  rw [hlength] at hups
  have hto := hups.append_left (dirs.take (dirs.length - n))
  rwa [← List.append_assoc, List.take_append_drop, List.append_nil] at hto

/-- Ordinary directories below a root. -/
structure Anchored (top dirs : List Text) : Prop where
  ne_nil : top ≠ []
  root : rootDepth (top ++ dirs) = top.length
  ordinary : ∀ d ∈ dirs, Ordinary d
  plain : ∀ d ∈ top ++ dirs, '/' ∉ d

namespace Anchored

theorem resolve_eq (h : Anchored top dirs) (hfile : '/' ∉ file) (rel : Text) :
    resolve (below (top ++ dirs) file) rel =
      below (top ++ dirs.take (dirs.length - (climb rel).1)) (climb rel).2 := by
  have hlevel : max ((top ++ dirs).length - (climb rel).1) top.length =
      top.length + (dirs.length - (climb rel).1) := by
    rw [List.length_append]
    omega
  rw [Path.resolve_eq, directories_below h.plain, directories_of_not_mem hfile, List.append_nil, ascend, h.root, hlevel,
    List.take_length_add_append]

theorem plain_take (h : Anchored top dirs) (n : Nat) : ∀ d ∈ top ++ dirs.take n, '/' ∉ d :=
  fun d hd => h.plain d (((List.append_sublist_append_left top).mpr (List.take_sublist n dirs)).subset hd)

/-- As long as no more is climbed than the directories, the `..` and as many of them go together. -/
theorem collapse_resolve (h : Anchored top dirs) (hfile : '/' ∉ file) (hrel : (climb rel).1 ≤ dirs.length) :
    collapse (resolve (below (top ++ dirs) file) rel) = collapse (below (top ++ dirs) rel) := by
  have hlow := h.plain_take (dirs.length - (climb rel).1)
  have hpairs := collapsesTo_take h.ordinary hrel
  have hne (ds : List Text) : top ++ ds ≠ [] := List.append_ne_nil_of_left_ne_nil h.ne_nil ds
  rw [h.resolve_eq hfile]
  apply collapse_congr
  · rw [splitOn_below hlow, splitOn_below h.plain, splitOn_climb rel, ← List.append_assoc, List.append_assoc top dirs]
    exact ((hpairs.append_left top).append_right _).kept_eq.symm
  · rw [getLast?_below (hne _), getLast?_below (hne _), getLast?_climb rel]

/-- Where more is climbed the depths differ: resolving stops at the root, and collapsing does not. -/
theorem climb_le (h : Anchored top dirs) (hfile : '/' ∉ file)
    (heq : collapse (resolve (below (top ++ dirs) file) rel) = collapse (below (top ++ dirs) rel)) :
    (climb rel).1 ≤ dirs.length := by
  have hdepth := congrArg (fun t => depth (List.splitOn '/' t)) heq
  simp only [depth_splitOn_collapse] at hdepth
  rw [h.resolve_eq hfile, splitOn_below (h.plain_take _), splitOn_below h.plain, splitOn_climb rel] at hdepth
  have hordinary : ∀ d ∈ dirs.take (dirs.length - (climb rel).1), Ordinary d :=
    fun d hd => h.ordinary d (List.mem_of_mem_take hd)
  have hkeeps := depth_of_ordinary hordinary
  have hall := depth_of_ordinary h.ordinary
  simp only [depth_append, depth_replicate_parent, hkeeps, hall, List.length_take] at hdepth
  omega

end Anchored

/-- The texts that no climbing leads above. -/
inductive Root : Text → Prop
  | slash : Root ['/']
  | host {scheme host : Text} (hscheme : scheme ≠ [] ∧ '/' ∉ scheme) (hhost : host ≠ [] ∧ '/' ∉ host) :
      Root (origin scheme host ++ ['/'])

theorem Root.anchored (h : Root root) (hdirs : ∀ d ∈ dirs, Ordinary d ∧ '/' ∉ d) :
    ∃ top, Anchored top dirs ∧ ∀ t, root ++ below dirs t = below (top ++ dirs) t := by
  have hplain : ∀ d ∈ dirs, '/' ∉ d := fun d hd => (hdirs d hd).2
  cases h with
  | slash =>
    refine ⟨[[]], ⟨List.cons_ne_nil _ _, rootDepth_rooted dirs, fun d hd => (hdirs d hd).1, ?_⟩, fun t => rfl⟩
    exact List.forall_mem_cons.mpr ⟨List.not_mem_nil, hplain⟩
  | @host scheme host hscheme hhost =>
    refine ⟨[scheme ++ [':'], [], host], ⟨List.cons_ne_nil _ _, rootDepth_schemed List.getLast?_concat host dirs,
      fun d hd => (hdirs d hd).1, ?_⟩, fun t => ?_⟩
    · exact List.forall_mem_append.mpr ⟨by simp [hscheme.2, hhost.2], hplain⟩
    · rw [List.append_assoc]
      exact origin_append_slash scheme host (below dirs t)

/-- Resolving a relative path and putting it behind the last `/` of the base come to the same once collapsed, exactly
if the path does not begin with more `../` than the base has directories below its root. -/
theorem collapse_resolve_iff (hroot : Root root) (hdirs : ∀ d ∈ dirs, Ordinary d ∧ '/' ∉ d) (hfile : '/' ∉ file)
    (rel : Text) :
    collapse (resolve (root ++ below dirs file) rel) = collapse (root ++ below dirs [] ++ rel) ↔
      ¬ climbs (dirs.length + 1) <+: rel := by
  obtain ⟨top, htop, hbelow⟩ := hroot.anchored hdirs
  rw [List.append_assoc, ← below_append_text, List.nil_append, hbelow, hbelow, climbs_prefix_iff, Nat.not_le,
    Nat.lt_succ_iff]
  exact ⟨htop.climb_le hfile, htop.collapse_resolve hfile⟩

/-- From two directories below a host, two steps up lead to the same place. Of three, resolving takes two, and collapsing
takes the host away with the third. -/
theorem collapse_resolve_iff_sample :
    Root "http://host/".toList ∧ (∀ d ∈ ["app".toList, "shop".toList], Ordinary d ∧ '/' ∉ d) ∧
      '/' ∉ "page".toList ∧
      collapse (resolve "http://host/app/shop/page".toList "../../x/..//login/".toList) =
        collapse ("http://host/app/shop/".toList ++ "../../x/..//login/".toList) ∧
      collapse (resolve "http://host/app/shop/page".toList "../../../login".toList) ≠
        collapse ("http://host/app/shop/".toList ++ "../../../login".toList) := by
  have hroot : Root "http://host/".toList :=
    @Root.host "http".toList "host".toList ⟨by decide, by decide⟩ ⟨by decide, by decide⟩
  have hdirs : ∀ d ∈ ["app".toList, "shop".toList], Ordinary d ∧ '/' ∉ d := by
    unfold Ordinary
    decide
  have hfile : '/' ∉ "page".toList := by decide
  have hbase : "http://host/".toList ++ below ["app".toList, "shop".toList] "page".toList =
      "http://host/app/shop/page".toList := by decide
  have hfront : "http://host/".toList ++ below ["app".toList, "shop".toList] [] =
      "http://host/app/shop/".toList := by decide
  have hiff := collapse_resolve_iff hroot hdirs hfile
  rw [hbase, hfront] at hiff
  exact ⟨hroot, hdirs, hfile, (hiff _).mpr (by decide), mt (hiff _).mp (by decide)⟩

end PageRouting.Path
