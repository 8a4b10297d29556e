import PageRouting.Run

/-! What runs do besides answering: the calls that they make and the world that they leave. -/
namespace PageRouting.Run

variable {W W' α β : Type}

theorem calls_events (es : List Event) : (es.map Note.event).filterMap Note.call? = [] := by
  rw [List.filterMap_map]
  exact List.filterMap_eq_nil_iff.mpr fun _ _ => rfl

theorem calls_bind (r : Run W α) (f : α → Run W β) (w : W) :
    ((r >>= f) w).calls = (r w).calls ++ (f (r w).answer (r w).world).calls := by
  rw [bind_apply]
  exact List.filterMap_append

/-- The same run without the calls that it notes. -/
def muted (r : Run W α) : Run W α := fun w => { r w with notes := (r w).events.map .event }

theorem calls_muted (r : Run W α) (w : W) : (r.muted w).calls = [] := calls_events _

/-- Runs that make the same calls and leave the same world, whatever they answer and report. -/
def SameEffects (r : Run W α) (s : Run W β) : Prop :=
  ∀ w, (r w).calls = (s w).calls ∧ (r w).world = (s w).world

theorem SameEffects.trans {γ : Type} {r : Run W α} {s : Run W β} {t : Run W γ} (hrs : r.SameEffects s)
    (hst : s.SameEffects t) : r.SameEffects t :=
  fun w => ⟨(hrs w).1.trans (hst w).1, (hrs w).2.trans (hst w).2⟩

/-- Runs that make no calls and leave the world as it is. -/
def Inert (r : Run W α) : Prop := r.SameEffects (pure () : Run W Unit)

theorem inert_pure (a : α) : Inert (pure a : Run W α) := fun _ => ⟨rfl, rfl⟩

theorem inert_log (e : Event) : Inert (log e : Run W Unit) := fun _ => ⟨rfl, rfl⟩

theorem inert_logAll (es : List Event) : Inert (logAll es : Run W Unit) := fun _ => ⟨calls_events es, rfl⟩

section
variable {r : Run W α} {f : α → Run W β}

theorem sameEffects_bind (hf : ∀ a, Inert (f a)) : SameEffects (r >>= f) r := by
  intro w
  obtain ⟨hc, hw⟩ := hf (r w).answer (r w).world
  rw [calls_bind, bind_world, hc, hw]
  exact ⟨List.append_nil _, rfl⟩

theorem Inert.bind (hr : Inert r) (hf : ∀ a, Inert (f a)) : Inert (r >>= f) := (sameEffects_bind hf).trans hr

end

/-- Runs that answer the same in every world and are inert. -/
def Yields (r : Run W α) (a : α) : Prop := r.Inert ∧ ∀ w, (r w).answer = a

theorem yields_pure (a : α) : (pure a : Run W α).Yields a := ⟨inert_pure a, fun _ => rfl⟩

theorem yields_log (e : Event) : (log e : Run W Unit).Yields () := ⟨inert_log e, fun _ => rfl⟩

theorem Yields.bind {r : Run W α} {f : α → Run W β} {a : α} {b : β} (hr : r.Yields a) (hf : ∀ a, (f a).Yields b) :
    (r >>= f).Yields b :=
  ⟨hr.1.bind fun a => (hf a).1, fun _ => (hf _).2 _⟩

/-- Runs over two worlds that answer the same in related worlds, and leave related worlds. -/
def Alike (R : W → W' → Prop) (r : Run W α) (r' : Run W' α) : Prop :=
  ∀ w w', R w w' → (r w).answer = (r' w').answer ∧ R (r w).world (r' w').world

section
variable {R : W → W' → Prop} {r : Run W α} {r' : Run W' α}

theorem Yields.alike {a : α} (h : r.Yields a) (h' : r'.Yields a) : Alike R r r' := by
  intro w w' hw
  rw [h.2, h'.2, (h.1 w).2, (h'.1 w').2]
  exact ⟨rfl, hw⟩

theorem Alike.bind (hr : Alike R r r') {f : α → Run W β} {f' : α → Run W' β} (hf : ∀ a, Alike R (f a) (f' a)) :
    Alike R (r >>= f) (r' >>= f') := by
  intro w w' h
  obtain ⟨ha, hw⟩ := hr w w' h
  rw [bind_answer, bind_answer, bind_world, bind_world, ← ha]
  exact hf _ _ _ hw

end

theorem answer_mapM_cons (f : α → Run W β) (a : α) (as : List α) (w : W) :
    ((a :: as).mapM f w).answer = (f a w).answer :: (as.mapM f (f a w).world).answer := by
  rw [List.mapM_cons]
  rfl

/-- Runs that answer the same, whichever of them was made before. -/
def Steady (f : α → Run W β) : Prop := ∀ a b w, (f a (f b w).world).answer = (f a w).answer

/-- In a series of steady runs each answers as it would alone. -/
theorem Steady.answer_mapM {f : α → Run W β} (hf : Steady f) (as : List α) (w : W) :
    (as.mapM f w).answer = as.map fun a => (f a w).answer := by
  induction as generalizing w with
  | nil => rfl
  | cons a as ih =>
    have hrest : (fun b => (f b (f a w).world).answer) = fun b => (f b w).answer := funext fun b => hf b a w
    rw [answer_mapM_cons, ih, hrest, List.map_cons]

end PageRouting.Run
