import PageRouting.Proofs.Toml
import PageRouting.Settings.Document

/-! Which settings a document or a file can hold: those that pass their own check, each of them in the document that
spells it out. -/
namespace PageRouting

open Toml (Field)

namespace ListenerInterface

def fields (i : ListenerInterface) : List Field := Field.pair "name" i.name "renders_page" i.rendersPage

theorem ofValue?_record (i : ListenerInterface) : ofValue? (Field.record i.fields) = some i := rfl

end ListenerInterface

def Logging.fields (l : Logging) : List Field := Field.pair "level" l.level "with_target" l.withTarget

namespace Settings

def fields (s : Settings) : List Field :=
  [.ofText ReservedSegment.root.key s.rootSegment, .ofText ReservedSegment.page.key s.pageSegment,
    .ofText ReservedSegment.byClass.key s.classSegment,
    .ofRecords "listener_interfaces" (s.interfaces.map ListenerInterface.fields),
    .ofRecord "logging" s.logging.fields]

/-- Settings with all their fields written out. -/
def document (s : Settings) : Text := Field.writeLines s.fields

theorem mapM_ofValue? (is : List ListenerInterface) :
    ((is.map ListenerInterface.fields).map Field.record).mapM ListenerInterface.ofValue? = some is := by
  induction is with
  | nil => rfl
  | cons i is ih =>
    rw [List.map_cons, List.map_cons, List.mapM_cons, ListenerInterface.ofValue?_record, ih]
    rfl

theorem ofValue?_fields (s : Settings) :
    ofValue? (.table .header (s.fields.map fun f => (f.key, f.value))) = some s :=
  calc ofValue? (.table .header (s.fields.map fun f => (f.key, f.value)))
    _ = (((s.interfaces.map ListenerInterface.fields).map Field.record).mapM ListenerInterface.ofValue?).bind
          fun is => some { s with interfaces := is } := rfl
    _ = some s := by rw [mapM_ofValue?]; rfl

theorem reads_fields (s : Settings) : ∀ f ∈ s.fields, f.Reads (Toml.value Toml.maxDepth) '\n' := by
  have hinterfaces : ∀ fs ∈ s.interfaces.map ListenerInterface.fields,
      (∀ d, ∀ f ∈ fs, f.Reads (Toml.value d) ',') ∧ (fs.map (·.key)).Nodup := by
    intro fs hfs
    obtain ⟨i, -, rfl⟩ := List.mem_map.mp hfs
    exact ⟨fun _ => Field.reads_pair rfl rfl i.name i.rendersPage,
      Field.nodup_pair (by decide) i.name i.rendersPage⟩
  simp only [fields, List.forall_mem_cons, List.not_mem_nil, IsEmpty.forall_iff, implies_true, and_true]
  refine ⟨?_, ?_, ?_, ?_, ?_⟩
  · exact Field.reads_ofText rfl s.rootSegment (by decide)
  · exact Field.reads_ofText rfl s.pageSegment (by decide)
  · exact Field.reads_ofText rfl s.classSegment (by decide)
  · exact Field.reads_ofRecords rfl (fun fs hfs => (hinterfaces fs hfs).1 _) fun fs hfs => (hinterfaces fs hfs).2
  · exact Field.reads_ofRecord rfl (Field.reads_pair rfl rfl s.logging.level s.logging.withTarget)
      (Field.nodup_pair (by decide) s.logging.level s.logging.withTarget)

theorem nodup_fields (s : Settings) : (s.fields.map (·.key)).Nodup := by
  have hkeys : s.fields.map (·.key) = ["namespace", "page_identifier", "bookmarkable_identifier",
      "listener_interfaces", "logging"].map String.toList := rfl
  rw [hkeys]
  decide

theorem parse_document (s : Settings) :
    (Toml.parse s.document).bind (fun table => ofValue? table.toValue) = some s := by
  rw [document, Field.parse_writeLines s.reads_fields s.nodup_fields, Option.bind_some]
  exact ofValue?_fields s

theorem ofDocument_eq_ok_iff {t : Text} {s : Settings} :
    ofDocument t = .ok s ↔
      (Toml.parse t).bind (fun table => ofValue? table.toValue) = some s ∧ s.validate = .ok () := by
  rw [ofDocument]
  cases (Toml.parse t).bind fun table => ofValue? table.toValue with
  | none => simp
  | some u =>
    dsimp only
    rw [Option.some.injEq]
    constructor
    · intro h
      cases hu : u.validate <;> rw [hu] at h <;> cases h
      exact ⟨rfl, hu⟩
    · rintro ⟨rfl, hu⟩
      rw [hu]

/-- A document that spells out settings loads just these, or says what is wrong with them. -/
theorem ofDocument_document (s : Settings) :
    ofDocument s.document = (s.validate.map fun _ => s).mapError .invalid := by
  rw [ofDocument, parse_document]
  dsimp only
  cases s.validate <;> rfl

/-- A file loads as the document that its octets encode. -/
theorem ofFile_eq_ok_iff {octets : Option (List UInt8)} {s : Settings} :
    ofFile octets = .ok s ↔ ∃ t, octets = some (Utf8.encode t) ∧ ofDocument t = .ok s := by
  rw [ofFile]
  cases hread : octets.bind Utf8.decode? with
  | none =>
    simp only [reduceCtorEq, false_iff, not_exists, not_and]
    rintro t rfl
    rw [Option.bind_some, Utf8.decode?_eq_some_iff.mpr rfl] at hread
    cases hread
  | some t =>
    obtain ⟨bs, rfl, ht⟩ := Option.bind_eq_some_iff.mp hread
    rw [Utf8.decode?_eq_some_iff] at ht
    subst ht
    constructor
    · exact fun h => ⟨t, rfl, h⟩
    · rintro ⟨u, hu, h⟩
      rw [Option.some.inj hu] at hread
      rw [Option.bind_some, Utf8.decode?_eq_some_iff.mpr rfl] at hread
      rw [← Option.some.inj hread]
      exact h

/-- Some file holds given settings exactly if they pass their own check. -/
theorem exists_ofFile_eq_ok_iff {s : Settings} : (∃ octets, ofFile octets = .ok s) ↔ s.validate = .ok () := by
  constructor
  · rintro ⟨octets, h⟩
    obtain ⟨t, -, ht⟩ := ofFile_eq_ok_iff.mp h
    exact (ofDocument_eq_ok_iff.mp ht).2
  · intro h
    refine ⟨some (Utf8.encode s.document), ofFile_eq_ok_iff.mpr ⟨s.document, rfl, ?_⟩⟩
    exact ofDocument_eq_ok_iff.mpr ⟨s.parse_document, h⟩

end Settings
end PageRouting
