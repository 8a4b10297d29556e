import Mathlib.Data.List.TakeDrop
import PageRouting.Toml.Document

/-! Reading what a plain writer of TOML writes: keys and values line by line, with quoted texts, arrays and inline
tables. -/
namespace PageRouting.Toml

namespace Quoted

/-- Quotes, backslashes and control characters are written by their codes. -/
def writeChar (c : Char) : Text :=
  if isPlain c && c ≠ '\x22' && c ≠ '\\' then [c]
  else ['\\', 'x', Percent.hexDigit (c.toNat / 16), Percent.hexDigit (c.toNat % 16)]

def writeBody (t : Text) : Text := t.flatMap writeChar

def write (t : Text) : Text := '\x22' :: (writeBody t ++ ['\x22'])

theorem writeChar_cases (c : Char) :
    (isPlain c = true ∧ c ≠ '\x22' ∧ c ≠ '\\' ∧ writeChar c = [c]) ∨
    (c.toNat < 128 ∧
      writeChar c = ['\\', 'x', Percent.hexDigit (c.toNat / 16), Percent.hexDigit (c.toNat % 16)]) := by
  rw [writeChar]
  split
  · next h =>
    simp only [Bool.and_eq_true, decide_eq_true_eq] at h
    exact .inl ⟨h.1.1, h.1.2, h.2, rfl⟩
  · next h =>
    refine .inr ⟨?_, rfl⟩
    simp only [Bool.and_eq_true, decide_eq_true_eq] at h
    by_cases hp : isPlain c = true
    · by_cases hq : c = '\x22'
      · subst hq
        decide
      · have hb : c = '\\' := Decidable.not_not.mp fun hb => h ⟨⟨hp, hq⟩, hb⟩
        subst hb
        decide
    · simp only [isPlain, Bool.or_eq_true, Bool.and_eq_true, decide_eq_true_eq, not_or, not_and,
        Decidable.not_not] at hp
      by_cases hlow : 32 ≤ c.toNat
      · have := hp.2 hlow
        omega
      · omega

theorem hexDigit_plain {n : Nat} (h : n < 16) :
    isPlain (Percent.hexDigit n) = true ∧ Percent.hexDigit n ≠ '\x22' ∧ Percent.hexDigit n ≠ '\\' := by
  revert n
  decide

theorem single_cons {c q : Char} (hb : c ≠ '\\') (hq : c ≠ q) (t : Text) :
    single true q (c :: t) = (single true q t).map fun r => (c :: r.1, r.2) := by
  rw [single, if_neg hq]
  intro _ _ hc
  exact absurd hc hb

theorem single_writeChar (c : Char) (t : Text) :
    single true '\x22' (writeChar c ++ t) = (single true '\x22' t).map fun r => (writeChar c ++ r.1, r.2) := by
  obtain ⟨-, hq, hb, he⟩ | ⟨hc, he⟩ := writeChar_cases c <;> rw [he]
  · exact single_cons hb hq t
  · obtain ⟨-, hq, hb⟩ := hexDigit_plain (n := c.toNat / 16) (by omega)
    obtain ⟨-, hq', hb'⟩ := hexDigit_plain (n := c.toNat % 16) (by omega)
    simp only [List.cons_append, List.nil_append]
    rw [single, if_pos rfl, single_cons hb hq, single_cons hb' hq', Option.map_map, Option.map_map]
    rfl

/-- The body of a written text ends at the first quote that is no part of it. -/
theorem single_writeBody (t rest : Text) :
    single true '\x22' (writeBody t ++ '\x22' :: rest) = some (writeBody t, rest) := by
  induction t with
  | nil => rfl
  | cons c t ih =>
    rw [writeBody, List.flatMap_cons, List.append_assoc, single_writeChar]
    rw [writeBody] at ih
    rw [ih]
    rfl

theorem all_isPlain_writeBody (t : Text) : (writeBody t).all isPlain = true := by
  rw [List.all_eq_true]
  intro d hd
  obtain ⟨c, -, hd⟩ := List.mem_flatMap.mp hd
  obtain ⟨hp, -, -, he⟩ | ⟨hc, he⟩ := writeChar_cases c <;> rw [he] at hd
  · cases List.mem_singleton.mp hd
    exact hp
  · have hhi := (hexDigit_plain (n := c.toNat / 16) (by omega)).1
    have hlo := (hexDigit_plain (n := c.toNat % 16) (by omega)).1
    simp only [List.mem_cons, List.not_mem_nil, or_false] at hd
    rcases hd with rfl | rfl | rfl | rfl
    · rfl
    · rfl
    · exact hhi
    · exact hlo

theorem character?_hexDigits {c : Char} (hc : c.toNat < 128) :
    character? [Percent.hexDigit (c.toNat / 16), Percent.hexDigit (c.toNat % 16)] = some c := by
  have hsum : (0 * 16 + c.toNat / 16) * 16 + c.toNat % 16 = c.toNat := by omega
  have hcode : [Percent.hexDigit (c.toNat / 16), Percent.hexDigit (c.toNat % 16)].foldlM
      (fun n d => return n * 16 + (← Percent.hexValue? d)) 0 = some c.toNat := by
    simp only [List.foldlM_cons, List.foldlM_nil, Percent.hexValue?_hexDigit (n := c.toNat / 16) (by omega),
      Percent.hexValue?_hexDigit (n := c.toNat % 16) (by omega), Option.bind_eq_bind, Option.bind_some,
      Option.pure_def, hsum]
  have hvalid : c.toNat.isValidChar := c.valid
  rw [character?, hcode]
  exact dif_pos hvalid

theorem unescape_cons {c : Char} (hb : c ≠ '\\') (t : Text) :
    unescape false (c :: t) = (unescape false t).map (c :: ·) := by
  rw [unescape]
  · rfl
  all_goals simp [hb]

theorem unescape_writeBody (t : Text) : unescape false (writeBody t) = some t := by
  induction t with
  | nil => rfl
  | cons c t ih =>
    rw [writeBody, List.flatMap_cons]
    rw [writeBody] at ih
    obtain ⟨-, -, hb, he⟩ | ⟨hc, he⟩ := writeChar_cases c <;> rw [he]
    · rw [List.singleton_append, unescape_cons hb, ih]
      rfl
    · simp only [List.cons_append, List.nil_append]
      rw [unescape, character?_hexDigits hc, ih]
      rfl

/-- Quoted text that does not go on after two quotes stands within one line. -/
theorem read_eq_line {e : Bool} {q : Char} {t : Text} (h : ¬ [q, q] <+: t) : read e q (q :: t) = read.line e q t := by
  match t with
  | [] => rw [read, if_pos rfl]; simp
  | [a] => rw [read, if_pos rfl]; simp
  | a :: b :: t =>
    have hno : ¬ (q = q ∧ a = q ∧ b = q) := by
      rintro ⟨-, rfl, rfl⟩
      exact h ⟨t, rfl⟩
    rw [read, if_neg hno, if_pos rfl]

/-- A written text is read back, and what follows is left, unless it makes three quotes of two. -/
theorem read_write (t : Text) {rest : Text} (h : rest.head? ≠ some '\x22') :
    read true '\x22' (write t ++ rest) = some (t, rest) := by
  have hquotes : ¬ ['\x22', '\x22'] <+: writeBody t ++ '\x22' :: rest := by
    cases t with
    | nil =>
      rintro ⟨u, hu⟩
      cases hu
      exact h rfl
    | cons c t =>
      rintro ⟨u, hu⟩
      rw [writeBody, List.flatMap_cons] at hu
      obtain ⟨-, hq, -, he⟩ | ⟨-, he⟩ := writeChar_cases c <;> rw [he] at hu
      · exact hq (List.cons.inj hu).1.symm
      · cases hu
  have hwrite : write t ++ rest = '\x22' :: (writeBody t ++ '\x22' :: rest) := by
    simp [write]
  rw [hwrite, read_eq_line hquotes, read.line, single_writeBody]
  simp only [Option.bind_eq_bind, Option.bind_some, all_isPlain_writeBody, unescape_writeBody]
  rfl

end Quoted

/-- Neither passed over between values nor the start of a comment. -/
def isSolid (c : Char) : Bool := !isBlank c && c ≠ '\n' && c ≠ '\r' && c ≠ '#'

section
variable {c : Char} {t : Text}

theorem trivia_solid (h : isSolid c = true) : trivia false (c :: t) = some (c :: t) := by
  simp only [isSolid, Bool.and_eq_true, Bool.not_eq_true', decide_eq_true_eq] at h
  obtain ⟨⟨⟨hblank, hn⟩, hr⟩, hcomment⟩ := h
  rw [trivia]
  · simp [hblank, hcomment]
  · simp [hn]
  · simp [hr]

theorem trivia_blank (t : Text) : trivia false (' ' :: t) = trivia false t := by
  rw [trivia]
  · rfl
  · simp
  · simp

theorem dropWhile_isBlank_solid (h : isSolid c = true) : (c :: t).dropWhile isBlank = c :: t := by
  have hblank : isBlank c = false := by
    simp only [isSolid, Bool.and_eq_true, Bool.not_eq_true'] at h
    exact h.1.1.1
  rw [List.dropWhile_cons_of_neg (by simp [hblank])]

end

/-- Items that are each written with a comma behind them. -/
theorem items_written {α β : Type} {item : Text → Option (β × Text)} {close : Char} {write : α → Text}
    {value : α → β} (hclose : isSolid close = true) (hcomma : close ≠ ',') {as : List α}
    (hitem : ∀ a ∈ as, ∀ rest, item (write a ++ ',' :: rest) = some (value a, ',' :: rest))
    (hsolid : ∀ a ∈ as, ∃ c t, write a = c :: t ∧ isSolid c = true ∧ c ≠ close) (rest : Text) :
    items item close ((as.flatMap fun a => write a ++ [',']) ++ close :: rest) = some (as.map value, rest) := by
  induction as with
  | nil =>
    rw [List.flatMap_nil, List.nil_append, items, trivia_solid hclose]
    simp
  | cons a as ih =>
    obtain ⟨c, t, hw, hc, hne⟩ := hsolid a List.mem_cons_self
    have hrest := ih (fun b hb => hitem b (List.mem_cons_of_mem a hb)) fun b hb => hsolid b (List.mem_cons_of_mem a hb)
    have hread := hitem a List.mem_cons_self ((as.flatMap fun a => write a ++ [',']) ++ close :: rest)
    rw [hw] at hread
    rw [List.flatMap_cons, hw]
    simp only [List.cons_append, List.append_assoc, List.nil_append] at hread ⊢
    rw [items, trivia_solid hc]
    dsimp only
    rw [if_neg hne, hread]
    dsimp only
    rw [trivia_solid rfl]
    dsimp only
    rw [if_neg (Ne.symm hcomma), dif_pos ⟨rfl, by simp; omega⟩, hrest]
    rfl

theorem ne_of_isBare {c d : Char} (hc : isBare c = true) (hd : isBare d = false) : c ≠ d := by
  intro h
  rw [h, hd] at hc
  cases hc

theorem isSolid_of_isBare {c : Char} (h : isBare c = true) : isSolid c = true := by
  have hne (d : Char) (hd : isBare d = false) : c ≠ d := ne_of_isBare h hd
  simp [isSolid, isBlank, hne ' ' rfl, hne '\t' rfl, hne '\n' rfl, hne '\r' rfl, hne '#' rfl]

/-- A key that needs no quotes. -/
def isBareKey (k : Text) : Bool := !k.isEmpty && k.all isBare

theorem exists_cons_of_isBareKey {k : Text} (hk : isBareKey k = true) :
    ∃ c t, k = c :: t ∧ isBare c = true ∧ t.all isBare = true := by
  cases k with
  | nil => cases hk
  | cons c t =>
    simp only [isBareKey, List.all_cons, Bool.and_eq_true] at hk
    exact ⟨c, t, rfl, hk.2⟩

theorem keyPart_bare {k : Text} (hk : isBareKey k = true) (t : Text) :
    keyPart (k ++ ' ' :: t) = some (k, ' ' :: t) := by
  obtain ⟨c, k, rfl, hc, hall⟩ := exists_cons_of_isBareKey hk
  have hk : ∀ d ∈ c :: k, isBare d = true := List.forall_mem_cons.mpr ⟨hc, List.all_eq_true.mp hall⟩
  have hspan : (c :: k ++ ' ' :: t).span isBare = (c :: k, ' ' :: t) := by
    rw [List.span_eq_takeWhile_dropWhile, List.takeWhile_append_of_pos hk, List.dropWhile_append_of_pos hk]
    rw [List.takeWhile_cons_of_neg (by decide), List.dropWhile_cons_of_neg (by decide), List.append_nil]
  rw [List.cons_append] at hspan ⊢
  rw [keyPart]
  · rw [hspan]
    rfl
  · exact fun _ h => ne_of_isBare hc rfl (List.cons.inj h).1
  · exact fun _ h => ne_of_isBare hc rfl (List.cons.inj h).1

theorem key_bare {k : Text} (hk : isBareKey k = true) (t : Text) :
    key (k ++ ' ' :: '=' :: t) = some (([], k), '=' :: t) := by
  have hblank : (' ' :: '=' :: t).dropWhile isBlank = '=' :: t := rfl
  have hparts : keyParts (k ++ ' ' :: '=' :: t) = some ([k], '=' :: t) := by
    rw [keyParts, keyPart_bare hk]
    simp [hblank]
  rw [key, hparts]
  rfl

/-- A key with the text and the value that stand behind it. -/
structure Field where
  key : Text
  text : Text
  value : Value

namespace Field

def write (f : Field) : Text := f.key ++ ' ' :: '=' :: ' ' :: f.text

/-- Fields that are read again where a given character follows them. -/
structure Reads (f : Field) (value : Text → Option (Value × Text)) (next : Char) : Prop where
  bare : isBareKey f.key = true
  solid : ∃ c t, f.text = c :: t ∧ isSolid c = true
  value_eq : ∀ rest, value (f.text ++ next :: rest) = some (f.value, next :: rest)

variable {f : Field} {value : Text → Option (Value × Text)} {next : Char}

theorem Reads.entry_write (h : f.Reads value next) (skip : Text → Option Text)
    (hsolid : ∀ c t, isSolid c = true → skip (c :: t) = some (c :: t)) (hblank : ∀ t, skip (' ' :: t) = skip t)
    (rest : Text) :
    entry skip value (f.write ++ next :: rest) = some (([], f.key, f.value), next :: rest) := by
  obtain ⟨c, t, ht, hc⟩ := h.solid
  have hvalue := h.value_eq rest
  rw [ht, List.cons_append] at hvalue
  have hkey := key_bare h.bare (' ' :: c :: (t ++ next :: rest))
  rw [write, ht]
  simp only [List.append_assoc, List.cons_append]
  rw [entry, hkey]
  simp only [Option.bind_eq_bind, Option.bind_some]
  rw [hsolid '=' _ rfl]
  simp only [Option.bind_some]
  rw [hblank, hsolid c _ hc]
  simp only [Option.bind_some]
  rw [hvalue]
  rfl

/-- The first character of a field belongs to its key. -/
theorem Reads.write_eq (h : f.Reads value next) : ∃ c t, f.write = c :: t ∧ isBare c = true := by
  obtain ⟨c, k, hk, hc, -⟩ := exists_cons_of_isBareKey h.bare
  exact ⟨c, k ++ ' ' :: '=' :: ' ' :: f.text, by rw [write, hk]; rfl, hc⟩

/-- A field on a line of its own. -/
theorem Reads.statement_write (h : f.Reads (Toml.value maxDepth) '\n') (rest : Text) :
    statement (f.write ++ '\n' :: rest) = some (.entry [] f.key f.value, rest) := by
  obtain ⟨c, t, hw, hc⟩ := h.write_eq
  have hentry := h.entry_write (fun t => some (t.dropWhile isBlank))
    (fun _ _ hd => congrArg some (dropWhile_isBlank_solid hd)) (fun _ => rfl) rest
  rw [hw] at hentry ⊢
  rw [List.cons_append] at hentry ⊢
  rw [statement]
  · rw [hentry]
    rfl
  · exact fun _ he => ne_of_isBare hc rfl (List.cons.inj he).1
  · exact fun _ he => ne_of_isBare hc rfl (List.cons.inj he).1

def writeLines (fs : List Field) : Text := fs.flatMap fun f => f.write ++ ['\n']

theorem statements_writeLines {fs : List Field} (h : ∀ f ∈ fs, f.Reads (Toml.value maxDepth) '\n') :
    statements (writeLines fs) = some (fs.map fun f => .entry [] f.key f.value) := by
  induction fs with
  | nil =>
    rw [writeLines, List.flatMap_nil, statements, trivia]
    rfl
  | cons f fs ih =>
    have hf := h f List.mem_cons_self
    obtain ⟨c, t, hw, hc⟩ := hf.write_eq
    have hread := hf.statement_write (writeLines fs)
    have hrest := ih fun g hg => h g (List.mem_cons_of_mem f hg)
    rw [hw, List.cons_append] at hread
    rw [writeLines, List.flatMap_cons, hw]
    rw [writeLines] at hread hrest
    simp only [List.cons_append, List.append_assoc, List.nil_append]
    rw [statements, trivia_solid (isSolid_of_isBare hc)]
    dsimp only
    rw [hread]
    dsimp only
    rw [dif_pos (by simp; omega), hrest]
    rfl

end Field

theorem value_array {α : Type} {d : Nat} {write : α → Text} {v : α → Value} {as : List α}
    (hitem : ∀ a ∈ as, ∀ rest, value d (write a ++ ',' :: rest) = some (v a, ',' :: rest))
    (hsolid : ∀ a ∈ as, ∃ c t, write a = c :: t ∧ isSolid c = true ∧ c ≠ ']') (rest : Text) :
    value (d + 1) ('[' :: ((as.flatMap fun a => write a ++ [',']) ++ ']' :: rest)) =
      some (.array (as.map v), rest) := by
  rw [value, items_written rfl (by decide) hitem hsolid rest]
  rfl

theorem value_write (d : Nat) (t : Text) {c : Char} (h : c ≠ '\x22') (rest : Text) :
    value d (Quoted.write t ++ c :: rest) = some (.text t, c :: rest) := by
  have hread : Quoted.read true '\x22' (Quoted.write t ++ c :: rest) = some (t, c :: rest) :=
    Quoted.read_write t (by simpa using h)
  rw [Quoted.write, List.cons_append] at hread ⊢
  rw [value, hread]
  rfl

def writeBoolean (b : Bool) : Text := if b then "true".toList else "false".toList

theorem value_writeBoolean (d : Nat) (b : Bool) (rest : Text) :
    value d (writeBoolean b ++ ',' :: rest) = some (.boolean b, ',' :: rest) := by
  have hspelling : Scalar.spelling [] (writeBoolean b ++ ',' :: rest) = (writeBoolean b, ',' :: rest) := by
    cases b <;> rfl
  have hvalue : Scalar.value? (writeBoolean b) = some (.boolean b) := by
    cases b <;> rfl
  have hread : value d (writeBoolean b ++ ',' :: rest) = Scalar.read (writeBoolean b ++ ',' :: rest) := by
    cases b <;> cases d <;> rfl
  rw [hread, Scalar.read, hspelling]
  simp only [hvalue]
  rfl

namespace Table
variable {t : Table} {key : Text} {v : Value}

theorem insert_new (hkind : t.kind = .header) (hkey : key ∉ t.entries.map (·.1)) :
    insert [] key v t = some ⟨.header, t.entries ++ [(key, v)]⟩ := by
  have hfind : t.find? key = none := by
    rw [find?, List.lookup_eq_none_iff]
    intro e he
    simp only [bne_iff_ne, ne_eq]
    rintro rfl
    exact hkey (List.mem_map_of_mem he)
  simp [insert, descend, set, hkind, hfind]

theorem insert_all {fs : List Field} {es : List (Text × Value)} (h : (es.map (·.1) ++ fs.map (·.key)).Nodup) :
    fs.foldlM (fun t f => insert [] f.key f.value t) ⟨.header, es⟩ =
      some ⟨.header, es ++ fs.map fun f => (f.key, f.value)⟩ := by
  induction fs generalizing es with
  | nil => simp
  | cons f fs ih =>
    have hkey : f.key ∉ es.map (·.1) := by
      intro hmem
      exact (List.nodup_append.mp h).2.2 f.key hmem f.key List.mem_cons_self rfl
    rw [List.foldlM_cons, insert_new rfl hkey]
    simp only [Option.bind_eq_bind, Option.bind_some]
    rw [ih (by simpa using h)]
    simp

/-- Fields of different keys make a table of just these fields. -/
theorem of_fields {fs : List Field} (h : (fs.map (·.key)).Nodup) :
    fs.foldlM (fun t f => insert [] f.key f.value t) {} = some ⟨.header, fs.map fun f => (f.key, f.value)⟩ :=
  @insert_all fs [] h

end Table

namespace Field

def record (fs : List Field) : Value := .table .inline (fs.map fun f => (f.key, f.value))

def writeRecord (fs : List Field) : Text := '\x7b' :: ((fs.flatMap fun f => f.write ++ [',']) ++ ['\x7d'])

theorem inlineTable_fields {fs : List Field} (h : (fs.map (·.key)).Nodup) :
    inlineTable (fs.map fun f => ([], f.key, f.value)) = some (record fs) := by
  rw [inlineTable, List.foldlM_map]
  dsimp only
  rw [Table.of_fields h]
  rfl

theorem value_writeRecord {d : Nat} {fs : List Field} (h : ∀ f ∈ fs, f.Reads (Toml.value d) ',')
    (hkeys : (fs.map (·.key)).Nodup) (rest : Text) :
    Toml.value (d + 1) (writeRecord fs ++ rest) = some (record fs, rest) := by
  have hitem : ∀ f ∈ fs, ∀ rest, entry (trivia false) (Toml.value d) (f.write ++ ',' :: rest) =
      some (([], f.key, f.value), ',' :: rest) := fun f hf =>
    (h f hf).entry_write (trivia false) (fun _ _ => trivia_solid) trivia_blank
  have hsolid : ∀ f ∈ fs, ∃ c t, f.write = c :: t ∧ isSolid c = true ∧ c ≠ '\x7d' := by
    intro f hf
    obtain ⟨c, t, hw, hc⟩ := (h f hf).write_eq
    exact ⟨c, t, hw, isSolid_of_isBare hc, ne_of_isBare hc rfl⟩
  have hwrite : writeRecord fs ++ rest = '\x7b' :: ((fs.flatMap fun f => f.write ++ [',']) ++ '\x7d' :: rest) := by
    simp [writeRecord]
  rw [hwrite, Toml.value, items_written rfl (by decide) hitem hsolid rest]
  simp only [Option.bind_eq_bind, Option.bind_some]
  rw [inlineTable_fields hkeys]
  rfl

theorem draft_fields (fs : List Field) (t : Table) :
    (fs.map fun f => Statement.entry [] f.key f.value).foldlM Draft.add ⟨t, []⟩ =
      (fs.foldlM (fun t f => Table.insert [] f.key f.value t) t).map fun t => ⟨t, []⟩ := by
  induction fs generalizing t with
  | nil => rfl
  | cons f fs ih =>
    rw [List.map_cons, List.foldlM_cons, List.foldlM_cons, Draft.add, Table.descend]
    cases Table.insert [] f.key f.value t with
    | none => rfl
    | some t => exact ih t

/-- A document of one field to a line spells the table of these fields. -/
theorem parse_writeLines {fs : List Field} (h : ∀ f ∈ fs, f.Reads (Toml.value maxDepth) '\n')
    (hkeys : (fs.map (·.key)).Nodup) :
    parse (writeLines fs) = some ⟨.header, fs.map fun f => (f.key, f.value)⟩ := by
  have hmark : (writeLines fs).head? ≠ some '\ufeff' := by
    cases fs with
    | nil => simp [writeLines]
    | cons f fs =>
      obtain ⟨c, t, hw, hc⟩ := (h f List.mem_cons_self).write_eq
      rw [writeLines, List.flatMap_cons, hw]
      exact fun he => ne_of_isBare hc rfl (Option.some.inj he)
  rw [parse, if_neg hmark, statements_writeLines h]
  simp only [Option.bind_eq_bind, Option.bind_some]
  rw [draft_fields, Table.of_fields hkeys]
  rfl

def ofText (key : String) (t : Text) : Field := ⟨key.toList, Quoted.write t, .text t⟩

def ofBoolean (key : String) (b : Bool) : Field := ⟨key.toList, writeBoolean b, .boolean b⟩

def ofRecord (key : String) (fs : List Field) : Field := ⟨key.toList, writeRecord fs, record fs⟩

def ofRecords (key : String) (records : List (List Field)) : Field :=
  ⟨key.toList, '[' :: ((records.flatMap fun fs => writeRecord fs ++ [',']) ++ [']']), .array (records.map record)⟩

variable {k : String} {d : Nat}

theorem reads_ofText (hk : isBareKey k.toList = true) (t : Text) (hnext : next ≠ '\x22') :
    (ofText k t).Reads (Toml.value d) next where
  bare := hk
  solid := ⟨'\x22', Quoted.writeBody t ++ ['\x22'], rfl, rfl⟩
  value_eq := value_write d t hnext

theorem reads_ofBoolean (hk : isBareKey k.toList = true) (b : Bool) : (ofBoolean k b).Reads (Toml.value d) ',' where
  bare := hk
  solid := by
    cases b
    · exact ⟨'f', "alse".toList, rfl, rfl⟩
    · exact ⟨'t', "rue".toList, rfl, rfl⟩
  value_eq := value_writeBoolean d b

/-- A text and a boolean. -/
def pair (k : String) (t : Text) (k' : String) (b : Bool) : List Field := [ofText k t, ofBoolean k' b]

section
variable {k' : String}

theorem reads_pair (hk : isBareKey k.toList = true) (hk' : isBareKey k'.toList = true) (t : Text) (b : Bool) :
    ∀ f ∈ pair k t k' b, f.Reads (Toml.value d) ',' := by
  intro f hf
  simp only [pair, List.mem_cons, List.not_mem_nil, or_false] at hf
  obtain rfl | rfl := hf
  · exact reads_ofText hk t (by decide)
  · exact reads_ofBoolean hk' b

theorem nodup_pair (h : k ≠ k') (t : Text) (b : Bool) : ((pair k t k' b).map (·.key)).Nodup := by
  simpa [pair, ofText, ofBoolean] using fun he => h (String.toList_injective he)

end

theorem reads_ofRecord {fs : List Field} (hk : isBareKey k.toList = true) (h : ∀ f ∈ fs, f.Reads (Toml.value d) ',')
    (hkeys : (fs.map (·.key)).Nodup) : (ofRecord k fs).Reads (Toml.value (d + 1)) next where
  bare := hk
  solid := ⟨'\x7b', _, rfl, rfl⟩
  value_eq rest := value_writeRecord h hkeys (next :: rest)

theorem reads_ofRecords {records : List (List Field)} (hk : isBareKey k.toList = true)
    (h : ∀ fs ∈ records, ∀ f ∈ fs, f.Reads (Toml.value d) ',')
    (hkeys : ∀ fs ∈ records, (fs.map (·.key)).Nodup) :
    (ofRecords k records).Reads (Toml.value (d + 2)) next where
  bare := hk
  solid := ⟨'[', _, rfl, rfl⟩
  value_eq rest := by
    have hwrite : (ofRecords k records).text ++ next :: rest =
        '[' :: ((records.flatMap fun fs => writeRecord fs ++ [',']) ++ ']' :: next :: rest) := by
      simp [ofRecords]
    rw [hwrite]
    refine value_array (fun fs hfs rest => ?_) (fun fs _ => ?_) (next :: rest)
    · exact value_writeRecord (h fs hfs) (hkeys fs hfs) (',' :: rest)
    · exact ⟨'\x7b', _, rfl, rfl, by decide⟩

end Field

end PageRouting.Toml
