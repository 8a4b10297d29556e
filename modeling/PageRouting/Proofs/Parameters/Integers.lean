import PageRouting.Parameters.Reader
import PageRouting.Proofs.Parameters
import PageRouting.Proofs.Text.IntegerRange

/-! Parameters that are read as integers, by name or by position: which texts have a value, and what the error says of
any other. -/
namespace PageRouting

namespace IntegerRange

/-- The ranges that parameters are read in. -/
def machine : List IntegerRange := [int32, int64, word32, word64]

theorem contains_zero_of_mem_machine {r : IntegerRange} (h : r ∈ machine) : r.Contains 0 := by
  revert r
  decide

end IntegerRange

namespace Reader
variable {r : IntegerRange}

/-- The outcome for a text that is there. The label is the name or the index that it stands under. -/
theorem readAs_integer (h : r.Contains 0) (label raw : Text) :
    (integer r).readAs label raw =
      if r.Readable raw then .ok (r.value raw) else .error (.unreadable label r.name raw (.integer (r.fault raw))) := by
  simp only [readAs, integer, IntegerRange.read_eq h]
  split <;> rfl

theorem readAs_integer_of_spelledAs {v : Int} {text : Text} (h : r.Contains 0) (hv : r.Contains v)
    (ht : Decimal.SpelledAs v text) (label : Text) : (integer r).readAs label text = .ok v := by
  simp only [readAs, integer, IntegerRange.read_of_spelledAs h hv ht]
  rfl

end Reader

namespace Parameters
variable {p : Parameters} {α : Type}

theorem getAs_of_get? {name raw : Text} (h : p.get? name = some raw) (r : Reader α) :
    p.getAs r name = r.readAs name raw := by rw [getAs, h]

theorem indexedAs_of_getElem? {index : Nat} {raw : Text} (h : p.indexed[index]? = some raw) (r : Reader α) :
    p.indexedAs r index = r.readAs (Decimal.ofNat index) raw := by rw [indexedAs, h]

theorem get?_eq_none {name : Text} (h : name ∉ p.names) : p.get? name = none := by
  have hnone : p.values? name = none := NamedValues.values?_eq_none_iff.mpr h
  rw [get?, values, hnone]
  rfl

/-- A text is taken apart into a sign, the digits after it and a remainder. With digits, no remainder and a value in the
range it is read as this value, under a name as at an index; else the error names the place, the type, the text and its
fault. So an integer of the range is read from each of its texts. What is absent is reported as absent. -/
theorem integers_read {r : IntegerRange} (hr : r ∈ IntegerRange.machine) (p : Parameters) :
    (∀ raw, r.sign raw ++ r.digits raw ++ r.remainder raw = raw ∧ (∀ c ∈ r.digits raw, c.isDigit) ∧
      ∀ c ∈ (r.remainder raw).head?, ¬ c.isDigit) ∧
    (∀ name raw, p.get? name = some raw → p.getAs (.integer r) name =
      if r.Readable raw then .ok (r.value raw) else .error (.unreadable name r.name raw (.integer (r.fault raw)))) ∧
    (∀ index raw, p.indexed[index]? = some raw → p.indexedAs (.integer r) index =
      if r.Readable raw then .ok (r.value raw)
      else .error (.unreadable (Decimal.ofNat index) r.name raw (.integer (r.fault raw)))) ∧
    (∀ v, r.Contains v → Decimal.SpelledAs v (Decimal.ofInt v) ∧ ∀ text, Decimal.SpelledAs v text →
      (∀ name, p.get? name = some text → p.getAs (.integer r) name = .ok v) ∧
      ∀ index, p.indexed[index]? = some text → p.indexedAs (.integer r) index = .ok v) ∧
    (∀ name, name ∉ p.names → p.getAs (.integer r) name = .error (.missing name)) ∧
    ∀ index, p.indexed.length ≤ index →
      p.indexedAs (.integer r) index = .error (.indexOutOfRange index p.indexed.length) := by
  have hzero := IntegerRange.contains_zero_of_mem_machine hr
  refine ⟨fun raw => ⟨?_, fun _ => IntegerRange.isDigit_of_mem_digits, fun _ =>
      IntegerRange.not_isDigit_of_mem_head?_remainder⟩, fun name raw h => ?_, fun index raw h => ?_,
    fun v hv => ⟨Decimal.spelledAs_ofInt v, fun text ht => ⟨fun name h => ?_, fun index h => ?_⟩⟩,
    fun name h => ?_, fun index h => ?_⟩
  · rw [List.append_assoc, r.digits_append_remainder, r.sign_append_unsigned]
  · rw [getAs_of_get? h, Reader.readAs_integer hzero]
  · rw [indexedAs_of_getElem? h, Reader.readAs_integer hzero]
  · rw [getAs_of_get? h, Reader.readAs_integer_of_spelledAs hzero hv ht]
  · rw [indexedAs_of_getElem? h, Reader.readAs_integer_of_spelledAs hzero hv ht]
  · rw [getAs, get?_eq_none h]
  · rw [indexedAs, List.getElem?_eq_none h]

/-- A value one below the range that is followed by a letter, one at its upper end followed by a space, and `-007`. -/
def nearBounds : Parameters :=
  ⟨["-007".toList, "2147483647 ".toList], [("low".toList, ["-2147483649x".toList])]⟩

theorem integers_read_nearBounds :
    IntegerRange.int32 ∈ IntegerRange.machine ∧
      nearBounds.get? "low".toList = some "-2147483649x".toList ∧
      nearBounds.getAs (.integer .int32) "low".toList =
        .error (.unreadable "low".toList "i32" "-2147483649x".toList (.integer .tooSmall)) ∧
      nearBounds.indexed[1]? = some "2147483647 ".toList ∧
      nearBounds.indexedAs (.integer .int32) 1 =
        .error (.unreadable "1".toList "i32" "2147483647 ".toList (.integer .notDigit)) ∧
      IntegerRange.int32.Contains (-7) ∧ Decimal.SpelledAs (-7) "-007".toList ∧
      nearBounds.indexed[0]? = some "-007".toList ∧ nearBounds.indexedAs (.integer .int32) 0 = .ok (-7) ∧
      "high".toList ∉ nearBounds.names ∧
      nearBounds.getAs (.integer .int32) "high".toList = .error (.missing "high".toList) ∧
      nearBounds.indexed.length ≤ 2 ∧ nearBounds.indexedAs (.integer .int32) 2 = .error (.indexOutOfRange 2 2) := by
  have hr : IntegerRange.int32 ∈ IntegerRange.machine := List.mem_cons_self
  have hlow : nearBounds.get? "low".toList = some "-2147483649x".toList := by decide
  have hhigh : "high".toList ∉ nearBounds.names := by decide
  have hzeros : Decimal.SpelledAs (-7) "-007".toList := .minus 7 2 (by decide)
  obtain ⟨-, hnamed, hindexed, htexts, hmissing, hrange⟩ := integers_read hr nearBounds
  refine ⟨hr, hlow, ?_, rfl, ?_, by decide, hzeros, rfl, ?_, hhigh, hmissing _ hhigh, le_rfl, hrange 2 le_rfl⟩
  · exact (hnamed _ _ hlow).trans (by decide)
  · exact (hindexed 1 _ rfl).trans (by decide)
  · exact ((htexts _ (by decide)).2 _ hzeros).2 0 rfl

end Parameters
end PageRouting
