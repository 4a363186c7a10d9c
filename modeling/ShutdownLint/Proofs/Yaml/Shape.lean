import ShutdownLint.Yaml.Value
/-!
What a value is under its tags, and what stands at a key of a mapping. The accessors of values
answer by these two.
-/

set_option autoImplicit false

namespace ShutdownLint.Yaml.Value

/-- A value without the tags around it. -/
def untagged : Value → Value
  | .tagged _ v => v.untagged
  | v => v

theorem asMapping?_eq_some_iff {v : Value} {es : List (Value × Value)} :
    v.asMapping? = some es ↔ v.untagged = .mapping es := by
  fun_induction untagged v with
  | case1 _ v ih => rw [asMapping?, ih]
  | case2 v h => cases v <;> simp_all [asMapping?]

theorem asSequence?_eq_some_iff {v : Value} {items : List Value} :
    v.asSequence? = some items ↔ v.untagged = .sequence items := by
  fun_induction untagged v with
  | case1 _ v ih => rw [asSequence?, ih]
  | case2 v h => cases v <;> simp_all [asSequence?]

theorem isNull_iff {v : Value} : v.isNull ↔ v.untagged = .null := by
  fun_induction untagged v with
  | case1 _ v ih => rw [isNull, ih]
  | case2 v h => cases v <;> simp_all [isNull]

theorem isString_iff {s : String} {v : Value} : v.isString s ↔ v = .string s := by
  cases v with
  | string t => rw [isString, beq_iff_eq, Value.string.injEq, eq_comm]
  | _ => simp [isString]

/-- The first entry of a mapping whose key is the given string has the given value. -/
def Field (key : String) (es : List (Value × Value)) (v : Value) : Prop :=
  ∃ before after, es = before ++ (.string key, v) :: after ∧ ∀ e ∈ before, e.1 ≠ .string key

theorem lookup_eq_some_iff {key : String} {es : List (Value × Value)} {v : Value} :
    lookup key es = some v ↔ Field key es v := by
  simp only [lookup, Option.map_eq_some_iff, List.find?_eq_some_iff_append, Bool.not_eq_true',
    ← Bool.not_eq_true, isString_iff]
  constructor
  · rintro ⟨⟨k, w⟩, ⟨hk, before, after, rfl, hbefore⟩, rfl⟩
    obtain rfl : k = .string key := hk
    exact ⟨before, after, rfl, hbefore⟩
  · rintro ⟨before, after, rfl, hbefore⟩
    exact ⟨(.string key, v), ⟨rfl, before, after, rfl, hbefore⟩, rfl⟩

theorem isSome_lookup_iff {key : String} {es : List (Value × Value)} :
    (lookup key es).isSome ↔ ∃ v, Field key es v := by
  simp only [Option.isSome_iff_exists, lookup_eq_some_iff]

end ShutdownLint.Yaml.Value
