import ShutdownLint.Yaml.Value
/-!
Equality of values, which unlike `Value.same` tells apart the orders of entries and the bits of
numbers, and can be decided.
-/

set_option autoImplicit false

namespace ShutdownLint.Yaml.Value

mutual

def identical : Value → Value → Bool
  | .null, .null => true
  | .bool a, .bool b => a == b
  | .number m, .number n => m == n
  | .string s, .string t => s == t
  | .sequence vs, .sequence ws => identicalItems vs ws
  | .mapping es, .mapping fs => identicalEntries es fs
  | .tagged s v, .tagged t w => s == t && identical v w
  | _, _ => false

def identicalItems : List Value → List Value → Bool
  | [], [] => true
  | v :: vs, w :: ws => identical v w && identicalItems vs ws
  | _, _ => false

def identicalEntries : List (Value × Value) → List (Value × Value) → Bool
  | [], [] => true
  | (k, v) :: es, (l, w) :: fs => identical k l && identical v w && identicalEntries es fs
  | _, _ => false

end

mutual

theorem identical_iff : (v w : Value) → (identical v w ↔ v = w)
  | .sequence vs, w => by
    cases w with
    | sequence ws => rw [identical, identicalItems_iff vs ws, sequence.injEq]
    | _ => simp [identical]
  | .mapping es, w => by
    cases w with
    | mapping fs => rw [identical, identicalEntries_iff es fs, mapping.injEq]
    | _ => simp [identical]
  | .tagged s v, w => by
    cases w with
    | tagged t w =>
      rw [identical, Bool.and_eq_true, beq_iff_eq, identical_iff v w, tagged.injEq]
    | _ => simp [identical]
  | .null, w | .bool _, w | .number _, w | .string _, w => by
    cases w <;> simp [identical]

theorem identicalItems_iff : (vs ws : List Value) → (identicalItems vs ws ↔ vs = ws)
  | [], ws => by cases ws <;> simp [identicalItems]
  | v :: vs, ws => by
    cases ws with
    | nil => simp [identicalItems]
    | cons w ws =>
      rw [identicalItems, Bool.and_eq_true, identical_iff v w, identicalItems_iff vs ws,
        List.cons.injEq]

theorem identicalEntries_iff : (es fs : List (Value × Value)) → (identicalEntries es fs ↔ es = fs)
  | [], fs => by cases fs <;> simp [identicalEntries]
  | (k, v) :: es, fs => by
    cases fs with
    | nil => simp [identicalEntries]
    | cons f fs =>
      rw [identicalEntries, Bool.and_eq_true, Bool.and_eq_true, identical_iff k f.1,
        identical_iff v f.2, identicalEntries_iff es fs, List.cons.injEq, Prod.ext_iff]

end

instance : DecidableEq Value :=
  fun v w ↦ decidable_of_iff _ (identical_iff v w)

end ShutdownLint.Yaml.Value
