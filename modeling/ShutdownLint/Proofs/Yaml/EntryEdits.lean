import Mathlib.Data.Option.Basic
import Mathlib.Tactic.SplitIfs
import ShutdownLint.Proofs.Yaml.Reaches
/-!
Edits of values, and what a lookup sees of them.

Whoever reads a value of a mapping by its key sees an entry, and of its value what he looks at in
it. `AgreeAt` says that two mappings look the same to him. An edit of other entries is not seen, an
edit of the value is if what is looked at changes, and the order of entries never matters.
-/

set_option autoImplicit false

namespace ShutdownLint.Yaml.Value

variable {β : Type} {key key' : String} {keys : List String} {es fs : List (Value × Value)}
  {vs ws : List Value} {v w : Value} {g : Value → β} {R : Value → Value → Prop}

/-! ### What a lookup sees -/

/-- Two mappings look the same to whoever looks at the value of a key by a function. -/
def AgreeAt (key : String) (g : Value → β) (es fs : List (Value × Value)) : Prop :=
  (lookup key es).map g = (lookup key fs).map g

theorem bind_eq_of_map_eq {α γ : Type} {f : α → Option γ} {o o' : Option α}
    (h : o.map f = o'.map f) : o.bind f = o'.bind f := by
  have hbind := congrArg (Option.bind · id) h
  rwa [Option.bind_map, Option.bind_map] at hbind

theorem AgreeAt.map_bind_eq {α : Type} {f : Value → Option α} {look : α → β}
    (h : AgreeAt key (fun v ↦ (f v).map look) es fs) :
    ((lookup key es).bind f).map look = ((lookup key fs).bind f).map look := by
  rw [Option.map_bind, Option.map_bind]
  exact bind_eq_of_map_eq h

/-- An entry in the place of another one looks the same if both have the key, with values that look
the same, or neither has it. -/
theorem agreeAt_entry (before after : List (Value × Value)) {e f : Value × Value}
    (hkey : e.1 = .string key ↔ f.1 = .string key) (hvalue : e.1 = .string key → g e.2 = g f.2) :
    AgreeAt key g (before ++ e :: after) (before ++ f :: after) := by
  have hsame : f.1.isString key = e.1.isString key := by
    rw [Bool.eq_iff_iff, isString_iff, isString_iff, hkey]
  rw [AgreeAt, lookup_append, lookup_append, lookup_cons, lookup_cons, hsame, Option.map_or,
    Option.map_or]
  split_ifs with hstring
  · rw [Option.map_some, Option.map_some, hvalue (isString_iff.mp hstring)]
  · rfl

/-! ### Edits of entries -/

/-- Entries are put in the place of others, and none of them has one of these keys. -/
inductive ReplacesOthers (keys : List String) :
    List (Value × Value) → List (Value × Value) → Prop
  | mk (before old new after : List (Value × Value))
      (h : ∀ e ∈ old ++ new, ∀ key ∈ keys, e.1 ≠ .string key) :
      ReplacesOthers keys (before ++ old ++ after) (before ++ new ++ after)

theorem ReplacesOthers.agreeAt (h : ReplacesOthers keys es fs) (hkey : key ∈ keys) :
    AgreeAt key g es fs := by
  obtain ⟨before, old, new, after, h⟩ := h
  have hold : lookup key old = none := lookup_eq_none_iff.mpr fun e he ↦
    h e (List.mem_append_left new he) key hkey
  have hnew : lookup key new = none := lookup_eq_none_iff.mpr fun e he ↦
    h e (List.mem_append_right old he) key hkey
  simp only [AgreeAt, lookup_append, hold, hnew]

/-- A value of a key is put in the place of a related one. -/
inductive ChangesAt (key : String) (R : Value → Value → Prop) :
    List (Value × Value) → List (Value × Value) → Prop
  | mk (before after : List (Value × Value)) {v w : Value} (h : R v w) :
      ChangesAt key R (before ++ (.string key, v) :: after) (before ++ (.string key, w) :: after)

theorem ChangesAt.agreeAt (h : ChangesAt key R es fs) (hg : ∀ v w, R v w → g v = g w) :
    AgreeAt key g es fs := by
  obtain ⟨before, after, h⟩ := h
  exact agreeAt_entry before after Iff.rfl fun _ ↦ hg _ _ h

theorem ChangesAt.agreeAt_of_ne (h : ChangesAt key R es fs) (hne : key ≠ key') :
    AgreeAt key' g es fs := by
  obtain ⟨before, after, h⟩ := h
  exact agreeAt_entry before after Iff.rfl fun hkey ↦ absurd (Value.string.inj hkey) hne

/-! ### Edits below tags -/

/-- Two values are mappings under any tags, and the one arises from the other by an edit. -/
def InMapping (R : List (Value × Value) → List (Value × Value) → Prop) (v w : Value) : Prop :=
  ∃ es fs, v.untagged = .mapping es ∧ w.untagged = .mapping fs ∧ R es fs

/-- Two values are lists under any tags, and the one arises from the other by an edit. -/
def InSequence (R : List Value → List Value → Prop) (v w : Value) : Prop :=
  ∃ vs ws, v.untagged = .sequence vs ∧ w.untagged = .sequence ws ∧ R vs ws

theorem InMapping.map_asMapping?_eq {R : List (Value × Value) → List (Value × Value) → Prop}
    (h : InMapping R v w) {look : List (Value × Value) → β}
    (hlook : ∀ es fs, R es fs → look es = look fs) :
    v.asMapping?.map look = w.asMapping?.map look := by
  obtain ⟨es, fs, hes, hfs, h⟩ := h
  rw [asMapping?_eq_some_iff.mpr hes, asMapping?_eq_some_iff.mpr hfs, Option.map_some,
    Option.map_some, hlook es fs h]

theorem InSequence.map_asSequence?_eq {R : List Value → List Value → Prop}
    (h : InSequence R v w) {look : List Value → β}
    (hlook : ∀ vs ws, R vs ws → look vs = look ws) :
    v.asSequence?.map look = w.asSequence?.map look := by
  obtain ⟨vs, ws, hvs, hws, h⟩ := h
  rw [asSequence?_eq_some_iff.mpr hvs, asSequence?_eq_some_iff.mpr hws, Option.map_some,
    Option.map_some, hlook vs ws h]

/-! ### The order of entries -/

/-- The entries of one mapping, somewhere in a value, are put in another order. Its keys are
distinct, as they are in every mapping that was read. -/
inductive Reorders : Value → Value → Prop
  | here {es fs : List (Value × Value)} (hkeys : DistinctKeys es) (h : es.Perm fs) :
      Reorders (.mapping es) (.mapping fs)
  | key (before after : List (Value × Value)) {k l : Value} (v : Value) (h : Reorders k l) :
      Reorders (.mapping (before ++ (k, v) :: after)) (.mapping (before ++ (l, v) :: after))
  | entry (before after : List (Value × Value)) (k : Value) {v w : Value} (h : Reorders v w) :
      Reorders (.mapping (before ++ (k, v) :: after)) (.mapping (before ++ (k, w) :: after))
  | item (before after : List Value) {v w : Value} (h : Reorders v w) :
      Reorders (.sequence (before ++ v :: after)) (.sequence (before ++ w :: after))
  | under (name : String) {v w : Value} (h : Reorders v w) :
      Reorders (.tagged name v) (.tagged name w)

theorem Reorders.ne_string (h : Reorders v w) (s : String) : v ≠ .string s ∧ w ≠ .string s := by
  cases h <;> exact ⟨nofun, nofun⟩

theorem Reorders.agreeAt (h : Reorders (.mapping es) (.mapping fs))
    (hg : ∀ v w, Reorders v w → g v = g w) : AgreeAt key g es fs := by
  cases h with
  | here hkeys h => rw [AgreeAt, hkeys.lookup_eq_of_perm h]
  | key before after v h =>
    obtain ⟨hk, hl⟩ := h.ne_string key
    exact agreeAt_entry before after (iff_of_false hk hl) fun hkey ↦ absurd hkey hk
  | entry before after k h => exact agreeAt_entry before after Iff.rfl fun _ ↦ hg _ _ h

theorem Reorders.isNull_eq (h : Reorders v w) : v.isNull = w.isNull := by
  induction h with
  | under name h ih => exact ih
  | _ => rfl

theorem Reorders.map_asMapping?_eq (h : Reorders v w) {look : List (Value × Value) → β}
    (hlook : ∀ es fs, Reorders (.mapping es) (.mapping fs) → look es = look fs) :
    v.asMapping?.map look = w.asMapping?.map look := by
  induction h with
  | here hkeys h => exact congrArg some (hlook _ _ (.here hkeys h))
  | key before after v h => exact congrArg some (hlook _ _ (.key before after v h))
  | entry before after k h => exact congrArg some (hlook _ _ (.entry before after k h))
  | item before after h => rfl
  | under name h ih => exact ih

theorem Reorders.map_asSequence?_eq (h : Reorders v w) {look : List Value → β}
    (hlook : ∀ before after v w, Reorders v w →
      look (before ++ v :: after) = look (before ++ w :: after)) :
    v.asSequence?.map look = w.asSequence?.map look := by
  induction h with
  | item before after h => exact congrArg some (hlook before after _ _ h)
  | under name h ih => exact ih
  | _ => rfl

end ShutdownLint.Yaml.Value
