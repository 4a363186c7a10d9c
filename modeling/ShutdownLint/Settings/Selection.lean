import ShutdownLint.Rule.Basic
import ShutdownLint.Settings.Basic
/-!
Which rules are in force.

The entries of the settings are gone through in the order of their spellings, and of several
spellings of one rule the last one decides: the rule is disabled if the entry switches it off, and
enabled otherwise. The overrides come after the settings and only disable rules. A spelling that
means no rule is an error, wherever it stands.
-/

set_option autoImplicit false

namespace ShutdownLint

/-- There is no rule of this spelling. -/
structure UnknownRule where
  spelling : String
  deriving DecidableEq, Inhabited, Repr

def UnknownRule.message (e : UnknownRule) : String :=
  "unknown rule: " ++ e.spelling ++ " (expected one of " ++ ", ".intercalate Rule.allIds ++ ")"

namespace Selection

/-- Puts an identifier in its place among others that are sorted. It stays alone there. -/
def insertId (id : String) : List String → List String
  | [] => [id]
  | x :: xs =>
    if id < x then id :: x :: xs
    else if x = id then x :: xs
    else x :: insertId id xs

theorem mem_insertId {id x : String} {ids : List String} :
    x ∈ insertId id ids ↔ x = id ∨ x ∈ ids := by
  induction ids with
  | nil => simp [insertId]
  | cons y ids ih =>
    unfold insertId
    split
    · exact List.mem_cons
    · split
      case isTrue hy => simp [hy]
      case isFalse => rw [List.mem_cons, ih, List.mem_cons, or_left_comm]

theorem pairwise_insertId (id : String) {ids : List String} (h : ids.Pairwise (· < ·)) :
    (insertId id ids).Pairwise (· < ·) := by
  induction ids with
  | nil => exact List.pairwise_singleton _ _
  | cons y ids ih =>
    obtain ⟨hy, hids⟩ := List.pairwise_cons.mp h
    unfold insertId
    split
    case isTrue hlt =>
      refine List.pairwise_cons.mpr ⟨fun x hx ↦ ?_, h⟩
      rcases List.mem_cons.mp hx with rfl | hx
      · exact hlt
      · exact String.lt_trans hlt (hy x hx)
    case isFalse hle =>
      split
      · exact h
      case isFalse hne =>
        have hlt : y < id := Decidable.by_contra fun hge ↦
          hne (String.le_antisymm (String.not_lt.mp hle) (String.not_lt.mp hge))
        refine List.pairwise_cons.mpr ⟨fun x hx ↦ ?_, ih hids⟩
        rcases mem_insertId.mp hx with rfl | hx
        · exact hlt
        · exact hy x hx

end Selection

/-- A set of rules that are disabled. -/
structure Selection where
  /-- Their identifiers, in their order and each once. -/
  disabledIds : List String
  sorted : disabledIds.Pairwise (· < ·)
  deriving DecidableEq, Repr

namespace Selection

/-- All rules are in force. -/
def everything : Selection :=
  ⟨[], .nil⟩

instance : Inhabited Selection :=
  ⟨everything⟩

def disable (s : Selection) (id : String) : Selection :=
  ⟨insertId id s.disabledIds, pairwise_insertId id s.sorted⟩

def enable (s : Selection) (id : String) : Selection :=
  ⟨s.disabledIds.filter (· != id), s.sorted.filter _⟩

/-- Whether findings under an identifier are reported. -/
def isEnabled (s : Selection) (id : String) : Bool :=
  !s.disabledIds.contains id

/-- The identifier that is meant by what somebody typed, if it is a known one. -/
def idOf (spelling : String) : Except UnknownRule String :=
  let id := Rule.normalize spelling
  if Rule.isKnown id then .ok id else .error ⟨spelling⟩

/-- Follows an entry of the settings. -/
def apply (s : Selection) (entry : String × RuleSetting) : Except UnknownRule Selection :=
  (idOf entry.1).map fun id ↦ if entry.2.enabled = some false then s.disable id else s.enable id

/-- Follows an override. -/
def override (s : Selection) (spelling : String) : Except UnknownRule Selection :=
  (idOf spelling).map s.disable

/-- The rules that settings and overrides leave in force. -/
def ofSettings (settings : Settings) (overrides : List String) : Except UnknownRule Selection := do
  let entries := settings.rules.mergeSort fun a b ↦ a.1 ≤ b.1
  let s ← entries.foldlM apply everything
  overrides.foldlM override s

end Selection

end ShutdownLint
