import ShutdownLint.Proofs.Text.Blank
import ShutdownLint.Rule.Basic
/-!
Spellings of rules. People may type an identifier in capitals or in small letters and with blanks
around it, and these are all the ways in which they can mean a rule.
-/

set_option autoImplicit false

namespace ShutdownLint

open Text

namespace Rule

theorem id_injective : Function.Injective id := by
  intro r s h
  have hsome := ofId?_id r
  rw [h, ofId?_id] at hsome
  exact (Option.some.inj hsome).symm

theorem ofId?_eq_some_iff {s : String} {r : Rule} : ofId? s = some r ↔ r.id = s :=
  ⟨id_of_ofId?, fun h ↦ h ▸ ofId?_id r⟩

/-- The list of the identifiers has those of all rules and no other ones. -/
theorem mem_allIds_iff {s : String} : s ∈ allIds ↔ ∃ r : Rule, r.id = s := by
  have hall : allIds = all.map id := rfl
  simp [hall, mem_all]

theorem isKnown_iff {s : String} : isKnown s = true ↔ ∃ r : Rule, r.id = s := by
  rw [isKnown, List.contains_iff_mem, mem_allIds_iff]

theorem isSolid_id (r : Rule) : IsSolid r.id.toList := by
  cases r <;> decide

theorem id_ne_nil (r : Rule) : r.id.toList ≠ [] := by
  cases r <;> decide

/-- A spelling of a rule: its identifier with letters of either case, between blanks. -/
def Spells (r : Rule) (spelling : String) : Prop :=
  ∃ before word after : List Char, spelling.toList = before ++ word ++ after ∧
    IsBlank before ∧ IsBlank after ∧ word.map upperChar = r.id.toList

theorem normalize_eq_id_iff {r : Rule} {spelling : String} : normalize spelling = r.id ↔
    (trimChars spelling.toList).map upperChar = r.id.toList := by
  rw [← String.toList_inj]
  simp [normalize, Text.upper, Text.trim]

theorem ofSpelling?_eq_some_iff_normalize {r : Rule} {spelling : String} :
    ofSpelling? spelling = some r ↔ normalize spelling = r.id := by
  rw [ofSpelling?, ofId?_eq_some_iff, eq_comm]

/-- What people can type for a rule are its spellings. -/
theorem ofSpelling?_eq_some_iff {r : Rule} {spelling : String} :
    ofSpelling? spelling = some r ↔ r.Spells spelling := by
  rw [ofSpelling?_eq_some_iff_normalize, normalize_eq_id_iff]
  constructor
  · intro h
    obtain ⟨before, after, hbefore, hafter, htext⟩ := exists_trimChars_around spelling.toList
    exact ⟨before, _, after, htext, hbefore, hafter, h⟩
  · rintro ⟨before, word, after, htext, hbefore, hafter, hword⟩
    have hsolid : IsSolid word := isSolid_of_map_upperChar (hword ▸ r.isSolid_id)
    have hne : word ≠ [] := by
      rintro rfl
      exact r.id_ne_nil hword.symm
    rw [htext, trimChars_around hbefore hsolid hne hafter, hword]

/-- A spelling is one of a single rule. -/
theorem Spells.iff_eq {q r : Rule} {spelling : String} (hr : r.Spells spelling) :
    q.Spells spelling ↔ q = r := by
  rw [← ofSpelling?_eq_some_iff, ofSpelling?_eq_some_iff.mpr hr, Option.some.injEq, eq_comm]

theorem ofSpelling?_eq_none_iff {spelling : String} :
    ofSpelling? spelling = none ↔ ∀ r : Rule, ¬r.Spells spelling := by
  simp only [Option.eq_none_iff_forall_ne_some, ne_eq, ofSpelling?_eq_some_iff]

end Rule

end ShutdownLint
