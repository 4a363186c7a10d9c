import Mathlib.Data.List.TFAE
import ShutdownLint.Proofs.Settings.Precedence
import ShutdownLint.Proofs.Text.LetterCase
import ShutdownLint.Rule.Explanation
/-!
The places where people name a rule: a question, a request for an explanation, an override and an
entry of the settings. Each reads what has been typed on its own, and all of them take the same
texts for a rule, namely its identifier in letters of either case between blanks. They meet in what
trimming and capitals leave: a catalog, a registry and a list each know what is left by itself.
-/

set_option autoImplicit false

namespace ShutdownLint

open Text

variable {spelling : String} {r : Rule}

/-! ### Identifiers -/

namespace Rule

theorem map_upperChar_id (r : Rule) : r.id.toList.map upperChar = r.id.toList := by
  cases r <;> decide

theorem normalize_id (r : Rule) : normalize r.id = r.id := by
  cases r <;> decide

/-- The identifier is left if what has been typed is the identifier up to letter case once it has
been trimmed. -/
theorem normalize_eq_id_iff_sameLetter : normalize spelling = r.id ↔
    List.Forall₂ SameLetter (Text.trim spelling).toList r.id.toList := by
  rw [normalize_eq_id_iff, forall₂_sameLetter_iff, map_upperChar_id, Text.trim,
    String.toList_ofList]

end Rule

/-! ### Explanations -/

namespace Explanation

/-- Each rule has an explanation. -/
theorem ofSpelling?_of_normalize (h : Rule.normalize spelling = r.id) :
    ofSpelling? spelling = some r.explanation := by
  rw [ofSpelling?, h]
  cases r <;> rfl

/-- Nothing but rules has an explanation. -/
theorem ofSpelling?_eq_none (h : ∀ r : Rule, Rule.normalize spelling ≠ r.id) :
    ofSpelling? spelling = none := by
  unfold ofSpelling?
  split
  case h_1 hid => exact absurd hid (h .shellEntrypoint)
  case h_2 hid => exact absurd hid (h .shellCommand)
  case h_3 hid => exact absurd hid (h .unsetGracePeriod)
  case h_4 hid => exact absurd hid (h .missingPreStop)
  case h_5 hid => exact absurd hid (h .missingReadinessProbe)
  case h_6 => rfl

/-- No two rules have the same explanation. -/
theorem explanation_injective : Function.Injective Rule.explanation := by
  intro q r h
  have htitle : q.explanation.title = r.explanation.title := congrArg title h
  revert htitle
  cases q <;> cases r <;> decide

theorem ofSpelling?_eq_some_iff :
    ofSpelling? spelling = some r.explanation ↔ Rule.normalize spelling = r.id := by
  refine ⟨fun h ↦ ?_, ofSpelling?_of_normalize⟩
  by_contra hr
  by_cases hq : ∃ q : Rule, Rule.normalize spelling = q.id
  · obtain ⟨q, hq⟩ := hq
    rw [ofSpelling?_of_normalize hq, Option.some.injEq] at h
    exact hr (explanation_injective h ▸ hq)
  · rw [ofSpelling?_eq_none fun q h ↦ hq ⟨q, h⟩] at h
    cases h

/-- The explanation of an identifier is that of its rule. -/
theorem ofSpelling?_id (r : Rule) : ofSpelling? r.id = some r.explanation :=
  ofSpelling?_of_normalize (Rule.normalize_id r)

theorem explains_iff : (∃ e, ofSpelling? spelling = some e ∧ ofSpelling? r.id = some e) ↔
    Rule.normalize spelling = r.id := by
  simp only [ofSpelling?_id, Option.some.injEq, ← ofSpelling?_eq_some_iff]
  exact ⟨fun ⟨e, he, hr⟩ ↦ hr ▸ he, fun h ↦ ⟨_, h, rfl⟩⟩

end Explanation

/-! ### Questions -/

namespace Answer

/-- The catalog has the rule and the registry its explanation, which is looked up by the identifier
itself. -/
theorem ofQuestion_of_normalize (h : Rule.normalize spelling = r.id) :
    ofQuestion spelling = found ⟨r.id, r.explanation⟩ := by
  simp only [ofQuestion, h, Rule.ofId?_id, Explanation.ofSpelling?_id]

theorem ofQuestion_of_unknown (h : ∀ r : Rule, Rule.normalize spelling ≠ r.id) :
    ofQuestion spelling = @notFound Rule.allIds spelling := by
  have hnone : Rule.ofId? (Rule.normalize spelling) = none :=
    Option.eq_none_iff_forall_ne_some.mpr fun r hr ↦ h r (Rule.id_of_ofId? hr).symm
  simp only [ofQuestion, hnone]

theorem finds_iff : (∃ e, ofQuestion spelling = found ⟨r.id, e⟩ ∧
    Explanation.ofSpelling? r.id = some e) ↔ Rule.normalize spelling = r.id := by
  constructor
  · rintro ⟨e, hfound, -⟩
    by_contra hr
    by_cases hq : ∃ q : Rule, Rule.normalize spelling = q.id
    · obtain ⟨q, hq⟩ := hq
      rw [ofQuestion_of_normalize hq] at hfound
      have hid : q.id = r.id := (ExplainedRule.mk.inj (found.inj hfound)).1
      exact hr (hq.trans hid)
    · rw [ofQuestion_of_unknown fun q h ↦ hq ⟨q, h⟩] at hfound
      cases hfound
  · exact fun h ↦ ⟨_, ofQuestion_of_normalize h, Explanation.ofSpelling?_id r⟩

end Answer

/-! ### Settings and overrides -/

namespace Selection

/-- The list of identifiers has all of them. -/
theorem idOf_eq_ok_id_iff_normalize :
    idOf spelling = .ok r.id ↔ Rule.normalize spelling = r.id := by
  rw [idOf_eq_ok_id_iff, Rule.ofSpelling?_eq_some_iff_normalize]

/-- The list of identifiers has no others. -/
theorem idOf_of_unknown (h : ∀ r : Rule, Rule.normalize spelling ≠ r.id) :
    idOf spelling = .error ⟨spelling⟩ := by
  have hunknown : ¬Rule.isKnown (Rule.normalize spelling) = true := fun hknown ↦ by
    obtain ⟨r, hr⟩ := Rule.isKnown_iff.mp hknown
    exact h r hr.symm
  unfold idOf
  dsimp only
  rw [if_neg hunknown]

/-- A single override disables its rule and does nothing else. -/
theorem ofSettings_override (spelling : String) :
    ofSettings .empty [spelling] = (idOf spelling).map everything.disable := by
  simp [ofSettings, Settings.empty, override]

/-- A single entry that switches a rule off disables this rule and does nothing else. -/
theorem ofSettings_entry (schema : Option String) (spelling : String) :
    ofSettings ⟨schema, [(spelling, ⟨some false⟩)]⟩ [] =
      (idOf spelling).map everything.disable := by
  simp [ofSettings, apply]

theorem disablesOnly_iff {selected : Except UnknownRule Selection}
    (h : selected = (idOf spelling).map everything.disable) :
    (∃ s, selected = .ok s ∧ s.disabledIds = [r.id]) ↔ Rule.normalize spelling = r.id := by
  rw [← idOf_eq_ok_id_iff_normalize]
  simp only [h, Success.map_eq_ok]
  constructor
  · rintro ⟨s, ⟨id, hid, rfl⟩, hids⟩
    obtain rfl : id = r.id := List.singleton_inj.mp hids
    exact hid
  · exact fun hr ↦ ⟨_, ⟨r.id, hr, rfl⟩, rfl⟩

theorem refuses_of_unknown {selected : Except UnknownRule Selection}
    (h : selected = (idOf spelling).map everything.disable)
    (hunknown : ∀ r : Rule, Rule.normalize spelling ≠ r.id) : selected = .error ⟨spelling⟩ := by
  rw [h, idOf_of_unknown hunknown]
  rfl

end Selection

/-! ### The law -/

namespace Rule

/-- Whatever is typed, the ways to name a rule agree on whether it means this rule: it is the
identifier up to letter case once it has been trimmed, the question for it finds the rule, its
explanation is the one of the identifier, and as an override or as an entry that is switched off it
disables this rule alone. If it means none, the answer has it as it is and all identifiers there
are, there is no explanation, and the errors quote it as it is. -/
theorem entryPoints_agree (spelling : String) (schema : Option String) :
    (∀ r : Rule, List.TFAE [
      List.Forall₂ SameLetter (Text.trim spelling).toList r.id.toList,
      ∃ e, Answer.ofQuestion spelling = .found ⟨r.id, e⟩ ∧ Explanation.ofSpelling? r.id = some e,
      ∃ e, Explanation.ofSpelling? spelling = some e ∧ Explanation.ofSpelling? r.id = some e,
      ∃ s, Selection.ofSettings .empty [spelling] = .ok s ∧ s.disabledIds = [r.id],
      ∃ s, Selection.ofSettings ⟨schema, [(spelling, ⟨some false⟩)]⟩ [] = .ok s ∧
        s.disabledIds = [r.id]]) ∧
    ((∀ r : Rule, ¬List.Forall₂ SameLetter (Text.trim spelling).toList r.id.toList) →
      Answer.ofQuestion spelling = @Answer.notFound (Rule.all.map Rule.id) spelling ∧
      Explanation.ofSpelling? spelling = none ∧
      Selection.ofSettings .empty [spelling] = .error ⟨spelling⟩ ∧
      Selection.ofSettings ⟨schema, [(spelling, ⟨some false⟩)]⟩ [] = .error ⟨spelling⟩ ∧
      (UnknownRule.mk spelling).message = "unknown rule: " ++ spelling ++
        " (expected one of DG001, DG002, DG101, DG102, DG103)") := by
  have hoverride := Selection.ofSettings_override spelling
  have hentry := Selection.ofSettings_entry schema spelling
  constructor
  · intro r
    refine List.tfae_of_forall (normalize spelling = r.id) _ ?_
    simp only [List.forall_mem_cons]
    exact ⟨normalize_eq_id_iff_sameLetter.symm, Answer.finds_iff, Explanation.explains_iff,
      Selection.disablesOnly_iff hoverride, Selection.disablesOnly_iff hentry,
      List.forall_mem_nil _⟩
  · intro hnone
    have hunknown (r : Rule) : normalize spelling ≠ r.id := fun hr ↦
      hnone r (normalize_eq_id_iff_sameLetter.mp hr)
    exact ⟨Answer.ofQuestion_of_unknown hunknown, Explanation.ofSpelling?_eq_none hunknown,
      Selection.refuses_of_unknown hoverride hunknown,
      Selection.refuses_of_unknown hentry hunknown, Selection.message_unknownRule _⟩

/-- Wide blanks around an identifier do not matter, a blank inside it does. -/
theorem entryPoints_agree_blanks :
    (∃ e, Answer.ofQuestion "\u3000dG102\n" = .found ⟨"DG102", e⟩ ∧
      Explanation.ofSpelling? "DG102" = some e) ∧
      (∃ s, Selection.ofSettings .empty ["\u3000dG102\n"] = .ok s ∧ s.disabledIds = ["DG102"]) ∧
      (∀ r : Rule, ¬List.Forall₂ SameLetter (Text.trim "dg 102").toList r.id.toList) ∧
      Answer.ofQuestion "dg 102" =
        @Answer.notFound ["DG001", "DG002", "DG101", "DG102", "DG103"] "dg 102" ∧
      Selection.ofSettings ⟨none, [("dg 102", ⟨some false⟩)]⟩ [] = .error ⟨"dg 102"⟩ := by
  have hspelled : List.Forall₂ SameLetter (Text.trim "\u3000dG102\n").toList
      missingPreStop.id.toList := by
    rw [forall₂_sameLetter_iff]
    decide
  have hnone (r : Rule) : ¬List.Forall₂ SameLetter (Text.trim "dg 102").toList r.id.toList := by
    rw [forall₂_sameLetter_iff]
    cases r <;> decide
  have hagree := (entryPoints_agree "\u3000dG102\n" none).1 missingPreStop
  obtain ⟨hanswer, -, -, herror, -⟩ := (entryPoints_agree "dg 102" none).2 hnone
  exact ⟨(hagree.out 0 1).mp hspelled, (hagree.out 0 3).mp hspelled, hnone, hanswer, herror⟩

end Rule

end ShutdownLint
