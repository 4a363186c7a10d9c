import ShutdownLint.Proofs.Yaml.MergeEntries
import ShutdownLint.Proofs.Yaml.StreamValues
/-!
Where a stream fails.

A document fails if it does not parse, or if the walk along its merge keys meets a mapping with one
that cannot be followed. Whichever is the case, the first document that fails decides the error, and
those behind it are not looked at.
-/

set_option autoImplicit false

namespace ShutdownLint.Yaml

namespace Value

variable {es fs : List (Value × Value)} {v source : Value}

/-! ### Merge keys that cannot be followed -/

/-- A scalar, a tagged value, or a list in which not every item is a mapping without a tag. -/
def Unmergeable : Value → Prop
  | .mapping _ => False
  | .sequence items => ∃ v ∈ items, ∀ es, v ≠ .mapping es
  | _ => True

theorem forall_eq_mapping_iff {items : List Value} :
    (∀ v ∈ items, ∃ es, v = mapping es) ↔
      ∃ ess : List (List (Value × Value)), items = ess.map .mapping := by
  constructor
  · intro h
    induction items with
    | nil => exact ⟨[], rfl⟩
    | cons v items ih =>
      obtain ⟨⟨es, rfl⟩, hitems⟩ := List.forall_mem_cons.mp h
      obtain ⟨ess, rfl⟩ := ih hitems
      exact ⟨es :: ess, rfl⟩
  · rintro ⟨ess, rfl⟩ v hv
    obtain ⟨es, -, rfl⟩ := List.mem_map.mp hv
    exact ⟨es, rfl⟩

theorem not_mergeable_iff : ¬Mergeable source ↔ Unmergeable source := by
  cases source with
  | mapping es => exact iff_of_false (not_not.mpr (.mapping es)) not_false
  | sequence items =>
    have hmergeable : Mergeable (.sequence items) ↔
        ∃ ess : List (List (Value × Value)), items = ess.map .mapping := by
      constructor
      · intro h
        cases h with
        | sequence ess => exact ⟨ess, rfl⟩
      · rintro ⟨ess, rfl⟩
        exact .sequence ess
    rw [hmergeable, ← forall_eq_mapping_iff]
    push Not
    rfl
  | _ => exact iff_of_true nofun True.intro

/-- A mapping whose merge key cannot be followed. -/
def HasBadMergeKey (es : List (Value × Value)) : Prop :=
  ∃ source, Field mergeKey es source ∧ Unmergeable source

theorem exists_mergeHere_iff : (∃ hs, mergeHere es = .ok hs) ↔ ¬HasBadMergeKey es := by
  rw [exists_mergeHere_eq_ok_iff]
  simp only [HasBadMergeKey, ← lookup_eq_some_iff, ← not_mergeable_iff]
  push Not
  rfl

/-! ### The walk -/

/-- The walk from a value meets a mapping, which is as it was written. From a mapping it goes on to
the values of the entries that the mapping has when its merge key has been followed. -/
inductive Meets : Value → List (Value × Value) → Prop
  | here {es : List (Value × Value)} : Meets (.mapping es) es
  | entry {es fs : List (Value × Value)} {e : Value × Value} (hgood : ¬HasBadMergeKey es)
      (h : Holds es e) (hvalue : Meets e.2 fs) : Meets (.mapping es) fs
  | item {items : List Value} {v : Value} {fs : List (Value × Value)} (h : v ∈ items)
      (hitem : Meets v fs) : Meets (.sequence items) fs
  | tag {name : String} {v : Value} {fs : List (Value × Value)} (hcontent : Meets v fs) :
      Meets (.tagged name v) fs

theorem meets_iff_visited : Meets v es ↔ Visited v es := by
  constructor
  · intro h
    induction h with
    | here => exact .here
    | entry hgood h _ ih =>
      obtain ⟨hs, hstep⟩ := exists_mergeHere_iff.mpr hgood
      exact .entry hstep ((mem_mergeHere_iff hstep).mpr h) ih
    | item h _ ih => exact .item h ih
    | tag _ ih => exact .tag ih
  · intro h
    induction h with
    | here => exact .here
    | entry hstep h _ ih =>
      exact .entry (exists_mergeHere_iff.mp ⟨_, hstep⟩) ((mem_mergeHere_iff hstep).mp h) ih
    | item h _ ih => exact .item h ih
    | tag _ ih => exact .tag ih

/-- Somewhere on the walk a merge key cannot be followed. -/
def MeetsBadMergeKey (v : Value) : Prop :=
  ∃ es, Meets v es ∧ HasBadMergeKey es

theorem exists_merged_eq_ok_iff : (∃ w, v.merged = .ok w) ↔ ¬MeetsBadMergeKey v := by
  rw [exists_merged_iff]
  simp only [MeetsBadMergeKey, meets_iff_visited, exists_mergeHere_iff]
  push Not
  rfl

theorem exists_merged_eq_error_iff : (∃ fault, v.merged = .error fault) ↔ MeetsBadMergeKey v := by
  rw [Success.exists_eq_error_iff, exists_merged_eq_ok_iff, not_not]

end Value

open Value

/-! ### Documents one after another -/

/-- The error that a document with an index leads to. -/
inductive FailsAs (index : Nat) : Except Fault Value → StreamError → Prop
  | document (fault : Fault) : FailsAs index (.error fault) (.document index fault)
  | merge {v : Value} {fault : MergeFault} (h : v.merged = .error fault) :
      FailsAs index (.ok v) (.merge index fault)

/-- A document that parses, and whose merge keys can all be followed as far as the walk comes. -/
def Passes (r : Except Fault Value) : Prop :=
  ∃ v, r = .ok v ∧ ¬MeetsBadMergeKey v

variable {index : Nat} {r : Except Fault Value} {rs : List (Except Fault Value)} {v : Value}
  {fault : Fault} {e : StreamError}

theorem not_passes_error : ¬Passes (.error fault) := by
  rintro ⟨v, ⟨⟩, -⟩

theorem passes_ok_iff : Passes (.ok v) ↔ ∃ d, v.merged = .ok d := by
  rw [exists_merged_eq_ok_iff]
  constructor
  · rintro ⟨_, ⟨⟩, hgood⟩
    exact hgood
  · exact fun hgood ↦ ⟨v, rfl, hgood⟩

theorem passes_iff : Passes r ↔ ∃ d, Resolves r d := by
  cases r with
  | error fault => exact iff_of_false not_passes_error (by rintro ⟨d, v, ⟨⟩, -⟩)
  | ok v => simp only [passes_ok_iff, Resolves, Except.ok.injEq, exists_eq_left']

theorem failsAs_error_iff : FailsAs index (.error fault) e ↔ e = .document index fault := by
  constructor
  · rintro ⟨⟩
    rfl
  · rintro rfl
    exact .document fault

theorem failsAs_ok_iff :
    FailsAs index (.ok v) e ↔ ∃ fault, v.merged = .error fault ∧ e = .merge index fault := by
  constructor
  · rintro (_ | h)
    exact ⟨_, h, rfl⟩
  · rintro ⟨fault, h, rfl⟩
    exact .merge h

theorem exists_failsAs_iff : (∃ e, FailsAs index r e) ↔ ¬Passes r := by
  cases r with
  | error fault => exact iff_of_true ⟨_, .document fault⟩ not_passes_error
  | ok v =>
    rw [passes_ok_iff, ← Success.exists_eq_error_iff]
    simp only [failsAs_ok_iff]
    rw [exists_comm]
    simp only [exists_and_left, exists_eq, and_true]

namespace Stream

/-- What the first document does to the stream. -/
theorem values_cons_eq_error_iff : values index (r :: rs) = .error e ↔
    FailsAs index r e ∨ Passes r ∧ values (index + 1) rs = .error e := by
  cases r with
  | error fault =>
    simp only [values, failsAs_error_iff, not_passes_error, false_and, or_false,
      Except.error.injEq, eq_comm]
  | ok v =>
    rw [failsAs_ok_iff, passes_ok_iff]
    cases hmerged : v.merged with
    | error fault => simp [values, hmerged, eq_comm]
    | ok d => simp [values, hmerged]

theorem values_eq_error_iff : values index rs = .error e ↔ ∃ before r after,
    rs = before ++ r :: after ∧ (∀ s ∈ before, Passes s) ∧ FailsAs (index + before.length) r e := by
  induction rs generalizing index with
  | nil => simp [values]
  | cons r rs ih =>
    rw [values_cons_eq_error_iff, ih]
    constructor
    · rintro (h | ⟨hgood, before, s, after, rfl, hbefore, hs⟩)
      · exact ⟨[], r, rs, rfl, List.forall_mem_nil _, h⟩
      · refine ⟨r :: before, s, after, rfl, List.forall_mem_cons.mpr ⟨hgood, hbefore⟩, ?_⟩
        rwa [List.length_cons, ← Nat.add_assoc, Nat.add_right_comm]
    · rintro ⟨_ | ⟨s, before⟩, s', after, hsplit, hbefore, hs⟩
      · cases hsplit
        exact Or.inl hs
      · cases hsplit
        obtain ⟨hgood, hbefore⟩ := List.forall_mem_cons.mp hbefore
        rw [List.length_cons, ← Nat.add_assoc, Nat.add_right_comm] at hs
        exact Or.inr ⟨hgood, before, s', after, rfl, hbefore, hs⟩

/-- What stands behind a document that fails does not matter. -/
theorem values_append_cons_eq {before after after' : List (Except Fault Value)}
    (hbefore : ∀ s ∈ before, Passes s) (hr : ¬Passes r) :
    values index (before ++ r :: after) = values index (before ++ r :: after') := by
  obtain ⟨e, he⟩ := exists_failsAs_iff.mpr hr
  have hfails (rest : List (Except Fault Value)) :
      values index (before ++ r :: rest) = .error e :=
    values_eq_error_iff.mpr ⟨before, r, rest, rfl, hbefore, he⟩
  rw [hfails, hfails]

theorem exists_values_eq_ok_iff : (∃ ds, values index rs = .ok ds) ↔ ∀ r ∈ rs, Passes r := by
  simp only [values_eq_ok_iff, passes_iff, Pointwise.exists_forall₂_iff]

/-- One document that does not pass is enough to reject the stream. -/
theorem exists_parse_eq_error_iff {text : String} :
    (∃ e, parse text = .error e) ↔ ∃ r ∈ documents text, ¬Passes r := by
  rw [Success.exists_eq_error_iff, show parse text = values 0 (documents text) from rfl,
    exists_values_eq_ok_iff]
  push Not
  rfl

/-- The first failure. Documents give their values with the merge keys followed, one for one, if
each of them parses and can be merged. If not, the first one that does not decides the error, with
its index and the kind of its failure, and nothing behind it matters. A document cannot be merged
exactly if the walk through it meets a mapping whose merge key is a scalar, a tagged value or a list
with an item that is not a plain mapping. -/
theorem values_firstFailure_law (rs : List (Except Fault Value)) :
    (∀ ds, values 0 rs = .ok ds ↔ List.Forall₂ Resolves rs ds) ∧
    ((∃ ds, values 0 rs = .ok ds) ↔ ∀ r ∈ rs, Passes r) ∧
    (∀ e, values 0 rs = .error e ↔ ∃ before r after, rs = before ++ r :: after ∧
      (∀ s ∈ before, Passes s) ∧ FailsAs before.length r e) ∧
    (∀ before r after after', rs = before ++ r :: after → (∀ s ∈ before, Passes s) →
      ¬Passes r → values 0 (before ++ r :: after') = values 0 rs) ∧
    (∀ v, (∃ fault, v.merged = .error fault) ↔ MeetsBadMergeKey v) ∧
    ∀ text, parse text = values 0 (documents text) := by
  refine ⟨fun ds ↦ values_eq_ok_iff, exists_values_eq_ok_iff, fun e ↦ ?_, ?_,
    fun v ↦ exists_merged_eq_error_iff, fun text ↦ rfl⟩
  · rw [values_eq_error_iff]
    simp only [Nat.zero_add]
  · rintro before r after after' rfl hbefore hr
    exact values_append_cons_eq hbefore hr

/-- Two documents that merge the same source. The first one has the key whose value cannot be
merged, so the walk does not come to it. The second one has not, and a document that does not parse
stands behind it. -/
theorem values_firstFailure_law_shadowed :
    let source := Value.mapping [(.string "a", .mapping [(.string "<<", .null)])]
    let first := Value.mapping [(.string "<<", source), (.string "a", .null)]
    let second := Value.mapping [(.string "<<", source), (.string "b", .null)]
    Passes (.ok first) ∧ ¬Passes (.ok second) ∧
      values 0 [.ok first, .ok second] =
        values 0 [.ok first, .ok second, .error .controlCharacter] ∧
      ∃ fault, values 0 [.ok first, .ok second, .error .controlCharacter] =
        .error (.merge 1 fault) := by
  intro source first second
  obtain ⟨-, -, herror, hafter, hmerge, -⟩ :=
    values_firstFailure_law [.ok first, .ok second, .error .controlCharacter]
  have hfirst : first.merged = .ok (.mapping [(.string "a", .null)]) :=
    merged_mapping_eq_ok_iff.mpr ⟨_, _, rfl, .cons ⟨rfl, by simp [merged]⟩ .nil, rfl⟩
  have hmeets : MeetsBadMergeKey second :=
    ⟨[(.string "<<", .null)],
      .entry (exists_mergeHere_iff.mp ⟨_, rfl⟩) (.added ⟨[], [], rfl, rfl, rfl⟩) .here,
      .null, ⟨[], [], rfl, List.forall_mem_nil _⟩, True.intro⟩
  obtain ⟨fault, hsecond⟩ := (hmerge second).mpr hmeets
  have hpasses : ∀ s ∈ [Except.ok first], Passes s :=
    List.forall_mem_singleton.mpr (passes_ok_iff.mpr ⟨_, hfirst⟩)
  have hfails : ¬Passes (.ok second) := exists_failsAs_iff.mp ⟨.merge 0 fault, .merge hsecond⟩
  exact ⟨hpasses _ List.mem_cons_self, hfails,
    hafter [.ok first] (.ok second) _ [] rfl hpasses hfails, fault,
    (herror _).mpr ⟨[.ok first], .ok second, _, rfl, hpasses, .merge hsecond⟩⟩

end Stream

end ShutdownLint.Yaml
