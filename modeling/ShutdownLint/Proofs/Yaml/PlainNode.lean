import Mathlib.Data.List.Forall2
import ShutdownLint.Proofs.Success
import ShutdownLint.Proofs.Yaml.Reaches
import ShutdownLint.Yaml.NodeValue
/-!
Trees without aliases, tags and anchors. What such a tree spells does not depend on how many aliases
may still be visited, and it is spelled by the values of the parts.
-/

set_option autoImplicit false

namespace ShutdownLint.Yaml.Node

open Value (DistinctKeys hasKey)

/-- Without visiting an alias a node is read as a value, given how deep it may be nested. -/
def Spells (depth : Nat) (n : Node) (v : Value) : Prop :=
  ∀ anchored visits, (n.value anchored depth).run visits = .ok (v, visits)

theorem spells_scalar {s : String} {v : Value} (h : plainValue s = .ok v) (depth : Nat) :
    Spells depth (.scalar {} s true) v := by
  intro anchored visits
  have hscalar : scalarValue none s true = .ok v := h
  unfold value
  simp [target, hscalar, withTag]

/-! ### Sequences -/

theorem spells_sequence {depth : Nat} {ns : List Node} {vs : List Value}
    (h : List.Forall₂ (Spells depth) ns vs) :
    Spells (depth + 1) (.sequence {} ns) (.sequence vs) := by
  intro anchored visits
  have hitems : (ns.mapM (value anchored depth)).run visits = .ok (vs, visits) := by
    induction h with
    | nil => rfl
    | cons hn _ ih => simp [hn anchored visits, ih]
  unfold value
  simp [target, hitems, withTag]

/-! ### Mappings -/

/-- The nodes of a mapping's entry spell its key and its value. -/
def SpellsEntry (depth : Nat) (n : Node × Node) (e : Value × Value) : Prop :=
  Spells depth n.1 e.1 ∧ Spells depth n.2 e.2

theorem run_addEntry {depth : Nat} {n : Node × Node} {e : Value × Value}
    (h : SpellsEntry depth n e) {entries : List (Value × Value)}
    (hkey : ∀ f ∈ entries, e.1.same f.1 = false) (anchored : List (Nat × Node)) (visits : Nat) :
    (addEntry (value anchored depth) entries n).run visits = .ok (e :: entries, visits) := by
  have hnew : hasKey e.1 entries = false := List.any_eq_false.mpr fun f hf ↦ by simp [hkey f hf]
  simp [addEntry, h.1 anchored visits, h.2 anchored visits, hnew]

theorem run_foldlM_addEntry {depth : Nat} {ns : List (Node × Node)} {es : List (Value × Value)}
    (h : List.Forall₂ (SpellsEntry depth) ns es) {entries : List (Value × Value)}
    (hkeys : DistinctKeys (entries.reverse ++ es)) (anchored : List (Nat × Node)) (visits : Nat) :
    (ns.foldlM (addEntry (value anchored depth)) entries).run visits =
      .ok (es.reverse ++ entries, visits) := by
  induction h generalizing entries with
  | nil => rfl
  | @cons n e ns es hn _ ih =>
    have hkey : ∀ f ∈ entries, e.1.same f.1 = false := fun f hf ↦
      (List.pairwise_append.mp hkeys).2.2 f (List.mem_reverse.mpr hf) e List.mem_cons_self
    have hrest : DistinctKeys ((e :: entries).reverse ++ es) := by
      rwa [List.reverse_cons, List.append_assoc]
    simp [run_addEntry hn hkey, ih hrest]

theorem spells_mapping {depth : Nat} {ns : List (Node × Node)} {es : List (Value × Value)}
    (h : List.Forall₂ (SpellsEntry depth) ns es) (hkeys : DistinctKeys es) :
    Spells (depth + 1) (.mapping {} ns) (.mapping es) := by
  intro anchored visits
  have hentries : (ns.foldlM (addEntry (value anchored depth)) []).run visits =
      .ok (es.reverse ++ [], visits) := by
    refine run_foldlM_addEntry h ?_ anchored visits
    exact hkeys
  unfold value
  simp [target, hentries, withTag]

theorem documentValue_of_spells {n : Node} {v : Value} (h : Spells 128 n v) :
    n.documentValue = .ok v := by
  rw [documentValue, h]
  rfl

end ShutdownLint.Yaml.Node
