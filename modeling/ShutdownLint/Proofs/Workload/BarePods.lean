import ShutdownLint.Proofs.Pointwise
import ShutdownLint.Proofs.Rule.Wording
import ShutdownLint.Proofs.Workload.BarePodTree
import ShutdownLint.Proofs.Yaml.PlainNode
import ShutdownLint.Proofs.Yaml.StreamMerges
import ShutdownLint.Proofs.Yaml.WordValue
import ShutdownLint.Workload
/-!
The findings on the text of pods that say no more than they have to.

The value of a pod is known, and so are the findings on it: its containers have neither hook nor
probe, and each of them goes by its name. Names that read as booleans are no exception.
-/

set_option autoImplicit false

namespace ShutdownLint

open Yaml

/-! ### Names -/

namespace PlainName

theorem ne_of_begins (n : PlainName) {s : String}
    (hs : s.toList.head?.any Char.isLower = false) : (n.text == s) = false := by
  refine beq_eq_false_iff_ne.mpr fun heq ↦ ?_
  have hbegins := n.begins
  rw [heq, hs] at hbegins
  cases hbegins

theorem isNullText_eq_false (n : PlainName) : isNullText n.text = false := by
  unfold isNullText
  rw [beq_eq_false_iff_ne.mpr n.notNull, n.ne_of_begins (by decide +kernel),
    n.ne_of_begins (by decide +kernel), n.ne_of_begins (by decide +kernel)]
  rfl

theorem isEmpty_eq_false (n : PlainName) : n.text.isEmpty = false := by
  rw [String.isEmpty_eq_false_iff, ← beq_eq_false_iff_ne]
  exact n.ne_of_begins rfl

/-- The value of a name, which is a boolean if it reads as one. -/
def value (n : PlainName) : Value :=
  (readBool? n.text).elim (.string n.text) .bool

theorem value_cases (n : PlainName) :
    n.text = "true" ∧ n.value = .bool true ∨ n.text = "false" ∧ n.value = .bool false ∨
      n.value = .string n.text := by
  unfold value
  by_cases htrue : n.text = "true"
  · exact .inl ⟨htrue, by rw [htrue]; rfl⟩
  by_cases hfalse : n.text = "false"
  · exact .inr (.inl ⟨hfalse, by rw [hfalse]; rfl⟩)
  -- The other words for booleans begin with a capital letter.
  have hnone : readBool? n.text = none := by
    unfold readBool?
    rw [beq_eq_false_iff_ne.mpr htrue, beq_eq_false_iff_ne.mpr hfalse,
      n.ne_of_begins (by decide +kernel), n.ne_of_begins (by decide +kernel),
      n.ne_of_begins (by decide +kernel), n.ne_of_begins (by decide +kernel)]
    rfl
  rw [hnone]
  exact .inr (.inr rfl)

end PlainName

namespace BarePod

/-! ### Values -/

def containerFields (n : PlainName) : Fields :=
  [(.string "name", n.value), (.string "image", .string "x:1")]

def graceFields (grace : Option UInt64) : Fields :=
  (grace.map fun g ↦
    (.string "terminationGracePeriodSeconds", .number (.int g.toNat))).toList

def containersField (names : List PlainName) : Value × Value :=
  (.string "containers", .sequence (names.map fun n ↦ .mapping (containerFields n)))

def specFields (p : BarePod) : Fields :=
  graceFields p.grace ++ [containersField p.names]

def value (p : BarePod) : Value :=
  .mapping [(.string "apiVersion", .string "v1"), (.string "kind", .string "Pod"),
    (.string "spec", .mapping p.specFields)]

theorem spells_string {s : String} (depth : Nat)
    (hfirst : s.toList.head?.any Char.isAlpha = true := by decide +kernel)
    (hnull : isNullText s = false := by decide +kernel)
    (hbool : readBool? s = none := by decide +kernel) :
    Node.Spells depth (scalar s) (.string s) := by
  obtain ⟨c, cs, hs, hc⟩ := exists_cons_of_head? hfirst
  refine Node.spells_scalar ?_ depth
  rw [plainValue_of_isAlpha hs hc hnull, hbool]
  rfl

theorem spells_container (n : PlainName) (depth : Nat) :
    Node.Spells (depth + 1) (containerNode n) (.mapping (containerFields n)) := by
  have hname : plainValue n.text = .ok n.value := by
    obtain ⟨c, cs, hn, hc⟩ := n.exists_cons
    have halpha : c.isAlpha = true := (Bool.or_eq_true ..).mpr (.inr hc)
    exact plainValue_of_isAlpha hn halpha n.isNullText_eq_false
  refine Node.spells_mapping ?_ ?_
  · exact .cons ⟨spells_string depth, Node.spells_scalar hname depth⟩
      (.cons ⟨spells_string depth, spells_string depth⟩ .nil)
  · simp [Value.DistinctKeys, containerFields, Value.same]

theorem spells_grace (grace : Option UInt64) (depth : Nat) :
    List.Forall₂ (Node.SpellsEntry depth) (graceNodes grace) (graceFields grace) := by
  cases grace with
  | none => exact .nil
  | some g =>
    exact .cons ⟨spells_string depth, Node.spells_scalar (plainValue_text g.toNat_lt) depth⟩ .nil

theorem spells_containers (names : List PlainName) (depth : Nat) :
    Node.SpellsEntry (depth + 2) (containersNode names) (containersField names) := by
  refine ⟨spells_string _, Node.spells_sequence ?_⟩
  exact Pointwise.forall₂_map_map (fun n ↦ spells_container n depth) names

theorem spells_node (p : BarePod) (depth : Nat) : Node.Spells (depth + 4) p.node p.value := by
  have hspec : Node.Spells (depth + 3)
      (.mapping {} (graceNodes p.grace ++ [containersNode p.names])) (.mapping p.specFields) := by
    refine Node.spells_mapping ?_ ?_
    · exact List.rel_append (spells_grace _ _) (.cons (spells_containers _ _) .nil)
    · unfold specFields
      cases p.grace <;>
        simp [Value.DistinctKeys, graceFields, containersField, Value.same]
  refine Node.spells_mapping ?_ ?_
  · exact .cons ⟨spells_string _, spells_string _⟩
      (.cons ⟨spells_string _, spells_string _⟩ (.cons ⟨spells_string _, hspec⟩ .nil))
  · simp [Value.DistinctKeys, Value.same]

theorem documentValue_node (p : BarePod) : p.node.documentValue = .ok p.value :=
  Node.documentValue_of_spells (p.spells_node 124)

theorem freeOfMergeKeys_name (n : PlainName) : FreeOfMergeKeys n.value := by
  intro es hreach
  rcases n.value_cases with ⟨-, h⟩ | ⟨-, h⟩ | h <;> rw [h] at hreach <;> cases hreach

theorem freeOfMergeKeys_value (p : BarePod) : FreeOfMergeKeys p.value := by
  have hword (s : String) : FreeOfMergeKeys (.string s) := fun _ hreach ↦ nomatch hreach
  have hitems : FreeOfMergeKeys (containersField p.names).2 := by
    refine freeOfMergeKeys_sequence fun v hv ↦ ?_
    obtain ⟨n, -, rfl⟩ := List.mem_map.mp hv
    refine freeOfMergeKeys_mapping rfl ?_
    simp [containerFields, freeOfMergeKeys_name, hword]
  have hgrace : ∀ e ∈ graceFields p.grace, FreeOfMergeKeys e.2 := by
    intro e he es hreach
    cases hp : p.grace with
    | none => simp [graceFields, hp] at he
    | some g =>
      simp only [graceFields, hp, Option.map_some, Option.toList_some, List.mem_singleton] at he
      subst he
      cases hreach
  have hspec : FreeOfMergeKeys (.mapping p.specFields) := by
    refine freeOfMergeKeys_mapping ?_ ?_
    · unfold specFields
      cases p.grace <;> rfl
    · exact List.forall_mem_append.mpr ⟨hgrace, List.forall_mem_singleton.mpr hitems⟩
  refine freeOfMergeKeys_mapping rfl ?_
  simp [hword, hspec]

theorem parse_streamText {pods : List BarePod} (hne : pods ≠ []) :
    Stream.parse (streamText pods) = .ok (pods.map value) := by
  have hnodes : nodes (streamText pods).toList = (pods.map node).map .ok := by
    rw [toList_streamText]
    exact nodes_streamChars (mt List.map_eq_nil_iff.mp hne)
      (Pointwise.forall₂_map_map describe_lines pods)
  rw [Stream.parse_eq_ok_iff, documents, hnodes, List.map_map, List.map_map]
  refine Pointwise.forall₂_map_map (fun p ↦ ?_) pods
  exact ⟨p.value, p.documentValue_node, merged_of_freeOfMergeKeys p.freeOfMergeKeys_value⟩

/-- A text without any pod is one document that is null. -/
theorem parse_streamText_nil : Stream.parse (streamText []) = .ok [.null] := by
  have hvalue : (Node.empty {}).documentValue = .ok .null :=
    Node.documentValue_of_spells (Node.spells_scalar rfl 128)
  have htext : (streamText []).toList = [] := rfl
  rw [Stream.parse_eq_ok_iff, documents, htext, nodes_nil]
  exact .cons ⟨.null, hvalue, by simp [Value.merged]⟩ .nil

/-! ### Findings -/

theorem name_container (n : PlainName) : Container.name ⟨containerFields n⟩ = n.text := by
  have hlookup : Value.lookup "name" (containerFields n) = some n.value := rfl
  unfold Container.name
  rw [hlookup]
  rcases n.value_cases with ⟨htext, hvalue⟩ | ⟨htext, hvalue⟩ | hvalue
  · rw [hvalue, htext]
    rfl
  · rw [hvalue, htext]
    rfl
  · rw [hvalue]
    simp [n.isEmpty_eq_false]

theorem findings_container (n : PlainName) (file : String) :
    Container.findings ⟨containerFields n⟩ file = containerFindings n file := by
  show [Rule.missingPreStop.forContainer file (Container.name ⟨containerFields n⟩),
    Rule.missingReadinessProbe.forContainer file (Container.name ⟨containerFields n⟩)] = _
  rw [name_container, Rule.forContainer, Rule.forContainer, Rule.messageFor_missingPreStop,
    Rule.messageFor_missingReadinessProbe, ← String.append_assoc, ← String.append_assoc]
  rfl

theorem containers_specFields (p : BarePod) :
    PodSpec.containers ⟨p.specFields⟩ = p.names.map fun n ↦ ⟨containerFields n⟩ := by
  have hlookup : Value.lookup "containers" p.specFields = some (containersField p.names).2 := by
    obtain ⟨_ | g, names⟩ := p <;> rfl
  have hmappings : (p.names.map fun n ↦ Value.mapping (containerFields n)).filterMap
      Value.asMapping? = p.names.map containerFields := by
    rw [List.filterMap_map]
    exact congrFun (List.filterMap_eq_map (f := containerFields)) p.names
  rw [PodSpec.containers, hlookup]
  show ((p.names.map fun n ↦ Value.mapping (containerFields n)).filterMap
    Value.asMapping?).map Container.mk = _
  rw [hmappings, List.map_map]
  rfl

theorem documentFindings_value (p : BarePod) (file : String) :
    Workload.documentFindings file p.value = p.findings file := by
  have hspec : PodSpec.ofDocument? p.value = some ⟨p.specFields⟩ := by
    obtain ⟨_ | g, names⟩ := p <;> rfl
  have hgrace : PodSpec.hasGracePeriod ⟨p.specFields⟩ = p.grace.isSome := by
    obtain ⟨_ | g, names⟩ := p <;> rfl
  rw [Workload.documentFindings, hspec]
  show PodSpec.findings ⟨p.specFields⟩ file = _
  rw [PodSpec.findings, hgrace, containers_specFields, List.flatMap_map]
  simp only [findings_container]
  rfl

end BarePod

/-- The findings on the text of bare pods are those on the pods, in their order. -/
theorem Workload.findings_barePods (pods : List BarePod) (file : String) :
    Workload.findings (BarePod.streamText pods) file = pods.flatMap (·.findings file) := by
  unfold Workload.findings
  by_cases hne : pods = []
  · rw [hne, BarePod.parse_streamText_nil]
    rfl
  rw [BarePod.parse_streamText hne]
  show (pods.map BarePod.value).flatMap (Workload.documentFindings file) = _
  rw [List.flatMap_map]
  simp only [BarePod.documentFindings_value]

end ShutdownLint
