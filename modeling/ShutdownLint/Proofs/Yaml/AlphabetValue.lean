import ShutdownLint.Proofs.Yaml.AlphabetTree
import ShutdownLint.Proofs.Yaml.StreamMerges
/-!
The characters of the strings in a stream's values. Where the text of a stream has no backslash, no
string at a key of a mapping has a character that is not in the text, apart from spaces and line
feeds. Aliases repeat what is written elsewhere, and following merge keys only moves entries.
-/

set_option autoImplicit false

namespace ShutdownLint.Yaml

variable {P : Char → Prop}

/-! ### Documents -/

namespace Node

theorem mem_anchoredItems_iff {items : List Node} {a : Nat × Node} :
    a ∈ anchoredItems items ↔ ∃ n ∈ items, a ∈ n.anchored := by
  induction items with
  | nil => simp [anchoredItems]
  | cons n ns ih => rw [anchoredItems, List.mem_append, ih, List.exists_mem_cons_iff]

theorem mem_anchoredEntries_iff {entries : List (Node × Node)} {a : Nat × Node} :
    a ∈ anchoredEntries entries ↔ ∃ e ∈ entries, a ∈ e.1.anchored ∨ a ∈ e.2.anchored := by
  induction entries with
  | nil => simp [anchoredEntries]
  | cons e es ih =>
    rw [anchoredEntries, List.mem_append, List.mem_append, ih, List.exists_mem_cons_iff, or_assoc]

theorem eq_of_mem_ownAnchor {p : Properties} {n : Node} {a : Nat × Node} (h : a ∈ ownAnchor p n) :
    a.2 = n := by
  unfold ownAnchor at h
  split at h
  · rw [List.mem_singleton.mp h]
  · cases h

theorem Over.anchored {n : Node} (h : n.Over P) : ∀ a ∈ n.anchored, a.2.Over P := by
  induction h with
  | «alias» target => exact nofun
  | scalar p plain h =>
    intro a ha
    rw [eq_of_mem_ownAnchor ha]
    exact .scalar p plain h
  | sequence p h ih =>
    intro a ha
    rcases List.mem_append.mp ha with ha | ha
    · rw [eq_of_mem_ownAnchor ha]
      exact .sequence p h
    · obtain ⟨n, hn, ha⟩ := mem_anchoredItems_iff.mp ha
      exact ih n hn a ha
  | mapping p hkeys hvalues ihkeys ihvalues =>
    intro a ha
    rcases List.mem_append.mp ha with ha | ha
    · rw [eq_of_mem_ownAnchor ha]
      exact .mapping p hkeys hvalues
    · obtain ⟨e, he, ha | ha⟩ := mem_anchoredEntries_iff.mp ha
      · exact ihkeys e he a ha
      · exact ihvalues e he a ha

end Node

theorem over_document {s : Scan} {d : Directives} {afterMark : Bool} {o : Opened}
    (h : ∀ t ∈ s.tokens, t.Over P) (ho : s.document d afterMark = .ok o) : o.document.Over P := by
  unfold Scan.document at ho
  split at ho
  · cases ho
  · rename_i hn _
    cases ho
    exact Node.over_ofTokens h hn
  · cases ho

/-- The trees that were read of a list of documents. -/
def OverTrees (P : Char → Prop) (rs : List (Except Fault Node)) : Prop :=
  ∀ n, .ok n ∈ rs → n.Over P

theorem overTrees_nil : OverTrees P [] :=
  nofun

theorem overTrees_error (e : Fault) : OverTrees P [.error e] := by
  intro n hn
  cases List.mem_singleton.mp hn

theorem OverTrees.cons {rs : List (Except Fault Node)} (h : OverTrees P rs) {n : Node}
    (hn : n.Over P) : OverTrees P (.ok n :: rs) := by
  intro m hm
  rcases List.mem_cons.mp hm with hm | hm
  · cases hm
    exact hn
  · exact h m hm

/-- Behind a document there are others, or there is a fault. -/
theorem overTrees_behind {tokens : List Token} {fault : Option Fault}
    {more : List (Mark × Segment)} (h : ∀ pending, OverTrees P (documentsAfter pending more)) :
    OverTrees P (match pendingDirectives tokens fault with
      | .ok pending => documentsAfter pending more
      | .error e => [.error e]) := by
  split
  · exact h _
  · exact overTrees_error _

theorem overTrees_documentsAfter (hP : EscapeFree P) {more : List (Mark × Segment)}
    (h : ∀ m ∈ more, Over P m.2.text) (pending : Option Directives) :
    OverTrees P (documentsAfter pending more) := by
  induction more generalizing pending with
  | nil =>
    unfold documentsAfter
    split
    · exact overTrees_error _
    · exact overTrees_nil
  | cons m more ih =>
    obtain ⟨mark, s⟩ := m
    obtain ⟨hs, hmore⟩ := List.forall_mem_cons.mp h
    cases mark with
    | documentEnd =>
      unfold documentsAfter
      split
      · exact overTrees_error _
      · exact overTrees_behind (ih hmore)
    | documentStart =>
      unfold documentsAfter
      split
      · exact overTrees_error _
      · rename_i o ho
        exact (overTrees_behind (ih hmore)).cons (over_document (Segment.over_scan hP hs) ho)

theorem overTrees_nodes (hP : EscapeFree P) {text : List Char} (h : Over P text) :
    OverTrees P (nodes text) := by
  obtain ⟨hfirst, hmore⟩ := over_segments h
  have hafter := overTrees_documentsAfter hP hmore
  unfold nodes
  dsimp only
  split_ifs
  · exact overTrees_error _
  · split
    · exact overTrees_nil.cons (Node.over_empty {})
    · exact overTrees_error _
    · exact hafter none
  · exact overTrees_behind hafter
  · split
    · exact overTrees_error _
    · rename_i o ho
      exact (overTrees_behind hafter).cons (over_document (Segment.over_scan hP hfirst) ho)

/-! ### Values -/

namespace Value

/-- A string belongs to an alphabet, and so do those at the keys of all mappings in a value. -/
structure Over (P : Char → Prop) (v : Value) : Prop where
  string : ∀ s, v = .string s → Yaml.Over P s.toList
  fields : ∀ es, Reaches v es → ∀ e ∈ es, ∀ s, e.2 = .string s → Yaml.Over P s.toList

theorem over_string {s : String} (h : Yaml.Over P s.toList) : Over P (.string s) :=
  ⟨fun _ hs ↦ Value.string.inj hs ▸ h, nofun⟩

theorem over_null : Over P .null :=
  ⟨nofun, nofun⟩

theorem over_bool (b : Bool) : Over P (.bool b) :=
  ⟨nofun, nofun⟩

theorem over_number (n : Number) : Over P (.number n) :=
  ⟨nofun, nofun⟩

theorem over_sequence {items : List Value} (h : ∀ v ∈ items, v.Over P) :
    Over P (.sequence items) := by
  refine ⟨nofun, fun es hreach ↦ ?_⟩
  obtain ⟨v, hv, hitem⟩ := reaches_sequence_iff.mp hreach
  exact (h v hv).fields es hitem

theorem over_mapping {es : List (Value × Value)} (h : ∀ e ∈ es, e.2.Over P) :
    Over P (.mapping es) := by
  refine ⟨nofun, fun fs hreach ↦ ?_⟩
  rcases reaches_mapping_iff.mp hreach with rfl | ⟨e, he, hvalue⟩
  · exact fun e he ↦ (h e he).string
  · exact (h e he).fields fs hvalue

theorem Over.tagged {v : Value} (h : v.Over P) (name : String) : Over P (.tagged name v) :=
  ⟨nofun, fun es hreach ↦ h.fields es (reaches_tagged_iff.mp hreach)⟩

theorem Over.withTag {v : Value} (h : v.Over P) (tag : Option Tag) : (withTag tag v).Over P := by
  unfold Yaml.withTag
  split
  · exact h.tagged _
  · exact h.tagged _
  · exact h

end Value

open Value

variable {s : String} {v : Value}

theorem over_plainValue (hs : Over P s.toList) (h : plainValue s = .ok v) : v.Over P := by
  unfold plainValue at h
  grind [over_null, over_bool, over_number, over_string]

theorem over_scalarValue (hs : Over P s.toList) {tag : Option Tag} {plain : Bool}
    (h : scalarValue tag s plain = .ok v) : v.Over P := by
  unfold scalarValue untaggedScalar at h
  grind [over_plainValue, over_null, over_bool, over_number, over_string]

namespace Node

variable {anchored : List (Nat × Node)} {n : Node}

theorem ensures_target (hanchored : ∀ a ∈ anchored, a.2.Over P) (h : n.Over P) :
    Ensures (n.target anchored) (Over P) := by
  unfold target
  split
  · rename_i i
    refine .bind .trivial fun visits _ ↦ ?_
    dsimp only
    split_ifs
    · exact .bind .throw fun _ hnever ↦ False.elim hnever
    refine .bind .trivial fun _ _ ↦ ?_
    split
    · rename_i m hm
      obtain ⟨before, after, hsplit, -⟩ := List.lookup_eq_some_iff.mp hm
      exact .pure (hanchored (i, m) (List.mem_reverse.mp (by simp [hsplit])))
    · exact .throw
  · exact .pure h

/-- What holds of the entries of a mapping while they are read. -/
def OverValues (P : Char → Prop) (entries : List (Value × Value)) : Prop :=
  ∀ e ∈ entries, e.2.Over P

theorem ensures_over_addEntry {value : Node → Reading Value} {e : Node × Node}
    (hvalue : Ensures (value e.2) (Value.Over P)) {entries : List (Value × Value)}
    (h : OverValues P entries) : Ensures (addEntry value entries e) (OverValues P) := by
  refine .bind .trivial fun k _ ↦ ?_
  split_ifs
  · exact .throw
  · exact .bind hvalue fun v hv ↦ .pure (List.forall_mem_cons.mpr ⟨hv, h⟩)

theorem ensures_over_value (hanchored : ∀ a ∈ anchored, a.2.Over P) (depth : Nat) (h : n.Over P) :
    Ensures (n.value anchored depth) (Value.Over P) := by
  induction depth generalizing n with
  | zero =>
    rw [value]
    refine .bind (ensures_target hanchored h) fun target htarget ↦ ?_
    cases htarget with
    | «alias» i => exact .throw
    | scalar p plain h =>
      exact .bind (.lift fun v hv ↦ over_scalarValue h hv) fun v hv ↦ .pure (hv.withTag p.tag)
    | sequence p h => exact .throw
    | mapping p hkeys hvalues => exact .throw
  | succ depth ih =>
    rw [value]
    refine .bind (ensures_target hanchored h) fun target htarget ↦ ?_
    cases htarget with
    | «alias» i => exact .throw
    | scalar p plain h =>
      exact .bind (.lift fun v hv ↦ over_scalarValue h hv) fun v hv ↦ .pure (hv.withTag p.tag)
    | sequence p h =>
      exact .bind (.mapM fun n hn ↦ ih (h n hn)) fun vs hvs ↦
        .pure ((over_sequence hvs).withTag p.tag)
    | mapping p hkeys hvalues =>
      have hnone : OverValues P [] := List.forall_mem_nil _
      refine .bind (.foldlM (fun _ hes e he ↦ ?_) hnone) fun es hes ↦ .pure ?_
      · exact ensures_over_addEntry (ih (hvalues e he)) hes
      · exact (over_mapping fun e he ↦ hes e (List.mem_reverse.mp he)).withTag p.tag

theorem over_documentValue (h : n.Over P) (hv : n.documentValue = .ok v) : v.Over P := by
  obtain ⟨⟨w, s⟩, hrun, rfl⟩ := Success.functor_map_eq_ok.mp hv
  exact ensures_over_value h.anchored 128 h _ _ _ hrun

end Node

/-! ### Merging -/

/-- A mapping of the result has its entries from mappings of the value. -/
theorem Value.Over.merged (h : v.Over P) {w : Value} (hw : v.merged = .ok w) : w.Over P := by
  refine ⟨?_, fun fs hreach f hf s hs ↦ ?_⟩
  · rintro s rfl
    exact h.string s (eq_string_of_merged hw)
  · obtain ⟨es, hvisit, hmerged⟩ := (reaches_iff_of_merged hw).mp hreach
    obtain ⟨hs', _, hstep, hmerges, ⟨⟩⟩ := merged_mapping_eq_ok_iff.mp hmerged
    obtain ⟨e, he, -, hvalue⟩ := Pointwise.exists_of_mem_right hmerges hf
    have hes : e.2 = .string s := eq_string_of_merged (hs ▸ hvalue)
    rcases mem_mergeHere hstep he with he | ⟨source, hsource, he⟩
    · exact h.fields es hvisit.reaches e he s hes
    · exact h.fields source (hvisit.reaches.trans (reaches_of_mem_sources hsource)) e he s hes

/-! ### The stream -/

/-- A control character spoils the whole stream. -/
theorem all_isPrintable_of_parse {text : String} {ds : List Value}
    (h : Stream.parse text = .ok ds) : text.toList.all isPrintable = true := by
  by_contra hcontrol
  have hall : text.toList.all isPrintable = false := Bool.not_eq_true _ ▸ hcontrol
  have hnodes : nodes text.toList = [.error .controlCharacter] := by
    unfold nodes
    rw [hall]
    rfl
  rw [Stream.parse, documents, hnodes] at h
  cases h

/-- The strings that a stream without escapes yields are made of the characters of its text. -/
theorem over_parse (hP : EscapeFree P) {text : String} (h : Over P text.toList)
    {ds : List Value} (hds : Stream.parse text = .ok ds) {d : Value} (hd : d ∈ ds) : d.Over P := by
  obtain ⟨r, hr, v, rfl, hmerged⟩ :=
    Pointwise.exists_of_mem_right (Stream.parse_eq_ok_iff.mp hds) hd
  obtain ⟨r, hr, hv⟩ := List.mem_map.mp hr
  obtain ⟨n, rfl, hn⟩ := Success.bind_eq_ok.mp hv
  exact (Node.over_documentValue (overTrees_nodes hP h n hr) hn).merged hmerged

end ShutdownLint.Yaml
