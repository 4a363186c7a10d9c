import ShutdownLint.Proofs.Yaml.LineStream
import ShutdownLint.Proofs.Yaml.PlainNode
import ShutdownLint.Proofs.Yaml.StreamValues
/-!
Two texts with a mark between them.

The text is cut at this mark as at all others, so each segment of either text is read as it is read
alone. What the first text leaves behind cannot reach the second one: a text without faults ends
without directives for another document. The seam shows in two ways only. A text without any
document counts as an empty one as long as it stands alone, and in front of a text that begins with
a mark or with directives of its own the mark makes an empty document.
-/

set_option autoImplicit false

namespace ShutdownLint.Yaml

/-! ### Segments -/

theorem atBoundary_append_lineFeed (cs more : List Char) :
    atBoundary (cs ++ '\n' :: more) = atBoundary (cs ++ ['\n']) := by
  cases cs <;> rfl

/-- No mark begins in front of a line feed and ends behind it. -/
theorem eq_of_append_lineFeed {c : Char} (hc : c ≠ '\n') {cs more r : List Char}
    (h : cs ++ '\n' :: more = c :: c :: r) : ∃ r, cs = c :: c :: r := by
  match cs with
  | [] => exact absurd (List.cons.inj h).1.symm hc
  | [d] => exact absurd (List.cons.inj (List.cons.inj h).2).1.symm hc
  | d :: e :: r =>
    obtain ⟨rfl, htail⟩ := List.cons.inj h
    obtain ⟨rfl, -⟩ := List.cons.inj htail
    exact ⟨r, rfl⟩

/-- Behind a line feed a text is cut as it is alone. -/
theorem cutAtMarks_append {more : List Char} (hmore : (cutAtMarks true more).1 = [])
    (lineStart : Bool) (cs : List Char) : cutAtMarks lineStart (cs ++ '\n' :: more) =
      ((cutAtMarks lineStart (cs ++ ['\n'])).1,
        (cutAtMarks lineStart (cs ++ ['\n'])).2 ++ (cutAtMarks true more).2) := by
  induction lineStart, cs using cutAtMarks.induct with
  | case1 lineStart =>
    have hbreak (rest : List Char) : cutAtMarks lineStart ('\n' :: rest) =
        ('\n' :: (cutAtMarks true rest).1, (cutAtMarks true rest).2) :=
      cutAtMarks_cons fun _ ↦ ⟨fun h ↦ absurd h (by decide), by decide⟩
    rw [List.nil_append, List.nil_append, hbreak, hbreak, hmore]
    rfl
  | case2 | case3 | case4 | case5 =>
    rename_i r _ _ _ _ ih
    simp only [List.cons_append, cutAtMarks, ih, atBoundary_append_lineFeed r more]
    split <;> rfl
  | case6 lineStart c r _ _ _ hdash hdot ih =>
    have hcons (rest : List Char) : cutAtMarks lineStart (c :: (r ++ '\n' :: rest)) =
        (c :: (cutAtMarks (isBreak c) (r ++ '\n' :: rest)).1,
          (cutAtMarks (isBreak c) (r ++ '\n' :: rest)).2) := by
      rw [cutAtMarks]
      · intro t hstart hc ht
        obtain ⟨u, hu⟩ := eq_of_append_lineFeed (by decide) ht
        exact hdash u hstart hc hu
      · intro t hstart hc ht
        obtain ⟨u, hu⟩ := eq_of_append_lineFeed (by decide) ht
        exact hdot u hstart hc hu
    rw [List.cons_append, List.cons_append, hcons, hcons, ih]

theorem segments_join (a b : List Char) : segments (a ++ '\n' :: (Lines.markLine ++ b)) =
    ((segments (a ++ ['\n'])).1,
      (segments (a ++ ['\n'])).2 ++ (.documentStart, (segments b).1) :: (segments b).2) := by
  have hmark : (cutAtMarks true (Lines.markLine ++ b)).1 = [] := by rw [cutAtMarks_markLine]
  have hcut := cutAtMarks_append hmark true a
  rw [cutAtMarks_markLine] at hcut
  have htail (cs : List Char) : Segment.ofTail ('\n' :: cs) = ⟨false, cs⟩ := rfl
  unfold segments
  rw [hcut]
  simp [htail]

/-! ### Documents behind a mark -/

namespace Node

/-- Content begins in the same way wherever the document stands. -/
theorem begin_afterMark (b : Builder) (p : Properties) (t : Token) (phase : Phase) :
    { b with phase := phase }.begin (.root true) p t = b.begin (.root false) p t := by
  cases t <;> rfl

/-- Once the properties of a document are being read, a mark in front of it makes no difference. -/
theorem read_content_afterMark (b : Builder) (p : Properties) (tokens : List Token) :
    { b with phase := .content (.root true) p }.read tokens =
      { b with phase := .content (.root false) p }.read tokens := by
  induction tokens generalizing b p with
  | nil => rfl
  | cons t tokens ih =>
    have hfeed (afterMark : Bool) : { b with phase := .content (.root afterMark) p }.feed t =
        { b with phase := .content (.root afterMark) p }.property (.root afterMark) p t := rfl
    have hbegin : { b with phase := .content (.root true) p }.begin (.root true) p t =
        { b with phase := .content (.root false) p }.begin (.root false) p t :=
      begin_afterMark { b with phase := .content (.root false) p } p t _
    rw [Builder.read, Builder.read, hfeed, hfeed]
    cases t with
    | anchor name =>
      by_cases hp : p.anchor.isNone = true
      · simp only [Builder.property, if_pos hp]
        exact ih (b.nameAnchor name).1 _
      · simp only [Builder.property, if_neg hp, hbegin]
    | tag handle suffix =>
      by_cases hp : p.tag.isNone = true
      · simp only [Builder.property, if_pos hp]
        cases b.directives.tag handle suffix with
        | ok tag => exact ih b _
        | error e => rfl
      · simp only [Builder.property, if_neg hp, hbegin]
    | _ => simp only [Builder.property, hbegin]

theorem ofTokens_cons (d : Directives) (afterMark : Bool) {t : Token}
    (hdirective : t.isDirective = false) (halias : ∀ name, t ≠ .alias name) (tokens : List Token) :
    ofTokens d afterMark (t :: tokens) =
      Builder.read { directives := d, phase := .content (.root afterMark) {} } (t :: tokens) := by
  cases t with
  | «alias» name => exact absurd rfl (halias name)
  | versionDirective major minor => cases hdirective
  | tagDirective handle leading => cases hdirective
  | _ => cases afterMark <;> rfl

/-- A document that needs no mark can also stand behind one. -/
theorem ofTokens_afterMark {d : Directives} {tokens : List Token} {r : Node × List Token}
    (h : ofTokens d false tokens = .ok r) : ofTokens d true tokens = .ok r := by
  obtain ⟨t, ts, rfl, hdirective⟩ := exists_cons_of_ofTokens h
  have halias (name : String) : t ≠ .alias name := by
    rintro rfl
    cases h
  rw [ofTokens_cons d _ hdirective halias] at h ⊢
  rw [← h]
  exact read_content_afterMark { directives := d, phase := .separator } {} (t :: ts)

/-- Behind a mark there is an empty document in front of directives. -/
theorem ofTokens_afterMark_directive {d : Directives} {t : Token} (h : t.isDirective = true)
    (tokens : List Token) : ofTokens d true (t :: tokens) = .ok (empty {}, t :: tokens) := by
  cases t with
  | versionDirective major minor => rfl
  | tagDirective handle leading => rfl
  | _ => cases h

end Node

namespace Scan

variable {s : Scan} {opened : Opened}

theorem exists_ofTokens_of_document {d : Directives} {afterMark : Bool}
    (h : s.document d afterMark = .ok opened) :
    ∃ r, Node.ofTokens d afterMark s.tokens = .ok r := by
  unfold document at h
  cases hr : Node.ofTokens d afterMark s.tokens with
  | ok r => exact ⟨r, rfl⟩
  | error e =>
    rw [hr] at h
    cases hfault : s.fault <;> simp [hfault] at h

theorem document_afterMark (h : s.document {} false = .ok opened) :
    s.document {} true = .ok opened := by
  obtain ⟨r, hr⟩ := exists_ofTokens_of_document h
  unfold document at h ⊢
  rwa [Node.ofTokens_afterMark hr, ← hr]

/-- Behind a mark there is an empty document in front of directives. -/
theorem document_of_directive {t : Token} {ts : List Token} (htokens : s.tokens = t :: ts)
    (ht : t.isDirective = true) :
    s.document {} true = .ok ⟨.empty {}, s.tokens, s.fault⟩ := by
  unfold document
  rw [htokens, Node.ofTokens_afterMark_directive ht]
  cases s.fault <;> rfl

end Scan

/-! ### Documents without faults -/

theorem map_ok_ne_error {ns : List Node} {e : Fault} : ns.map Except.ok ≠ [.error e] := by
  cases ns <;> simp

/-- What is left of a segment behind a document has to be directives, and other documents follow. -/
theorem behind_eq_map_ok_iff {tokens : List Token} {fault : Option Fault}
    {more : List (Mark × Segment)} {ns : List Node} :
    (match pendingDirectives tokens fault with
      | .ok pending => documentsAfter pending more
      | .error e => [.error e]) = ns.map Except.ok ↔
      ∃ pending, pendingDirectives tokens fault = .ok pending ∧
        documentsAfter pending more = ns.map .ok := by
  cases pendingDirectives tokens fault with
  | ok pending => simp
  | error e => simp [map_ok_ne_error.symm]

theorem documentsAfter_nil_eq_map_ok_iff {pending : Option Directives} {ns : List Node} :
    documentsAfter pending [] = ns.map .ok ↔ pending = none ∧ ns = [] := by
  cases pending with
  | none => simp [documentsAfter]
  | some d => simp [documentsAfter, map_ok_ne_error.symm]

theorem documentsAfter_end_eq_map_ok_iff {pending : Option Directives} {s : Segment}
    {more : List (Mark × Segment)} {ns : List Node} :
    documentsAfter pending ((.documentEnd, s) :: more) = ns.map .ok ↔ pending = none ∧
      ∃ next, pendingDirectives s.scan.tokens s.scan.fault = .ok next ∧
        documentsAfter next more = ns.map .ok := by
  cases pending with
  | none =>
    rw [documentsAfter, Option.isSome_none, if_neg Bool.false_ne_true, eq_self, true_and]
    exact behind_eq_map_ok_iff
  | some d => simp [documentsAfter, map_ok_ne_error.symm]

theorem documentsAfter_start_eq_map_ok_iff {pending : Option Directives} {s : Segment}
    {more : List (Mark × Segment)} {ns : List Node} :
    documentsAfter pending ((.documentStart, s) :: more) = ns.map .ok ↔
      ∃ opened next others, s.scan.document (pending.getD {}) true = .ok opened ∧
        pendingDirectives opened.leftover opened.fault = .ok next ∧
        documentsAfter next more = others.map .ok ∧ opened.document :: others = ns := by
  rw [documentsAfter]
  cases s.scan.document (pending.getD {}) true with
  | error e => simp [map_ok_ne_error.symm]
  | ok opened =>
    simp only [Except.ok.injEq, exists_and_left, exists_eq_left']
    constructor
    · intro h
      cases ns with
      | nil => cases h
      | cons n ns =>
        obtain ⟨hn, hrest⟩ := List.cons.inj h
        obtain ⟨next, hnext, hns⟩ := behind_eq_map_ok_iff.mp hrest
        exact ⟨next, hnext, ns, hns, by rw [Except.ok.inj hn]⟩
    · rintro ⟨next, hnext, others, hothers, rfl⟩
      exact congrArg _ (behind_eq_map_ok_iff.mpr ⟨next, hnext, hothers⟩)

/-- Where documents end without directives, other ones can be put behind them. -/
theorem documentsAfter_append {pending : Option Directives} {more rest : List (Mark × Segment)}
    {s : Segment} {ns ms : List Node} (hns : documentsAfter pending more = ns.map .ok)
    (hms : documentsAfter none ((.documentStart, s) :: rest) = ms.map .ok) :
    documentsAfter pending (more ++ (.documentStart, s) :: rest) = (ns ++ ms).map .ok := by
  induction more generalizing pending ns with
  | nil =>
    obtain ⟨rfl, rfl⟩ := documentsAfter_nil_eq_map_ok_iff.mp hns
    exact hms
  | cons m more ih =>
    obtain ⟨mark, t⟩ := m
    cases mark with
    | documentEnd =>
      obtain ⟨hpending, next, hnext, hns⟩ := documentsAfter_end_eq_map_ok_iff.mp hns
      exact documentsAfter_end_eq_map_ok_iff.mpr ⟨hpending, next, hnext, ih hns⟩
    | documentStart =>
      obtain ⟨opened, next, others, hopened, hnext, hothers, rfl⟩ :=
        documentsAfter_start_eq_map_ok_iff.mp hns
      exact documentsAfter_start_eq_map_ok_iff.mpr
        ⟨opened, next, others ++ ms, hopened, hnext, ih hothers, rfl⟩

/-! ### Texts without faults -/

/-- The trees of a text without faults, by what stands in front of its first mark: nothing at all,
directives, or a document. -/
inductive Trees (scan : Scan) : List (Mark × Segment) → List Node → Prop
  | empty (hscan : scan = ⟨[], none⟩) : Trees scan [] [.empty {}]
  | marked {s : Segment} {more : List (Mark × Segment)} {ns : List Node}
      (hscan : scan = ⟨[], none⟩)
      (hns : documentsAfter none ((.documentStart, s) :: more) = ns.map .ok) :
      Trees scan ((.documentStart, s) :: more) ns
  | directives {t : Token} {ts : List Token} {next : Option Directives}
      {more : List (Mark × Segment)} {ns : List Node} (htokens : scan.tokens = t :: ts)
      (ht : t.isDirective = true) (hnext : pendingDirectives scan.tokens scan.fault = .ok next)
      (hns : documentsAfter next more = ns.map .ok) : Trees scan more ns
  | document {opened : Opened} {next : Option Directives} {more : List (Mark × Segment)}
      {ns : List Node} (hopened : scan.document {} false = .ok opened)
      (hnext : pendingDirectives opened.leftover opened.fault = .ok next)
      (hns : documentsAfter next more = ns.map .ok) : Trees scan more (opened.document :: ns)

theorem trees_of_nodes {text : List Char} {ns : List Node} (h : nodes text = ns.map .ok) :
    text.all isPrintable = true ∧ Trees (segments text).1.scan (segments text).2 ns := by
  unfold nodes at h
  generalize segments text = parts at h ⊢
  obtain ⟨first, more⟩ := parts
  dsimp only at h ⊢
  generalize first.scan = scan at h ⊢
  obtain ⟨tokens, fault⟩ := scan
  split at h
  case isTrue => exact absurd h.symm map_ok_ne_error
  case isFalse hprintable =>
    refine ⟨by simpa using hprintable, ?_⟩
    split at h
    case isTrue hblank =>
      obtain ⟨rfl, rfl⟩ : tokens = [] ∧ fault = none := by simpa using hblank
      match more with
      | [] =>
        obtain rfl : ns = [.empty {}] := by simpa using h.symm
        exact .empty rfl
      | (.documentStart, s) :: more => exact .marked rfl h
      | (.documentEnd, s) :: more => exact absurd h.symm map_ok_ne_error
    case isFalse =>
      split at h
      case isTrue hdirective =>
        obtain ⟨t, hhead, ht⟩ := (Option.any_eq_true ..).mp hdirective
        obtain ⟨ts, rfl⟩ := List.head?_eq_some_iff.mp hhead
        obtain ⟨next, hnext, hns⟩ := behind_eq_map_ok_iff.mp h
        exact .directives rfl ht hnext hns
      case isFalse =>
        split at h
        · exact absurd h.symm map_ok_ne_error
        · rename_i opened hopened
          cases ns with
          | nil => cases h
          | cons n ns =>
            obtain ⟨hn, hrest⟩ := List.cons.inj h
            obtain rfl := Except.ok.inj hn
            obtain ⟨next, hnext, hns⟩ := behind_eq_map_ok_iff.mp hrest
            exact .document hopened hnext hns

theorem nodes_of_trees {text : List Char} {ns : List Node}
    (hprintable : text.all isPrintable = true)
    (h : Trees (segments text).1.scan (segments text).2 ns) : nodes text = ns.map .ok := by
  unfold nodes
  generalize segments text = parts at h ⊢
  obtain ⟨first, more⟩ := parts
  dsimp only at h ⊢
  generalize first.scan = scan at h ⊢
  obtain ⟨tokens, fault⟩ := scan
  simp only [hprintable, Bool.not_true, Bool.false_eq_true, if_false]
  cases h with
  | empty hscan =>
    cases hscan
    rfl
  | marked hscan hns =>
    cases hscan
    exact hns
  | directives htokens ht hnext hns =>
    obtain rfl := htokens
    simp only [List.isEmpty_cons, Bool.false_and, Bool.false_eq_true, if_false, List.head?_cons,
      Option.any_some, ht, if_true]
    exact behind_eq_map_ok_iff.mpr ⟨_, hnext, hns⟩
  | document hopened hnext hns =>
    obtain ⟨r, hr⟩ := Scan.exists_ofTokens_of_document hopened
    obtain ⟨t, ts, rfl, ht⟩ := Node.exists_cons_of_ofTokens hr
    simp only [List.isEmpty_cons, Bool.false_and, Bool.false_eq_true, if_false, List.head?_cons,
      Option.any_some, ht, hopened]
    exact congrArg _ (behind_eq_map_ok_iff.mpr ⟨_, hnext, hns⟩)

/-! ### Joined texts -/

namespace Trees

variable {scan : Scan} {s : Segment} {more rest : List (Mark × Segment)} {ns ms : List Node}

/-- A text without any document counts as an empty one only as long as nothing follows. -/
theorem append (h : Trees scan more ns)
    (hms : documentsAfter none ((.documentStart, s) :: rest) = ms.map .ok) :
    ∃ front, Trees scan (more ++ (.documentStart, s) :: rest) (front ++ ms) ∧
      (front = ns ∨ front = [] ∧ ns = [.empty {}]) := by
  cases h with
  | empty hscan => exact ⟨[], .marked hscan hms, Or.inr ⟨rfl, rfl⟩⟩
  | marked hscan hns => exact ⟨ns, .marked hscan (documentsAfter_append hns hms), Or.inl rfl⟩
  | directives htokens ht hnext hns =>
    exact ⟨ns, .directives htokens ht hnext (documentsAfter_append hns hms), Or.inl rfl⟩
  | document hopened hnext hns =>
    exact ⟨_, .document hopened hnext (documentsAfter_append hns hms), Or.inl rfl⟩

/-- A mark in front of a text makes an empty document where the text begins with a mark or with
directives of its own. -/
theorem behind_mark (h : Trees s.scan more ms) :
    ∃ back, documentsAfter none ((.documentStart, s) :: more) = back.map .ok ∧
      (back = ms ∨ back = .empty {} :: ms) := by
  cases h with
  | empty hscan =>
    refine ⟨_, documentsAfter_start_eq_map_ok_iff.mpr
      ⟨⟨.empty {}, [], none⟩, none, [], ?_, rfl, rfl, rfl⟩, Or.inl rfl⟩
    rw [hscan]
    rfl
  | marked hscan hns =>
    refine ⟨_, documentsAfter_start_eq_map_ok_iff.mpr
      ⟨⟨.empty {}, [], none⟩, none, ms, ?_, rfl, hns, rfl⟩, Or.inr rfl⟩
    rw [hscan]
    rfl
  | directives htokens ht hnext hns =>
    exact ⟨_, documentsAfter_start_eq_map_ok_iff.mpr
      ⟨_, _, ms, Scan.document_of_directive htokens ht, hnext, hns, rfl⟩, Or.inr rfl⟩
  | document hopened hnext hns =>
    exact ⟨_, documentsAfter_start_eq_map_ok_iff.mpr
      ⟨_, _, _, Scan.document_afterMark hopened, hnext, hns, rfl⟩, Or.inl rfl⟩

end Trees

theorem nodes_join {a b : List Char} {ns ms : List Node} (ha : nodes (a ++ ['\n']) = ns.map .ok)
    (hb : nodes b = ms.map .ok) : ∃ front back,
      nodes (a ++ '\n' :: (Lines.markLine ++ b)) = (front ++ back).map .ok ∧
      (front = ns ∨ front = [] ∧ ns = [.empty {}]) ∧ (back = ms ∨ back = .empty {} :: ms) := by
  obtain ⟨hprintable, ha⟩ := trees_of_nodes ha
  obtain ⟨hprintable', hb⟩ := trees_of_nodes hb
  obtain ⟨back, hback, hms⟩ := hb.behind_mark
  obtain ⟨front, hfront, hns⟩ := ha.append hback
  refine ⟨front, back, nodes_of_trees ?_ ?_, hns, hms⟩
  · rw [List.all_append, Bool.and_eq_true] at hprintable
    have hmark : ('\n' :: Lines.markLine).all isPrintable = true := rfl
    rw [← List.cons_append, List.all_append, List.all_append, hprintable.1, hmark, hprintable']
    rfl
  · rw [segments_join]
    exact hfront

/-! ### Values -/

/-- A tree that has a value, with its merge keys followed. -/
def Node.ResolvesTo (n : Node) (d : Value) : Prop :=
  Resolves n.documentValue d

theorem Node.resolvesTo_empty_iff {d : Value} : (Node.empty {}).ResolvesTo d ↔ d = .null := by
  have hvalue : (Node.empty {}).documentValue = .ok .null :=
    documentValue_of_spells (spells_scalar rfl 128)
  rw [ResolvesTo, hvalue, Resolves]
  simp [Value.merged, eq_comm]

theorem exists_nodes_of_forall₂ {rs : List (Except Fault Node)} {ds : List Value}
    (h : List.Forall₂ Resolves (rs.map (·.bind Node.documentValue)) ds) :
    ∃ ns : List Node, rs = ns.map .ok := by
  induction rs generalizing ds with
  | nil => exact ⟨[], rfl⟩
  | cons r rs ih =>
    obtain ⟨d, ds, ⟨v, hv, -⟩, hds, rfl⟩ := List.forall₂_cons_left_iff.mp h
    obtain ⟨ns, rfl⟩ := ih hds
    cases r with
    | error e => cases hv
    | ok n => exact ⟨n :: ns, rfl⟩

namespace Stream

/-- An accepted stream is one of trees without faults that all have values. -/
theorem parse_eq_ok_iff_nodes {text : String} {ds : List Value} :
    parse text = .ok ds ↔
      ∃ ns : List Node, nodes text.toList = ns.map .ok ∧ List.Forall₂ Node.ResolvesTo ns ds := by
  have hmap (ns : List Node) : List.Forall₂ Resolves
      ((ns.map Except.ok).map (·.bind Node.documentValue)) ds ↔
        List.Forall₂ Node.ResolvesTo ns ds := by
    rw [List.map_map, List.forall₂_map_left_iff]
    exact Iff.rfl
  rw [parse_eq_ok_iff, documents]
  constructor
  · intro h
    obtain ⟨ns, hns⟩ := exists_nodes_of_forall₂ h
    rw [hns] at h ⊢
    exact ⟨ns, rfl, (hmap ns).mp h⟩
  · rintro ⟨ns, hns, h⟩
    rw [hns]
    exact (hmap ns).mpr h

/-- Of two accepted streams with a mark between them the documents are those of the first one and
then those of the second one, apart from empty documents at the seam. -/
theorem parse_join {a b : String} {ds es : List Value} (hend : a.toList.getLast? = some '\n')
    (ha : parse a = .ok ds) (hb : parse b = .ok es) : ∃ front back,
      parse (a ++ "---\n" ++ b) = .ok (front ++ back) ∧
      (front = ds ∨ front = [] ∧ ds = [.null]) ∧ (back = es ∨ back = .null :: es) := by
  obtain ⟨cs, hcs⟩ := List.getLast?_eq_some_iff.mp hend
  obtain ⟨ns, hns, hds⟩ := parse_eq_ok_iff_nodes.mp ha
  obtain ⟨ms, hms, hes⟩ := parse_eq_ok_iff_nodes.mp hb
  rw [hcs] at hns
  obtain ⟨front, back, hnodes, hfront, hback⟩ := nodes_join hns hms
  have htext : (a ++ "---\n" ++ b).toList = cs ++ '\n' :: (Lines.markLine ++ b.toList) := by
    simp [hcs, Lines.markLine]
  rw [← htext] at hnodes
  obtain ⟨ds', hds', hds⟩ : ∃ ds', List.Forall₂ Node.ResolvesTo front ds' ∧
      (ds' = ds ∨ ds' = [] ∧ ds = [.null]) := by
    rcases hfront with rfl | ⟨rfl, rfl⟩
    · exact ⟨ds, hds, Or.inl rfl⟩
    · obtain ⟨d, _, hd, hnil, rfl⟩ := List.forall₂_cons_left_iff.mp hds
      obtain rfl := List.forall₂_nil_left_iff.mp hnil
      rw [Node.resolvesTo_empty_iff.mp hd]
      exact ⟨[], .nil, Or.inr ⟨rfl, rfl⟩⟩
  obtain ⟨es', hes', hes⟩ : ∃ es', List.Forall₂ Node.ResolvesTo back es' ∧
      (es' = es ∨ es' = .null :: es) := by
    rcases hback with rfl | rfl
    · exact ⟨es, hes, Or.inl rfl⟩
    · exact ⟨.null :: es, .cons (Node.resolvesTo_empty_iff.mpr rfl) hes, Or.inr rfl⟩
  refine ⟨ds', es', parse_eq_ok_iff_nodes.mpr ?_, hds, hes⟩
  exact ⟨front ++ back, hnodes, List.rel_append hds' hes'⟩

end Stream

end ShutdownLint.Yaml
