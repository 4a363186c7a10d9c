import ShutdownLint.Proofs.Yaml.Alphabet
import ShutdownLint.Yaml.Node
/-!
The characters of the scalars in a document's tree: those of the scalars among its tokens.
-/

set_option autoImplicit false

namespace ShutdownLint.Yaml

variable {P : Char → Prop}

/-! ### Trees -/

namespace Node

/-- All scalars in a tree belong to an alphabet. -/
inductive Over (P : Char → Prop) : Node → Prop
  | alias (target : Nat) : Over P (.alias target)
  | scalar (p : Properties) {text : String} (plain : Bool) (h : Yaml.Over P text.toList) :
      Over P (.scalar p text plain)
  | sequence (p : Properties) {items : List Node} (h : ∀ n ∈ items, Over P n) :
      Over P (.sequence p items)
  | mapping (p : Properties) {entries : List (Node × Node)} (hkeys : ∀ e ∈ entries, Over P e.1)
      (hvalues : ∀ e ∈ entries, Over P e.2) : Over P (.mapping p entries)

theorem over_empty (p : Properties) : (empty p).Over P :=
  .scalar p true (List.forall_mem_nil P)

/-- The items of a list that is read, last one first. -/
def OverItems (P : Char → Prop) (items : List Node) : Prop :=
  ∀ n ∈ items, n.Over P

/-- The entries of a mapping that is read, last one first. -/
def OverEntries (P : Char → Prop) (entries : List (Node × Node)) : Prop :=
  ∀ e ∈ entries, e.1.Over P ∧ e.2.Over P

/-- The key of an entry that is read, if there is one yet. -/
def OverKey (P : Char → Prop) : Option Node → Prop
  | none => True
  | some k => k.Over P

theorem OverItems.cons {items : List Node} (h : OverItems P items) {n : Node} (hn : n.Over P) :
    OverItems P (n :: items) :=
  List.forall_mem_cons.mpr ⟨hn, h⟩

theorem OverItems.node {items : List Node} (h : OverItems P items) (p : Properties) :
    (sequence p items.reverse).Over P :=
  .sequence p fun n hn ↦ h n (List.mem_reverse.mp hn)

theorem OverEntries.cons {entries : List (Node × Node)} (h : OverEntries P entries) {k v : Node}
    (hk : k.Over P) (hv : v.Over P) : OverEntries P ((k, v) :: entries) :=
  List.forall_mem_cons.mpr ⟨⟨hk, hv⟩, h⟩

theorem OverEntries.node {entries : List (Node × Node)} (h : OverEntries P entries)
    (p : Properties) : (mapping p entries.reverse).Over P :=
  .mapping p (fun e he ↦ (h e (List.mem_reverse.mp he)).1)
    fun e he ↦ (h e (List.mem_reverse.mp he)).2

theorem over_pair {k v : Node} (hk : k.Over P) (hv : v.Over P) : (mapping {} [(k, v)]).Over P :=
  OverEntries.node (OverEntries.cons (List.forall_mem_nil _) hk hv) {}

end Node

/-! ### Open collections -/

/-- All scalars in an open collection belong to an alphabet. -/
def Frame.Over (P : Char → Prop) : Frame → Prop
  | .blockSequence _ items => Node.OverItems P items
  | .indentlessSequence _ items => Node.OverItems P items
  | .blockMapping _ entries key => Node.OverEntries P entries ∧ Node.OverKey P key
  | .flowSequence _ items => Node.OverItems P items
  | .flowPair key => Node.OverKey P key
  | .flowMapping _ entries key _ => Node.OverEntries P entries ∧ Node.OverKey P key

namespace Builder

def OverStack (P : Char → Prop) (fs : List Frame) : Prop :=
  ∀ f ∈ fs, f.Over P

theorem overStack_cons {f : Frame} {fs : List Frame} :
    OverStack P (f :: fs) ↔ f.Over P ∧ OverStack P fs :=
  List.forall_mem_cons

/-- All scalars that a builder has taken belong to an alphabet. -/
structure Over (P : Char → Prop) (b : Builder) : Prop where
  stack : OverStack P b.stack
  done : ∀ n, b.phase = .done n → n.Over P

variable {b b' : Builder} {t : Token} {n : Node} {items : List Node}
  {entries : List (Node × Node)} {p : Properties}

theorem over_accept (h : OverStack P b.stack) (hn : n.Over P) : (b.accept n).Over P := by
  unfold accept
  split
  case h_1 hstack => exact ⟨hstack ▸ h, fun _ hdone ↦ Phase.done.inj hdone ▸ hn⟩
  case h_2 hstack | h_3 hstack | h_6 hstack =>
    obtain ⟨hf, hfs⟩ := overStack_cons.mp (hstack ▸ h)
    exact ⟨overStack_cons.mpr ⟨hf.cons hn, hfs⟩, nofun⟩
  case h_4 hstack | h_11 hstack =>
    obtain ⟨hf, hfs⟩ := overStack_cons.mp (hstack ▸ h)
    exact ⟨overStack_cons.mpr ⟨⟨hf.1, hn⟩, hfs⟩, nofun⟩
  case h_5 hstack | h_12 hstack =>
    obtain ⟨hf, hfs⟩ := overStack_cons.mp (hstack ▸ h)
    exact ⟨overStack_cons.mpr ⟨⟨hf.1.cons hf.2 hn, trivial⟩, hfs⟩, nofun⟩
  case h_7 hstack =>
    obtain ⟨-, hfs⟩ := overStack_cons.mp (hstack ▸ h)
    exact ⟨overStack_cons.mpr ⟨hn, hfs⟩, nofun⟩
  case h_8 hstack =>
    obtain ⟨hk, hinner⟩ := overStack_cons.mp (hstack ▸ h)
    obtain ⟨hf, hfs⟩ := overStack_cons.mp hinner
    exact ⟨overStack_cons.mpr ⟨hf.cons (Node.over_pair hk hn), hfs⟩, nofun⟩
  case h_9 hstack =>
    obtain ⟨-, hfs⟩ := overStack_cons.mp (hstack ▸ h)
    exact ⟨hfs, nofun⟩
  case h_10 hstack =>
    obtain ⟨hf, hfs⟩ := overStack_cons.mp (hstack ▸ h)
    exact ⟨overStack_cons.mpr ⟨⟨hf.1.cons hn (Node.over_empty {}), trivial⟩, hfs⟩, nofun⟩

theorem over_closeFrame (h : OverStack P b.stack) (hn : n.Over P) : (b.closeFrame n).Over P :=
  over_accept (fun f hf ↦ h f (List.mem_of_mem_tail hf)) hn

/-! ### Between members -/

theorem over_afterBlockEntry (h : OverStack P b.stack) (hentries : Node.OverEntries P entries)
    (hb : b.afterBlockEntry p entries t = .ok b') : b'.Over P := by
  unfold afterBlockEntry at hb
  split at hb
  · cases hb
    exact ⟨h, nofun⟩
  · cases hb
    exact over_closeFrame h (hentries.node p)
  · cases hb

theorem over_afterFlowEntry (h : OverStack P b.stack) (hentries : Node.OverEntries P entries)
    (hb : b.afterFlowEntry p entries t = .ok b') : b'.Over P := by
  unfold afterFlowEntry at hb
  split at hb
  · cases hb
    exact ⟨h, nofun⟩
  · cases hb
    exact over_closeFrame h (hentries.node p)
  · cases hb

theorem over_afterFlowItem (h : OverStack P b.stack) (hitems : Node.OverItems P items)
    (hb : b.afterFlowItem p items t = .ok b') : b'.Over P := by
  unfold afterFlowItem at hb
  split at hb
  · cases hb
    exact ⟨h, nofun⟩
  · cases hb
    exact over_closeFrame h (hitems.node p)
  · cases hb

theorem over_inBlockMapping (h : OverStack P b.stack) (hentries : Node.OverEntries P entries)
    {key : Option Node} (hkey : Node.OverKey P key) {fs : List Frame} (hfs : OverStack P fs)
    (hb : b.inBlockMapping p entries key fs t = .ok b') : b'.Over P := by
  unfold inBlockMapping at hb
  split at hb
  · exact over_afterBlockEntry h hentries hb
  · cases hb
    exact ⟨h, nofun⟩
  · have hcompleted := hentries.cons hkey (Node.over_empty {})
    refine over_afterBlockEntry ?_ hcompleted hb
    exact overStack_cons.mpr ⟨⟨hcompleted, trivial⟩, hfs⟩

variable {q : Properties} {key : Option Node} {k : Node} {fs : List Frame}

theorem over_separate_blockSequence (h : OverStack P b.stack)
    (hstack : b.stack = .blockSequence p items :: fs) (hb : b.separate t = .ok b') :
    b'.Over P := by
  obtain ⟨hitems, -⟩ := overStack_cons.mp (hstack ▸ h)
  simp only [separate, hstack] at hb
  split at hb
  · cases hb
    exact ⟨hstack ▸ h, nofun⟩
  · cases hb
    exact over_closeFrame h (hitems.node p)
  · cases hb

/-- The end of a list without indentation is one of the value or the key of an entry. -/
theorem over_separate_indentless (h : OverStack P b.stack)
    (hstack : b.stack = .indentlessSequence p items :: .blockMapping q entries key :: fs)
    (hb : b.separate t = .ok b') : b'.Over P := by
  obtain ⟨hitems, hinner⟩ := overStack_cons.mp (hstack ▸ h)
  obtain ⟨⟨hentries, hkey⟩, hfs⟩ := overStack_cons.mp hinner
  have hlist : Node.OverKey P (some (.sequence p items.reverse)) := hitems.node p
  have hnone : Node.OverKey P none := trivial
  simp only [separate, hstack] at hb
  split_ifs at hb
  · cases hb
    exact ⟨hstack ▸ h, nofun⟩
  · cases key with
    | none =>
      have hframe : OverStack P
          (.blockMapping q entries (some (.sequence p items.reverse)) :: fs) :=
        overStack_cons.mpr ⟨⟨hentries, hlist⟩, hfs⟩
      exact over_inBlockMapping hframe hentries hlist hfs hb
    | some k =>
      have hcompleted := hentries.cons hkey hlist
      have hframe : OverStack P
          (.blockMapping q ((k, .sequence p items.reverse) :: entries) none :: fs) :=
        overStack_cons.mpr ⟨⟨hcompleted, hnone⟩, hfs⟩
      exact over_inBlockMapping hframe hcompleted hnone hfs hb

theorem over_separate_flowPair (h : OverStack P b.stack)
    (hstack : b.stack = .flowPair (some k) :: .flowSequence p items :: fs)
    (hb : b.separate t = .ok b') : b'.Over P := by
  obtain ⟨hk, hinner⟩ := overStack_cons.mp (hstack ▸ h)
  obtain ⟨hitems, hfs⟩ := overStack_cons.mp hinner
  simp only [separate, hstack] at hb
  split_ifs at hb
  · cases hb
    exact ⟨hstack ▸ h, nofun⟩
  · have hcompleted := hitems.cons (Node.over_pair hk (Node.over_empty {}))
    have hframe : OverStack P (.flowSequence p (.mapping {} [(k, .empty {})] :: items) :: fs) :=
      overStack_cons.mpr ⟨hcompleted, hfs⟩
    exact over_afterFlowItem hframe hcompleted hb

theorem over_separate_flowMapping {bare : Bool} (h : OverStack P b.stack)
    (hstack : b.stack = .flowMapping p entries (some k) bare :: fs)
    (hb : b.separate t = .ok b') : b'.Over P := by
  obtain ⟨⟨hentries, hkey⟩, hfs⟩ := overStack_cons.mp (hstack ▸ h)
  simp only [separate, hstack] at hb
  split_ifs at hb
  · cases hb
    exact ⟨hstack ▸ h, nofun⟩
  · have hcompleted := hentries.cons hkey (Node.over_empty {})
    have hframe : OverStack P (.flowMapping p ((k, .empty {}) :: entries) none false :: fs) :=
      overStack_cons.mpr ⟨⟨hcompleted, trivial⟩, hfs⟩
    exact over_afterFlowEntry hframe hcompleted hb

theorem over_separate (h : OverStack P b.stack) (hb : b.separate t = .ok b') : b'.Over P := by
  have hseparate := hb
  unfold separate at hb
  split at hb
  case h_1 | h_4 | h_8 => cases hb
  case h_2 hstack => exact over_separate_blockSequence h hstack hseparate
  case h_3 hstack => exact over_separate_indentless h hstack hseparate
  case h_5 hstack =>
    obtain ⟨hf, hfs⟩ := overStack_cons.mp (hstack ▸ h)
    exact over_inBlockMapping h hf.1 hf.2 hfs hb
  case h_6 hstack =>
    obtain ⟨hitems, -⟩ := overStack_cons.mp (hstack ▸ h)
    exact over_afterFlowItem h hitems hb
  case h_7 hstack => exact over_separate_flowPair h hstack hseparate
  case h_9 hstack =>
    obtain ⟨hf, -⟩ := overStack_cons.mp (hstack ▸ h)
    exact over_afterFlowEntry h hf.1 hb
  case h_10 hstack => exact over_separate_flowMapping h hstack hseparate

/-! ### Where a node may begin -/

/-- After a token all scalars that have been taken belong to an alphabet. -/
def OverProgress (P : Char → Prop) : Progress → Prop
  | .taken b => b.Over P
  | .complete n => n.Over P

variable {s : Slot} {x : Progress}

theorem over_acceptEmpty (h : OverStack P b.stack) (hx : b.acceptEmpty p t = .ok x) :
    OverProgress P x := by
  have haccept : (b.accept (.empty p)).Over P := over_accept h (Node.over_empty p)
  unfold acceptEmpty at hx
  dsimp only at hx
  split at hx
  · rename_i n hdone
    cases hx
    exact haccept.done n hdone
  · obtain ⟨b', hb, rfl⟩ := Success.map_eq_ok.mp hx
    exact over_separate haccept.stack hb

theorem over_begin (h : OverStack P b.stack) (ht : t.Over P) (hx : b.begin s p t = .ok x) :
    OverProgress P x := by
  have hnone : Node.OverItems P [] := List.forall_mem_nil _
  have hnoEntries : Node.OverEntries P [] := List.forall_mem_nil _
  -- Only a scalar brings a text along; every other token opens a collection or is a fault.
  unfold begin at hx
  split at hx
  · cases hx
    exact over_accept h (.scalar _ _ ht)
  · cases hx
    exact ⟨overStack_cons.mpr ⟨hnone, h⟩, nofun⟩
  · cases hx
    exact ⟨overStack_cons.mpr ⟨⟨hnoEntries, trivial⟩, h⟩, nofun⟩
  · split_ifs at hx
    cases hx
    exact ⟨overStack_cons.mpr ⟨hnone, h⟩, nofun⟩
  · split_ifs at hx
    cases hx
    exact ⟨overStack_cons.mpr ⟨⟨hnoEntries, trivial⟩, h⟩, nofun⟩
  · split_ifs at hx
    · cases hx
      exact ⟨overStack_cons.mpr ⟨hnone, h⟩, nofun⟩
    · exact over_acceptEmpty h hx

theorem over_property (h : OverStack P b.stack) (ht : t.Over P) (hx : b.property s p t = .ok x) :
    OverProgress P x := by
  unfold property at hx
  split at hx
  · split_ifs at hx
    · cases hx
      exact ⟨h, nofun⟩
    · exact over_begin h ht hx
  · split_ifs at hx
    · split at hx
      · cases hx
        exact ⟨h, nofun⟩
      · cases hx
    · exact over_begin h ht hx
  · exact over_begin h ht hx

theorem over_node (h : OverStack P b.stack) (ht : t.Over P) (hx : b.node s t = .ok x) :
    OverProgress P x := by
  unfold node at hx
  split at hx
  · split at hx
    · cases hx
      exact over_accept h (.alias _)
    · cases hx
  · exact over_property h ht hx

theorem over_start (h : OverStack P b.stack) (ht : t.Over P) (hx : b.start s t = .ok x) :
    OverProgress P x := by
  unfold start at hx
  split_ifs at hx with hempty hkey
  · cases hx
    exact over_accept h (Node.over_empty {})
  · exact over_acceptEmpty h hx
  split at hx
  · rename_i hstack
    obtain ⟨hf, -⟩ := overStack_cons.mp (hstack ▸ h)
    cases hx
    exact over_closeFrame h (hf.node _)
  · cases hx
    exact ⟨overStack_cons.mpr ⟨trivial, h⟩, nofun⟩
  · rename_i hstack
    obtain ⟨hf, -⟩ := overStack_cons.mp (hstack ▸ h)
    cases hx
    exact over_closeFrame h (hf.1.node _)
  · cases hx
    exact ⟨h, nofun⟩
  · rename_i hstack _ _
    obtain ⟨hf, hfs⟩ := overStack_cons.mp (hstack ▸ h)
    refine over_node ?_ ht hx
    exact overStack_cons.mpr ⟨hf, hfs⟩
  · exact over_node h ht hx

theorem over_feed (h : b.Over P) (ht : t.Over P) (hx : b.feed t = .ok x) : OverProgress P x := by
  unfold feed at hx
  split at hx
  · exact over_start h.stack ht hx
  · exact over_property h.stack ht hx
  · obtain ⟨b', hb, rfl⟩ := Success.map_eq_ok.mp hx
    exact over_separate h.stack hb
  · rename_i n hdone
    cases hx
    exact h.done n hdone

theorem over_finish (h : b.Over P) (hn : b.finish = .ok n) : n.Over P := by
  unfold finish at hn
  split at hn
  · rename_i hdone
    cases hn
    exact h.done _ hdone
  · cases hn
    exact Node.over_empty {}
  · cases hn
    exact Node.over_empty _
  · cases hn

theorem over_read (h : b.Over P) {tokens : List Token} (htokens : ∀ t ∈ tokens, t.Over P)
    {r : Node × List Token} (hr : b.read tokens = .ok r) : r.1.Over P := by
  fun_induction read b tokens with
  | case1 b =>
    obtain ⟨n, hn, rfl⟩ := Success.map_eq_ok.mp hr
    exact over_finish h hn
  | case2 b t ts b' hfeed ih =>
    obtain ⟨ht, hts⟩ := List.forall_mem_cons.mp htokens
    exact ih (over_feed h ht hfeed) hts hr
  | case3 b t ts n hfeed =>
    cases hr
    exact over_feed h (htokens t List.mem_cons_self) hfeed
  | case4 b t ts e hfeed => cases hr

end Builder

namespace Node

theorem over_ofTokens {d : Directives} {afterMark : Bool} {tokens : List Token}
    (htokens : ∀ t ∈ tokens, t.Over P) {r : Node × List Token}
    (hr : ofTokens d afterMark tokens = .ok r) : r.1.Over P := by
  have hstart : Builder.Over P { directives := d, phase := .slot (.root afterMark) } :=
    ⟨List.forall_mem_nil (Frame.Over P), nofun⟩
  exact Builder.over_read hstart htokens hr

end Node

end ShutdownLint.Yaml
