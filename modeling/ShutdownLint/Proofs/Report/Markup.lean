import Mathlib.Tactic.SplitIfs
import ShutdownLint.Report.Junit
/-!
Markup in pieces: texts, tags that open elements, and tags that open none.

`read?` goes through a text character by character and tells which elements are opened in it and
with which attributes. It refuses a value that is not escaped. So what has been put together from
pieces is read as the same tags exactly if all values in them are escaped: otherwise a value ends
too early, or it is refused.
-/

set_option autoImplicit false

namespace ShutdownLint.Report.Markup

/-! ### Tags -/

/-- How the special characters are written in a value. -/
def entities : List String :=
  ["&amp;", "&quot;", "&lt;", "&gt;"]

/-- There is no quote and no angle bracket in a text, and each ampersand begins an entity. -/
structure IsEscaped (cs : List Char) : Prop where
  plain : ∀ c ∈ cs, c ∉ ['\x22', '<', '>']
  entity : ∀ rest, '&' :: rest <:+ cs → ∃ e ∈ entities, e.toList <+: '&' :: rest

theorem isEscaped_nil : IsEscaped [] where
  plain := List.forall_mem_nil _
  entity _ h := nomatch List.suffix_nil.mp h

theorem isEscaped_cons {c : Char} {cs : List Char} : IsEscaped (c :: cs) ↔
    c ∉ ['\x22', '<', '>'] ∧ (c = '&' → ∃ e ∈ entities, e.toList <+: c :: cs) ∧ IsEscaped cs := by
  constructor
  · intro h
    refine ⟨h.plain c List.mem_cons_self, ?_, fun d hd ↦ h.plain d (List.mem_cons_of_mem c hd),
      fun rest hrest ↦ h.entity rest (hrest.trans (List.suffix_cons c cs))⟩
    rintro rfl
    exact h.entity cs (List.suffix_refl _)
  · rintro ⟨hc, hamp, hcs⟩
    refine ⟨List.forall_mem_cons.mpr ⟨hc, hcs.plain⟩, fun rest hrest ↦ ?_⟩
    rcases List.suffix_cons_iff.mp hrest with heq | hrest
    · obtain ⟨rfl, rfl⟩ := List.cons.inj heq
      exact hamp rfl
    · exact hcs.entity rest hrest

instance decidableIsEscaped : (cs : List Char) → Decidable (IsEscaped cs)
  | [] => .isTrue isEscaped_nil
  | _ :: cs =>
    have := decidableIsEscaped cs
    decidable_of_iff' _ isEscaped_cons

/-- Names of elements and attributes are made of letters. -/
def IsName (s : String) : Prop :=
  s.toList ≠ [] ∧ s.toList.all Char.isAlpha = true

instance : DecidablePred IsName := fun s ↦
  inferInstanceAs (Decidable (s.toList ≠ [] ∧ s.toList.all Char.isAlpha = true))

/-- A tag that opens an element. Its attributes have their values as they are written. -/
structure Tag where
  name : String
  attributes : List (String × String)
  deriving DecidableEq, Inhabited, Repr

/-- Attributes as they are written. -/
def printAttributes (as : List (String × String)) : String :=
  String.join (as.map fun a ↦ Junit.attr a.1 a.2)

namespace Tag

def IsEscaped (t : Tag) : Prop :=
  ∀ a ∈ t.attributes, Markup.IsEscaped a.2.toList

instance : DecidablePred IsEscaped := fun t ↦
  inferInstanceAs (Decidable (∀ a ∈ t.attributes, Markup.IsEscaped a.2.toList))

/-- The element and its attributes have names. -/
def IsNamed (t : Tag) : Prop :=
  ∀ s ∈ t.name :: t.attributes.map Prod.fst, IsName s

instance : DecidablePred IsNamed := fun t ↦
  inferInstanceAs (Decidable (∀ s ∈ t.name :: t.attributes.map Prod.fst, IsName s))

/-- The tag as it is written, up to its end. -/
def print (t : Tag) : String :=
  "<" ++ t.name ++ printAttributes t.attributes

end Tag

/-! ### Pieces -/

inductive Piece where
  | text (s : String)
  /-- A tag that ends an element, or a declaration. -/
  | aside (s : String)
  | opening (t : Tag)
  /-- An element without content. -/
  | empty (t : Tag)
  deriving DecidableEq, Inhabited, Repr

namespace Piece

def print : Piece → String
  | text s => s
  | aside s => "<" ++ s ++ ">"
  | opening t => t.print ++ ">"
  | empty t => t.print ++ "/>"

def tag? : Piece → Option Tag
  | text _ => none
  | aside _ => none
  | opening t => some t
  | empty t => some t

/-- The piece is what it says: a text opens no tags, a tag that opens nothing is recognized by its
first character, and tags have names. -/
def IsProper : Piece → Prop
  | text s => '<' ∉ s.toList
  | aside s => s.toList.head? ∈ [some '/', some '?'] ∧ '>' ∉ s.toList
  | opening t => t.IsNamed
  | empty t => t.IsNamed

instance : DecidablePred IsProper
  | text s => inferInstanceAs (Decidable ('<' ∉ s.toList))
  | aside s => inferInstanceAs (Decidable (s.toList.head? ∈ [some '/', some '?'] ∧ '>' ∉ s.toList))
  | opening t => inferInstanceAs (Decidable t.IsNamed)
  | empty t => inferInstanceAs (Decidable t.IsNamed)

end Piece

/-- The tags that open elements. -/
def tags (ps : List Piece) : List Tag :=
  ps.filterMap Piece.tag?

def print (ps : List Piece) : String :=
  String.join (ps.map Piece.print)

/-! ### Reading -/

/-- How far a text has been read. -/
inductive State where
  /-- Between tags. -/
  | outside
  /-- Behind the bracket that begins a tag. -/
  | begun
  /-- In a tag that opens no element. -/
  | passing
  | inName (name : List Char)
  /-- Behind the name of an element or the value of an attribute. -/
  | inTag (t : Tag)
  | inKey (t : Tag) (key : List Char)
  /-- Where the quote in front of a value has to be. -/
  | atQuote (t : Tag) (key : List Char)
  | inValue (t : Tag) (key value : List Char)
  /-- Behind the slash at the end of a tag. -/
  | atEnd (t : Tag)

namespace State

/-- Reads a character behind a name or a value: it begins an attribute or ends the tag. -/
def behind (t : Tag) (c : Char) : Option (State × Option Tag) :=
  if c = ' ' then some (inKey t [], none)
  else if c = '/' then some (atEnd t, none)
  else if c = '>' then some (outside, some t)
  else none

/-- Reads a character: how far this leads, and the tag that it completes. -/
def step : State → Char → Option (State × Option Tag)
  | outside, c => some (if c = '<' then begun else outside, none)
  | begun, c =>
    if c ∈ ['/', '?'] then some (passing, none)
    else if c.isAlpha then some (inName [c], none)
    else none
  | passing, c => some (if c = '>' then outside else passing, none)
  | inName name, c =>
    if c.isAlpha then some (inName (name ++ [c]), none) else behind ⟨.ofList name, []⟩ c
  | inTag t, c => behind t c
  | inKey t key, c =>
    if c.isAlpha then some (inKey t (key ++ [c]), none)
    else if c = '=' then some (atQuote t key, none)
    else none
  | atQuote t key, c => if c = '\x22' then some (inValue t key [], none) else none
  | inValue t key value, c =>
    if c ≠ '\x22' then some (inValue t key (value ++ [c]), none)
    else if Markup.IsEscaped value then
      some (inTag ⟨t.name, t.attributes ++ [(.ofList key, .ofList value)]⟩, none)
    else none
  | atEnd t, c => if c = '>' then some (outside, some t) else none

/-- The values that have been read are escaped. -/
def IsEscaped : State → Prop
  | inTag t => t.IsEscaped
  | inKey t _ => t.IsEscaped
  | atQuote t _ => t.IsEscaped
  | inValue t _ _ => t.IsEscaped
  | atEnd t => t.IsEscaped
  | _ => True

end State

/-- The tags in the rest of a text, which has to end between tags. -/
def readFrom : State → List Char → Option (List Tag)
  | .outside, [] => some []
  | _, [] => none
  | s, c :: cs =>
    match s.step c with
    | none => none
    | some (next, found) => (readFrom next cs).map (found.toList ++ ·)

/-- The tags that open elements in a text. -/
def read? (text : String) : Option (List Tag) :=
  readFrom .outside text.toList

variable {s next : State} {c : Char} {cs : List Char} {t : Tag} {ts : List Tag}

theorem readFrom_cons (s : State) (c : Char) (cs : List Char) : readFrom s (c :: cs) =
    (s.step c).bind fun (next, found) ↦ (readFrom next cs).map (found.toList ++ ·) := by
  rw [readFrom]
  cases s.step c <;> rfl

theorem readFrom_of_step (next : State) (h : s.step c = some (next, none)) :
    readFrom s (c :: cs) = readFrom next cs := by
  rw [readFrom_cons, h]
  exact Option.map_id'

theorem readFrom_of_step_tag (t : Tag) (h : s.step c = some (next, some t)) :
    readFrom s (c :: cs) = (readFrom next cs).map (t :: ·) := by
  rw [readFrom_cons, h]
  rfl

/-! ### Values that have been read -/

theorem isEscaped_of_behind {found : Option Tag} (h : State.behind t c = some (next, found))
    (ht : t.IsEscaped) : next.IsEscaped ∧ ∀ u ∈ found, u.IsEscaped := by
  unfold State.behind at h
  split_ifs at h <;> cases h
  · exact ⟨ht, nofun⟩
  · exact ⟨ht, nofun⟩
  · exact ⟨trivial, fun u hu ↦ Option.some.inj hu ▸ ht⟩

/-- Reading a character keeps the values escaped. They are looked at when they end. -/
theorem isEscaped_of_step {found : Option Tag} (h : s.step c = some (next, found))
    (hs : s.IsEscaped) : next.IsEscaped ∧ ∀ u ∈ found, u.IsEscaped := by
  cases s with
  | outside =>
    cases h
    exact ⟨by split <;> trivial, nofun⟩
  | begun =>
    rw [State.step] at h
    split_ifs at h <;> cases h <;> exact ⟨trivial, nofun⟩
  | passing =>
    cases h
    exact ⟨by split <;> trivial, nofun⟩
  | inName name =>
    rw [State.step] at h
    split_ifs at h
    · cases h
      exact ⟨trivial, nofun⟩
    · exact isEscaped_of_behind h nofun
  | inTag t => exact isEscaped_of_behind h hs
  | inKey t key =>
    rw [State.step] at h
    split_ifs at h <;> cases h <;> exact ⟨hs, nofun⟩
  | atQuote t key =>
    rw [State.step] at h
    split_ifs at h
    cases h
    exact ⟨hs, nofun⟩
  | inValue t key value =>
    rw [State.step] at h
    split_ifs at h with hquote hvalue
    · cases h
      exact ⟨hs, nofun⟩
    · cases h
      refine ⟨List.forall_mem_append.mpr ⟨hs, List.forall_mem_singleton.mpr ?_⟩, nofun⟩
      rwa [String.toList_ofList]
  | atEnd t =>
    rw [State.step] at h
    split_ifs at h
    cases h
    exact ⟨trivial, fun u hu ↦ Option.some.inj hu ▸ hs⟩

/-- All values that are read are escaped. By induction on the text, from any state. -/
theorem isEscaped_of_readFrom (h : readFrom s cs = some ts) (hs : s.IsEscaped) :
    ∀ t ∈ ts, t.IsEscaped := by
  induction cs generalizing s ts with
  | nil =>
    cases s <;> cases h
    exact nofun
  | cons c cs ih =>
    rw [readFrom_cons] at h
    obtain ⟨⟨next, found⟩, hstep, hrest⟩ := Option.bind_eq_some_iff.mp h
    obtain ⟨more, hmore, rfl⟩ := Option.map_eq_some_iff.mp hrest
    obtain ⟨hnext, hfound⟩ := isEscaped_of_step hstep hs
    intro t ht
    rcases List.mem_append.mp ht with ht | ht
    · exact hfound t (Option.mem_toList.mp ht)
    · exact ih hmore hnext t ht

/-! ### Pieces that are read -/

/-- Characters that are put behind those that have been read in the same place are read as a whole.
By induction on them, from any text that has been read. -/
theorem readFrom_run {f : List Char → State} {text : List Char}
    (h : ∀ c ∈ text, ∀ done, (f done).step c = some (f (done ++ [c]), none))
    (done cs : List Char) : readFrom (f done) (text ++ cs) = readFrom (f (done ++ text)) cs := by
  induction text generalizing done with
  | nil => rw [List.append_nil, List.nil_append]
  | cons c text ih =>
    obtain ⟨hc, htext⟩ := List.forall_mem_cons.mp h
    rw [List.cons_append, readFrom_of_step _ (hc done), ih htext, List.append_assoc,
      List.singleton_append]

theorem readFrom_text {text : List Char} (h : '<' ∉ text) (cs : List Char) :
    readFrom .outside (text ++ cs) = readFrom .outside cs := by
  have hstep (c : Char) (hc : c ∈ text) : State.outside.step c = some (.outside, none) := by
    simp [State.step, ne_of_mem_of_not_mem hc h]
  exact readFrom_run (f := fun _ ↦ .outside) (fun c hc _ ↦ hstep c hc) [] cs

theorem readFrom_passing {text : List Char} (h : '>' ∉ text) (cs : List Char) :
    readFrom .passing (text ++ '>' :: cs) = readFrom .outside cs := by
  have hstep (c : Char) (hc : c ∈ text) : State.passing.step c = some (.passing, none) := by
    simp [State.step, ne_of_mem_of_not_mem hc h]
  rw [readFrom_run (f := fun _ ↦ .passing) (fun c hc _ ↦ hstep c hc) [],
    readFrom_of_step .outside rfl]

theorem readFrom_inName {word : List Char} (h : ∀ c ∈ word, c.isAlpha = true)
    (name cs : List Char) :
    readFrom (.inName name) (word ++ cs) = readFrom (.inName (name ++ word)) cs :=
  readFrom_run (fun c hc done ↦ by simp [State.step, h c hc]) name cs

theorem readFrom_inKey {word : List Char} (h : ∀ c ∈ word, c.isAlpha = true)
    (t : Tag) (key cs : List Char) :
    readFrom (.inKey t key) (word ++ cs) = readFrom (.inKey t (key ++ word)) cs :=
  readFrom_run (fun c hc done ↦ by simp [State.step, h c hc]) key cs

theorem readFrom_inValue {text : List Char} (h : '\x22' ∉ text) (t : Tag)
    (key value cs : List Char) : readFrom (.inValue t key value) (text ++ cs) =
      readFrom (.inValue t key (value ++ text)) cs :=
  readFrom_run (fun c hc done ↦ by simp [State.step, ne_of_mem_of_not_mem hc h]) value cs

theorem quote_notMem_of_isEscaped (h : IsEscaped cs) : '\x22' ∉ cs :=
  fun hmem ↦ h.plain _ hmem (by decide)

/-- An escaped value ends at the quote that has been put behind it. -/
theorem readFrom_attr {key value : String} (hkey : IsName key) (hvalue : IsEscaped value.toList)
    (t : Tag) (cs : List Char) :
    readFrom (.inTag t) ((Junit.attr key value).toList ++ cs) =
      readFrom (.inTag ⟨t.name, t.attributes ++ [(key, value)]⟩) cs := by
  have hattr : (Junit.attr key value).toList ++ cs =
      ' ' :: (key.toList ++ '=' :: '\x22' :: (value.toList ++ '\x22' :: cs)) := by
    simp [Junit.attr]
  have hend : (State.inValue t key.toList value.toList).step '\x22' =
      some (.inTag ⟨t.name, t.attributes ++ [(key, value)]⟩, none) := by
    simp [State.step, hvalue]
  rw [hattr, readFrom_of_step (.inKey t []) rfl, readFrom_inKey (List.all_eq_true.mp hkey.2),
    List.nil_append, readFrom_of_step (.atQuote t key.toList) rfl,
    readFrom_of_step (.inValue t key.toList []) rfl,
    readFrom_inValue (quote_notMem_of_isEscaped hvalue), List.nil_append, readFrom_of_step _ hend]

theorem toList_printAttributes_cons (a : String × String) (as : List (String × String)) :
    (printAttributes (a :: as)).toList =
      (Junit.attr a.1 a.2).toList ++ (printAttributes as).toList := by
  rw [printAttributes, List.map_cons, String.join_cons, String.toList_append]
  rfl

theorem readFrom_attrs {as : List (String × String)} (hkeys : ∀ key ∈ as.map Prod.fst, IsName key)
    (hvalues : ∀ a ∈ as, IsEscaped a.2.toList) (t : Tag) (cs : List Char) :
    readFrom (.inTag t) ((printAttributes as).toList ++ cs) =
      readFrom (.inTag ⟨t.name, t.attributes ++ as⟩) cs := by
  induction as generalizing t with
  | nil =>
    rw [List.append_nil]
    rfl
  | cons a as ih =>
    obtain ⟨hkey, hkeys⟩ := List.forall_mem_cons.mp hkeys
    obtain ⟨hvalue, hvalues⟩ := List.forall_mem_cons.mp hvalues
    rw [toList_printAttributes_cons, List.append_assoc, readFrom_attr hkey hvalue,
      ih hkeys hvalues, List.append_assoc, List.singleton_append]

theorem not_isAlpha_of_mem {c : Char} (h : c ∈ [' ', '>', '/', '?']) : ¬c.isAlpha = true := by
  simp only [List.mem_cons, List.not_mem_nil, or_false] at h
  rcases h with rfl | rfl | rfl | rfl <;> decide

/-- A name ends in front of a character that begins an attribute or ends the tag. -/
theorem readFrom_inName_cons {c : Char} (h : c ∈ [' ', '>', '/']) (name cs : List Char) :
    readFrom (.inName name) (c :: cs) = readFrom (.inTag ⟨.ofList name, []⟩) (c :: cs) := by
  have hstep : (State.inName name).step c = (State.inTag ⟨.ofList name, []⟩).step c :=
    if_neg (not_isAlpha_of_mem (List.mem_append_left ['?'] h))
  rw [readFrom_cons, readFrom_cons, hstep]

/-- Behind a name there are attributes or the end of the tag. -/
theorem exists_cons_attrs (as : List (String × String)) {c : Char} (hc : c ∈ ['>', '/'])
    (cs : List Char) : ∃ d ds, d ∈ [' ', '>', '/'] ∧
      (printAttributes as).toList ++ c :: cs = d :: ds := by
  cases as with
  | nil => exact ⟨c, cs, List.mem_cons_of_mem ' ' hc, rfl⟩
  | cons a as =>
    obtain ⟨rest, hattr⟩ : ∃ rest, (Junit.attr a.1 a.2).toList = ' ' :: rest := by
      simp [Junit.attr]
    refine ⟨' ', rest ++ ((printAttributes as).toList ++ c :: cs), List.mem_cons_self, ?_⟩
    rw [toList_printAttributes_cons, hattr, List.append_assoc, List.cons_append]

/-- A tag is read up to its end. -/
theorem readFrom_tag (hnamed : t.IsNamed) (hescaped : t.IsEscaped) {c : Char}
    (hc : c ∈ ['>', '/']) (cs : List Char) :
    readFrom .outside (t.print.toList ++ c :: cs) = readFrom (.inTag t) (c :: cs) := by
  obtain ⟨⟨hne, hname⟩, hkeys⟩ := List.forall_mem_cons.mp hnamed
  obtain ⟨first, rest, htext⟩ := List.exists_cons_of_ne_nil hne
  obtain ⟨hfirst, hrest⟩ := List.forall_mem_cons.mp (htext ▸ List.all_eq_true.mp hname)
  obtain ⟨d, ds, hd, hattrs⟩ := exists_cons_attrs t.attributes hc cs
  have hprint : t.print.toList ++ c :: cs = '<' :: first :: (rest ++ d :: ds) := by
    rw [← hattrs, Tag.print, String.toList_append, String.toList_append, htext]
    simp
  have hbegin : State.begun.step first = some (.inName [first], none) := by
    have hopens : first ∉ ['/', '?'] := fun hmem ↦
      not_isAlpha_of_mem (List.mem_append_right [' ', '>'] hmem) hfirst
    rw [State.step, if_neg hopens, if_pos hfirst]
  have hwhole : String.ofList ([first] ++ rest) = t.name := by
    rw [List.singleton_append, ← htext, String.ofList_toList]
  rw [hprint, readFrom_of_step .begun rfl, readFrom_of_step _ hbegin,
    readFrom_inName hrest, readFrom_inName_cons hd, hwhole, ← hattrs,
    readFrom_attrs hkeys hescaped, List.nil_append]

/-- A piece is read as the tag that it is. -/
theorem readFrom_piece {p : Piece} (hproper : p.IsProper) (hescaped : ∀ t ∈ p.tag?, t.IsEscaped)
    (cs : List Char) : readFrom .outside (p.print.toList ++ cs) =
      (readFrom .outside cs).map (p.tag?.toList ++ ·) := by
  cases p with
  | text s =>
    rw [Piece.print, readFrom_text hproper]
    exact Option.map_id'.symm
  | aside s =>
    obtain ⟨hfirst, hrest⟩ := hproper
    obtain ⟨c, rest, htext, hc⟩ : ∃ c rest, s.toList = c :: rest ∧ c ∈ ['/', '?'] := by
      cases htext : s.toList with
      | nil => simp [htext] at hfirst
      | cons c rest => exact ⟨c, rest, rfl, by simpa [htext] using hfirst⟩
    have hrest : '>' ∉ rest := fun h ↦ hrest (htext ▸ List.mem_cons_of_mem c h)
    have hprint : (Piece.aside s).print.toList ++ cs = '<' :: c :: (rest ++ '>' :: cs) := by
      simp [Piece.print, htext]
    have hbegin : State.begun.step c = some (.passing, none) := if_pos hc
    rw [hprint, readFrom_of_step .begun rfl, readFrom_of_step _ hbegin,
      readFrom_passing hrest]
    exact Option.map_id'.symm
  | opening t =>
    have hprint : (Piece.opening t).print.toList ++ cs = t.print.toList ++ '>' :: cs := by
      simp [Piece.print]
    rw [hprint, readFrom_tag hproper (hescaped t rfl) (by decide), readFrom_of_step_tag t rfl]
    rfl
  | empty t =>
    have hprint : (Piece.empty t).print.toList ++ cs = t.print.toList ++ '/' :: '>' :: cs := by
      simp [Piece.print]
    rw [hprint, readFrom_tag hproper (hescaped t rfl) (by decide),
      readFrom_of_step (.atEnd t) rfl, readFrom_of_step_tag t rfl]
    rfl

variable {ps : List Piece}

theorem readFrom_print (hproper : ∀ p ∈ ps, p.IsProper) (hescaped : ∀ t ∈ tags ps, t.IsEscaped) :
    readFrom .outside (print ps).toList = some (tags ps) := by
  induction ps with
  | nil => rfl
  | cons p ps ih =>
    obtain ⟨hp, hps⟩ := List.forall_mem_cons.mp hproper
    have htags : tags (p :: ps) = p.tag?.toList ++ tags ps := by
      cases htag : p.tag? <;> simp [tags, htag]
    rw [htags, List.forall_mem_append] at hescaped
    have hrest : (print (p :: ps)).toList = p.print.toList ++ (print ps).toList := by
      simp [print, String.join_cons]
    rw [hrest, readFrom_piece hp fun t ht ↦ hescaped.1 t (Option.mem_toList.mpr ht),
      ih hps hescaped.2, htags]
    rfl

/-- What has been put together is read as the same tags exactly if it is escaped. -/
theorem read?_print_iff (hproper : ∀ p ∈ ps, p.IsProper) :
    read? (print ps) = some (tags ps) ↔ ∀ t ∈ tags ps, t.IsEscaped :=
  ⟨fun h ↦ isEscaped_of_readFrom h trivial, readFrom_print hproper⟩

end ShutdownLint.Report.Markup
