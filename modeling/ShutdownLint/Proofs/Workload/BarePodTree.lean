import ShutdownLint.Proofs.Workload.BarePodText
/-!
The tokens of a pod's text and the tree that they describe.

While the containers are read the columns of the open blocks do not change, and neither do the open
collections below their list, so both are inductions over the names.
-/

set_option autoImplicit false

namespace ShutdownLint.BarePod

open Yaml

/-! ### Tokens -/

/-- The tokens of a key and of the colon behind it. -/
def keyTokens (key : String) : List Token :=
  [.key, .scalar key true, .value]

def headTokens : List Token :=
  .blockMappingStart :: (keyTokens "apiVersion" ++ .scalar "v1" true ::
    (keyTokens "kind" ++ .scalar "Pod" true :: (keyTokens "spec" ++ [.blockMappingStart])))

def graceTokens (grace : Option UInt64) : List Token :=
  grace.elim [] fun g ↦
    keyTokens "terminationGracePeriodSeconds" ++ [.scalar (Decimal.text g.toNat) true]

def containerTokens (n : PlainName) : List Token :=
  .blockEntry :: .blockMappingStart :: (keyTokens "name" ++ .scalar n.text true ::
    (keyTokens "image" ++ [.scalar "x:1" true, .blockEnd]))

def containersTokens (names : List PlainName) : List Token :=
  keyTokens "containers" ++
    if names.isEmpty then [.flowSequenceStart, .flowSequenceEnd]
    else .blockSequenceStart :: (names.flatMap containerTokens ++ [.blockEnd])

/-- The tokens with which a text ends, newest first. -/
def closing (s : List Nat × List Token) : List Token :=
  List.replicate s.1.length .blockEnd ++ s.2

theorem advance_containers (names : List PlainName) (ts : List Token) :
    closing ((names.flatMap PlainName.lines).foldl Line.advance ([6, 4, 2, 0], ts)) =
      .blockEnd :: .blockEnd :: .blockEnd ::
        ((names.flatMap containerTokens).reverse ++ .blockEnd :: ts) := by
  induction names generalizing ts with
  | nil => rfl
  | cons n names ih =>
    have hstep : n.lines.foldl Line.advance ([6, 4, 2, 0], ts) =
        ([6, 4, 2, 0], (containerTokens n).dropLast.reverse ++ .blockEnd :: ts) := rfl
    have hlast : .blockEnd :: (containerTokens n).dropLast.reverse = (containerTokens n).reverse :=
      rfl
    rw [List.flatMap_cons, List.foldl_append, hstep, ih, List.flatMap_cons, List.reverse_append,
      List.append_assoc, ← hlast]
    rfl

theorem tokens_lines (p : BarePod) : Lines.tokens p.lines =
    headTokens ++ (graceTokens p.grace ++
      (containersTokens p.names ++ [.blockEnd, .blockEnd])) := by
  obtain ⟨grace, names⟩ := p
  cases names with
  | nil => cases grace <;> rfl
  | cons n names =>
    have hstart : (headLines ++ (graceLines grace ++ containersLine .nothing :: n.lines)).foldl
        Line.advance ([], []) = ([6, 4, 2, 0], (headTokens ++ (graceTokens grace ++
          (keyTokens "containers" ++
            .blockSequenceStart :: (containerTokens n).dropLast))).reverse) := by
      cases grace <;> rfl
    have hlines : lines ⟨grace, n :: names⟩ =
        headLines ++ (graceLines grace ++ containersLine .nothing :: n.lines) ++
          names.flatMap PlainName.lines := by
      simp [lines, containerLines]
    have hlast : containerTokens n = (containerTokens n).dropLast ++ [.blockEnd] := rfl
    show (closing ((lines ⟨grace, n :: names⟩).foldl Line.advance ([], []))).reverse = _
    rw [hlines, List.foldl_append, hstart, advance_containers, containersTokens, List.flatMap_cons,
      hlast]
    simp

/-! ### Trees -/

def scalar (s : String) : Node :=
  .scalar {} s true

def containerNode (n : PlainName) : Node :=
  .mapping {} [(scalar "name", scalar n.text), (scalar "image", scalar "x:1")]

def graceNodes (grace : Option UInt64) : List (Node × Node) :=
  (grace.map fun g ↦
    (scalar "terminationGracePeriodSeconds", scalar (Decimal.text g.toNat))).toList

def containersNode (names : List PlainName) : Node × Node :=
  (scalar "containers", .sequence {} (names.map containerNode))

def node (p : BarePod) : Node :=
  .mapping {} [(scalar "apiVersion", scalar "v1"), (scalar "kind", scalar "Pod"),
    (scalar "spec", .mapping {} (graceNodes p.grace ++ [containersNode p.names]))]

variable {d : Directives} {anchors : List (String × Nat)} {frames : List Frame}
  {entries : List (Node × Node)} {more : List Token}

theorem read_grace (grace : Option UInt64) :
    Builder.read ⟨d, anchors, .blockMapping {} entries none :: frames, .separator⟩
        (graceTokens grace ++ more) =
      Builder.read
        ⟨d, anchors, .blockMapping {} (graceNodes grace ++ entries) none :: frames, .separator⟩
        more := by
  cases grace <;> rfl

/-- Behind the tokens of its items a list is complete. -/
theorem read_items (names : List PlainName) {items : List Node} {key : Node} :
    Builder.read ⟨d, anchors,
          .blockSequence {} items :: .blockMapping {} entries (some key) :: frames, .separator⟩
        (names.flatMap containerTokens ++ .blockEnd :: more) =
      Builder.read ⟨d, anchors, .blockMapping {} ((key, .sequence {}
          (items.reverse ++ names.map containerNode)) :: entries) none :: frames, .separator⟩
        more := by
  induction names generalizing items with
  | nil =>
    rw [List.map_nil, List.append_nil]
    rfl
  | cons n names ih =>
    have hitem (rest : List Token) : Builder.read ⟨d, anchors,
          .blockSequence {} items :: .blockMapping {} entries (some key) :: frames, .separator⟩
        (containerTokens n ++ rest) = Builder.read ⟨d, anchors, .blockSequence {}
          (containerNode n :: items) :: .blockMapping {} entries (some key) :: frames, .separator⟩
        rest := rfl
    rw [List.flatMap_cons, List.append_assoc, hitem, ih, List.reverse_cons, List.append_assoc]
    rfl

theorem read_containers (names : List PlainName) :
    Builder.read ⟨d, anchors, .blockMapping {} entries none :: frames, .separator⟩
        (containersTokens names ++ more) =
      Builder.read ⟨d, anchors, .blockMapping {} (containersNode names :: entries) none :: frames,
          .separator⟩ more := by
  cases names with
  | nil => rfl
  | cons n names =>
    have hstart : Builder.read ⟨d, anchors, .blockMapping {} entries none :: frames, .separator⟩
          (containersTokens (n :: names) ++ more) =
        Builder.read ⟨d, anchors, .blockSequence {} [] ::
            .blockMapping {} entries (some (scalar "containers")) :: frames, .separator⟩
          ((n :: names).flatMap containerTokens ++ [.blockEnd] ++ more) := rfl
    rw [hstart, List.append_assoc]
    exact read_items (n :: names)

theorem describe_lines (p : BarePod) : Lines.Describe p.lines p.node := by
  refine ⟨p.wellIndented_lines, fun afterMark ↦ ?_⟩
  have hhead (rest : List Token) :
      Builder.read { directives := {}, phase := .slot (.root afterMark) } (headTokens ++ rest) =
        Builder.read ⟨{}, [], [.blockMapping {} [] none, .blockMapping {}
          [(scalar "kind", scalar "Pod"), (scalar "apiVersion", scalar "v1")]
          (some (scalar "spec"))], .separator⟩ rest := by
    cases afterMark <;> rfl
  rw [Node.ofTokens, tokens_lines, hhead, read_grace, read_containers, List.append_nil]
  obtain ⟨_ | g, names⟩ := p <;> rfl

end ShutdownLint.BarePod
