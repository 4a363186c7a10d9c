import ShutdownLint.Proofs.Decimal.Digits
import ShutdownLint.Proofs.Yaml.LineStream
import ShutdownLint.Finding
/-!
Pods that say no more than they have to: the names of their containers, and perhaps a grace period.

The text of such a pod and the findings on it are written down directly, and so are the lines of
which the text consists. A name stands in the text without quotes and so may read as something else
than a string.
-/

set_option autoImplicit false

namespace ShutdownLint

open Yaml

/-! ### Texts -/

/-- A name of small letters, digits and hyphens that begins with a letter, other than the word for
null. -/
structure PlainName where
  text : String
  begins : text.toList.head?.any Char.isLower = true
  letters : text.toList.all (fun c ↦ c.isLower || c.isDigit || c == '-') = true
  notNull : text ≠ "null"

/-- A pod that may have a grace period and whose containers have a name and an image only. -/
structure BarePod where
  grace : Option UInt64
  names : List PlainName

namespace BarePod

def graceText (grace : Option UInt64) : String :=
  grace.elim "" fun g ↦ "  terminationGracePeriodSeconds: " ++ Decimal.text g.toNat ++ "\n"

def containerText (n : PlainName) : String :=
  "    - name: " ++ n.text ++ "\n      image: x:1\n"

def containersText (names : List PlainName) : String :=
  if names.isEmpty then "  containers: []\n"
  else "  containers:\n" ++ String.join (names.map containerText)

/-- The text of a pod. -/
def text (p : BarePod) : String :=
  "apiVersion: v1\nkind: Pod\nspec:\n" ++ graceText p.grace ++ containersText p.names

/-- The text of pods, with a document mark between each two. -/
def streamText (pods : List BarePod) : String :=
  "---\n".intercalate (pods.map text)

example : streamText [⟨none, []⟩, ⟨some 30, [⟨"true", rfl, rfl, by decide⟩]⟩] =
    "apiVersion: v1\nkind: Pod\nspec:\n  containers: []\n---\n" ++
      "apiVersion: v1\nkind: Pod\nspec:\n  terminationGracePeriodSeconds: 30\n" ++
        "  containers:\n    - name: true\n      image: x:1\n" := by
  decide +kernel

/-- The findings on a container, which has neither a hook nor a probe. -/
def containerFindings (n : PlainName) (file : String) : List Finding :=
  [⟨"DG102", .warning, "Container \"" ++ n.text ++ "\": no preStop hook. Add \"sleep 5\" to let " ++
      "kube-proxy propagate iptables rule removal before SIGTERM.", file, none⟩,
    ⟨"DG103", .warning, "Container \"" ++ n.text ++ "\": no readinessProbe. Without it, the " ++
      "endpoint won't be removed from Service during shutdown.", file, none⟩]

/-- The findings on a pod. -/
def findings (p : BarePod) (file : String) : List Finding :=
  (if p.grace.isSome then []
    else [⟨"DG101", .warning, "terminationGracePeriodSeconds not set: defaults to 30s. " ++
      "Set it explicitly to match your actual shutdown duration.", file, none⟩]) ++
    p.names.flatMap (containerFindings · file)

end BarePod

/-! ### Lines -/

namespace PlainName

theorem exists_cons (n : PlainName) : ∃ c cs, n.text.toList = c :: cs ∧ c.isLower = true :=
  exists_cons_of_head? n.begins

theorem isAlphanum_of_isLower {c : Char} (h : c.isLower = true) : c.isAlphanum = true := by
  have halpha : c.isAlpha = true := (Bool.or_eq_true ..).mpr (.inr h)
  exact (Bool.or_eq_true ..).mpr (.inl halpha)

theorem begins_isAlphanum (n : PlainName) :
    n.text.toList.head?.any Char.isAlphanum = true := by
  obtain ⟨c, cs, hn, hc⟩ := n.exists_cons
  simp [hn, isAlphanum_of_isLower hc]

theorem isAlphanum_of_mem (n : PlainName) {c : Char} (hc : c ∈ n.text.toList) :
    c.isAlphanum = true ∨ c = '-' := by
  have h := List.all_eq_true.mp n.letters c hc
  simp only [Bool.or_eq_true, beq_iff_eq] at h
  rcases h with (h | h) | h
  · exact .inl (isAlphanum_of_isLower h)
  · exact .inl (by simp [Char.isAlphanum, h])
  · exact .inr h

def word (n : PlainName) : Word :=
  .ofName n.text n.begins_isAlphanum fun _ ↦ n.isAlphanum_of_mem

/-- The lines of a container. -/
def lines (n : PlainName) : List Line :=
  [{ column := 4, isItem := true, key := { text := "name" }, value := .word n.word },
    { column := 6, key := { text := "image" }, value := .word { text := "x:1" } }]

end PlainName

theorem isAlphanum_of_mem_text {n : Nat} {c : Char} (h : c ∈ (Decimal.text n).toList) :
    c.isAlphanum = true := by
  have hdigit : c.isDigit = true := Decimal.isDigit_of_mem_digits (String.toList_ofList ▸ h)
  simp [Char.isAlphanum, hdigit]

theorem begins_text_isAlphanum (n : Nat) :
    (Decimal.text n).toList.head?.any Char.isAlphanum = true := by
  obtain ⟨c, cs, hcs⟩ := List.exists_cons_of_ne_nil (Decimal.digits_ne_nil n)
  have htext : (Decimal.text n).toList = c :: cs := String.toList_ofList.trans hcs
  rw [htext]
  exact isAlphanum_of_mem_text (htext ▸ List.mem_cons_self)

namespace BarePod

/-- A number of seconds as a word. -/
def seconds (g : UInt64) : Word :=
  .ofName (Decimal.text g.toNat) (begins_text_isAlphanum _) fun _ h ↦
    .inl (isAlphanum_of_mem_text h)

def headLines : List Line :=
  [{ column := 0, key := { text := "apiVersion" }, value := .word { text := "v1" } },
    { column := 0, key := { text := "kind" }, value := .word { text := "Pod" } },
    { column := 0, key := { text := "spec" }, value := .nothing }]

def graceLines (grace : Option UInt64) : List Line :=
  (grace.map fun g ↦
    { column := 2
      key := { text := "terminationGracePeriodSeconds" }
      value := .word (seconds g) }).toList

def containersLine (v : LineValue) : Line :=
  { column := 2, key := { text := "containers" }, value := v }

def containerLines (names : List PlainName) : List Line :=
  if names.isEmpty then [containersLine .emptyList]
  else containersLine .nothing :: names.flatMap PlainName.lines

def lines (p : BarePod) : List Line :=
  headLines ++ (graceLines p.grace ++ containerLines p.names)

theorem toList_graceText (grace : Option UInt64) :
    (graceText grace).toList = Lines.chars (graceLines grace) := by
  cases grace with
  | none => simp [graceText, graceLines, Lines.chars]
  | some g =>
    simp [graceText, graceLines, Lines.chars, Line.chars, LineValue.chars, seconds, Word.ofName]

theorem toList_containerText (n : PlainName) : (containerText n).toList = Lines.chars n.lines := by
  simp [containerText, PlainName.lines, Lines.chars, Line.chars, LineValue.chars, PlainName.word,
    Word.ofName]

theorem toList_containersText (names : List PlainName) :
    (containersText names).toList = Lines.chars (containerLines names) := by
  cases names with
  | nil => decide +kernel
  | cons n names =>
    have hopening : "  containers:\n".toList = Lines.chars [containersLine .nothing] := by
      decide +kernel
    show ("  containers:\n" ++ String.join ((n :: names).map containerText)).toList =
      Lines.chars ([containersLine .nothing] ++ (n :: names).flatMap PlainName.lines)
    rw [String.toList_append, String.toList_join, List.flatMap_map, Lines.chars_append,
      Lines.chars_flatMap, hopening]
    simp only [toList_containerText]

theorem toList_text (p : BarePod) : p.text.toList = Lines.chars p.lines := by
  have hhead : "apiVersion: v1\nkind: Pod\nspec:\n".toList = Lines.chars headLines := by
    decide +kernel
  unfold text lines
  simp only [String.toList_append, hhead, toList_graceText, toList_containersText,
    Lines.chars_append, List.append_assoc]

theorem toList_streamText (pods : List BarePod) :
    (streamText pods).toList = Lines.streamChars (pods.map lines) := by
  rw [streamText, String.toList_intercalate, List.map_map, Lines.streamChars, List.map_map]
  congr 1
  exact List.map_congr_left fun p _ ↦ p.toList_text

theorem wellIndented_containers (names : List PlainName) :
    Lines.WellIndented (names.flatMap PlainName.lines) := by
  induction names with
  | nil => exact True.intro
  | cons n names ih =>
    -- Behind the last line of a container comes the first one of the next, or the end.
    have hnext : Lines.column (names.flatMap PlainName.lines) ≤ 6 := by
      cases names with
      | nil => exact Nat.zero_le 6
      | cons next names => exact (by decide : 4 ≤ 6)
    exact ⟨Nat.le_refl 6, hnext, ih⟩

theorem wellIndented_lines (p : BarePod) : Lines.WellIndented p.lines := by
  have hcontainers : Lines.WellIndented (containerLines p.names) := by
    unfold containerLines
    split
    · exact ⟨True.intro, True.intro⟩
    · exact ⟨True.intro, wellIndented_containers p.names⟩
  have hcolumn : Lines.column (containerLines p.names) = 2 := by
    unfold containerLines
    split <;> rfl
  unfold lines graceLines
  cases p.grace with
  | none => exact ⟨Nat.le_refl 0, Nat.le_refl 0, True.intro, hcontainers⟩
  | some g => exact ⟨Nat.le_refl 0, Nat.le_refl 0, True.intro, Nat.le_of_eq hcolumn, hcontainers⟩

end BarePod

end ShutdownLint
