import ShutdownLint.Json.Parser
import ShutdownLint.Proofs.Json.Lexing
/-!
Printed values are read back. The tokens of a value build this value in whatever collection they
stand, so a printed text spells the value that it was printed from.
-/

set_option autoImplicit false

namespace ShutdownLint.Json

namespace Builder

/-- Where a value is expected its tokens build it. -/
def Builds (v : Json) : Prop :=
  ∀ frames, (tokensOf v).foldlM step (reading frames .value) = complete v frames

theorem foldlM_singleton (b : Builder) (t : Token) : [t].foldlM step b = step b t :=
  (List.foldlM_cons ..).trans (bind_pure _)

/-- The first token of a value is not one that closes a collection. -/
theorem exists_tokensOf (v : Json) : ∃ t ts, tokensOf v = t :: ts ∧
    ∀ frames, step (reading frames .valueOrClose) t = step (reading frames .value) t := by
  have hor {frames : List Frame} {t : Token} (h : close frames t = none) :
      step (reading frames .valueOrClose) t = step (reading frames .value) t := by
    show (beginValue frames t).or (close frames t) = beginValue frames t
    rw [h, Option.or_none]
  cases v with
  | array items => cases items <;> exact ⟨_, _, rfl, fun _ ↦ hor rfl⟩
  | object members => cases members <;> exact ⟨_, _, rfl, fun _ ↦ hor rfl⟩
  | _ => exact ⟨_, _, rfl, fun _ ↦ hor rfl⟩

/-- At the beginning of an array a value is read as anywhere else. -/
theorem foldlM_valueOrClose (v : Json) (frames : List Frame) :
    (tokensOf v).foldlM step (reading frames .valueOrClose) =
      (tokensOf v).foldlM step (reading frames .value) := by
  obtain ⟨t, ts, hv, hstep⟩ := exists_tokensOf v
  rw [hv, List.foldlM_cons, List.foldlM_cons, hstep]

theorem foldlM_tokensOfItems {vs : List Json} (h : ∀ v ∈ vs, Builds v) (read : List Json)
    (frames : List Frame) :
    (tokensOfItems vs).foldlM step (reading (.array read :: frames) .commaOrClose) =
      complete (.array (read.reverse ++ vs)) frames := by
  induction vs generalizing read with
  | nil =>
    rw [List.append_nil]
    exact foldlM_singleton ..
  | cons v vs ih =>
    obtain ⟨hv, hvs⟩ := List.forall_mem_cons.mp h
    calc (tokensOfItems (v :: vs)).foldlM step (reading (.array read :: frames) .commaOrClose)
        = (tokensOf v ++ tokensOfItems vs).foldlM step (reading (.array read :: frames) .value) :=
          rfl
      _ = (tokensOfItems vs).foldlM step
            (reading (.array (v :: read) :: frames) .commaOrClose) := by
          rw [List.foldlM_append, hv]
          rfl
      _ = complete (.array (read.reverse ++ v :: vs)) frames := by
          rw [ih hvs]
          simp

theorem foldlM_tokensOfMembers {ms : List (String × Json)} (h : ∀ m ∈ ms, Builds m.2)
    (read : List (String × Json)) (frames : List Frame) :
    (tokensOfMembers ms).foldlM step (reading (.object read :: frames) .commaOrClose) =
      complete (.object (read.reverse ++ ms)) frames := by
  induction ms generalizing read with
  | nil =>
    rw [List.append_nil]
    exact foldlM_singleton ..
  | cons m ms ih =>
    obtain ⟨name, v⟩ := m
    obtain ⟨hv, hms⟩ := List.forall_mem_cons.mp h
    calc (tokensOfMembers ((name, v) :: ms)).foldlM step
          (reading (.object read :: frames) .commaOrClose)
        = (tokensOf v ++ tokensOfMembers ms).foldlM step
          (reading (.member read name :: frames) .value) := rfl
      _ = (tokensOfMembers ms).foldlM step
          (reading (.object ((name, v) :: read) :: frames) .commaOrClose) := by
          rw [List.foldlM_append, hv]
          rfl
      _ = complete (.object (read.reverse ++ (name, v) :: ms)) frames := by
          rw [ih hms]
          simp

theorem builds_of_legible {v : Json} (h : v.Legible) : Builds v := by
  induction h with
  | null => exact fun frames ↦ foldlM_singleton ..
  | bool b => exact fun frames ↦ foldlM_singleton ..
  | number n => exact fun frames ↦ foldlM_singleton ..
  | string s => exact fun frames ↦ foldlM_singleton ..
  | @array items _ ih =>
    intro frames
    cases items with
    | nil => exact foldlM_singleton (reading (.array [] :: frames) .valueOrClose) .closeArray
    | cons v vs =>
      obtain ⟨hv, hvs⟩ := List.forall_mem_cons.mp ih
      show (tokensOf v ++ tokensOfItems vs).foldlM step
        (reading (.array [] :: frames) .valueOrClose) = _
      rw [List.foldlM_append, foldlM_valueOrClose, hv]
      exact foldlM_tokensOfItems hvs [v] frames
  | @object members _ ih =>
    intro frames
    cases members with
    | nil => exact foldlM_singleton (reading (.object [] :: frames) .nameOrClose) .closeObject
    | cons m ms =>
      obtain ⟨name, v⟩ := m
      obtain ⟨hv, hms⟩ := List.forall_mem_cons.mp ih
      show (tokensOf v ++ tokensOfMembers ms).foldlM step
        (reading (.member [] name :: frames) .value) = _
      rw [List.foldlM_append, hv]
      exact foldlM_tokensOfMembers hms [(name, v)] frames

end Builder

theorem parse?_print {l : Layout} (hl : l.IsBlank) {v : Json} (h : v.Legible) (depth : Nat) :
    parse? (String.ofList (print l depth v)) = some v := by
  rw [parse?, String.toList_ofList, tokens?_print hl h]
  show ((tokensOf v).foldlM Builder.step (Builder.reading [] .value)).bind Builder.result? = _
  rw [Builder.builds_of_legible h]
  rfl

theorem parse?_pretty {v : Json} (h : v.Legible) : parse? v.pretty = some v :=
  parse?_print Layout.isBlank_pretty h 0

end ShutdownLint.Json
