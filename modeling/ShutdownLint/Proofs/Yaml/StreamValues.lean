import ShutdownLint.Proofs.Pointwise
import ShutdownLint.Proofs.Success
import ShutdownLint.Yaml.Stream
/-!
A stream as a whole: it is accepted if each of its documents can be read and merged, and what it
gives are these documents, one for one, with the merge keys followed.
-/

set_option autoImplicit false

namespace ShutdownLint.Yaml

/-- A document that was read, with its merge keys followed. -/
def Resolves (r : Except Fault Value) (d : Value) : Prop :=
  ∃ v, r = .ok v ∧ v.merged = .ok d

namespace Stream

theorem values_eq_ok_iff {rs : List (Except Fault Value)} {index : Nat} {ds : List Value} :
    values index rs = .ok ds ↔ List.Forall₂ Resolves rs ds := by
  induction rs generalizing index ds with
  | nil => simp [values, eq_comm]
  | cons r rs ih =>
    cases r with
    | error e => simp [values, List.forall₂_cons_left_iff, Resolves]
    | ok v =>
      cases h : v.merged with
      | error e => simp [values, h, List.forall₂_cons_left_iff, Resolves]
      | ok d =>
        simp only [values, h, Success.map_eq_ok, ih, List.forall₂_cons_left_iff, Resolves,
          Except.ok.injEq, exists_eq_left', exists_and_left]
        exact exists_congr fun _ ↦ and_congr_right' eq_comm

/-- The documents of an accepted stream are its own, one for one and in their order. -/
theorem parse_eq_ok_iff {text : String} {ds : List Value} :
    parse text = .ok ds ↔ List.Forall₂ Resolves (documents text) ds :=
  values_eq_ok_iff

theorem exists_parse_eq_ok_iff {text : String} :
    (∃ ds, parse text = .ok ds) ↔ ∀ r ∈ documents text, ∃ d, Resolves r d := by
  simp only [parse_eq_ok_iff, Pointwise.exists_forall₂_iff]

end Stream

end ShutdownLint.Yaml
