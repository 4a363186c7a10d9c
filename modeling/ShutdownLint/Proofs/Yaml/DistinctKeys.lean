import ShutdownLint.Proofs.Success
import ShutdownLint.Proofs.Yaml.Reaches
import ShutdownLint.Yaml.NodeValue
/-!
The values of documents have distinct keys in all their mappings, because reading one stops at a key
that is repeated.
-/

set_option autoImplicit false

namespace ShutdownLint.Yaml

/-! ### What reading ensures -/

/-- Whatever a reading yields, if it yields anything, satisfies a predicate. -/
def Ensures {α : Type} (x : Reading α) (P : α → Prop) : Prop :=
  ∀ s a t, x.run s = .ok (a, t) → P a

namespace Ensures

variable {α β : Type} {P : α → Prop} {Q : β → Prop}

theorem pure {a : α} (h : P a) : Ensures (Pure.pure a) P := by
  intro s b t hrun
  simp only [StateT.run_pure, Success.pure_eq_ok, Prod.mk.injEq] at hrun
  obtain ⟨rfl, -⟩ := hrun
  exact h

theorem throw {e : Fault} : Ensures (MonadExcept.throw e) P := by
  intro s a t hrun
  cases hrun

theorem lift {x : Except Fault α} (h : ∀ a, x = .ok a → P a) : Ensures (liftM x) P := by
  intro s a t hrun
  change StateT.run (StateT.lift x) s = _ at hrun
  simp only [StateT.run_lift, Success.bind_eq_ok, Success.pure_eq_ok, Prod.mk.injEq] at hrun
  obtain ⟨b, hb, rfl, -⟩ := hrun
  exact h b hb

theorem bind {x : Reading α} {f : α → Reading β} (hx : Ensures x P)
    (hf : ∀ a, P a → Ensures (f a) Q) : Ensures (x >>= f) Q := by
  intro s b t hrun
  rw [StateT.run_bind, Success.bind_eq_ok] at hrun
  obtain ⟨⟨a, s'⟩, ha, hb⟩ := hrun
  exact hf a (hx s a s' ha) s' b t hb

theorem trivial {x : Reading α} : Ensures x fun _ ↦ True :=
  fun _ _ _ _ ↦ True.intro

theorem mapM {f : α → Reading β} {as : List α} (h : ∀ a ∈ as, Ensures (f a) Q) :
    Ensures (as.mapM f) fun bs ↦ ∀ b ∈ bs, Q b := by
  induction as with
  | nil => exact pure (by simp)
  | cons a as ih =>
    obtain ⟨ha, has⟩ := List.forall_mem_cons.mp h
    rw [List.mapM_cons]
    refine bind ha fun b hb ↦ bind (ih has) fun bs hbs ↦ pure ?_
    exact List.forall_mem_cons.mpr ⟨hb, hbs⟩

theorem foldlM {f : β → α → Reading β} {as : List α}
    (h : ∀ b, Q b → ∀ a ∈ as, Ensures (f b a) Q) {b : β} (hb : Q b) :
    Ensures (as.foldlM f b) Q := by
  induction as generalizing b with
  | nil => exact pure hb
  | cons a as ih =>
    rw [List.foldlM_cons]
    refine bind (h b hb a List.mem_cons_self) fun c hc ↦ ih (fun d hd e he ↦ ?_) hc
    exact h d hd e (List.mem_cons_of_mem a he)

end Ensures

/-! ### Keys -/

open Value

theorem keyed_sequence {items : List Value} (h : ∀ v ∈ items, Keyed v) :
    Keyed (.sequence items) := by
  intro es hreach
  obtain ⟨v, hv, hitem⟩ := reaches_sequence_iff.mp hreach
  exact h v hv es hitem

theorem keyed_mapping {es : List (Value × Value)} (hkeys : DistinctKeys es)
    (h : ∀ e ∈ es, Keyed e.2) : Keyed (.mapping es) := by
  intro fs hreach
  rcases reaches_mapping_iff.mp hreach with rfl | ⟨e, he, hvalue⟩
  · exact hkeys
  · exact h e he fs hvalue

theorem keyed_withTag {tag : Option Tag} {v : Value} (h : Keyed v) : Keyed (withTag tag v) := by
  unfold withTag
  split
  · exact fun es hreach ↦ h es (reaches_tagged_iff.mp hreach)
  · exact fun es hreach ↦ h es (reaches_tagged_iff.mp hreach)
  · exact h

theorem keyed_plainValue {s : String} {v : Value} (h : plainValue s = .ok v) : Keyed v := by
  intro es hreach
  unfold plainValue at h
  grind [cases Reaches]

theorem keyed_scalarValue {tag : Option Tag} {s : String} {plain : Bool} {v : Value}
    (h : scalarValue tag s plain = .ok v) : Keyed v := by
  have hplain : plainValue s = .ok v → Keyed v := keyed_plainValue
  unfold scalarValue untaggedScalar at h
  unfold Keyed at hplain ⊢
  grind [cases Reaches]

namespace Node

/-- What holds of the entries of a mapping while they are read, last one first. -/
def KeyedEntries (entries : List (Value × Value)) : Prop :=
  DistinctKeys entries.reverse ∧ ∀ e ∈ entries, Keyed e.2

theorem ensures_addEntry {value : Node → Reading Value} (hvalue : ∀ n, Ensures (value n) Keyed)
    {entries : List (Value × Value)} (h : KeyedEntries entries) (e : Node × Node) :
    Ensures (addEntry value entries e) KeyedEntries := by
  refine .bind .trivial fun k _ ↦ ?_
  by_cases hk : hasKey k entries
  · rw [if_pos hk]
    exact .throw
  rw [if_neg hk]
  refine .bind (hvalue e.2) fun v hv ↦ .pure ⟨?_, List.forall_mem_cons.mpr ⟨hv, h.2⟩⟩
  -- In the mapping the new entry stands behind the others, so its key is compared with theirs.
  rw [DistinctKeys, List.reverse_cons, List.pairwise_append]
  refine ⟨h.1, List.pairwise_singleton _ _, fun e he f hf ↦ ?_⟩
  cases List.mem_singleton.mp hf
  have hany := List.any_eq_false.mp (Bool.not_eq_true _ ▸ hk) e (List.mem_reverse.mp he)
  exact Bool.not_eq_true _ ▸ hany

theorem ensures_value (anchored : List (Nat × Node)) (depth : Nat) (n : Node) :
    Ensures (n.value anchored depth) Keyed := by
  induction depth generalizing n with
  | zero =>
    rw [value]
    refine .bind .trivial fun target _ ↦ ?_
    cases target with
    | «alias» i => exact .throw
    | scalar p s plain =>
      exact .bind (.lift fun v hv ↦ keyed_scalarValue hv) fun v hv ↦ .pure (keyed_withTag hv)
    | sequence p items => exact .throw
    | mapping p entries => exact .throw
  | succ depth ih =>
    rw [value]
    refine .bind .trivial fun target _ ↦ ?_
    cases target with
    | «alias» i => exact .throw
    | scalar p s plain =>
      exact .bind (.lift fun v hv ↦ keyed_scalarValue hv) fun v hv ↦ .pure (keyed_withTag hv)
    | sequence p items =>
      exact .bind (.mapM fun n _ ↦ ih n) fun vs hvs ↦ .pure (keyed_withTag (keyed_sequence hvs))
    | mapping p entries =>
      have hnil : KeyedEntries [] := ⟨List.Pairwise.nil, List.forall_mem_nil _⟩
      refine .bind (.foldlM (fun _ hes e _ ↦ ensures_addEntry ih hes e) hnil) ?_
      intro es hes
      refine .pure (keyed_withTag (keyed_mapping hes.1 fun e he ↦ ?_))
      exact hes.2 e (List.mem_reverse.mp he)

theorem keyed_documentValue {n : Node} {v : Value} (h : n.documentValue = .ok v) : Keyed v := by
  obtain ⟨⟨w, s⟩, hrun, rfl⟩ := Success.functor_map_eq_ok.mp h
  exact ensures_value _ _ _ _ _ _ hrun

end Node

end ShutdownLint.Yaml
