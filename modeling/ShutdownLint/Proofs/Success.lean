/-!
When a run of stages succeeds: exactly when each of its stages does, with the values that are handed
on. Changing errors on the way changes no success.
-/

set_option autoImplicit false

namespace ShutdownLint.Success

variable {ε ε' α β : Type}

@[simp] theorem bind_eq_ok {x : Except ε α} {f : α → Except ε β} {b : β} :
    (x >>= f) = .ok b ↔ ∃ a, x = .ok a ∧ f a = .ok b := by
  cases x <;> simp [bind, Except.bind]

@[simp] theorem pure_eq_ok {a b : α} : (pure a : Except ε α) = .ok b ↔ a = b := by
  simp [pure, Except.pure]

@[simp] theorem map_eq_ok {x : Except ε α} {f : α → β} {b : β} :
    x.map f = .ok b ↔ ∃ a, x = .ok a ∧ f a = b := by
  cases x <;> simp [Except.map]

@[simp] theorem functor_map_eq_ok {x : Except ε α} {f : α → β} {b : β} :
    (f <$> x) = .ok b ↔ ∃ a, x = .ok a ∧ f a = b :=
  map_eq_ok

@[simp] theorem mapError_eq_ok {x : Except ε α} {f : ε → ε'} {a : α} :
    x.mapError f = .ok a ↔ x = .ok a := by
  cases x with
  | error e => exact ⟨nofun, nofun⟩
  | ok b =>
    change Except.ok b = Except.ok a ↔ _
    rw [Except.ok.injEq, Except.ok.injEq]

/-- A fold succeeds if each of its steps does, where it does not matter with what a step begins. -/
theorem exists_foldlM_eq_ok_iff {f : β → α → Except ε β} {P : α → Prop}
    (h : ∀ b a, (∃ b', f b a = .ok b') ↔ P a) (as : List α) (b : β) :
    (∃ b', as.foldlM f b = .ok b') ↔ ∀ a ∈ as, P a := by
  induction as generalizing b with
  | nil => simp [pure, Except.pure]
  | cons a as ih =>
    rw [List.forall_mem_cons, ← h b a]
    simp only [List.foldlM_cons, bind_eq_ok]
    constructor
    · rintro ⟨last, next, hnext, hlast⟩
      exact ⟨⟨next, hnext⟩, (ih next).mp ⟨last, hlast⟩⟩
    · rintro ⟨⟨next, hnext⟩, hrest⟩
      obtain ⟨last, hlast⟩ := (ih next).mpr hrest
      exact ⟨last, next, hnext, hlast⟩

/-- What every step of a fold keeps, the whole fold does. -/
theorem foldlM_keeps {f : β → α → Except ε β} {P : β → Prop}
    (h : ∀ b a b', f b a = .ok b' → P b → P b') {as : List α} {b b' : β}
    (hfold : as.foldlM f b = .ok b') (hb : P b) : P b' := by
  induction as generalizing b with
  | nil => exact pure_eq_ok.mp hfold ▸ hb
  | cons a as ih =>
    rw [List.foldlM_cons] at hfold
    obtain ⟨next, hnext, hrest⟩ := bind_eq_ok.mp hfold
    exact ih hrest (h b a next hnext hb)

theorem bind_eq_error {x : Except ε α} {f : α → Except ε β} {e : ε} :
    (x >>= f) = .error e ↔ x = .error e ∨ ∃ a, x = .ok a ∧ f a = .error e := by
  cases x <;> simp [bind, Except.bind]

theorem exists_eq_error_iff {x : Except ε α} : (∃ e, x = .error e) ↔ ¬∃ a, x = .ok a := by
  cases x <;> simp

@[simp] theorem map_eq_error {x : Except ε α} {f : α → β} {e : ε} :
    x.map f = .error e ↔ x = .error e := by
  cases x <;> simp [Except.map]

/-- A fold fails at its first step that does, where it does not matter with what a step begins. -/
theorem foldlM_eq_error_iff {f : β → α → Except ε β} {P : α → ε → Prop}
    (h : ∀ b a e, f b a = .error e ↔ P a e) {as : List α} {b : β} {e : ε} :
    as.foldlM f b = .error e ↔ ∃ before a after, as = before ++ a :: after ∧ P a e ∧
      ∀ x ∈ before, ∀ e', ¬P x e' := by
  induction as generalizing b with
  | nil => simp [pure, Except.pure]
  | cons a as ih =>
    rw [List.foldlM_cons]
    cases hstep : f b a with
    | error e' =>
      have hfails := (h b a e').mp hstep
      constructor
      · intro herror
        obtain rfl : e' = e := Except.error.inj herror
        exact ⟨[], a, as, rfl, hfails, fun x hx ↦ absurd hx List.not_mem_nil⟩
      · rintro ⟨_ | ⟨x, before⟩, a', after, heq, he, hbefore⟩
        · obtain ⟨rfl, rfl⟩ := List.cons.inj heq
          obtain rfl := Except.error.inj (hstep.symm.trans ((h b a e).mpr he))
          rfl
        · obtain ⟨rfl, -⟩ := List.cons.inj heq
          exact absurd hfails (hbefore a List.mem_cons_self e')
    | ok next =>
      have hpasses : ∀ e', ¬P a e' := fun e' he' ↦ nomatch hstep.symm.trans ((h b a e').mpr he')
      change as.foldlM f next = .error e ↔ _
      rw [ih]
      constructor
      · rintro ⟨before, a', after, rfl, he, hbefore⟩
        exact ⟨a :: before, a', after, rfl, he, List.forall_mem_cons.mpr ⟨hpasses, hbefore⟩⟩
      · rintro ⟨_ | ⟨x, before⟩, a', after, heq, he, hbefore⟩
        · obtain ⟨rfl, -⟩ := List.cons.inj heq
          exact absurd he (hpasses e)
        · obtain ⟨-, rfl⟩ := List.cons.inj heq
          exact ⟨before, a', after, rfl, he, (List.forall_mem_cons.mp hbefore).2⟩

instance decidableExistsOk {P : α → Prop} [DecidablePred P] (x : Except ε α) :
    Decidable (∃ a, x = .ok a ∧ P a) :=
  match x with
  | .error _ => .isFalse fun ⟨_, h, _⟩ ↦ nomatch h
  | .ok a => decidable_of_iff (P a)
    ⟨fun ha ↦ ⟨a, rfl, ha⟩, fun ⟨_, h, ha⟩ ↦ Except.ok.inj h ▸ ha⟩

end ShutdownLint.Success
