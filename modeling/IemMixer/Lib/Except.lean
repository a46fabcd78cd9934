import Mathlib.Tactic.Common

/-! Reading a run of fallible code backwards: what each bind and each early exit
must have done for the run to end as it did. -/
namespace IemMixer.Lib

variable {ε α β : Type}

theorem bind_ok_iff {x : Except ε α} {f : α → Except ε β} {r : β} :
    (x >>= f) = .ok r ↔ ∃ a, x = .ok a ∧ f a = .ok r := by
  cases x with
  | error e => simp [bind, Except.bind]
  | ok a => simp [bind, Except.bind]

theorem bind_error_iff {x : Except ε α} {f : α → Except ε β} {e : ε} :
    (x >>= f) = .error e ↔ x = .error e ∨ ∃ a, x = .ok a ∧ f a = .error e := by
  cases x with
  | error e => simp [bind, Except.bind]
  | ok a => simp [bind, Except.bind]

/-- Past an early exit. -/
theorem refused_ok_iff {c : Prop} [Decidable c] {e : ε} {x : Except ε β} {r : β} :
    (if c then .error e else x) = .ok r ↔ ¬ c ∧ x = .ok r := by
  by_cases taken : c <;> simp [taken]

/-! ### With a state that survives an error -/

section
variable {σ : Type}

/-- A fallible read inside stateful code. -/
instance liftExcept : MonadLift (Except ε) (EStateM ε σ) where
  monadLift x := fun s =>
    match x with
    | .ok a => .ok a s
    | .error e => .error e s

@[simp] theorem lift_ok_iff {x : Except ε α} {a : α} {s s' : σ} :
    (liftM x : EStateM ε σ α) s = .ok a s' ↔ x = .ok a ∧ s = s' := by
  cases x with
  | error e => simp [liftM, monadLift, MonadLift.monadLift]
  | ok b => simp [liftM, monadLift, MonadLift.monadLift]

@[simp] theorem lift_error_iff {x : Except ε α} {e : ε} {s s' : σ} :
    (liftM x : EStateM ε σ α) s = .error e s' ↔ x = .error e ∧ s = s' := by
  cases x with
  | error e => simp [liftM, monadLift, MonadLift.monadLift]
  | ok b => simp [liftM, monadLift, MonadLift.monadLift]

theorem then_ok_iff {x : EStateM ε σ α} {f : α → EStateM ε σ β} {b : β} {s s' : σ} :
    (x >>= f) s = .ok b s' ↔ ∃ a mid, x s = .ok a mid ∧ f a mid = .ok b s' := by
  cases ran : x s with
  | error e mid => simp [bind, EStateM.bind, ran]
  | ok a mid => simp [bind, EStateM.bind, ran]

theorem then_error_iff {x : EStateM ε σ α} {f : α → EStateM ε σ β} {e : ε} {s s' : σ} :
    (x >>= f) s = .error e s' ↔
      x s = .error e s' ∨ ∃ a mid, x s = .ok a mid ∧ f a mid = .error e s' := by
  cases ran : x s with
  | error e mid => simp [bind, EStateM.bind, ran]
  | ok a mid => simp [bind, EStateM.bind, ran]

@[simp] theorem get_run (s : σ) : (get : EStateM ε σ σ) s = .ok s s := rfl

@[simp] theorem modifyGet_run (f : σ → α × σ) (s : σ) :
    (modifyGet f : EStateM ε σ α) s = .ok (f s).1 (f s).2 := rfl

@[simp] theorem pure_run (a : α) (s : σ) : (pure a : EStateM ε σ α) s = .ok a s := rfl

@[simp] theorem throw_run (e : ε) (s : σ) : (throw e : EStateM ε σ α) s = .error e s := rfl

/-- The code only reads: it leaves the state as it was, however it ends. -/
def Keeps (x : EStateM ε σ α) : Prop :=
  ∀ s, (∀ a s', x s = .ok a s' → s' = s) ∧ ∀ e s', x s = .error e s' → s' = s

/-- A refusal leaves the state as it was. -/
def KeepsOnError (x : EStateM ε σ α) : Prop := ∀ s e s', x s = .error e s' → s' = s

theorem keeps_get : Keeps (get : EStateM ε σ σ) := by
  intro s
  constructor
  · intro a s' ran
    cases ran
    rfl
  · intro e s' failed
    cases failed

theorem keeps_lift (x : Except ε α) : Keeps (liftM x : EStateM ε σ α) := by
  intro s
  simp only [lift_ok_iff, lift_error_iff]
  exact ⟨fun _ _ ran => ran.2.symm, fun _ _ failed => failed.2.symm⟩

theorem keepsOnError_modifyGet (f : σ → α × σ) :
    KeepsOnError (modifyGet f : EStateM ε σ α) := by
  intro s e s' failed
  cases failed

theorem keepsOnError_pure (a : α) : KeepsOnError (pure a : EStateM ε σ α) := by
  intro s e s' failed
  cases failed

theorem keepsOnError_throw (e : ε) : KeepsOnError (throw e : EStateM ε σ α) := by
  intro s e' s' failed
  cases failed
  rfl

/-- Checks first, then code that leaves the state on a refusal: together they do. -/
theorem keepsOnError_bind {x : EStateM ε σ α} {f : α → EStateM ε σ β} (checks : Keeps x)
    (writes : ∀ a, KeepsOnError (f a)) : KeepsOnError (x >>= f) := by
  intro s e s' failed
  rcases then_error_iff.mp failed with stopped | ⟨a, mid, ran, stopped⟩
  · exact (checks s).2 e s' stopped
  · have same := (checks s).1 a mid ran
    exact same ▸ writes a mid e s' stopped

theorem keepsOnError_ite {c : Prop} [Decidable c] {x y : EStateM ε σ α} (yes : KeepsOnError x)
    (no : KeepsOnError y) : KeepsOnError (if c then x else y) := by
  by_cases taken : c
  · rwa [if_pos taken]
  · rwa [if_neg taken]

/-- Whatever an accepted run does to the state is one of `R`. -/
def Within (R : σ → σ → Prop) (x : EStateM ε σ α) : Prop := ∀ s a s', x s = .ok a s' → R s s'

variable {R : σ → σ → Prop}

theorem within_pure (refl : ∀ s, R s s) (a : α) : Within R (pure a : EStateM ε σ α) := by
  intro s b s' ran
  cases ran
  exact refl s

theorem within_throw (e : ε) : Within R (throw e : EStateM ε σ α) := by
  intro s a s' ran
  cases ran

theorem within_modifyGet {f : σ → α × σ} (writes : ∀ s, R s (f s).2) : Within R (modifyGet f : EStateM ε σ α) := by
  intro s a s' ran
  cases ran
  exact writes s

theorem within_bind {x : EStateM ε σ α} {f : α → EStateM ε σ β} (checks : Keeps x) (writes : ∀ a, Within R (f a)) :
    Within R (x >>= f) := by
  intro s b s' ran
  obtain ⟨a, mid, first, later⟩ := then_ok_iff.mp ran
  have same := (checks s).1 a mid first
  exact same ▸ writes a mid b s' later

theorem within_ite {c : Prop} [Decidable c] {x y : EStateM ε σ α} (yes : Within R x) (no : Within R y) :
    Within R (if c then x else y) := by
  by_cases taken : c
  · rwa [if_pos taken]
  · rwa [if_neg taken]

end

end IemMixer.Lib
