import Mathlib.Tactic.Common

/-! A process on a world that outlives it, in steps. What becomes of each step is an
oracle's, the end of the process among it, so a statement about every oracle is one about
every stop, every failure and everything the world does by itself in between. -/
namespace IemMixer.Lib.Process

/-- Why a computation did not end: the process is no more, or an error. -/
inductive Halt (ε : Type) where
  | stopped
  | error (e : ε)
  deriving DecidableEq

structure Clocked (W : Type) where
  world : W
  clock : ℕ := 0

/-- What becomes of the step `σ` at a time. -/
abbrev Oracle (σ φ : Type) := ℕ → σ → φ

abbrev ProcM (σ φ W ε : Type) := ReaderT (Oracle σ φ) (EStateM (Halt ε) (Clocked W))

section
variable {σ φ W ε ε' α β : Type}

/-- One step: `act` is what each fate makes of it. -/
def step (op : σ) (act : φ → W → Except (Halt ε) α × W) : ProcM σ φ W ε α := fun o w =>
  match act (o w.clock op) w.world with
  | (.ok a, world) => .ok a ⟨world, w.clock + 1⟩
  | (.error e, world) => .error e ⟨world, w.clock + 1⟩

/-- What the process itself holds, no step. -/
def look (f : W → α) : ProcM σ φ W ε α := fun _ w => .ok (f w.world) w

/-- A change of what the process itself holds, no step. -/
def change (f : W → W) : ProcM σ φ W ε Unit := fun _ w => .ok () { w with world := f w.world }

def fail (e : ε) : ProcM σ φ W ε α := fun _ w => .error (.error e) w

/-- The result of `m`, its error taken as a value; a stop goes through. -/
def attempt (m : ProcM σ φ W ε α) : ProcM σ φ W ε' (Except ε α) := fun o w =>
  match m o w with
  | .ok a w' => .ok (.ok a) w'
  | .error (.error e) w' => .ok (.error e) w'
  | .error .stopped w' => .error .stopped w'

/-- `map_err`. -/
def mapErr (f : ε → ε') (m : ProcM σ φ W ε α) : ProcM σ φ W ε' α := fun o w =>
  match m o w with
  | .ok a w' => .ok a w'
  | .error (.error e) w' => .error (.error (f e)) w'
  | .error .stopped w' => .error .stopped w'

/-- `f` on each, in order. -/
def each (xs : List β) (f : β → ProcM σ φ W ε Unit) : ProcM σ φ W ε Unit :=
  match xs with
  | [] => pure ()
  | x :: rest => do
    f x
    each rest f

/-- `m` among steps that go by other names. -/
def relabel {τ : Type} (f : σ → τ) (m : ProcM σ φ W ε α) : ProcM τ φ W ε α := fun o => m fun t op => o t (f op)

/-- `m` among steps that go by other names, whose fates hold its own. -/
def among {τ ψ : Type} (f : σ → τ) (g : ψ → φ) (m : ProcM σ φ W ε α) : ProcM τ ψ W ε α := fun o =>
  m fun t op => g (o t (f op))

/-- `m` on a part of the world. -/
def focus {V : Type} (part : W → V) (set : W → V → W) (m : ProcM σ φ V ε α) : ProcM σ φ W ε α := fun o w =>
  match m o ⟨part w.world, w.clock⟩ with
  | .ok a v => .ok a ⟨set w.world v.world, v.clock⟩
  | .error e v => .error e ⟨set w.world v.world, v.clock⟩

abbrev Assertion (W : Type) := W → Prop

/-- From where `P` holds, `m` ends where `Q` does, or halts where `E` does. -/
def Triple (o : Oracle σ φ) (P : Assertion W) (m : ProcM σ φ W ε α) (Q : α → Assertion W)
    (E : Halt ε → Assertion W) : Prop :=
  ∀ w : Clocked W, P w.world → match m o w with
    | .ok a w' => Q a w'.world
    | .error e w' => E e w'.world

variable {o : Oracle σ φ} {P P' : Assertion W} {Q Q' : α → Assertion W} {R : β → Assertion W}
  {E E' : Halt ε → Assertion W} {m : ProcM σ φ W ε α} {f : α → ProcM σ φ W ε β}

theorem triple_ok (h : Triple o P m Q E) {w w' : Clocked W} {a : α} (pre : P w.world)
    (run : m o w = .ok a w') : Q a w'.world := by
  have := h w pre
  rwa [run] at this

theorem triple_error (h : Triple o P m Q E) {w w' : Clocked W} {e : Halt ε} (pre : P w.world)
    (run : m o w = .error e w') : E e w'.world := by
  have := h w pre
  rwa [run] at this

theorem triple_conseq (h : Triple o P m Q E) (pre : ∀ w, P' w → P w)
    (post : ∀ a w, Q a w → Q' a w) (halt : ∀ e w, E e w → E' e w) : Triple o P' m Q' E' := by
  intro w start
  have inner := h w (pre _ start)
  cases run : m o w with
  | ok a w' => rw [run] at inner; exact post _ _ inner
  | error e w' => rw [run] at inner; exact halt _ _ inner

theorem triple_pre (h : Triple o P m Q E) (pre : ∀ w, P' w → P w) : Triple o P' m Q E :=
  triple_conseq h pre (fun _ _ => id) fun _ _ => id

/-- A precondition with a fact that does not depend on the world. -/
theorem triple_fact {p : Prop} (h : p → Triple o P m Q E) : Triple o (fun w => p ∧ P w) m Q E :=
  fun w pre => h pre.1 w pre.2

theorem triple_exists {γ : Type} {P : γ → Assertion W} (h : ∀ c, Triple o (P c) m Q E) :
    Triple o (fun w => ∃ c, P c w) m Q E := by
  rintro w ⟨c, pre⟩
  exact h c w pre

theorem triple_or (h : Triple o P m Q E) (h' : Triple o P' m Q E) : Triple o (fun w => P w ∨ P' w) m Q E := by
  rintro w (pre | pre)
  · exact h w pre
  · exact h' w pre

theorem triple_relabel {τ : Type} {g : σ → τ} {o : Oracle τ φ} (h : Triple (fun t op => o t (g op)) P m Q E) :
    Triple o P (relabel g m) Q E := h

theorem triple_among {τ ψ : Type} {f : σ → τ} {g : ψ → φ} {o : Oracle τ ψ}
    (h : Triple (fun t op => g (o t (f op))) P m Q E) : Triple o P (among f g m) Q E := h

theorem triple_focus {V : Type} {part : W → V} {set : W → V → W} {m : ProcM σ φ V ε α}
    (h : ∀ w, P w → Triple o (· = part w) m (fun a v => Q a (set w v)) fun e v => E e (set w v)) :
    Triple o P (focus part set m) Q E := by
  intro w pre
  have inner := h w.world pre ⟨part w.world, w.clock⟩ rfl
  unfold focus
  cases run : m o ⟨part w.world, w.clock⟩ with
  | ok a v => rw [run] at inner; exact inner
  | error e v => rw [run] at inner; exact inner

/-- Two results about one computation. -/
theorem triple_and (h : Triple o P m Q E) (h' : Triple o P' m Q' E') :
    Triple o (fun w => P w ∧ P' w) m (fun a w => Q a w ∧ Q' a w) fun e w => E e w ∧ E' e w := by
  intro w pre
  have first := h w pre.1
  have second := h' w pre.2
  cases run : m o w with
  | ok a w' => rw [run] at first second; exact ⟨first, second⟩
  | error e w' => rw [run] at first second; exact ⟨first, second⟩

/-- Wherever it ends. -/
theorem triple_any : Triple o P m (fun _ _ => True) fun _ _ => True := fun w _ => by
  split
  · trivial
  · trivial

theorem triple_bind (first : Triple o P m Q E) (next : ∀ a, Triple o (Q a) (f a) R E) :
    Triple o P (m >>= f) R E := by
  intro w pre
  have head := first w pre
  show match EStateM.bind (m o) (fun a => f a o) w with
    | .ok a w' => R a w'.world
    | .error e w' => E e w'.world
  unfold EStateM.bind
  cases run : m o w with
  | ok a w' => rw [run] at head; exact next a w' head
  | error e w' => rw [run] at head; exact head

theorem triple_pure {a : α} (post : ∀ w, P w → Q a w) : Triple o P (pure a) Q E :=
  fun _ pre => post _ pre

theorem triple_fail {e : ε} (halt : ∀ w, P w → E (.error e) w) :
    Triple o P (fail e : ProcM σ φ W ε α) Q E :=
  fun _ pre => halt _ pre

theorem triple_ite {c : Prop} [Decidable c] {m' : ProcM σ φ W ε α} (holds : c → Triple o P m Q E)
    (fails : ¬c → Triple o P m' Q E) : Triple o P (if c then m else m') Q E := by
  split
  · next yes => exact holds yes
  · next no => exact fails no

/-- A guard that fails the whole. -/
theorem triple_unless {c : Prop} [Decidable c] {e : ε} {next : Unit → ProcM σ φ W ε β}
    (halt : c → ∀ w, P w → E (.error e) w) (goes : ¬c → Triple o P (next ()) R E) :
    Triple o P (if c then fail e >>= next else next ()) R E := by
  split
  · rename_i bad
    exact triple_bind (Q := fun _ _ => False) (triple_fail (halt bad)) fun _ _ => False.elim
  · rename_i good
    exact goes good

/-- A step on a condition, and what comes after it. -/
theorem triple_rejoin {c : Prop} [Decidable c] {m : ProcM σ φ W ε Unit} {next : Unit → ProcM σ φ W ε β}
    (runs : Triple o P m (fun _ => P) E) (after : Triple o P (next ()) R E) :
    Triple o P (if c then m >>= next else next ()) R E :=
  triple_ite (fun _ => triple_bind runs fun _ => after) fun _ => after

theorem triple_look {g : W → α} (post : ∀ w, P w → Q (g w) w) : Triple o P (look g) Q E :=
  fun _ pre => post _ pre

theorem triple_change {g : W → W} {Q : Unit → Assertion W} (post : ∀ w, P w → Q () (g w)) :
    Triple o P (change g) Q E :=
  fun _ pre => post _ pre

/-- An error caught is a value: what holds after it holds after the attempt. -/
theorem triple_attempt {E' : Halt ε' → Assertion W} (h : Triple o P m Q E)
    (stop : ∀ w, E .stopped w → E' .stopped w) :
    Triple o P (attempt m : ProcM σ φ W ε' _)
      (fun r => match r with | .ok a => Q a | .error e => E (.error e)) E' := by
  intro w pre
  have inner := h w pre
  unfold attempt
  cases run : m o w with
  | ok a w' => rw [run] at inner; exact inner
  | error e w' =>
    rw [run] at inner
    cases e with
    | stopped => exact stop _ inner
    | error e => exact inner

theorem triple_mapErr {E' : Halt ε' → Assertion W} (g : ε → ε') (h : Triple o P m Q E)
    (stop : ∀ w, E .stopped w → E' .stopped w)
    (error : ∀ e w, E (.error e) w → E' (.error (g e)) w) : Triple o P (mapErr g m) Q E' := by
  intro w pre
  have inner := h w pre
  unfold mapErr
  cases run : m o w with
  | ok a w' => rw [run] at inner; exact inner
  | error e w' =>
    rw [run] at inner
    cases e with
    | stopped => exact stop _ inner
    | error e => exact error _ _ inner

theorem triple_step {op : σ} {act : φ → W → Except (Halt ε) α × W}
    (does : ∀ t w, P w → match act (o t op) w with
      | (.ok a, w') => Q a w'
      | (.error e, w') => E e w') : Triple o P (step op act) Q E := by
  intro w pre
  have one := does w.clock w.world pre
  unfold step
  rcases made : act (o w.clock op) w.world with ⟨_ | _, w'⟩
  · rw [made] at one; exact one
  · rw [made] at one; exact one

theorem triple_each {xs : List β} {g : β → ProcM σ φ W ε Unit}
    (one : ∀ x, Triple o P (g x) (fun _ => P) E) : Triple o P (each xs g) (fun _ => P) E := by
  induction xs with
  | nil => exact triple_pure fun _ => id
  | cons x rest ih => exact triple_bind (one x) fun _ => ih

/-- A loop with an invariant of what it went through. -/
theorem triple_foldlM {γ : Type} {xs : List β} {g : γ → β → ProcM σ φ W ε γ} {I : List β → γ → Assertion W} (c : γ)
    (one : ∀ done x rest, xs = done ++ x :: rest → ∀ c, Triple o (I done c) (g c x) (I (done ++ [x])) E) :
    Triple o (I [] c) (xs.foldlM g c) (I xs) E := by
  suffices tail : ∀ rest done, xs = done ++ rest → ∀ c, Triple o (I done c) (rest.foldlM g c) (I xs) E from
    tail xs [] rfl c
  intro rest
  induction rest with
  | nil =>
    intro done whole c
    rw [List.append_nil] at whole
    subst whole
    exact triple_pure fun _ => id
  | cons x rest ih =>
    intro done whole c
    rw [List.foldlM_cons]
    exact triple_bind (one done x rest whole c) fun c' => ih (done ++ [x]) (by simpa using whole) c'

/-- `I` holds wherever `m` ends or halts. -/
def Keeps (o : Oracle σ φ) (I : Assertion W) (m : ProcM σ φ W ε α) : Prop := Triple o I m (fun _ => I) fun _ => I

theorem keeps_bind {I : Assertion W} (first : Keeps o I m) (next : ∀ a, Keeps o I (f a)) : Keeps o I (m >>= f) :=
  triple_bind first next

theorem keeps_pure {I : Assertion W} {a : α} : Keeps o I (pure a : ProcM σ φ W ε α) := triple_pure fun _ => id

theorem keeps_fail {I : Assertion W} {e : ε} : Keeps o I (fail e : ProcM σ φ W ε α) := triple_fail fun _ => id

theorem keeps_look {I : Assertion W} {g : W → α} : Keeps o I (look g : ProcM σ φ W ε α) := triple_look fun _ => id

theorem keeps_attempt {I : Assertion W} (h : Keeps o I m) : Keeps o I (attempt m : ProcM σ φ W ε' (Except ε α)) :=
  triple_conseq (triple_attempt h fun _ => id) (fun _ => id) (fun r _ held => by cases r <;> exact held) fun _ _ => id

theorem keeps_relabel {τ : Type} {I : Assertion W} {g : σ → τ} {o : Oracle τ φ} (h : Keeps (fun t op => o t (g op)) I m) :
    Keeps o I (relabel g m) := triple_relabel h

theorem keeps_mapErr {I : Assertion W} (g : ε → ε') (h : Keeps o I m) : Keeps o I (mapErr g m) :=
  triple_mapErr g h (fun _ => id) fun _ _ => id

theorem keeps_each {I : Assertion W} {xs : List β} {g : β → ProcM σ φ W ε Unit} (one : ∀ x, Keeps o I (g x)) :
    Keeps o I (each xs g) := triple_each one

theorem keeps_ite {I : Assertion W} {c : Prop} [Decidable c] {m' : ProcM σ φ W ε α} (h : Keeps o I m)
    (h' : Keeps o I m') : Keeps o I (if c then m else m') := triple_ite (fun _ => h) fun _ => h'

/-- A guard that fails the whole. -/
theorem keeps_unless {I : Assertion W} {c : Prop} [Decidable c] {e : ε} {next : Unit → ProcM σ φ W ε α}
    (h : Keeps o I (next ())) : Keeps o I (if c then fail e >>= next else next ()) :=
  triple_unless (fun _ _ => id) fun _ => h

theorem keeps_foldlM {γ : Type} {I : Assertion W} {xs : List β} {g : γ → β → ProcM σ φ W ε γ} (c : γ)
    (one : ∀ c x, Keeps o I (g c x)) : Keeps o I (xs.foldlM g c) :=
  triple_foldlM (I := fun _ _ => I) c fun _ x _ _ c => one c x

theorem triple_each_done {xs : List β} {g : β → ProcM σ φ W ε Unit} {I : List β → Assertion W}
    (one : ∀ done x rest, xs = done ++ x :: rest → Triple o (I done) (g x) (fun _ => I (done ++ [x])) E) :
    Triple o (I []) (each xs g) (fun _ => I xs) E := by
  suffices tail : ∀ rest done, xs = done ++ rest → Triple o (I done) (each rest g) (fun _ => I xs) E from
    tail xs [] rfl
  intro rest
  induction rest with
  | nil =>
    intro done whole
    rw [List.append_nil] at whole
    subst whole
    exact triple_pure fun _ => id
  | cons x rest ih =>
    intro done whole
    exact triple_bind (one done x rest whole) fun _ => ih (done ++ [x]) (by simpa using whole)

end

section
variable {σ φ W ε ε' α β : Type} {o : Oracle σ φ} {m : ProcM σ φ W ε α} {w w' : Clocked W}

theorem run_bind_ok {f : α → ProcM σ φ W ε β} {a : α} (ran : m o w = .ok a w') : (m >>= f) o w = f a o w' := by
  show EStateM.bind (m o) (fun a => f a o) w = _
  unfold EStateM.bind
  rw [ran]

theorem run_attempt_ok {a : α} (ran : m o w = .ok a w') : (attempt m : ProcM σ φ W ε' _) o w = .ok (.ok a) w' := by
  unfold attempt
  rw [ran]

theorem run_attempt_error {e : ε} (ran : m o w = .error (.error e) w') :
    (attempt m : ProcM σ φ W ε' (Except ε α)) o w = .ok (.error e) w' := by
  unfold attempt
  rw [ran]

theorem run_mapErr_ok (g : ε → ε') {a : α} (ran : m o w = .ok a w') : mapErr g m o w = .ok a w' := by
  unfold mapErr
  rw [ran]

end

section
variable {W ε α : Type}

def stopsWith (test : Clocked W → Bool) : EStateM.Result (Halt ε) (Clocked W) α → Bool
  | .error .stopped cut => test cut
  | _ => false

def failsWith (test : Clocked W → Bool) : EStateM.Result (Halt ε) (Clocked W) α → Bool
  | .error (.error _) after => test after
  | _ => false

def returnsWith (test : α → Clocked W → Bool) : EStateM.Result (Halt ε) (Clocked W) α → Bool
  | .ok a after => test a after
  | _ => false

variable {r : EStateM.Result (Halt ε) (Clocked W) α} {test : Clocked W → Bool}

theorem of_stopsWith (ends : stopsWith test r = true) : ∃ cut, r = .error .stopped cut ∧ test cut = true := by
  unfold stopsWith at ends
  split at ends
  · exact ⟨_, rfl, ends⟩
  · cases ends

theorem of_failsWith (ends : failsWith test r = true) : ∃ e after, r = .error (.error e) after ∧ test after = true := by
  unfold failsWith at ends
  split at ends
  · exact ⟨_, _, rfl, ends⟩
  · cases ends

theorem of_returnsWith {test : α → Clocked W → Bool} (ends : returnsWith test r = true) :
    ∃ a after, r = .ok a after ∧ test a after = true := by
  unfold returnsWith at ends
  split at ends
  · exact ⟨_, _, rfl, ends⟩
  · cases ends

end

end IemMixer.Lib.Process
