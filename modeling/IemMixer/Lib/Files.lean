import IemMixer.Lib.OrdMap

/-! One directory of files, worked on in steps that may fail or be the last before
a crash. A rename happened or did not; a write that did not end may leave anything
in its file. What becomes of each step is an oracle's, so a statement about every
oracle is one about every pattern of failures. Assertions are about the directory
and the process's memory; a process that crashes loses its memory only. -/
namespace IemMixer.Lib.Files
open Std

inductive ErrorKind where
  | notFound
  /-- An error that may pass when the step is tried again. -/
  | transient
  | other
  deriving DecidableEq, Repr

structure IoError where
  kind : ErrorKind
  text : String
  deriving DecidableEq, Repr

inductive Step (β : Type) where
  | read (name : String)
  | write (name : String) (bytes : β)
  | syncFile (name : String)
  | rename (src dst : String)
  | remove (name : String)
  | exists (name : String)
  | list
  | syncDir

/-- What becomes of a step; `torn` is what a cut write left in its file. -/
inductive Fate (β : Type) where
  | done
  | failed (again : Bool) (text : String) (torn : Option β)
  | crash (torn : Option β)

abbrev Dir (β : Type) := BTreeMap String β

structure World (β μ : Type) where
  dir : Dir β
  mem : μ
  clock : ℕ := 0

abbrev Oracle (β : Type) := ℕ → Step β → Fate β

inductive Stop where
  | crash
  | io (e : IoError)
  deriving DecidableEq

/-- A computation over the directory. -/
abbrev FileM (β μ : Type) := ReaderT (Oracle β) (EStateM Stop (World β μ))

section
variable {β μ α γ : Type}

/-- What a step that did not end left behind. -/
def tear : Step β → Option β → Dir β → Dir β
  | .write name _, some torn, d => d.insert name torn
  | _, _, d => d

/-- One step: `act` is what it does when it is done. -/
def perform (step : Step β) (act : Dir β → Except IoError (α × Dir β)) : FileM β μ α :=
  fun o w =>
    let later := { w with clock := w.clock + 1 }
    match o w.clock step with
    | .done =>
      match act w.dir with
      | .ok (a, d) => .ok a { later with dir := d }
      | .error e => .error (.io e) later
    | .failed again text torn =>
      .error (.io ⟨if again then .transient else .other, text⟩)
        { later with dir := tear step torn w.dir }
    | .crash torn => .error .crash { later with dir := tear step torn w.dir }

def missing : IoError := ⟨.notFound, "No such file or directory (os error 2)"⟩

def read (name : String) : FileM β μ β :=
  perform (.read name) fun d => match d[name]? with
    | some b => .ok (b, d)
    | none => .error missing

/-- Creates or truncates the file and writes it whole. -/
def write (name : String) (bytes : β) : FileM β μ Unit :=
  perform (.write name bytes) fun d => .ok ((), d.insert name bytes)

def syncFile (name : String) : FileM β μ Unit :=
  perform (.syncFile name) fun d => if d.contains name then .ok ((), d) else .error missing

/-- The directory with the file `src`, holding `b`, under the name `dst` (a file
of that name is replaced). -/
def move (d : Dir β) (src dst : String) (b : β) : Dir β := (d.erase src).insert dst b

def rename (src dst : String) : FileM β μ Unit :=
  perform (.rename src dst) fun d => match d[src]? with
    | some b => .ok ((), move d src dst b)
    | none => .error missing

def remove (name : String) : FileM β μ Unit :=
  perform (.remove name) fun d => if d.contains name then .ok ((), d.erase name) else .error missing

def isThere (name : String) : FileM β μ Bool :=
  perform (.exists name) fun d => .ok (d.contains name, d)

/-- The names in the directory. -/
def list : FileM β μ (List String) := perform .list fun d => .ok (d.keys, d)

def syncDir : FileM β μ Unit := perform .syncDir fun d => .ok ((), d)

/-- What the process remembers. -/
def recalled : FileM β μ μ := fun _ w => .ok w.mem w

def remember (s : μ) : FileM β μ Unit := fun _ w => .ok () { w with mem := s }

/-- The result of `m`, its error taken as a value; a crash goes through. -/
def attempt (m : FileM β μ α) : FileM β μ (Except IoError α) := fun o w =>
  match m o w with
  | .ok a w' => .ok (.ok a) w'
  | .error (.io e) w' => .ok (.error e) w'
  | .error .crash w' => .error .crash w'

/-- `map_err`. -/
def mapErr (f : IoError → IoError) (m : FileM β μ α) : FileM β μ α := fun o w =>
  match m o w with
  | .error (.io e) w' => .error (.io (f e)) w'
  | r => r

def fail (e : IoError) : FileM β μ α := fun _ w => .error (.io e) w

abbrev Assertion (β μ : Type) := Dir β → μ → Prop

/-- From where `P` holds, `m` ends where `Q` does, or stops where `E` does. -/
def Triple (o : Oracle β) (P : Assertion β μ) (m : FileM β μ α) (Q : α → Assertion β μ)
    (E : Stop → Assertion β μ) : Prop :=
  ∀ w, P w.dir w.mem → match m o w with
    | .ok a w' => Q a w'.dir w'.mem
    | .error e w' => E e w'.dir w'.mem

/-- `I` holds wherever `m` ends or stops. -/
def Keeps (o : Oracle β) (I : Assertion β μ) (m : FileM β μ α) : Prop :=
  Triple o I m (fun _ => I) fun _ => I

variable {o : Oracle β} {P P' : Assertion β μ} {Q Q' : α → Assertion β μ} {R : γ → Assertion β μ}
  {E E' : Stop → Assertion β μ} {I : Assertion β μ} {m : FileM β μ α} {f : α → FileM β μ γ}

/-- Where a run ended or stopped. -/
def world : EStateM.Result Stop (World β μ) α → World β μ
  | .ok _ w => w
  | .error _ w => w

/-- Whether a crash stopped it. -/
def crashed : EStateM.Result Stop (World β μ) α → Bool
  | .error .crash _ => true
  | _ => false

theorem triple_ok (h : Triple o P m Q E) {w w' : World β μ} {a : α} (pre : P w.dir w.mem)
    (run : m o w = .ok a w') : Q a w'.dir w'.mem := by
  have := h w pre
  rwa [run] at this

theorem triple_error (h : Triple o P m Q E) {w w' : World β μ} {e : Stop} (pre : P w.dir w.mem)
    (run : m o w = .error e w') : E e w'.dir w'.mem := by
  have := h w pre
  rwa [run] at this

theorem triple_of (ok : ∀ w a w', P w.dir w.mem → m o w = .ok a w' → Q a w'.dir w'.mem)
    (error : ∀ w e w', P w.dir w.mem → m o w = .error e w' → E e w'.dir w'.mem) :
    Triple o P m Q E := by
  intro w pre
  cases run : m o w with
  | ok a w' => exact ok w a w' pre run
  | error e w' => exact error w e w' pre run

/-- What holds wherever `m` ends or stops. -/
theorem triple_world (h : Triple o P m (fun _ => I) fun _ => I) {w : World β μ}
    (pre : P w.dir w.mem) : I (world (m o w)).dir (world (m o w)).mem := by
  have post := h w pre
  cases run : m o w with
  | ok a w' => rw [run] at post; exact post
  | error e w' => rw [run] at post; exact post

theorem triple_conseq (h : Triple o P m Q E) (pre : ∀ d s, P' d s → P d s)
    (post : ∀ a d s, Q a d s → Q' a d s) (stop : ∀ e d s, E e d s → E' e d s) :
    Triple o P' m Q' E' :=
  triple_of (fun _ a _ start run => post a _ _ (triple_ok h (pre _ _ start) run))
    fun _ e _ start run => stop e _ _ (triple_error h (pre _ _ start) run)

theorem triple_pre (h : Triple o P m Q E) (pre : ∀ d s, P' d s → P d s) : Triple o P' m Q E :=
  triple_conseq h pre (fun _ _ _ => id) fun _ _ _ => id

/-- A precondition with a fact that does not depend on the world. -/
theorem triple_fact {p : Prop} (h : p → Triple o P m Q E) : Triple o (fun d s => p ∧ P d s) m Q E :=
  fun w pre => h pre.1 w pre.2

theorem triple_bind (first : Triple o P m Q E) (next : ∀ a, Triple o (Q a) (f a) R E) :
    Triple o P (m >>= f) R E := by
  intro w pre
  have head := first w pre
  show match EStateM.bind (m o) (fun a => f a o) w with
    | .ok a w' => R a w'.dir w'.mem
    | .error e w' => E e w'.dir w'.mem
  unfold EStateM.bind
  cases run : m o w with
  | ok a w' => rw [run] at head; exact next a w' head
  | error e w' => rw [run] at head; exact head

theorem triple_pure {a : α} (post : ∀ d s, P d s → Q a d s) : Triple o P (pure a) Q E :=
  fun _ pre => post _ _ pre

theorem triple_fail {e : IoError} (stop : ∀ d s, P d s → E (.io e) d s) :
    Triple o P (fail e : FileM β μ α) Q E :=
  fun _ pre => stop _ _ pre

theorem triple_recalled {Q : μ → Assertion β μ} (post : ∀ d s, P d s → Q s d s) :
    Triple o P recalled Q E :=
  fun _ pre => post _ _ pre

theorem triple_remember {s : μ} {Q : Unit → Assertion β μ} (post : ∀ d s', P d s' → Q () d s) :
    Triple o P (remember s) Q E :=
  fun _ pre => post _ _ pre

/-- An error caught is a value: what holds after it holds after the attempt. -/
theorem triple_attempt (h : Triple o P m Q E) :
    Triple o P (attempt m)
      (fun r => match r with | .ok a => Q a | .error e => E (.io e)) E := by
  intro w pre
  have inner := h w pre
  unfold attempt
  cases run : m o w with
  | ok a w' => rw [run] at inner; exact inner
  | error e w' => rw [run] at inner; cases e <;> exact inner

theorem keeps_attempt (h : Keeps o I m) : Keeps o I (attempt m) :=
  triple_conseq (triple_attempt h) (fun _ _ => id) (fun r _ _ post => by cases r <;> exact post)
    fun _ _ _ => id

/-- What is kept holds at the end, and may be weakened where the run stops. -/
theorem Keeps.triple {E : Assertion β μ} (h : Keeps o I m) (stop : ∀ d s, I d s → E d s) :
    Triple o I m (fun _ => I) fun _ => E :=
  triple_conseq h (fun _ _ => id) (fun _ _ _ => id) fun _ => stop

theorem keeps_bind (first : Keeps o I m) (next : ∀ a, Keeps o I (f a)) : Keeps o I (m >>= f) :=
  triple_bind first next

theorem triple_mapErr (g : IoError → IoError) (h : Triple o P m Q E)
    (stop : ∀ e d s, E (.io e) d s → E (.io (g e)) d s) : Triple o P (mapErr g m) Q E := by
  intro w pre
  have inner := h w pre
  unfold mapErr
  cases run : m o w with
  | ok a w' => rw [run] at inner; exact inner
  | error e w' =>
    rw [run] at inner
    cases e with
    | io e => exact stop e _ _ inner
    | crash => exact inner

theorem triple_ite {c : Prop} [Decidable c] {n : FileM β μ α}
    (yes : c → Triple o P m Q E) (no : ¬c → Triple o P n Q E) :
    Triple o P (if c then m else n) Q E := by
  by_cases h : c
  · rw [if_pos h]; exact yes h
  · rw [if_neg h]; exact no h

@[simp] theorem getElem?_move (d : Dir β) (src dst name : String) (b : β) :
    (move d src dst b)[name]? =
      if dst = name then some b else if src = name then none else d[name]? := by
  rw [move, BTreeMap.getElem?_insert_eq, BTreeMap.getElem?_erase_eq]

/-- Every step: done, it does what it does; failed or cut, only a write leaves a
trace. -/
theorem triple_perform {step : Step β} {act : Dir β → Except IoError (α × Dir β)}
    (done : ∀ d s a d', P d s → act d = .ok (a, d') → Q a d' s)
    (refused : ∀ d s e, P d s → act d = .error e → E (.io e) d s)
    (cut : ∀ e d s torn, P d s → (∀ k, e = .io k → k.kind ≠ .notFound) → E e (tear step torn d) s) :
    Triple o P (perform step act) Q E := by
  intro w pre
  unfold perform
  rcases o w.clock step with _ | ⟨again, text, torn⟩ | torn
  · cases made : act w.dir with
    | ok r => exact done _ _ _ _ pre made
    | error e => exact refused _ _ _ pre made
  · refine cut _ _ _ torn pre ?_
    rintro k ⟨rfl⟩
    cases again <;> simp
  · exact cut _ _ _ torn pre (by simp)

theorem triple_read {name : String} {Q : β → Assertion β μ}
    (found : ∀ d s b, P d s → d[name]? = some b → Q b d s)
    (gone : ∀ d s, P d s → d[name]? = none → E (.io missing) d s)
    (cut : ∀ e d s, P d s → (∀ k, e = .io k → k.kind ≠ .notFound) → E e d s) :
    Triple o P (read name) Q E := by
  refine triple_perform ?_ ?_ fun e d s _ => cut e d s
  · intro d s b d' pre made
    split at made
    · cases made; exact found _ _ _ pre ‹_›
    · cases made
  · intro d s e pre made
    split at made
    · cases made
    · cases made; exact gone _ _ pre ‹_›

theorem triple_write {name : String} {bytes : β} {Q : Unit → Assertion β μ}
    (done : ∀ d s, P d s → Q () (d.insert name bytes) s)
    (cut : ∀ e d s, P d s → E e d s) (torn : ∀ e d s b, P d s → E e (d.insert name b) s) :
    Triple o P (write name bytes) Q E := by
  refine triple_perform ?_ ?_ ?_
  · rintro d s _ _ pre ⟨⟩
    exact done _ _ pre
  · rintro d s e pre ⟨⟩
  · intro e d s left pre _
    cases left with
    | none => exact cut _ _ _ pre
    | some b => exact torn _ _ _ _ pre

theorem triple_rename {src dst : String} {Q : Unit → Assertion β μ}
    (done : ∀ d s b, P d s → d[src]? = some b → Q () (move d src dst b) s)
    (cut : ∀ e d s, P d s → E e d s) : Triple o P (rename src dst) Q E := by
  refine triple_perform ?_ ?_ fun e d s _ pre _ => cut e d s pre
  · intro d s b d' pre made
    split at made
    · cases made; exact done _ _ _ pre ‹_›
    · cases made
  · intro d s e pre _
    exact cut _ _ _ pre

theorem triple_remove {name : String} {Q : Unit → Assertion β μ}
    (done : ∀ d s, P d s → Q () (d.erase name) s)
    (cut : ∀ e d s, P d s → E e d s) : Triple o P (remove name) Q E := by
  refine triple_perform ?_ ?_ fun e d s _ pre _ => cut e d s pre
  · intro d s b d' pre made
    split at made
    · cases made; exact done _ _ pre
    · cases made
  · intro d s e pre _
    exact cut _ _ _ pre

theorem triple_isThere {name : String} {Q : Bool → Assertion β μ}
    (done : ∀ d s, P d s → Q (d.contains name) d s)
    (cut : ∀ e d s, P d s → E e d s) : Triple o P (isThere name) Q E := by
  refine triple_perform ?_ ?_ fun e d s _ pre _ => cut e d s pre
  · rintro d s _ _ pre ⟨⟩
    exact done _ _ pre
  · rintro d s e pre ⟨⟩

theorem triple_list {Q : List String → Assertion β μ}
    (done : ∀ d s, P d s → Q d.keys d s)
    (cut : ∀ e d s, P d s → E e d s) : Triple o P list Q E := by
  refine triple_perform ?_ ?_ fun e d s _ pre _ => cut e d s pre
  · rintro d s _ _ pre ⟨⟩
    exact done _ _ pre
  · rintro d s e pre ⟨⟩

theorem triple_syncFile {name : String} {Q : Unit → Assertion β μ}
    (done : ∀ d s b, P d s → d[name]? = some b → Q () d s)
    (cut : ∀ e d s, P d s → E e d s) : Triple o P (syncFile name) Q E := by
  refine triple_perform ?_ ?_ fun e d s _ pre _ => cut e d s pre
  · intro d s b d' pre made
    split at made
    · rename_i there
      cases made
      rw [ExtTreeMap.contains_eq_isSome_getElem?] at there
      obtain ⟨b, held⟩ := Option.isSome_iff_exists.mp there
      exact done _ _ b pre held
    · cases made
  · intro d s e pre _
    exact cut _ _ _ pre

theorem triple_syncDir {Q : Unit → Assertion β μ} (done : ∀ d s, P d s → Q () d s)
    (cut : ∀ e d s, P d s → E e d s) : Triple o P syncDir Q E := by
  refine triple_perform ?_ ?_ fun e d s _ pre _ => cut e d s pre
  · rintro d s _ _ pre ⟨⟩
    exact done _ _ pre
  · rintro d s e pre ⟨⟩

/-- Every read of `name` that ends succeeds. -/
def Readable (o : Oracle β) (name : String) : Prop :=
  ∀ t, o t (.read name) = .done ∨ ∃ torn, o t (.read name) = .crash torn

/-- No read of `name` succeeds. -/
def Unreadable (o : Oracle β) (name : String) : Prop := ∀ t, o t (.read name) ≠ .done

/-- Every listing that ends succeeds. -/
def Listable (o : Oracle β) : Prop := ∀ t, o t .list = .done ∨ ∃ torn, o t .list = .crash torn

/-- In the directory `d`, `m` changes nothing, ends as `R` says, and only a crash
stops it. -/
def Looks (o : Oracle β) (d : Dir β) (m : FileM β μ α) (R : α → Prop) : Prop :=
  ∀ s, Triple o (fun d' s' => d' = d ∧ s' = s) m (fun a d' s' => (d' = d ∧ s' = s) ∧ R a)
    fun e d' s' => (d' = d ∧ s' = s) ∧ e = .crash

variable {d : Dir β} {A B : α → Prop} {C : γ → Prop}

theorem looks_pure {a : α} (holds : A a) : Looks o d (pure a : FileM β μ α) A :=
  fun _ => triple_pure fun _ _ same => ⟨same, holds⟩

theorem looks_bind (first : Looks o d m A) (next : ∀ a, A a → Looks o d (f a) C) :
    Looks o d (m >>= f) C := by
  intro s
  refine triple_bind (first s) fun a w pre => ?_
  exact next a pre.2 s w pre.1

theorem looks_mono (h : Looks o d m A) (weaker : ∀ a, A a → B a) : Looks o d m B :=
  fun s => triple_conseq (h s) (fun _ _ => id) (fun _ _ _ post => ⟨post.1, weaker _ post.2⟩)
    fun _ _ _ => id

theorem looks_ite {c : Prop} [Decidable c] {n : FileM β μ α} (yes : c → Looks o d m A)
    (no : ¬c → Looks o d n A) : Looks o d (if c then m else n) A := by
  by_cases h : c
  · rw [if_pos h]; exact yes h
  · rw [if_neg h]; exact no h

/-- What a look that ended found. -/
theorem looks_ok (h : Looks o d m A) {w w' : World β μ} {a : α} (here : w.dir = d)
    (run : m o w = .ok a w') : (w'.dir = d ∧ w'.mem = w.mem) ∧ A a :=
  triple_ok (h w.mem) ⟨here, rfl⟩ run

/-- A look followed by anything: what it found is known, and the directory is as it was. -/
theorem triple_look {I : Assertion β μ} {A : Dir β → α → Prop}
    (look : ∀ d s, I d s → Looks o d m (A d))
    (next : ∀ a, Triple o (fun d s => I d s ∧ A d a) (f a) R E)
    (stop : ∀ d s, I d s → E .crash d s) : Triple o I (m >>= f) R E := by
  refine triple_bind (Q := fun a d s => I d s ∧ A d a) ?_ next
  refine triple_of (fun w a w' pre run => ?_) fun w e w' pre run => ?_
  · obtain ⟨⟨dir, mem⟩, found⟩ := looks_ok (look w.dir w.mem pre) rfl run
    rw [dir, mem]
    exact ⟨pre, found⟩
  · obtain ⟨⟨dir, mem⟩, rfl⟩ := triple_error (look w.dir w.mem pre w.mem) ⟨rfl, rfl⟩ run
    rw [dir, mem]
    exact stop _ _ pre

/-- A caught result can be mapped after it is caught. -/
theorem attempt_map (g : α → γ) :
    attempt (m >>= fun a => pure (g a)) = attempt m >>= fun r => pure (r.map g) := by
  funext o w
  simp only [attempt, bind, ReaderT.bind, EStateM.bind, pure, ReaderT.pure, EStateM.pure]
  cases m o w with
  | ok a w' => rfl
  | error e w' => cases e <;> rfl

theorem looks_attempt_map {A : Except IoError α → Prop} (g : α → γ) (h : Looks o d (attempt m) A) :
    Looks o d (attempt (m >>= fun a => pure (g a))) fun r => ∃ r', A r' ∧ r = r'.map g := by
  rw [attempt_map]
  exact looks_bind h fun r holds => looks_pure ⟨r, holds, rfl⟩

/-- What reading a file gives: its bytes, that it is not there, or an error when not
every read of it succeeds. -/
def Found (o : Oracle β) (d : Dir β) (name : String) : Except IoError β → Prop
  | .ok b => d[name]? = some b ∧ ¬Unreadable o name
  | .error e =>
    e.kind = .notFound ∧ d[name]? = none ∧ ¬Unreadable o name ∨
      e.kind ≠ .notFound ∧ ¬Readable o name

theorem looks_read (name : String) : Looks o d (attempt (read name) : FileM β μ _) (Found o d name) := by
  rintro s w ⟨rfl, rfl⟩
  unfold attempt read perform
  cases fate : o w.clock (.read name) with
  | done =>
    have can : ¬Unreadable o name := fun never => never w.clock fate
    dsimp only
    cases held : w.dir[name]? with
    | none => exact ⟨⟨rfl, rfl⟩, .inl ⟨rfl, held, can⟩⟩
    | some b => exact ⟨⟨rfl, rfl⟩, held, can⟩
  | failed again text torn =>
    refine ⟨⟨rfl, rfl⟩, .inr ⟨by cases again <;> simp, fun always => ?_⟩⟩
    simpa [fate] using always w.clock
  | crash torn => exact ⟨⟨rfl, rfl⟩, rfl⟩

/-- What listing the directory gives. -/
def Listed (o : Oracle β) (d : Dir β) : Except IoError (List String) → Prop
  | .ok names => names = d.keys
  | .error _ => ¬Listable o

theorem looks_list : Looks o d (attempt list : FileM β μ _) (Listed o d) := by
  rintro s w ⟨rfl, rfl⟩
  unfold attempt list perform
  cases fate : o w.clock .list with
  | done => exact ⟨⟨rfl, rfl⟩, rfl⟩
  | failed again text torn =>
    refine ⟨⟨rfl, rfl⟩, fun always => ?_⟩
    simpa [fate] using always w.clock
  | crash torn => exact ⟨⟨rfl, rfl⟩, rfl⟩

end

end IemMixer.Lib.Files
