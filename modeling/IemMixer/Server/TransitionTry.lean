import IemMixer.Server.TransitionStates

/-! One try of a transition, whatever becomes of its steps. -/
namespace IemMixer.Server
open Lib Lib.Process Proto IemMixer.Core

section
variable [Libm] [Sha256]

section
variable {j : Job} {s n : MixState} {record : Option Running → Prop} {stored : BTreeMap String MixerBackup → Prop}
  {frozen : Bool} {o : Oracle RosterOp Fate} (legible : Legible o)
include legible

omit [Sha256] in
/-- Whether the import went in, once the engine answers. -/
theorem waits_landed {ε : Type} {E : Halt ε → Assertion World} (own : n.peq n = true) (apart : s.peq n = false)
    (stop : ∀ w, Waits j s n record stored frozen w → E .stopped w) (tries : ℕ) :
    Triple o (Waits j s n record stored frozen) (landed n tries)
      (fun went w => (went = true ∧ At j n record stored frozen w) ∨ (went = false ∧ At j s record stored frozen w)) E := by
  induction tries with
  | zero => exact fun w here => stop _ here
  | succ tries ih =>
    unfold landed
    refine triple_bind (triple_relabel (lasting_waitSynced legible.awake (lasting_waits ..) stop)) fun _ => ?_
    refine triple_bind (triple_attempt (triple_relabel (waits_ping legible.awake)) stop) fun answer => ?_
    cases answer with
    | error _ => exact ih
    | ok _ =>
      refine triple_bind (Q := fun seen w => (seen.state = s ∧ At j s record stored frozen w) ∨
        (seen.state = n ∧ At j n record stored frozen w)) (triple_or ?_ ?_) fun seen => ?_
      · exact triple_relabel (lasting_mirror legible.awake (lasting_at ..) (fun w here => .inl ⟨here.1.shows, here⟩)
          fun w here => stop w (here.waits n))
      · refine triple_relabel (lasting_mirror legible.awake (lasting_at ..) (fun w here => .inr ⟨here.1.shows, here⟩) ?_)
        exact fun w here => stop w (here.arrived s)
      · refine triple_pure ?_
        rintro w (⟨shown, here⟩ | ⟨shown, here⟩)
        · exact .inr ⟨shown ▸ apart, here⟩
        · exact .inl ⟨shown ▸ own, here⟩

omit [Sha256] in
theorem at_sendImport {tries : ℕ} (shaped : (Proto.reconcile j.topo.info n).1 = n) (own : n.peq n = true)
    (apart : s.peq n = false) :
    Triple o (At j s record stored frozen) (sendImport tries j.active n) (fun _ => At j n record stored frozen)
      fun e w => match e with
        | .stopped => Waits j s n record stored frozen w
        | .error _ => At j s record stored frozen w := by
  unfold sendImport
  refine triple_bind (triple_attempt (triple_relabel (at_import legible.awake shaped)) fun _ => id) fun answer => ?_
  cases answer with
  | ok _ => exact triple_pure fun _ => id
  | error e =>
    have lost : ∀ e : EngineError, Triple o (Waits j s n record stored frozen)
        (do if !(← landed n tries) then fail (EngineError.untaken j.active e)) (fun _ => At j n record stored frozen)
        fun e w => match e with
          | .stopped => Waits j s n record stored frozen w
          | .error _ => At j s record stored frozen w := by
      intro e
      refine triple_bind (waits_landed legible own apart (fun _ => id) tries) fun went => ?_
      cases went with
      | true =>
        refine triple_pure ?_
        rintro w (⟨-, here⟩ | ⟨false, -⟩)
        · exact here
        · cases false
      | false =>
        refine triple_fail ?_
        rintro w (⟨false, -⟩ | ⟨-, here⟩)
        · cases false
        · exact here
    cases e with
    | refused body => exact triple_fail fun _ => id
    | _ => exact lost _

end

/-- Of a state `s` and what is `known` of it, while it goes over to following the roster: which
state the engine may hold, and what is known of that. -/
inductive Place (j : Job) (s : MixState) (known : Option String × BTreeSet String) :
    MixState → Option String × BTreeSet String → Prop where
  | before : Place j s known s known
  | after : Place j s known (j.next s known).1 (j.settled s known)
  /-- It follows already, but for its record. -/
  | equal (same : (j.next s known).1.peq s = true) : Place j s known s (j.settled s known)

/-- The same once it follows. -/
inductive Came (j : Job) (s : MixState) (known : Option String × BTreeSet String) :
    MixState → Option String × BTreeSet String → Prop where
  | after : Came j s known (j.next s known).1 (j.settled s known)
  | equal (same : (j.next s known).1.peq s = true) : Came j s known s (j.settled s known)
  /-- The record could not be written. -/
  | unnoted (same : (j.next s known).1.peq s = true) : Came j s known s known

/-- Wherever the server stops: the record tells of the state in the engine which it is. -/
structure Loose (j : Job) (s : MixState) (known : Option String × BTreeSet String) (m : BTreeMap String MixerBackup)
    (w : World) : Prop where
  under : ∃ own, w.desk.Under j.topo own ∧ ∀ whose state, own whose state →
    whose = j.active ∧ Place j s known state (told j.active state w.store.running)
  site : ∀ t, w.desk.mirror.topology = some t → t = j.topo.info
  rosters : w.store.rosters = j.kept
  states : Mixed j m w.store.states
  intent : w.store.intent = none

section
variable {j : Job} {s s' : MixState} {known known' : Option String × BTreeSet String} {m : BTreeMap String MixerBackup}
  {frozen : Bool} {w : World}

theorem At.loose (here : At j s' (Tells j s' known') (Mixed j m) frozen w) (place : Place j s known s' known') :
    Loose j s known m w := by
  refine ⟨⟨fun whose state => whose = j.active ∧ state = s', here.1.holds _ ⟨rfl, rfl⟩, ?_⟩, here.1.site, here.2.rosters,
    here.2.stored, here.2.intent⟩
  rintro whose state ⟨rfl, rfl⟩
  have tells := here.2.record
  unfold Tells at tells
  rw [tells]
  exact ⟨rfl, place⟩

/-- Of either state the record tells what follows. -/
def TellsBoth (j : Job) (s : MixState) (known : Option String × BTreeSet String) (r : Option Running) : Prop :=
  Tells j s known r ∧ Tells j (j.next s known).1 (j.settled s known) r

theorem Waits.loose (here : Waits j s (j.next s known).1 (TellsBoth j s known) (Mixed j m) frozen w) :
    Loose j s known m w := by
  obtain ⟨⟨under, site⟩, files⟩ := here
  refine ⟨⟨_, under, ?_⟩, site, files.rosters, files.stored, files.intent⟩
  rintro whose state ⟨rfl, rfl | rfl⟩
  · rw [files.record.1]
    exact ⟨rfl, .before⟩
  · rw [files.record.2]
    exact ⟨rfl, .after⟩

omit [Libm] [Sha256] in
theorem Came.place (came : Came j s known s' known') : Place j s known s' known' := by
  cases came with
  | after => exact .after
  | equal same => exact .equal same
  | unnoted same => exact .before

omit [Libm] [Sha256] in
/-- A state that went over goes over to itself. -/
theorem Place.again (place : Place j s known s' known') (fixed : (Proto.reconcile j.topo.info s).1 = s) :
    s' = s ∧ known' = known ∨
      Came j s known s' known' ∧ (j.next s' known').1 = s' ∧ j.settled s' known' = known' := by
  have still : ∀ t, t = (j.next s known).1 ∨ (j.next s known).1.peq t = true ∧ (Proto.reconcile j.topo.info t).1 = t →
      (j.next t (j.settled s known)).1 = t ∧ j.settled t (j.settled s known) = j.settled s known := by
    intro t held
    have again := j.next_again s known held
    refine ⟨congrArg Prod.fst again, ?_⟩
    unfold Job.settled at again ⊢
    rw [again]
  cases place with
  | before => exact .inl ⟨rfl, rfl⟩
  | after => exact .inr ⟨.after, still _ (.inl rfl)⟩
  | equal same => exact .inr ⟨.equal same, still _ (.inr ⟨same, fixed⟩)⟩

section
variable {s'' : MixState} {known'' : Option String × BTreeSet String}

omit [Libm] [Sha256] in
/-- Where a try comes to from what an earlier one left. -/
theorem Place.came (place : Place j s known s' known') (fixed : (Proto.reconcile j.topo.info s).1 = s)
    (came : Came j s' known' s'' known'') : Came j s known s'' known'' := by
  rcases place.again fixed with ⟨rfl, rfl⟩ | ⟨here, still, told⟩
  · exact came
  · cases came with
    | after =>
      rw [still, told]
      exact here
    | equal same =>
      rw [told]
      exact here
    | unnoted same => exact here

omit [Libm] [Sha256] in
theorem Place.trans (place : Place j s known s' known') (fixed : (Proto.reconcile j.topo.info s).1 = s)
    (later : Place j s' known' s'' known'') : Place j s known s'' known'' := by
  cases later with
  | before => exact place
  | after => exact (place.came fixed .after).place
  | equal same => exact (place.came fixed (.equal same)).place

end

end

section
variable {j : Job} {s : MixState} {known : Option String × BTreeSet String} {stored : BTreeMap String MixerBackup → Prop}
  {frozen : Bool} {w : World}

omit [Libm] [Sha256] in
/-- What the engine plays compares equal to itself. -/
theorem next_own (j : Job) (s : MixState) (known : Option String × BTreeSet String) :
    (j.next s known).1.peq (j.next s known).1 = true :=
  MixState.peq_self (ok_of_shaped (shaped_follow j.topo.info s known.2 (j.base known.1)))

omit [Libm] in
/-- The record while an import is under way, by which state the engine holds. -/
theorem tells_pending (fresh : stateDigest (j.next s known).1 = stateDigest s → (j.next s known).1 = s)
    (apart : (j.next s known).1 ≠ s) (r : Running)
    (is : r = { lineup := j.active, follows := known.1, silenced := known.2, pending := some {
      follows := j.newSha, silenced := (j.next s known).2, digest := stateDigest (j.next s known).1 } }) :
    TellsBoth j s known (some r) := by
  subst is
  constructor
  · unfold Tells
    rw [told_pending, if_neg fun same => apart (fresh same)]
  · unfold Tells
    rw [told_pending, if_pos rfl]
    rfl

variable {o : Oracle RosterOp Fate} (legible : Legible o)
include legible

theorem at_bring {tries : ℕ} (fresh : stateDigest (j.next s known).1 = stateDigest s → (j.next s known).1 = s)
    (apart : s.peq (j.next s known).1 = false) :
    Triple o (At j s (Tells j s known) stored frozen)
      (bring tries j.newSha (j.next s known).1 { lineup := j.active, follows := known.1, silenced := known.2 }
        { lineup := j.active, follows := some j.newSha, silenced := (j.next s known).2 })
      (fun r w => r = { lineup := j.active, follows := some j.newSha, silenced := (j.next s known).2 } ∧
        At j (j.next s known).1 (Tells j (j.next s known).1 (j.settled s known)) stored frozen w)
      fun e w => match e with
        | .stopped => Waits j s (j.next s known).1 (TellsBoth j s known) stored frozen w ∨
            At j s (Tells j s known) stored frozen w
        | .error _ => At j s (Tells j s known) stored frozen w := by
  have other : (j.next s known).1 ≠ s := by
    intro same
    have own := next_own j s known
    rw [same] at own apart
    rw [own] at apart
    cases apart
  unfold bring
  refine triple_bind (triple_attempt (E := fun e w => match e with
      | .stopped => At j s (Tells j s known) stored frozen w
      | .error _ => At j s (Tells j s known) stored frozen w)
    (Q := fun _ => At j s (TellsBoth j s known) stored frozen) ?_ fun _ => .inr) fun result => ?_
  · refine triple_relabel (lasting_file legible.awake (lasting_at ..) ?_ (fun _ _ _ _ => id) fun _ => id)
    exact fun w here => ⟨here.1, here.2.noted (tells_pending fresh other _ rfl)⟩
  · cases result with
    | error kind => exact triple_fail fun _ => id
    | ok _ =>
      refine triple_bind (triple_attempt (at_sendImport legible (shaped_follow ..) (next_own j s known) apart)
        fun _ => .inl) fun answer => ?_
      cases answer with
      | ok _ => exact triple_pure fun w here => ⟨rfl, here.weaken fun _ => And.right⟩
      | error why =>
        refine triple_bind (Q := fun _ => At j s (Tells j s known) stored frozen) ?_ fun _ => triple_fail fun _ => id
        refine triple_relabel (at_noteRunning legible.awake (fun _ => And.left) ?_ fun _ => .inr)
        exact told_plain ..

omit legible in
/-- The running state follows, and its record tells so, or could not be written. -/
def Noted (j : Job) (s : MixState) (known : Option String × BTreeSet String) (s' : MixState) (r : Option Running) : Prop :=
  Tells j s' (j.settled s known) r ∨ s' = s ∧ (j.next s known).1.peq s = true ∧ Tells j s known r

omit legible in
theorem At.came {s' : MixState} (here : At j s' (Noted j s known s') stored frozen w)
    (came : Came j s known s' (j.settled s known)) :
    ∃ known', Came j s known s' known' ∧ At j s' (Tells j s' known') stored frozen w := by
  rcases here.2.record with after | ⟨rfl, same, before⟩
  · exact ⟨_, came, here.recorded after⟩
  · exact ⟨known, .unnoted same, here.recorded before⟩

/-- The running state goes over where it has to. -/
theorem at_settle {tries : ℕ} (fresh : stateDigest (j.next s known).1 = stateDigest s → (j.next s known).1 = s) :
    Triple o (At j s (Tells j s known) stored frozen)
      (if (j.next s known).1.peq s = true then
          pure { lineup := j.active, follows := some j.newSha, silenced := (j.next s known).2 }
        else bring tries j.newSha (j.next s known).1 { lineup := j.active, follows := known.1, silenced := known.2 }
          { lineup := j.active, follows := some j.newSha, silenced := (j.next s known).2 })
      (fun r w => r = { lineup := j.active, follows := some j.newSha, silenced := (j.next s known).2 } ∧
        ∃ s', Came j s known s' (j.settled s known) ∧ At j s' (Noted j s known s') stored frozen w)
      fun e w => match e with
        | .stopped => Waits j s (j.next s known).1 (TellsBoth j s known) stored frozen w ∨
            At j s (Tells j s known) stored frozen w
        | .error _ => At j s (Tells j s known) stored frozen w := by
  refine triple_ite (fun same => ?_) fun differs => ?_
  · exact triple_pure fun w here => ⟨rfl, s, .equal same, here.weaken fun r tells => .inr ⟨rfl, same, tells⟩⟩
  · have apart : s.peq (j.next s known).1 = false := by
      rw [MixState.peq_comm]
      exact Bool.eq_false_iff.mpr differs
    refine triple_conseq (at_bring legible fresh apart) (fun _ => id) ?_ fun _ _ => id
    exact fun r w ⟨same, here⟩ => ⟨same, _, .after, here.weaken fun _ => .inl⟩

end

section
variable {j : Job} {s : MixState} {known : Option String × BTreeSet String} {m : BTreeMap String MixerBackup}

/-- How a try that began on `s` ends short of its end. -/
def Broken (o : Oracle RosterOp Fate) (j : Job) (s : MixState) (known : Option String × BTreeSet String)
    (m : BTreeMap String MixerBackup) : Halt Untaken → Assertion World
  | .stopped, w => Loose j s known m w
  | .error _, w => At j s (Tells j s known) (Restored o j m) false w

/-- How it ends. -/
def Ended (j : Job) (s : MixState) (known : Option String × BTreeSet String) (m : BTreeMap String MixerBackup)
    (t : Transition) (w : World) : Prop :=
  ∃ s' known', Came j s known s' known' ∧ At j s' (Tells j s' known') (Went j m) t.frozen.isSome w

variable {o : Oracle RosterOp Fate} (legible : Legible o)
include legible

theorem triple_transition {P : Assertion World}
    {Q : MixState → Option String × BTreeSet String → BTreeMap String MixerBackup → Prop} (lasting : Lasting P)
    (thawed : ∀ w, P w → w.frozen = false)
    (shown : ∀ w, P w → w.desk.mirror.synced = true →
      ∃ s known m, Q s known m ∧ At j s (Tells j s known) (· = m) false w)
    (fresh : ∀ s known m, Q s known m → stateDigest (j.next s known).1 = stateDigest s → (j.next s known).1 = s)
    (tries : ℕ) :
    Triple o P (transition tries j.follows j.new j.newSha j.active)
      (fun t w => ∃ s known m, Q s known m ∧ Ended j s known m t w)
      fun e w => P w ∨ ∃ s known m, Q s known m ∧ Broken o j s known m e w := by
  have awake := legible.awake
  unfold transition
  rw [show j.new.lineup j.active = some j.lineup from j.found]
  simp only
  refine triple_bind (Q := fun frozen w => frozen = false ∧ P w) (triple_look fun w here => ⟨thawed w here, here⟩)
    fun frozen => triple_fact fun off => ?_
  simp only [off, Bool.false_eq_true, if_false]
  refine triple_bind (Q := fun seen w => P w ∧ (seen.synced = true →
      ∃ s known m, Q s known m ∧ seen.topology = w.desk.mirror.topology ∧ At j s (Tells j s known) (· = m) false w)) ?_
    fun seen => ?_
  · refine triple_relabel (lasting_mirror awake lasting (fun w here => ⟨here, fun synced => ?_⟩) fun w here => .inl here)
    obtain ⟨s, known, m, is, here⟩ := shown w here synced
    exact ⟨s, known, m, is, rfl, here⟩
  cases filtered : seen.topology.filter fun _ => seen.synced with
  | none => exact triple_fail fun w here => .inl here.1
  | some topology =>
    obtain ⟨site, synced⟩ := Option.filter_eq_some_iff.mp filtered
    simp only
    refine triple_pre (P := fun w => ∃ s known m, Q s known m ∧ topology = j.topo.info ∧
      At j s (Tells j s known) (· = m) false w) ?_ ?_
    · refine triple_exists fun s => triple_exists fun known => triple_exists fun m => triple_fact fun is => ?_
      refine triple_fact fun same => ?_
      subst same
      refine triple_conseq (Q := Ended j s known m) (E := Broken o j s known m) ?_ (fun _ => id)
        (fun t w ended => ⟨s, known, m, is, ended⟩) fun e w broken => .inr ⟨s, known, m, is, broken⟩
      have cut : ∀ {stored : BTreeMap String MixerBackup → Prop} {frozen : Bool}, (∀ m', stored m' → Mixed j m m') →
          ∀ w, At j s (Tells j s known) stored frozen w → Loose j s known m w := fun mixed w here =>
        (here.restate mixed).loose .before
      have still : ∀ m', m' = m → Mixed j m m' := fun m' same id => .inl (by rw [same])
      have plain : ∀ (e : Halt Untaken) w, At j s (Tells j s known) (· = m) false w → Broken o j s known m e w := by
        intro e w here
        cases e with
        | stopped => exact cut still w here
        | error _ => exact here.restate fun m' same id => .inl (by rw [same])
      refine triple_bind (Q := fun seen w => (seen.state = s ∧ (Proto.reconcile j.topo.info s).1 = s) ∧
        At j s (Tells j s known) (· = m) false w) ?_ fun seen => ?_
      · refine triple_relabel (lasting_mirror awake (lasting_at ..) ?_ (cut still))
        exact fun w here => ⟨⟨here.1.shows, here.1.fixed⟩, here⟩
      refine triple_fact fun shows => ?_
      rw [shows.1]
      refine triple_bind (triple_relabel (at_runningFor awake legible.running (cut still))) fun k => triple_fact fun told => ?_
      subst told
      refine triple_bind (triple_learn legible (learns_start j) (lasting_at ..) (fun w here => here.2.rosters) (cut still))
        fun f => triple_fact fun learned => ?_
      obtain ⟨learns, covers, -⟩ := learned
      refine triple_bind (triple_conseq (triple_storedStates legible (lasting_at ..) (fun w here => here.2.rosters)
        (fun w here => here.2.stored) j.others learns) (fun _ => id) (fun _ _ => id) plain) fun read =>
          triple_fact fun found => ?_
      obtain ⟨-, more, covered, all⟩ := found
      have base : read.1.baseOf k.1 j.newSha = j.base k.1 := more _ covers
      have sets : Std.ExtTreeSet.ofList (j.follows.sets ++ j.new.sets.toList) compare = j.sets := rfl
      rw [base, sets, planned_read covered all]
      generalize Option.map (fun f => (moves f j.new j.active).length) (j.base k.1) = moved
      have whole : j.planned m = j.planned m ++ [] := (List.append_nil _).symm
      refine triple_bind (Q := fun seen w => seen.state = s ∧ At j s (Tells j s k) (· = m) false w) ?_ fun seen => ?_
      · exact triple_relabel (lasting_mirror awake (lasting_at ..) (fun w here => ⟨here.1.shows, here⟩) (cut still))
      refine triple_fact fun shown => ?_
      have next : follow s k.2 (j.base k.1) j.new j.sets j.lineup (some j.topo.info) = j.next s k := rfl
      rw [shown, next, shows.2]
      have write : ∀ frozen, Triple o (At j s (Tells j s k) (· = m) frozen) (writePlanned [] (j.planned m))
          (fun _ => At j s (Tells j s k) (Wrote m (j.planned m)) frozen) fun e w => match e with
            | .stopped => At j s (Tells j s k) (Mixed j m) frozen w
            | .error _ => At j s (Tells j s k) (Restored o j m) frozen w := fun frozen =>
        triple_pre (at_writePlanned legible rfl) fun w here => here.restate fun m' same id => by simp [same]
      have noted : ∀ {s' : MixState} {frozen : Bool} w, At j s' (Noted j s k s') (Wrote m (j.planned m)) frozen w →
          Came j s k s' (j.settled s k) → Loose j s k m w := by
        intro s' frozen w here came
        obtain ⟨known', came, here⟩ := here.came came
        exact (here.restate fun _ wrote => wrote.mixed whole).loose came.place
      refine triple_ite (fun settled => ?_) fun _ => ?_
      · have same := (Bool.and_eq_true_iff.mp settled).1
        refine triple_bind (triple_conseq (write false) (fun _ => id) (fun _ _ => id) ?_) fun _ => ?_
        · intro e w here
          cases e with
          | stopped => exact here.loose .before
          | error _ => exact here
        refine triple_bind (Q := fun _ => At j s (Noted j s k s) (Wrote m (j.planned m)) false) ?_
          fun _ => triple_pure fun w here => ?_
        · exact triple_relabel (at_noteRunning awake (fun r tells => .inr ⟨rfl, same, tells⟩) (.inl (told_plain ..))
            fun w here => noted w here (.equal same))
        · obtain ⟨known', came, here⟩ := here.came (.equal same)
          exact ⟨s, known', came, here.restate fun _ => Wrote.went⟩
      · refine triple_bind (triple_mapErr (EngineError.untaken j.active) (triple_relabel (at_freeze awake)) ?_ fun _ => plain _)
          fun was => triple_fact fun off => ?_
        · rintro w ⟨frozen, here⟩
          exact cut still w here
        subst off
        refine triple_bind (triple_attempt (write true) fun w here => here.loose .before) fun written => ?_
        cases written with
        | error why =>
          refine triple_bind (Q := fun _ => At j s (Tells j s k) (Restored o j m) false)
            (triple_relabel (triple_change fun w here => here.frost false)) fun _ => triple_fail fun _ => id
        | ok _ =>
          refine triple_bind (Q := fun seen w => seen.state = s ∧ At j s (Tells j s k) (Wrote m (j.planned m)) true w) ?_
            fun seen => triple_fact fun shown => ?_
          · exact triple_relabel (lasting_mirror awake (lasting_at ..) (fun w here => ⟨here.1.shows, here⟩)
              (cut fun _ wrote => wrote.mixed whole))
          simp only [shown, next, shows.2]
          refine triple_bind (triple_attempt (E := fun e w => match e with
              | .stopped => Loose j s k m w
              | .error _ => At j s (Tells j s k) (Wrote m (j.planned m)) true w)
            (Q := fun r w => r = { lineup := j.active, follows := some j.newSha, silenced := (j.next s k).2 } ∧
              ∃ s', Came j s k s' (j.settled s k) ∧ At j s' (Noted j s k s') (Wrote m (j.planned m)) true w) ?_ fun _ => id)
            fun taken => ?_
          · refine triple_unless (fun _ w here => here) fun _ => ?_
            refine triple_conseq (at_settle legible (fresh s k m is)) (fun _ => id) (fun _ _ => id) fun e w here => ?_
            cases e with
            | error _ => exact here
            | stopped =>
              rcases here with waits | here
              · exact (waits.restate fun _ wrote => wrote.mixed whole).loose
              · exact cut (fun _ wrote => wrote.mixed whole) w here
          · cases taken with
            | error why =>
              refine triple_bind (at_undo legible whole fun w here => here.loose .before) fun _ => ?_
              refine triple_bind (Q := fun _ => At j s (Tells j s k) (Restored o j m) false)
                (triple_relabel (triple_change fun w here => here.frost false)) fun _ => triple_fail fun _ => id
            | ok running =>
              refine triple_fact fun same => triple_exists fun s' => triple_fact fun came => ?_
              subst same
              have loose : ∀ w, At j s' (Noted j s k s') (Wrote m (j.planned m)) true w → Loose j s k m w :=
                fun w here => noted w here came
              refine triple_bind (triple_relabel (at_noteRunning awake (fun _ => id) (.inl (told_plain ..)) loose))
                fun _ => ?_
              refine triple_bind (triple_relabel (at_endSolos awake _ loose)) fun _ => triple_pure fun w here => ?_
              obtain ⟨known', came, here⟩ := here.came came
              exact ⟨s', known', came, here.restate fun _ => Wrote.went⟩
    · rintro w ⟨-, here⟩
      obtain ⟨s, known, m, is, shown, here⟩ := here synced
      exact ⟨s, known, m, is, here.1.site topology (shown ▸ site), here⟩

end

end

end IemMixer.Server
