import IemMixer.Server.DeskProofs
import IemMixer.Server.Switch

/-! A switch from its intent to its end, and its replay: what each step leaves, whatever
becomes of it. Two assertions carry it: the switch is recorded and the lineup before is the
active one, with either lineup's state in the engine, or the target is the active one and
the engine holds its state. -/
namespace IemMixer.Server
open Lib Lib.Process Proto IemMixer.Core

/-- Steps that may fail: the writes but the intent's end, the running record's, and what
the engine is asked. -/
def Op.mayFail : Op → Bool
  | .readActive | .readIntent | .clearIntent | .readState _ => false
  | _ => true

/-- The engine does not start anew, and the files that tell how far a switch came can be
read, its intent removed. -/
structure Steady (o : Oracle Op Fate) : Prop where
  awake : Awake o
  reads : ∀ t op kind, op.mayFail = false → (o t op).ending ≠ .failed kind

section
variable [Libm]
variable {o : Oracle Op Fate} {P Q : Assertion World} {α ε : Type} {E : Halt ε → Assertion World}

theorem Stable.and (hp : Stable P) (hq : Stable Q) : Stable fun w => P w ∧ Q w :=
  fun w desk goes both => ⟨hp w desk goes both.1, hq w desk goes both.2⟩

theorem stable_under (topo : Topology) (own : String → MixState → Prop) :
    Stable fun w => w.desk.Under topo own :=
  fun _ _ goes under => under.goes goes

/-- Says nothing of the running record. -/
def Blind (P : Assertion World) : Prop :=
  ∀ w running, P w → P { w with store := { w.store with running } }

omit [Libm] in
theorem Blind.and (hp : Blind P) (hq : Blind Q) : Blind fun w => P w ∧ Q w :=
  fun w running both => ⟨hp w running both.1, hq w running both.2⟩

section
variable (awake : Awake o)
include awake

theorem triple_noteRunning {running : Running} (stable : Stable P) (blind : Blind P)
    (stop : ∀ w, P w → E .stopped w) : Triple o P (noteRunning running) (fun _ => P) E := by
  unfold noteRunning
  refine triple_bind (triple_attempt (E := fun _ => P) (Q := fun _ => P) ?_ stop) ?_
  · exact triple_file awake stable (fun w pre => blind w _ pre) (fun _ _ _ _ => id) fun _ => id
  · intro r
    refine triple_pure fun w pre => ?_
    cases r with
    | ok _ => exact pre
    | error _ => exact pre

theorem triple_runningOf {held : String} (stable : Stable P) (blind : Blind P)
    (stop : ∀ w, P w → E .stopped w) : Triple o P (runningOf held) (fun _ => P) E := by
  unfold runningOf
  refine triple_bind (triple_attempt (E := fun _ => P) (Q := fun _ => P) ?_ stop) ?_
  · exact triple_file awake stable (fun _ => id) (fun _ _ _ _ => id) fun _ => id
  · intro r
    cases r with
    | error _ => exact triple_pure fun _ => id
    | ok running =>
      cases running with
      | none => exact triple_pure fun _ => id
      | some running =>
        simp only
        split
        · exact triple_pure fun _ => id
        · exact triple_bind (triple_noteRunning awake stable blind stop) fun _ => triple_pure fun _ => id

theorem triple_runningFor {lineup held : String} (stable : Stable P) (blind : Blind P)
    (stop : ∀ w, P w → E .stopped w) : Triple o P (runningFor lineup held) (fun _ => P) E := by
  unfold runningFor
  refine triple_bind (triple_runningOf awake stable blind stop) fun r => ?_
  cases r with
  | none => exact triple_pure fun _ => id
  | some r => exact triple_pure fun _ => id

theorem triple_endSolos {mixes : List MixId} (stable : Stable P) (stop : ∀ w, P w → E .stopped w) :
    Triple o P (endSolos mixes) (fun _ => P) E := by
  unfold endSolos
  refine triple_each fun mix => ?_
  refine triple_bind (triple_attempt (triple_quiet awake (.inr ⟨mix, rfl⟩) stable) stop) fun r => ?_
  refine triple_pure fun w pre => ?_
  cases r with
  | ok _ => exact pre
  | error _ => exact pre

end

/-- Between which lineups of the roster a switch goes, and whether the engine may start
anew meanwhile, with a state it saved of one of them. -/
structure Plan where
  topo : Topology
  roster : Roster
  src : Lineup
  dst : Lineup
  lax : Prop
  srcFound : roster.lineup src.id = some src
  dstFound : roster.lineup dst.id = some dst
  apart : dst.id ≠ src.id

/-- A switch that was begun: the state the engine had then, and the target's stored one. -/
structure Task extends Plan where
  live : MixState
  stored : Option MixState
  fixed : (Proto.reconcile topo.info live).1 = live

/-- What the engine makes of `state`. -/
def Task.shaped (t : Task) (state : MixState) : MixState := (Proto.reconcile t.topo.info state).1

/-- Which states of which lineup the engine may hold: the one it had, and what the two
lineups play from, completed by any state before. -/
inductive Task.Own (t : Task) : String → MixState → Prop where
  | live : Own t t.src.id t.live
  | back {l : String} {current : MixState} (silenced : BTreeSet String) (before : Own t l current) :
    Own t t.src.id (t.shaped (targetStateRecorded (some t.live) current t.roster t.src silenced).1)
  | plays {l : String} {current : MixState} (silenced : BTreeSet String) (before : Own t l current) :
    Own t t.dst.id (t.shaped (targetStateRecorded t.stored current t.roster t.dst silenced).1)
  | loaded (lax : t.lax) {l : String} (state : MixState) (either : l = t.src.id ∨ l = t.dst.id) : Own t l state

omit [Libm] in
theorem Task.Own.either {t : Task} {l : String} {s : MixState} (own : t.Own l s) : l = t.src.id ∨ l = t.dst.id := by
  cases own with
  | live => exact .inl rfl
  | back => exact .inl rfl
  | plays => exact .inr rfl
  | loaded lax state either => exact either

/-- The engine holds `l`'s state, and nothing on its way brings another's. -/
def Whose (l : String) : String → MixState → Prop := fun whose _ => whose = l

/-- The engine holds this state of `l`'s, and nothing on its way brings another. -/
def Desk.Holds (topo : Topology) (l : String) (s : MixState) (d : Desk) : Prop :=
  ∀ own : String → MixState → Prop, own l s → d.Under topo own

/-- The server uses `roster`, with `a` its active lineup. -/
def Uses (roster : Roster) (a : String) (w : World) : Prop :=
  ∃ sha256, w.inUse = some { roster, sha256, active := a }

/-- The switch is recorded, with the state to go back to. -/
structure Going (t : Task) (a : String) (w : World) : Prop where
  under : w.desk.Under t.topo t.Own
  inUse : Uses t.roster a w
  intent : w.store.intent = some { src := t.src.id, dst := t.dst.id }
  kept : (w.store.states[t.src.id]?).map (·.state) = some t.live
  stored : (w.store.states[t.dst.id]?).map (·.state) = t.stored
  frozen : w.frozen = true
  saved : w.early = false → w.desk.saved.2 = t.src.id ∨ w.desk.saved.2 = t.dst.id

/-- The lineup before is recorded active. -/
def Moving (t : Task) (a : String) (w : World) : Prop := Going t a w ∧ w.store.active = some t.src.id

/-- An import was answered: the engine holds what it brought. -/
def Landed (t : Task) (a l : String) (s : MixState) (w : World) : Prop :=
  Moving t a w ∧ w.desk.Holds t.topo l s

/-- The target is recorded active, and the engine holds its state. -/
def Moved (t : Task) (a : String) (w : World) : Prop :=
  Going t a w ∧ w.store.active = some t.dst.id ∧ w.desk.Under t.topo (Whose t.dst.id)

/-- No switch is recorded: `l` is the active lineup and the engine holds its state. -/
structure Rest (topo : Topology) (roster : Roster) (a l : String) (w : World) : Prop where
  whose : w.desk.Under topo (Whose l)
  inUse : Uses roster a w
  active : w.store.active = some l
  intent : w.store.intent = none
  saved : w.early = false → w.desk.saved.2 = l

/-- The switch is over: at rest again, the state the engine had before in its file. -/
structure Settled (t : Task) (a l : String) (w : World) : Prop where
  rest : Rest t.topo t.roster a l w
  under : w.desk.Under t.topo t.Own
  kept : (w.store.states[t.src.id]?).map (·.state) = some t.live

/-- The server stopped before the switch was over. -/
def Halted (t : Task) (w : World) : Prop := ∃ a, Moving t a w ∨ Moved t a w

/-- An error with which a switch is given up. -/
def SwitchError.Final (e : SwitchError) : Prop := ∀ why, e ≠ .pending why

/-- How the way to the target ends short of it. -/
def Faltered (t : Task) (a : String) : Halt SwitchError → Assertion World
  | .stopped, w => Halted t w
  | .error e, w => e.Final ∧ Moving t a w

section
variable {t : Task} {a l : String} {w : World}

theorem stable_holds (topo : Topology) (l : String) (s : MixState) : Stable fun w => w.desk.Holds topo l s :=
  fun _ _ goes holds own is => (holds own is).goes goes

theorem Desk.Holds.whose {topo : Topology} {s : MixState} {d : Desk} (holds : d.Holds topo l s) :
    d.Under topo (Whose l) :=
  holds _ rfl

theorem Desk.Holds.state {topo : Topology} {s : MixState} {d : Desk} (holds : d.Holds topo l s) :
    d.core.state = s :=
  (holds (fun _ state => state = s) rfl).holds

theorem Goes.saved {d d' : Desk} (goes : Goes d d') : d'.saved = d.saved ∨ d'.saved = (d.core.state, d.owner) := by
  cases goes with
  | handle cmd whose rest next => exact .inl (d.meet_frame (.request cmd) whose).1
  | aside event quiet whose => exact .inl (d.meet_frame event whose).1
  | save => exact .inr rfl
  | pipe inbox fewer linked mirror seen => exact .inl rfl
  | send cmd whose quiet => exact .inl rfl
  | idle => exact .inl rfl

theorem stable_going (t : Task) (a : String) : Stable (Going t a) := by
  intro w desk goes going
  refine ⟨going.under.goes goes, going.inUse, going.intent, going.kept, going.stored, going.frozen, ?_⟩
  intro early
  rcases goes.saved with same | now
  · simp only [same]
    exact going.saved early
  · simp only [now]
    exact going.under.holds.either

theorem blind_going (t : Task) (a : String) : Blind (Going t a) := fun _ _ going =>
  ⟨going.under, going.inUse, going.intent, going.kept, going.stored, going.frozen, going.saved⟩

theorem stable_moving (t : Task) (a : String) : Stable (Moving t a) :=
  (stable_going t a).and fun _ _ _ active => active

theorem blind_moving (t : Task) (a : String) : Blind (Moving t a) :=
  (blind_going t a).and fun _ _ active => active

theorem stable_landed (t : Task) (a l : String) (s : MixState) : Stable (Landed t a l s) :=
  (stable_moving t a).and (stable_holds _ _ _)

theorem stable_moved (t : Task) (a : String) : Stable (Moved t a) :=
  (stable_going t a).and (Stable.and (fun _ _ _ active => active) (stable_under _ _))

theorem blind_moved (t : Task) (a : String) : Blind (Moved t a) :=
  (blind_going t a).and fun _ _ rest => rest

/-- The intent goes: the engine holds the state of the lineup recorded active. -/
theorem Going.clear (going : Going t a w) (active : w.store.active = some l)
    (whose : w.desk.Under t.topo (Whose l)) :
    Settled t a l { w with
      store := { w.store with intent := none }
      early := w.early || (w.store.intent.isSome && w.desk.unsaved) } := by
  refine ⟨⟨whose, going.inUse, active, rfl, ?_⟩, going.under, going.kept⟩
  intro early
  simp only [going.intent, Option.isSome_some, Bool.true_and, Bool.or_eq_false_iff, Desk.unsaved,
    bne_eq_false_iff_eq] at early
  exact early.2.trans whose.holds

/-- An import was answered. -/
theorem Moving.imported (moving : Moving t a w) (idle : w.desk.inbox = []) {state : MixState}
    (own : t.Own l (t.shaped state)) :
    Landed t a l (t.shaped state) { w with desk := w.desk.after (.importState state) l } := by
  obtain ⟨going, active⟩ := moving
  have sound := going.under.sound
  refine ⟨⟨⟨Desk.under_import sound idle own, going.inUse, going.intent, going.kept, going.stored,
    going.frozen, ?_⟩, active⟩, fun _ is => Desk.under_import sound idle is⟩
  intro early
  have same : (w.desk.after (.importState state) l).saved = w.desk.saved := rfl
  simp only [same]
  exact going.saved early

/-- An import is on its way. -/
theorem Moving.posted (moving : Moving t a w) {state : MixState} (own : t.Own l (t.shaped state)) :
    Moving t a { w with desk := { w.desk with inbox := w.desk.inbox ++ [(.importState state, l)] } } := by
  obtain ⟨going, active⟩ := moving
  exact ⟨⟨going.under.post (carries_import own), going.inUse, going.intent, going.kept, going.stored,
    going.frozen, going.saved⟩, active⟩

omit [Libm] in
/-- The state `lineup` plays from, by what is stored of it. -/
theorem targetOf_state (stored : Option MixerBackup) (current : MixState) (running : Option String × BTreeSet String)
    (roster : Roster) (lineup : Lineup) : ∃ silenced, (targetOf stored current running roster lineup).1 =
      (targetStateRecorded (stored.map (·.state)) current roster lineup silenced).1 := by
  cases stored with
  | none => exact ⟨running.2, rfl⟩
  | some b => exact ⟨b.silenced, rfl⟩

/-- The intent goes, from where the engine holds the state of the lineup recorded active. -/
theorem triple_clear (steady : Steady o) (stable : Stable P) {K : Desk → Prop} (going : ∀ w, P w → Going t a w)
    (active : ∀ w, P w → w.store.active = some l) (whose : ∀ w, P w → w.desk.Under t.topo (Whose l))
    (desk : ∀ w, P w → K w.desk) :
    Triple o P Store.clearIntent (fun _ w => Settled t a l w ∧ K w.desk) (fun e w => e = .stopped ∧ P w) := by
  refine triple_file steady.awake stable ?_ ?_ fun _ pre => ⟨rfl, pre⟩
  · exact fun w pre => ⟨(going w pre).clear (active w pre) (whose w pre), desk w pre⟩
  · exact fun time kind failed => absurd failed (steady.reads time _ kind rfl)

theorem triple_import (awake : Awake o) {state : MixState} (own : t.Own l (t.shaped state)) :
    Triple o (Moving t a) (requestApplied (.importState state) l)
      (fun _ => Landed t a l (t.shaped state)) (fun _ => Moving t a) :=
  triple_request awake (stable_moving t a) (fun _ moving idle => moving.imported idle own) (fun _ _ => id)
    fun _ _ moving => moving.posted own

theorem triple_forward (steady : Steady o) {live : MixerBackup} (same : live.state = t.live) :
    Triple o (Moving t a) (forward t.roster live t.src.id t.dst) (fun _ => Moved t a) (Faltered t a) := by
  unfold forward
  have awake := steady.awake
  refine triple_bind (Q := fun stored w => stored.map (·.state) = t.stored ∧ Moving t a w) ?_ fun stored => ?_
  · refine triple_mapErr _ (E := fun _ => Moving t a) ?_ (fun _ moving => ⟨_, .inl moving⟩) fun _ _ moving => ⟨by simp [ioError, SwitchError.Final], moving⟩
    exact triple_file awake (stable_moving t a) (fun w moving => ⟨moving.1.stored, moving⟩)
      (fun _ _ _ _ => id) fun _ => id
  refine triple_fact fun found => ?_
  obtain ⟨silenced, target⟩ := targetOf_state stored live.state (live.follows, live.silenced) t.roster t.dst
  have own := Task.Own.plays silenced (.live (t := t))
  rw [← found, ← same, ← target] at own
  refine triple_bind (triple_mirror awake (stable_moving t a) (R := fun _ => Moving t a) (fun _ => id)
    fun _ moving => ⟨_, .inl moving⟩) fun seen => ?_
  refine triple_bind (triple_mapErr _ (triple_import awake own) (fun _ moving => ⟨_, .inl moving⟩)
    fun _ _ moving => ⟨by simp [SwitchError.Final], moving⟩) fun _ => ?_
  refine triple_bind (Q := fun _ => Moved t a) ?_ fun _ => ?_
  · refine triple_mapErr _ (E := fun _ => Moving t a) ?_ (fun _ moving => ⟨_, .inl moving⟩) fun _ _ moving => ⟨by simp [ioError, SwitchError.Final], moving⟩
    refine triple_file awake (stable_landed t a _ _) ?_ (fun _ _ _ _ landed => landed.1) fun _ landed => landed.1
    rintro w ⟨⟨going, -⟩, holds⟩
    exact ⟨⟨going.under, going.inUse, going.intent, going.kept, going.stored, going.frozen, going.saved⟩, rfl,
      holds.whose⟩
  · refine triple_bind (triple_noteRunning awake (stable_moved t a) (blind_moved t a) fun _ moved => ⟨_, .inr moved⟩) fun _ => ?_
    exact triple_endSolos awake (stable_moved t a) fun _ moved => ⟨_, .inr moved⟩

end

/-- What the engine comes to from here by itself: by what was sent to it before. -/
def Left (d : Desk) (s : MixState) : Prop := ∃ d', Relation.ReflTransGen Goes d d' ∧ d'.core.state = s

/-- Nothing of the switch from `src` is recorded yet. -/
structure Before (src : String) (w₀ w : World) : Prop where
  path : Relation.ReflTransGen Goes w₀.desk w.desk
  active : w.store.active = w₀.store.active
  intent : w.store.intent = w₀.store.intent
  states : ∀ id, id ≠ src → w.store.states[id]? = w₀.store.states[id]?
  inUse : w.inUse = w₀.inUse
  early : w.early = w₀.early

/-- The pages are frozen and the engine holds what it held then. -/
def Ready (t : Task) (w₀ w : World) : Prop :=
  Before t.src.id w₀ w ∧ w.frozen = true ∧ w.desk.Holds t.topo t.src.id t.live

/-- `t` is the switch begun in `w₀`. -/
structure Begun (p : Plan) (w₀ : World) (t : Task) : Prop where
  plan : t.toPlan = p
  live : Left w₀.desk t.live
  stored : t.stored = (w₀.store.states[p.dst.id]?).map (·.state)

/-- The lineup before plays on, recorded as before, in the state it had. -/
def Undone (p : Plan) (w₀ w : World) : Prop :=
  Rest p.topo p.roster p.src.id p.src.id w ∧ Left w₀.desk w.desk.core.state

section
variable {t : Task} {p : Plan} {a l : String} {w₀ w : World}

theorem stable_before (src : String) (w₀ : World) : Stable (Before src w₀) := fun _ _ goes before =>
  ⟨before.path.tail goes, before.active, before.intent, before.states, before.inUse, before.early⟩

theorem blind_before (src : String) (w₀ : World) : Blind (Before src w₀) := fun _ _ before =>
  ⟨before.path, before.active, before.intent, before.states, before.inUse, before.early⟩

theorem stable_ready (t : Task) (w₀ : World) : Stable (Ready t w₀) :=
  (stable_before _ _).and (Stable.and (fun _ _ _ frozen => frozen) (stable_holds _ _ _))

theorem blind_ready (t : Task) (w₀ : World) : Blind (Ready t w₀) :=
  (blind_before _ _).and fun _ _ rest => rest

theorem stable_rest (topo : Topology) (roster : Roster) (a l : String) : Stable (Rest topo roster a l) := by
  intro w desk goes rest
  refine ⟨rest.whose.goes goes, rest.inUse, rest.active, rest.intent, ?_⟩
  intro early
  rcases goes.saved with same | now
  · simp only [same]
    exact rest.saved early
  · simp only [now]
    exact rest.whose.holds

theorem Before.rest {topo : Topology} {roster : Roster} {src : String} (before : Before src w₀ w)
    (rest : Rest topo roster a l w₀) : Rest topo roster a l w := by
  have alone : ∀ desk, Relation.ReflTransGen Goes w₀.desk desk → Rest topo roster a l { w₀ with desk } := by
    intro desk path
    induction path with
    | refl => exact rest
    | @tail before desk _ goes ih => exact stable_rest topo roster a l { w₀ with desk := before } _ goes ih
  have moved := alone w.desk before.path
  refine ⟨moved.whose, ?_, before.active.trans rest.active, before.intent.trans rest.intent, ?_⟩
  · obtain ⟨sha256, same⟩ := rest.inUse
    exact ⟨sha256, before.inUse.trans same⟩
  · exact fun now => moved.saved (before.early.symm.trans now)

theorem Before.undone (before : Before p.src.id w₀ w) (rest : Rest p.topo p.roster p.src.id p.src.id w₀) :
    Undone p w₀ w :=
  ⟨before.rest rest, _, before.path, rfl⟩

/-- The steps' end short of the target. -/
def Dropped (t : Task) (w₀ : World) : Halt Failed → Assertion World
  | .stopped, w => Before t.src.id w₀ w ∨ Halted t w
  | .error (.back e), w => e.Final ∧ Undone t.toPlan w₀ w
  | .error (.pending _), w => Moving t t.src.id w

theorem Ready.save (ready : Ready t w₀ w) (b : MixerBackup) :
    Ready t w₀ { w with store := { w.store with states := w.store.states.insert t.src.id b } } := by
  obtain ⟨before, rest⟩ := ready
  refine ⟨⟨before.path, before.active, before.intent, ?_, before.inUse, before.early⟩, rest⟩
  intro id other
  exact (BTreeMap.getElem?_insert_eq _ _ _ _).trans ((if_neg (Ne.symm other)).trans (before.states id other))

/-- Once the `Ping` is back, the engine has heard all that was sent before. -/
theorem triple_freeze (awake : Awake o) (rest : Rest p.topo p.roster p.src.id p.src.id w₀) :
    Triple o (Before p.src.id w₀) freeze (fun _ w => ∃ t, Begun p w₀ t ∧ Ready t w₀ w)
      (fun _ => Before p.src.id w₀) := by
  unfold freeze
  refine triple_bind (triple_look (Q := fun _ => Before p.src.id w₀) fun _ => id) fun was => ?_
  refine triple_bind (Q := fun _ w => Before p.src.id w₀ w ∧ w.frozen = true) (triple_change ?_) fun _ => ?_
  · exact fun w before => ⟨⟨before.path, before.active, before.intent, before.states, before.inUse, before.early⟩, rfl⟩
  have stable : Stable fun w => Before p.src.id w₀ w ∧ w.frozen = true :=
    (stable_before _ _).and fun _ _ _ frozen => frozen
  have ping : Triple o (fun w => Before p.src.id w₀ w ∧ w.frozen = true) (requestApplied .ping "")
      (fun _ w => ∃ t, Begun p w₀ t ∧ Ready t w₀ w) fun _ => Before p.src.id w₀ := by
    refine triple_request awake stable ?_ (fun _ _ both => both.1)
      fun _ w both => stable_before _ _ w _ (.send .ping "" (.inl rfl)) both.1
    rintro w ⟨before, frozen⟩ idle
    have whose := (before.rest rest).whose
    have sound := whose.sound
    let t : Task := { p with
      live := w.desk.core.state
      stored := (w₀.store.states[p.dst.id]?).map (·.state)
      fixed := sound.fixed }
    have met := before.path.tail (.aside (.request .ping) (.inl rfl) "")
    have seen : Goes (w.desk.meet (.request .ping) "") (w.desk.after .ping "") :=
      .pipe _ (.inl rfl) _ _ fun _ => rfl
    refine ⟨t, ⟨rfl, ⟨_, before.path, rfl⟩, rfl⟩, ?_, frozen, fun own is => ?_⟩
    · exact ⟨met.tail seen, before.active, before.intent, before.states, before.inUse, before.early⟩
    · refine Desk.under_quiet sound idle (.inl rfl) "" ?_
      rw [whose.holds]
      exact is
  refine triple_bind (triple_attempt ping fun _ => id) fun r => ?_
  cases r with
  | ok _ => exact triple_pure fun _ => id
  | error e =>
    simp only
    split
    · refine triple_bind (Q := fun _ => Before p.src.id w₀) (triple_change ?_) fun _ => triple_fail fun _ => id
      exact fun w before => ⟨before.path, before.active, before.intent, before.states, before.inUse, before.early⟩
    · exact triple_fail fun _ => id

variable [Sha256]

theorem triple_steps (steady : Steady o) (begun : Begun p w₀ t) (rest : Rest p.topo p.roster p.src.id p.src.id w₀) :
    Triple o (Ready t w₀) (steps p.roster p.src.id p.dst) (fun _ => Settled t p.src.id p.dst.id) (Dropped t w₀) := by
  obtain ⟨rfl, left, found⟩ := begun
  have awake := steady.awake
  have stable := stable_ready t w₀
  unfold steps
  refine triple_bind (triple_mirror awake stable (R := fun seen w =>
    (seen.synced = true → seen.state = t.live) ∧ Ready t w₀ w) ?_ fun _ ready => .inl ready.1) fun seen => ?_
  · intro w ready
    refine ⟨fun synced => ?_, ready⟩
    obtain ⟨_, same⟩ := (ready.2.2 (fun _ state => state = t.live) rfl).sees synced
    exact same
  refine triple_fact fun same => ?_
  refine triple_unless (fun _ w ready => ⟨by simp [SwitchError.Final], ready.1.undone rest⟩) fun synced => ?_
  replace same := same (by simpa using synced)
  -- The live state goes to its file, with what it follows.
  refine triple_bind (Q := fun live w => live.state = t.live ∧ Ready t w₀ w) ?_ fun live => ?_
  · refine triple_mapErr _ (E := fun _ => Ready t w₀) ?_ (fun _ ready => .inl ready.1)
      fun _ _ ready => ⟨by simp [SwitchError.Final], ready.1.undone rest⟩
    exact triple_file awake stable (fun w ready => ⟨same, ready⟩) (fun _ _ _ _ => id) fun _ => id
  refine triple_fact fun same => ?_
  refine triple_bind (triple_runningFor awake stable (blind_ready t w₀) fun _ ready => .inl ready.1) fun known => ?_
  obtain ⟨follows, silenced⟩ := known
  refine triple_bind (Q := fun _ w => (w.store.states[t.src.id]?).map (·.state) = some t.live ∧ Ready t w₀ w)
    ?_ fun _ => ?_
  · refine triple_mapErr _ (E := fun _ => Ready t w₀) ?_ (fun _ ready => .inl ready.1)
      fun _ _ ready => ⟨by simp [ioError, SwitchError.Final], ready.1.undone rest⟩
    refine triple_file awake stable (fun w ready => ⟨?_, ready.save _⟩) (fun _ _ _ _ => id) fun _ => id
    simp [same]
  -- From the intent on the switch is recorded.
  have saved : Stable fun w => (w.store.states[t.src.id]?).map (·.state) = some t.live ∧ Ready t w₀ w :=
    Stable.and (fun _ _ _ kept => kept) stable
  refine triple_bind (Q := fun _ => Moving t t.src.id) ?_ fun _ => ?_
  · refine triple_mapErr _ (E := fun _ => Ready t w₀) ?_ (fun _ ready => .inl ready.1)
      fun _ _ ready => ⟨by simp [ioError, SwitchError.Final], ready.1.undone rest⟩
    refine triple_file awake saved ?_ (fun _ _ _ _ both => both.2) fun _ both => both.2
    rintro w ⟨kept, before, frozen, holds⟩
    have idle := before.rest rest
    refine ⟨⟨holds _ .live, idle.inUse, rfl, kept, ?_, frozen, fun early => .inl (idle.saved early)⟩, idle.active⟩
    rw [before.states _ t.apart, found]
  refine triple_bind (triple_attempt (triple_forward steady same) fun _ => .inr) fun went => ?_
  cases went with
  | error e =>
    refine triple_fact fun final => ?_
    have own : t.Own t.src.id (t.shaped live.state) := by
      rw [same, Task.shaped, t.fixed]
      exact .live
    refine triple_bind (triple_attempt (triple_import steady.awake own) fun _ moving => .inr ⟨_, .inl moving⟩) fun back => ?_
    cases back with
    | error _ => exact triple_fail fun _ => id
    | ok _ =>
      have clear := triple_clear steady (stable_landed t t.src.id t.src.id (t.shaped live.state))
        (K := Desk.Holds t.topo t.src.id (t.shaped live.state)) (fun _ landed => landed.1.1)
        (fun _ landed => landed.1.2) (fun _ landed => landed.2.whose) fun _ landed => landed.2
      refine triple_bind (triple_attempt clear fun _ stopped => .inr ⟨_, .inl stopped.2.1⟩) fun cleared => ?_
      refine triple_fail fun w post => ?_
      cases cleared with
      | error _ => exact absurd post.1 (by simp)
      | ok _ =>
        obtain ⟨settled, holds⟩ := post
        refine ⟨final, settled.rest, ?_⟩
        rw [holds.state, same, Task.shaped, t.fixed]
        exact left
  | ok _ =>
    have clear := triple_clear steady (stable_moved t t.src.id) (K := fun _ => True) (fun _ moved => moved.1)
      (fun _ moved => moved.2.1) (fun _ moved => moved.2.2) fun _ _ => trivial
    refine triple_bind (triple_attempt clear fun _ stopped => .inr ⟨_, .inr stopped.2⟩) fun cleared => ?_
    refine triple_pure fun w post => ?_
    cases cleared with
    | ok _ => exact post.1
    | error _ => exact absurd post.1 (by simp)

/-- How a switch ends that does not come to its target. -/
def Cut (p : Plan) (w₀ : World) : Halt SwitchError → Assertion World
  | .stopped, w => Before p.src.id w₀ w ∨ ∃ t, Begun p w₀ t ∧ Halted t w
  | .error (.pending _), w => ∃ t, Begun p w₀ t ∧ Moving t p.src.id w
  | .error _, w => Undone p w₀ w

theorem triple_run (steady : Steady o) (rest : Rest p.topo p.roster p.src.id p.src.id w₀) :
    Triple o (Before p.src.id w₀) (run p.roster p.src.id p.dst)
      (fun _ w => ∃ t, Begun p w₀ t ∧ Settled t p.src.id p.dst.id w) (Cut p w₀) := by
  have awake := steady.awake
  unfold run
  refine triple_bind (triple_mirror awake (stable_before _ w₀) (R := fun _ => Before p.src.id w₀) (fun _ => id)
    fun _ => .inl) fun seen => ?_
  refine triple_unless (fun _ w before => before.undone rest) fun _ => ?_
  refine triple_bind (triple_mapErr _ (triple_freeze awake rest) (fun _ => .inl)
    fun _ _ before => before.undone rest) fun was => ?_
  refine triple_unless (fun _ w ready => ?_) fun _ => ?_
  · obtain ⟨t, begun, before, -⟩ := ready
    obtain ⟨rfl, -, -⟩ := begun
    exact before.undone rest
  refine triple_exists fun t => triple_fact fun begun => ?_
  have dropped := triple_steps steady begun rest
  refine triple_bind (triple_attempt dropped ?_) fun went => ?_
  · obtain ⟨rfl, -, -⟩ := id begun
    rintro w (before | halted)
    · exact .inl before
    · exact .inr ⟨t, begun, halted⟩
  obtain ⟨rfl, -, -⟩ := id begun
  cases went with
  | ok _ => exact triple_pure fun w settled => ⟨t, begun, settled⟩
  | error failed =>
    cases failed with
    | back e =>
      refine triple_fact fun final => ?_
      refine triple_bind (Q := fun _ => Undone t.toPlan w₀) (triple_change fun w undone => ?_) fun _ =>
        triple_fail fun w undone => ?_
      · obtain ⟨rest, left⟩ := undone
        exact ⟨⟨rest.whose, rest.inUse, rest.active, rest.intent, rest.saved⟩, left⟩
      · cases e with
        | pending why => exact absurd rfl (final why)
        | _ => exact undone
    | pending e => exact triple_fail fun w moving => ⟨t, begun, moving⟩

omit [Sha256] in
theorem Rest.use {topo : Topology} {roster : Roster} (rest : Rest topo roster a l w) {b : String} :
    Rest topo roster b l { w with inUse := w.inUse.map fun r => { r with active := b } } := by
  obtain ⟨sha256, same⟩ := rest.inUse
  exact ⟨rest.whose, ⟨sha256, by rw [same]; rfl⟩, rest.active, rest.intent, rest.saved⟩

omit [Sha256] in
theorem Settled.thaw (settled : Settled t a l w) : Settled t a l { w with frozen := false } :=
  have rest := settled.rest
  ⟨⟨rest.whose, rest.inUse, rest.active, rest.intent, rest.saved⟩, settled.under, settled.kept⟩

theorem triple_switchLineup (steady : Steady o) (rest : Rest p.topo p.roster p.src.id p.src.id w₀)
    (who : AuthClaims) :
    Triple o (fun w => w = w₀) (switchLineup p.dst.id who)
      (fun _ w => ∃ t, Begun p w₀ t ∧ Settled t p.dst.id p.dst.id w) (Cut p w₀) := by
  obtain ⟨sha256, used⟩ := rest.inUse
  have start : Before p.src.id w₀ w₀ := ⟨.refl, rfl, rfl, fun _ _ => rfl, rfl, rfl⟩
  have refused : Undone p w₀ w₀ := start.undone rest
  unfold switchLineup
  refine triple_bind (triple_look (Q := fun use w => use = some { roster := p.roster, sha256, active := p.src.id } ∧
    w = w₀) ?_) fun use => triple_fact fun same => ?_
  · rintro w rfl
    exact ⟨used, rfl⟩
  subst same
  have src : RosterState.lineup { roster := p.roster, sha256, active := p.src.id } = some p.src := by
    simp [RosterState.lineup, p.srcFound]
  simp only [src, p.dstFound]
  have refuse : ∀ e : SwitchError, e.Final → ∀ w, w = w₀ → Cut p w₀ (.error e) w := by
    rintro e final w rfl
    cases e with
    | pending why => exact absurd rfl (final why)
    | _ => exact refused
  refine triple_unless (fun _ => refuse _ (by simp [SwitchError.Final])) fun _ => ?_
  refine triple_unless (fun _ => refuse _ (by simp [SwitchError.Final])) fun _ => ?_
  refine triple_bind (triple_look (Q := fun _ w => w = w₀) fun _ => id) fun frozen => ?_
  refine triple_unless (fun _ => refuse _ (by simp [SwitchError.Final])) fun _ => ?_
  refine triple_bind (triple_look (Q := fun _ w => w = w₀) fun _ => id) fun site => ?_
  refine triple_unless (fun _ => refuse _ (by simp [SwitchError.Final])) fun _ => ?_
  refine triple_bind (triple_pre (triple_run steady rest) ?_) fun _ => ?_
  · rintro w rfl
    exact start
  -- The pages are free once the roster in use says the target.
  refine triple_bind (Q := fun _ w => ∃ t, Begun p w₀ t ∧ Settled t p.dst.id p.dst.id w) (triple_change ?_) fun _ =>
    triple_change ?_
  · rintro w ⟨t, begun, settled⟩
    exact ⟨t, begun, settled.rest.use, settled.under, settled.kept⟩
  · rintro w ⟨t, begun, settled⟩
    exact ⟨t, begun, settled.thaw⟩

end

/-- The engine holds a state of the lineup before, which is recorded active. -/
def Home (t : Task) (a : String) (w : World) : Prop := Moving t a w ∧ w.desk.Under t.topo (Whose t.src.id)

/-- The server is to finish the switch. -/
def Waiting (t : Task) (w : World) : Prop := (∃ a, Moving t a w) ∨ Moved t t.dst.id w

/-- How a try ends that does not finish the switch. -/
def Unfinished (t : Task) {ε : Type} : Halt ε → Assertion World
  | .stopped, w => Halted t w
  | .error _, w => ∃ a, Moving t a w

section
variable {t : Task} {a : String} [Sha256]

/-- A lineup's state to the engine, recorded active: what holds then, `R`, by the lineup
in use. -/
theorem triple_play (steady : Steady o) {lineup : Lineup} {stored : Option MixerBackup} {other : Option Lineup}
    {R : String → Assertion World}
    (own : ∀ {l current} (silenced : BTreeSet String), t.Own l current → t.Own lineup.id
      (t.shaped (targetStateRecorded (stored.map (·.state)) current t.roster lineup silenced).1))
    (stable : Stable (R a)) (blind : Blind (R a)) (halted : ∀ w, R a w → Halted t w)
    (record : ∀ s w, Landed t a lineup.id s w → R a { w with store := { w.store with active := some lineup.id } })
    (use : ∀ w, R a w → R lineup.id { w with inUse := w.inUse.map fun r => { r with active := lineup.id } }) :
    Triple o (Moving t a) (play t.roster lineup stored other) (fun _ => R lineup.id) (Unfinished t) := by
  have awake := steady.awake
  unfold play
  refine triple_bind (triple_mirror awake (stable_moving t a) (R := fun seen w =>
    (seen.synced = true → ∃ l, t.Own l seen.state) ∧ Moving t a w) (fun w moving => ⟨moving.1.under.sees, moving⟩)
    fun _ moving => ⟨_, .inl moving⟩) fun seen => triple_fact fun sees => ?_
  refine triple_unless (fun _ w moving => ⟨_, moving⟩) fun synced => ?_
  obtain ⟨l, before⟩ := sees (by simpa using synced)
  refine triple_bind (triple_runningOf awake (stable_moving t a) (blind_moving t a) fun _ moving => ⟨_, .inl moving⟩)
    fun known => ?_
  simp only
  generalize (Option.map (fun r => (r.follows, r.silenced)) known).getD (none, ∅) = running
  obtain ⟨silenced, target⟩ := targetOf_state stored seen.state running t.roster lineup
  have brings := own silenced before
  rw [← target] at brings
  refine triple_bind (triple_mapErr _ (triple_import awake brings) (fun _ moving => ⟨_, .inl moving⟩)
    fun _ _ moving => ⟨_, moving⟩) fun _ => ?_
  refine triple_bind (Q := fun _ => R a) ?_ fun _ => ?_
  · refine triple_mapErr _ (E := fun _ => Moving t a) ?_ (fun _ moving => ⟨_, .inl moving⟩) fun _ _ moving => ⟨_, moving⟩
    exact triple_file awake (stable_landed t a _ _) (record _) (fun _ _ _ _ landed => landed.1) fun _ landed => landed.1
  refine triple_bind (triple_noteRunning awake stable blind halted) fun _ => ?_
  refine triple_bind (triple_endSolos awake stable halted) fun _ => ?_
  exact triple_change use

omit [Sha256] in
/-- A file that can be read. -/
theorem triple_read (steady : Steady o) {op : Op} {g : World → α} {f : String → ε} {S : α → Prop}
    (sure : op.mayFail = false) (stable : Stable P) (stop : ∀ w, P w → E .stopped w) (tells : ∀ w, P w → S (g w)) :
    Triple o P (mapErr f (fileStep op fun w => (g w, w))) (fun r w => S r ∧ P w) E := by
  refine triple_mapErr _ (E := fun e w => e = .stopped ∧ P w) ?_ (fun _ stopped => stop _ stopped.2)
    fun e w failed => absurd failed.1 (by simp)
  refine triple_file steady.awake stable (fun w pre => ⟨tells w pre, pre⟩) ?_ fun _ pre => ⟨rfl, pre⟩
  exact fun time kind failed => absurd failed (steady.reads time op kind sure)

omit [Sha256] in
/-- The intent is read, and the roster in use: what both tries begin with. -/
theorem triple_begin (steady : Steady o) {R : Assertion World}
    {next : Option SwitchIntent → Option RosterState → Proc PlayError Unit} (stable : Stable P)
    (going : ∀ w, P w → Going t a w) (halted : ∀ w, P w → Halted t w)
    (goes : ∀ sha256, Triple o P (next (some { src := t.src.id, dst := t.dst.id })
      (some { roster := t.roster, sha256, active := a })) (fun _ => R) (Unfinished t)) :
    Triple o P (do let intent ← mapErr .io Store.readIntent; let use ← look (·.inUse); next intent use)
      (fun _ => R) (Unfinished t) := by
  refine triple_bind (triple_read steady (S := (· = some { src := t.src.id, dst := t.dst.id })) rfl stable halted
    fun w pre => (going w pre).intent) fun intent => triple_fact fun same => ?_
  subst same
  refine triple_bind (triple_look (Q := fun use w =>
    (∃ sha256, use = some { roster := t.roster, sha256, active := a : RosterState }) ∧ P w)
    fun w pre => ⟨(going w pre).inUse, pre⟩) fun use => triple_fact ?_
  rintro ⟨sha256, rfl⟩
  exact goes sha256

omit [Sha256] in
/-- The intent goes and the pages are free. -/
theorem triple_finish (steady : Steady o) {l : String} (stable : Stable P)
    (going : ∀ w, P w → Going t a w) (active : ∀ w, P w → w.store.active = some l)
    (whose : ∀ w, P w → w.desk.Under t.topo (Whose l)) (halted : ∀ w, P w → Halted t w) :
    Triple o P (do mapErr PlayError.io Store.clearIntent; thaw) (fun _ => Settled t a l) (Unfinished t) := by
  have clear := triple_clear steady stable (K := fun _ => True) going active whose fun _ _ => trivial
  refine triple_bind (triple_mapErr _ clear (fun _ stopped => halted _ stopped.2) ?_) fun _ => triple_change ?_
  · exact fun _ _ failed => absurd failed.1 (by simp)
  · exact fun _ settled => settled.1.thaw

omit [Sha256] in
theorem Going.use {w : World} (going : Going t a w) {b : String} :
    Going t b { w with inUse := w.inUse.map fun r => { r with active := b } } := by
  obtain ⟨sha256, same⟩ := going.inUse
  exact ⟨going.under, ⟨sha256, by rw [same]; rfl⟩, going.intent, going.kept, going.stored, going.frozen, going.saved⟩

omit [Sha256] in
theorem Going.record {w : World} (going : Going t a w) (active : Option String) :
    Going t a { w with store := { w.store with active } } :=
  ⟨going.under, going.inUse, going.intent, going.kept, going.stored, going.frozen, going.saved⟩

theorem triple_replayIntent (steady : Steady o) :
    Triple o (Waiting t) replayIntent (fun _ => Settled t t.dst.id t.dst.id) (Unfinished t) := by
  have awake := steady.awake
  unfold replayIntent
  refine triple_or (triple_exists fun a => ?_) ?_
  -- The target is not recorded active: it is played.
  · have halted : ∀ w, Moving t a w → Halted t w := fun w moving => ⟨a, .inl moving⟩
    refine triple_begin steady (stable_moving t a) (fun _ moving => moving.1) halted fun sha256 => ?_
    simp only [t.dstFound, Option.some_or]
    refine triple_bind (triple_read steady (S := (· = some t.src.id)) rfl (stable_moving t a) halted
      fun w moving => moving.2) fun active => triple_fact fun same => ?_
    rw [same, if_pos (by simpa using t.apart.symm)]
    refine triple_bind (triple_read steady (S := fun stored => stored.map (·.state) = t.stored) rfl
      (stable_moving t a) halted fun w moving => moving.1.stored) fun stored => triple_fact fun same => ?_
    refine triple_bind (triple_play steady (R := Moved t) ?_ (stable_moved t a) (blind_moved t a)
      (fun w moved => ⟨a, .inr moved⟩) ?_ ?_) fun _ => ?_
    · intro l current silenced before
      rw [same]
      exact .plays silenced before
    · exact fun s w landed => ⟨landed.1.1.record _, rfl, landed.2.whose⟩
    · exact fun w moved => ⟨moved.1.use, moved.2⟩
    · exact triple_finish steady (stable_moved t _) (fun _ moved => moved.1) (fun _ moved => moved.2.1)
        (fun _ moved => moved.2.2) fun w moved => ⟨_, .inr moved⟩
  -- It is: only the solos and the intent are left.
  · have halted : ∀ w, Moved t t.dst.id w → Halted t w := fun w moved => ⟨_, .inr moved⟩
    have stable := stable_moved t t.dst.id
    refine triple_begin steady stable (fun _ moved => moved.1) halted fun sha256 => ?_
    simp only [t.dstFound, t.srcFound, Option.some_or]
    refine triple_bind (triple_read steady (S := (· = some t.dst.id)) rfl stable halted
      fun w moved => moved.2.1) fun active => triple_fact fun same => ?_
    rw [same, if_neg (by simp)]
    refine triple_bind (triple_mirror awake stable (R := fun _ => Moved t t.dst.id) (fun _ => id) halted) fun seen => ?_
    refine triple_bind (triple_endSolos awake stable halted) fun _ => ?_
    exact triple_finish steady stable (fun _ moved => moved.1) (fun _ moved => moved.2.1)
      (fun _ moved => moved.2.2) halted

theorem triple_fallBack (steady : Steady o) :
    Triple o (fun w => ∃ a, Moving t a w) fallBack (fun _ => Settled t t.src.id t.src.id) (Unfinished t) := by
  unfold fallBack
  refine triple_exists fun a => ?_
  have halted : ∀ w, Moving t a w → Halted t w := fun w moving => ⟨a, .inl moving⟩
  refine triple_begin steady (stable_moving t a) (fun _ moving => moving.1) halted fun sha256 => ?_
  simp only [t.srcFound, Option.some_or]
  refine triple_bind (triple_attempt (Q := fun stored w => stored.map (·.state) = some t.live ∧ Moving t a w)
    (E := fun e w => e = .stopped ∧ Moving t a w) ?_ fun w stopped => halted w stopped.2) fun found => ?_
  · refine triple_file steady.awake (stable_moving t a) (fun w moving => ⟨moving.1.kept, moving⟩) ?_
      fun _ moving => ⟨rfl, moving⟩
    exact fun time kind failed => absurd failed (steady.reads time _ kind rfl)
  cases found with
  | error e => exact fun w failed => absurd failed.1 (by simp)
  | ok stored =>
    refine triple_fact fun same => ?_
    have stable : Stable (Home t t.src.id) := (stable_moving t _).and (stable_under _ _)
    refine triple_bind (triple_play steady (R := Home t) ?_ ((stable_moving t a).and (stable_under _ _))
      ((blind_moving t a).and fun _ _ under => under) (fun w home => ⟨a, .inl home.1⟩) ?_ ?_) fun _ => ?_
    · intro l current silenced before
      rw [same]
      exact .back silenced before
    · exact fun s w landed => ⟨⟨landed.1.1.record _, rfl⟩, landed.2.whose⟩
    · exact fun w home => ⟨⟨home.1.1.use, home.1.2⟩, home.2⟩
    · exact triple_finish steady stable (fun _ home => home.1.1) (fun _ home => home.1.2) (fun _ home => home.2)
        fun w home => ⟨_, .inl home.1⟩

omit [Sha256] in
theorem stable_unmoved (t : Task) : Stable fun w => ∃ a, Moving t a w := by
  rintro w desk goes ⟨a, moving⟩
  exact ⟨a, stable_moving t a w desk goes moving⟩

omit [Sha256] in
theorem stable_waiting (t : Task) : Stable (Waiting t) := by
  rintro w desk goes (moving | moved)
  · exact .inl (stable_unmoved t w desk goes moving)
  · exact .inr (stable_moved t _ w desk goes moved)

omit [Sha256] in
theorem stable_halted (t : Task) : Stable (Halted t) := by
  rintro w desk goes ⟨a, moving | moved⟩
  · exact ⟨a, .inl (stable_moving t a w desk goes moving)⟩
  · exact ⟨a, .inr (stable_moved t a w desk goes moved)⟩

omit [Sha256] in
/-- Tries of `m`, which leaves `P` where it fails. -/
theorem triple_retry (awake : Awake o) {m : Proc PlayError Unit} {H : Assertion World} (stable : Stable P)
    (wait : ∀ w, P w → H w) (stop : ∀ w, H w → E .stopped w)
    (one : Triple o P m (fun _ => Q) fun e w => match e with | .stopped => H w | .error _ => P w) (tries : ℕ) :
    Triple o P (retry m tries) (fun b w => match b with | true => Q w | false => P w) E := by
  induction tries with
  | zero => exact triple_pure fun _ => id
  | succ tries ih =>
    unfold retry
    refine triple_bind (triple_waitSynced awake stable fun w pre => stop w (wait w pre)) fun _ => ?_
    refine triple_bind (triple_attempt one stop) fun r => ?_
    cases r with
    | ok _ => exact triple_pure fun _ => id
    | error _ => exact ih

/-- How a replay leaves the switch. -/
def Over (t : Task) : Replayed → Assertion World
  | .nothing, _ => False
  | .finished, w => Settled t t.dst.id t.dst.id w
  | .fellBack, w => Settled t t.src.id t.src.id w
  | .gaveUp, _ => True

theorem triple_replayWhenSynced (steady : Steady o) :
    Triple o (Waiting t) replayWhenSynced (Over t) (fun _ => Halted t) := by
  have awake := steady.awake
  have waits : ∀ w, Waiting t w → Halted t w := by
    rintro w (⟨a, moving⟩ | moved)
    · exact ⟨a, .inl moving⟩
    · exact ⟨_, .inr moved⟩
  have unmoved : ∀ w, (∃ a, Moving t a w) → Halted t w := fun w moving => waits w (.inl moving)
  -- A try that fails leaves the lineup before recorded active, where the first may not start.
  have first : Triple o (Waiting t) (retry replayIntent maxReplays : Proc Empty Bool)
      (fun b w => match b with | true => Settled t t.dst.id t.dst.id w | false => ∃ a, Moving t a w)
      (fun _ => Halted t) := by
    unfold maxReplays retry
    refine triple_bind (triple_waitSynced awake (stable_waiting t) waits) fun _ => ?_
    refine triple_bind (triple_attempt (triple_replayIntent steady) fun _ => id) fun r => ?_
    cases r with
    | ok _ => exact triple_pure fun _ => id
    | error _ =>
      refine triple_retry awake (stable_unmoved t) unmoved (fun _ => id) ?_ 2
      refine triple_conseq (triple_replayIntent steady) (fun _ => .inl) (fun _ _ => id) fun e w => ?_
      cases e with
      | stopped => exact id
      | error e => exact id
  unfold replayWhenSynced
  refine triple_bind (triple_look (Q := fun frozen w => frozen = true ∧ Waiting t w) ?_) fun frozen =>
    triple_fact fun same => ?_
  · rintro w (⟨a, moving⟩ | moved)
    · exact ⟨moving.1.frozen, .inl ⟨a, moving⟩⟩
    · exact ⟨moved.1.frozen, .inr moved⟩
  rw [same, if_neg (by simp)]
  refine triple_bind first fun finished => ?_
  cases finished with
  | true => exact triple_pure fun _ => id
  | false =>
    refine triple_bind (triple_retry awake (stable_unmoved t) unmoved (fun _ => id)
      (Q := Settled t t.src.id t.src.id) ?_ maxReplays) fun fell => ?_
    · refine triple_conseq (triple_fallBack steady) (fun _ => id) (fun _ _ => id) fun e w => ?_
      cases e with
      | stopped => exact id
      | error e => exact id
    · cases fell with
      | true => exact triple_pure fun _ => id
      | false =>
        refine triple_bind (triple_attempt (Q := fun _ _ => True) (E := fun e w => e = .stopped → Halted t w) ?_
          fun w stopped => stopped rfl) fun _ => ?_
        · refine triple_file awake (stable_unmoved t) (fun _ _ => trivial) ?_ fun w moving _ => unmoved w moving
          exact fun time kind failed => absurd failed (steady.reads time _ kind rfl)
        · exact triple_bind (Q := fun _ _ => True) (triple_change fun _ _ => trivial) fun _ =>
            triple_pure fun _ _ => trivial

end

end

end IemMixer.Server
