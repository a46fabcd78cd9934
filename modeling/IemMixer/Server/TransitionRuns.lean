import IemMixer.Server.CrashProofs
import IemMixer.Server.TransitionTry

/-! The tries of one transition, with stops of the server and lost answers among them: nobody is
moved twice, and the try that succeeds leaves what one undisturbed try would have. -/
namespace IemMixer.Server
open Lib Lib.Process Proto IemMixer.Core

section
variable [Libm] [Sha256]

/-- What the tries of `j` come to from `w₀`, while nobody edits the mixes. -/
inductive Tries (j : Job) (w₀ : World) : World → Prop where
  | start : Tries j w₀ w₀
  /-- The engine and the pipe go on. -/
  | idle {w : World} (before : Tries j w₀ w) (e : Drift) (on : e ≠ .reboot) : Tries j w₀ (w.drift e)
  | restart {w : World} (before : Tries j w₀ w) : Tries j w₀ w.restart
  | failed {w : World} (before : Tries j w₀ w) {o : Oracle RosterOp Fate} (legible : Legible o) (tries clock : ℕ)
    {why : Untaken} {cut : Clocked World}
    (ran : transition tries j.follows j.new j.newSha j.active o ⟨w, clock⟩ = .error (.error why) cut) :
    Tries j w₀ cut.world
  /-- The server stops among the steps, and starts again. -/
  | stopped {w : World} (before : Tries j w₀ w) {o : Oracle RosterOp Fate} (legible : Legible o) (tries clock : ℕ)
    {cut : Clocked World}
    (ran : transition tries j.follows j.new j.newSha j.active o ⟨w, clock⟩ = .error .stopped cut)
    (ds : List Drift) (on : Drift.reboot ∉ ds) : Tries j w₀ (cut.world.drifts ds).restart
  /-- It succeeds, and its caller frees the pages. -/
  | done {w : World} (before : Tries j w₀ w) {o : Oracle RosterOp Fate} (legible : Legible o) (tries clock : ℕ)
    {t : Transition} {cut : Clocked World}
    (ran : transition tries j.follows j.new j.newSha j.active o ⟨w, clock⟩ = .ok t cut) :
    Tries j w₀ { cut.world with frozen := false }

/-- Between tries: the server has no connection yet, or its mirror shows what the engine plays
when it is synced. -/
structure Between (j : Job) (s : MixState) (known : Option String × BTreeSet String) (m : BTreeMap String MixerBackup)
    (w : World) : Prop where
  loose : Loose j s known m w
  frozen : w.frozen = false
  view : (w.desk.linked = false ∧ w.desk.mirror.synced = false) ∨
    ∃ state, w.desk.Holds j.topo j.active state ∧ (w.desk.mirror.synced = true → w.desk.mirror.state = state)

variable {j : Job} {s s' : MixState} {known known' : Option String × BTreeSet String} {m m' : BTreeMap String MixerBackup}
  {w w₀ : World} {frozen : Bool}

theorem Loose.drift (loose : Loose j s known m w) {e : Drift} (on : e ≠ .reboot) : Loose j s known m (w.drift e) := by
  have same : w.drift e = { w with desk := w.desk.drift e } := by simp [World.drift, on]
  obtain ⟨own, under, is⟩ := loose.under
  rw [same]
  exact ⟨⟨own, under.goes (drift_goes w.desk e on), is⟩, drift_site on under.sound loose.site, loose.rosters, loose.states,
    loose.intent⟩

theorem Loose.drifts (loose : Loose j s known m w) {ds : List Drift} (on : Drift.reboot ∉ ds) :
    Loose j s known m (w.drifts ds) := by
  induction ds generalizing w with
  | nil => exact loose
  | cons e rest ih =>
    exact ih (loose.drift fun same => on (by simp [same])) fun member => on (by simp [member])

/-- The server starts anew, without a connection. -/
theorem Loose.restart (loose : Loose j s known m w) : Between j s known m w.restart := by
  have gone := loose.drift (e := .lose) (by simp)
  refine ⟨⟨?_, gone.site, gone.rosters, gone.states, gone.intent⟩, ?_, .inl ⟨rfl, rfl⟩⟩
  · exact gone.under
  · exact Option.isSome_eq_false_iff.mpr (Option.isNone_iff_eq_none.mpr loose.intent)

/-- What an earlier try left. -/
theorem Loose.trans (loose : Loose j s' known' m' w) (place : Place j s known s' known') (mixed : Mixed j m m')
    (fixed : (Proto.reconcile j.topo.info s).1 = s) : Loose j s known m w := by
  obtain ⟨own, under, is⟩ := loose.under
  refine ⟨⟨own, under, fun whose state held => ?_⟩, loose.site, loose.rosters, mixed.trans loose.states, loose.intent⟩
  obtain ⟨owner, later⟩ := is whose state held
  exact ⟨owner, place.trans fixed later⟩

theorem At.between (here : At j s' (Tells j s' known') (Mixed j m) false w) (place : Place j s known s' known') :
    Between j s known m w :=
  ⟨here.loose place, here.2.frozen, .inr ⟨s', here.1.holds, fun _ => here.1.shows⟩⟩

omit [Sha256] in
/-- Without a connection the mirror is not synced; a new one shows what the engine plays. -/
theorem drift_unlinked {d : Desk} {e : Drift} (on : e ≠ .reboot) (sound : d.Sound j.topo) (owner : d.owner = j.active)
    (apart : d.linked = false) (stale : d.mirror.synced = false) :
    ((d.drift e).linked = false ∧ (d.drift e).mirror.synced = false) ∨
      ∃ state, (d.drift e).Holds j.topo j.active state ∧ (d.drift e).mirror.state = state := by
  have met : ∀ event whose, (d.meet event whose).linked = false ∧ (d.meet event whose).mirror.synced = false := by
    intro event whose
    obtain ⟨-, -, linked, mirror⟩ := d.meet_frame event whose
    exact ⟨linked.trans apart, (congrArg Mirror.synced mirror).trans stale⟩
  cases e with
  | handle =>
    simp only [Desk.drift]
    split
    · exact .inl (met _ _)
    · exact .inl ⟨apart, stale⟩
  | see =>
    simp only [Desk.drift, apart]
    exact .inl ⟨apart, stale⟩
  | gap => exact .inl ⟨apart, rfl⟩
  | lose => exact .inl ⟨rfl, rfl⟩
  | join =>
    simp only [Desk.drift, apart, Bool.false_eq_true, if_false]
    refine .inr ⟨d.core.state, fun own is => ?_, rfl⟩
    rw [← owner] at is
    exact ⟨⟨sound.wf, sound.topo, sound.canonical⟩, is, fun _ => ⟨_, is⟩, fun p member => absurd member List.not_mem_nil⟩
  | save => exact .inl ⟨apart, stale⟩
  | reboot => exact absurd rfl on
  | clearSolos => exact .inl (met _ _)
  | endTestSignal => exact .inl (met _ _)

theorem lasting_between (j : Job) (s : MixState) (known : Option String × BTreeSet String)
    (m : BTreeMap String MixerBackup) : Lasting (Between j s known m) where
  drift w e on between := by
    have same : w.drift e = { w with desk := w.desk.drift e } := by simp [World.drift, on]
    have loose := between.loose.drift on
    rw [same] at loose
    refine ⟨loose, between.frozen, ?_⟩
    rcases between.view with ⟨apart, stale⟩ | ⟨state, holds, shows⟩
    · obtain ⟨own, under, is⟩ := between.loose.under
      rcases drift_unlinked on under.sound (is _ _ under.holds).1 apart stale with still | ⟨state, holds, shows⟩
      · exact .inl still
      · exact .inr ⟨state, holds, fun _ => shows⟩
    · refine .inr ⟨state, fun own is => (holds own is).goes (drift_goes w.desk e on), fun synced => ?_⟩
      rcases drift_mirror w.desk on with same | viewed | stale
      · rw [same] at synced ⊢
        exact shows synced
      · rw [viewed]
        exact holds.state
      · rw [stale] at synced
        cases synced
  flush w between := by
    obtain ⟨mirror, linked⟩ := flush_frame w.desk
    obtain ⟨own, under, is⟩ := between.loose.under
    have flushed : Desk.Under j.topo own w.desk.flush := (stable_under j.topo own).flush under
    refine ⟨⟨⟨own, flushed, is⟩, ?_, between.loose.rosters, between.loose.states, between.loose.intent⟩, between.frozen, ?_⟩
    · exact fun t shown => between.loose.site t (mirror ▸ shown)
    · rcases between.view with ⟨apart, stale⟩ | ⟨state, holds, shows⟩
      · exact .inl ⟨linked.trans apart, (congrArg Mirror.synced mirror).trans stale⟩
      · refine .inr ⟨state, (stable_holds j.topo j.active state).flush holds, fun synced => ?_⟩
        rw [mirror] at synced ⊢
        exact shows synced

/-- A synced mirror shows a state that is known. -/
theorem Between.shown (between : Between j s known m w) (synced : w.desk.mirror.synced = true) :
    ∃ s' known' m', (Place j s known s' known' ∧ Mixed j m m') ∧ At j s' (Tells j s' known') (· = m') false w := by
  rcases between.view with ⟨-, stale⟩ | ⟨state, holds, shows⟩
  · rw [stale] at synced
    cases synced
  · obtain ⟨own, under, is⟩ := between.loose.under
    have place := (is _ _ under.holds).2
    rw [holds.state] at place
    exact ⟨state, _, _, ⟨place, between.loose.states⟩, ⟨holds, shows synced, between.loose.site⟩, between.loose.rosters, rfl,
      rfl, between.loose.intent, between.frozen⟩

/-! ### A try among others -/

/-- `stateDigest` tells the state the transition begins on from the one it makes of it. -/
def Distinct (j : Job) (s : MixState) (known : Option String × BTreeSet String) : Prop :=
  stateDigest (j.next s known).1 = stateDigest s → (j.next s known).1 = s

section
variable (fixed : (Proto.reconcile j.topo.info s).1 = s) (distinct : Distinct j s known)
include fixed distinct

theorem between_transition {o : Oracle RosterOp Fate} (legible : Legible o) (tries : ℕ) :
    Triple o (Between j s known m) (transition tries j.follows j.new j.newSha j.active)
      (fun t w => Ended j s known m t w) fun e w => match e with
        | .stopped => Loose j s known m w
        | .error _ => Between j s known m w := by
  refine triple_conseq (triple_transition (Q := fun s' known' m' => Place j s known s' known' ∧ Mixed j m m') legible
    (lasting_between j s known m) (fun w between => between.frozen) (fun w between => between.shown) ?_ tries)
    (fun _ => id) ?_ ?_
  · rintro s' known' m' ⟨place, -⟩ same
    rcases place.again fixed with ⟨rfl, rfl⟩ | ⟨-, still, -⟩
    · exact distinct same
    · exact still
  · rintro t w ⟨s', known', m', ⟨place, mixed⟩, s'', known'', came, here⟩
    exact ⟨s'', known'', place.came fixed came, here.restate fun _ => mixed.went⟩
  · rintro e w (between | ⟨s', known', m', ⟨place, mixed⟩, broken⟩)
    · cases e with
      | stopped => exact between.loose
      | error _ => exact between
    · cases e with
      | stopped => exact broken.trans place mixed fixed
      | error _ => exact At.between (broken.restate fun _ restored => mixed.trans restored.mixed) place

theorem Tries.between (start : At j s (Tells j s known) (· = m) false w₀) (run : Tries j w₀ w) : Between j s known m w := by
  induction run with
  | start => exact At.between (start.restate fun m' same id => .inl (by rw [same])) .before
  | idle before e on ih =>
    have same : ∀ w : World, w.drift e = { w with desk := w.desk.drift e } := fun w => by simp [World.drift, on]
    rw [same]
    exact (lasting_between j s known m).drift _ e on ih
  | restart before ih => exact ih.loose.restart
  | failed before legible tries clock ran ih => exact triple_error (between_transition fixed distinct legible tries) ih ran
  | stopped before legible tries clock ran ds on ih =>
    have cut : Loose j s known m _ := triple_error (between_transition fixed distinct legible tries) ih ran
    exact (cut.drifts on).restart
  | done before legible tries clock ran ih =>
    obtain ⟨s', known', came, here⟩ := triple_ok (between_transition fixed distinct legible tries) ih ran
    exact At.between ((here.frost false).restate fun _ went id => .inr (went id)) came.place

end

/-- However many tries were refused, deferred or cut short by a stop of the server before: each
stored state is as it was or went along once, and the record tells which of the two the engine
plays. A try that succeeds then leaves what one undisturbed try would have. -/
theorem transition_moves_once (j : Job) (s : MixState) (known : Option String × BTreeSet String)
    (m : BTreeMap String MixerBackup) (w₀ w : World) (start : At j s (Tells j s known) (· = m) false w₀)
    (distinct : Distinct j s known) (before : Tries j w₀ w) :
    (Mixed j m w.store.states ∧ Place j s known w.desk.core.state (told j.active w.desk.core.state w.store.running)) ∧
    ∀ (o : Oracle RosterOp Fate) (_ : Legible o) (tries clock : ℕ) (t : Transition) (cut : Clocked World),
      transition tries j.follows j.new j.newSha j.active o ⟨w, clock⟩ = .ok t cut →
      (∀ id : String, cut.world.store.states[id]? = (m[id]?).map (j.goes id)) ∧
        Came j s known cut.world.desk.core.state (told j.active cut.world.desk.core.state cut.world.store.running) := by
  have fixed := start.1.fixed
  have between := before.between fixed distinct start
  constructor
  · obtain ⟨own, under, is⟩ := between.loose.under
    exact ⟨between.loose.states, (is _ _ under.holds).2⟩
  · intro o legible tries clock t cut ran
    obtain ⟨s', known', came, here⟩ := triple_ok (between_transition fixed distinct legible tries) between ran
    have tells : told j.active s' cut.world.store.running = known' := here.2.record
    refine ⟨here.2.stored, ?_⟩
    rw [here.1.state, tells]
    exact came

/-- Once a try succeeds the rules of the roster hold, in the engine and in every other lineup's
stored state, which is marked with the roster. -/
theorem transition_brings_rules (j : Job) (s : MixState) (known : Option String × BTreeSet String)
    (m : BTreeMap String MixerBackup) (w₀ w : World) (start : At j s (Tells j s known) (· = m) false w₀)
    (distinct : Distinct j s known) (before : Tries j w₀ w) (o : Oracle RosterOp Fate) (legible : Legible o)
    (tries clock : ℕ) (t : Transition) (cut : Clocked World)
    (ran : transition tries j.follows j.new j.newSha j.active o ⟨w, clock⟩ = .ok t cut) :
    Proper j.sets j.lineup cut.world.desk.core.state ∧
      ∀ l ∈ j.new.lineups, l.id ≠ j.active → ∀ b, cut.world.store.states[l.id]? = some b →
        b.follows = some j.newSha ∧ Proper j.sets l b.state := by
  have fixed := start.1.fixed
  obtain ⟨s', known', came, here⟩ := triple_ok (between_transition fixed distinct legible tries)
    (before.between fixed distinct start) ran
  have ruled : Ruled j.sets j.lineup (j.next s known) := ruled_follow _ _ _ _
  constructor
  · rw [here.1.state]
    cases came with
    | after => exact ruled.proper
    | equal same => exact (ruled.peq same).proper
    | unnoted same => exact (ruled.peq same).proper
  · intro l member apart b stored
    have other : l ∈ j.others := List.mem_filter.mpr ⟨member, by simpa using apart⟩
    rw [here.2.stored l.id] at stored
    obtain ⟨before, -, rfl⟩ := Option.map_eq_some_iff.mp stored
    exact goes_rules j other before

/-- A try that fails leaves the pages free, the state in the engine with what is known of it, and
each stored state but those whose file could not be written. -/
theorem failed_transition_restores (j : Job) (s : MixState) (known : Option String × BTreeSet String)
    (m : BTreeMap String MixerBackup) (w : World) (start : At j s (Tells j s known) (· = m) false w)
    (distinct : Distinct j s known) (o : Oracle RosterOp Fate) (legible : Legible o) (tries clock : ℕ) (why : Untaken)
    (cut : Clocked World)
    (ran : transition tries j.follows j.new j.newSha j.active o ⟨w, clock⟩ = .error (.error why) cut) :
    cut.world.frozen = false ∧ cut.world.desk.Holds j.topo j.active s ∧
      told j.active s cut.world.store.running = known ∧
      ∀ id : String, (∀ t kind, (o t (.op (.writeState id))).ending ≠ .failed kind) →
        cut.world.store.states[id]? = m[id]? := by
  have cut' : At j s (Tells j s known) (Restored o j m) false cut.world := by
    rcases triple_error (triple_transition (Q := fun s' known' m' => s' = s ∧ known' = known ∧ m' = m) legible
      (lasting_at j s (Tells j s known) (· = m) false) (fun w here => here.2.frozen)
      (fun w here _ => ⟨s, known, m, ⟨rfl, rfl, rfl⟩, here⟩)
      (by rintro _ _ _ ⟨rfl, rfl, -⟩; exact distinct) tries) start ran with here | ⟨_, _, _, ⟨rfl, rfl, rfl⟩, broken⟩
    · exact here.restate fun m' same id => .inl (by rw [same])
    · exact broken
  refine ⟨cut'.2.frozen, cut'.1.holds, cut'.2.record, fun id writes => ?_⟩
  rcases cut'.2.stored id with same | ⟨-, t, kind, failed⟩
  · exact same
  · exact absurd failed (writes t kind)

end

/-! ### Anna's set -/

/-- The choir and the youth with Anna on Ben's set. -/
def onBens : Roster :=
  { lineups := [{ choir with sets := .ofList [("ben", "anna")] }, { youth with sets := .ofList [("ben", "anna")] }] }

section
attribute [local instance] Core.duetLibm mutedDigest

def annasMove : Job where
  topo := TopologyProofs.duetCompiled.topo
  follows := { known := [{ roster := bands, sha256 := "before" }], unmarked := none }
  kept := ∅
  new := onBens
  newSha := "after"
  lineup := { choir with sets := .ofList [("ben", "anna")] }
  found := rfl
  distinct := by decide

/-- The choir plays and the youth's state is stored; both follow the roster before. -/
def followed : World :=
  let stored : MixerBackup := { state := concert.desk.core.state, follows := some "before" }
  { concert with
    store := {
      active := some "choir"
      running := some { lineup := "choir", follows := some "before" }
      states := .ofList [("youth", stored)] } }

/-- The server stops while its import is on its way. -/
def importStops : Oracle RosterOp Fate := fun _ op => match op with
  | .op (.request (.importState _)) => { ending := .stop true }
  | _ => {}

theorem legible_importStops : Legible importStops where
  awake t op := by
    cases op with
    | request cmd => cases cmd <;> simp [importStops]
    | _ => simp [importStops]
  keptAwake sha256 t op := by simp [importStops]
  kept t sha256 kind := by simp [importStops]
  running t kind := by simp [importStops]

def calm : Oracle RosterOp Fate := fun _ _ => {}

theorem legible_calm : Legible calm where
  awake t op := by simp [calm]
  keptAwake sha256 t op := by simp [calm]
  kept t sha256 kind := by simp [calm]
  running t kind := by simp [calm]

def annasKnown : Option String × BTreeSet String := (some "before", ∅)

theorem followed_at : At annasMove concert.desk.core.state (Tells annasMove concert.desk.core.state annasKnown)
    (· = followed.store.states) false followed where
  left := {
    holds := fun own is => {
      sound := concert_rest.whose.sound
      holds := is
      sees := fun _ => ⟨"choir", is⟩
      sent := fun _ member => absurd member List.not_mem_nil }
    shows := rfl
    site := by rintro t ⟨⟩; rfl }
  right := { rosters := rfl, stored := rfl, record := told_plain .., intent := rfl, frozen := rfl }

theorem annasMove_distinct : Distinct annasMove concert.desk.core.state annasKnown := by
  have apart : stateDigest (annasMove.next concert.desk.core.state annasKnown).1 ≠
      stateDigest concert.desk.core.state := by decide +kernel
  exact fun same => absurd same apart

/-- The server stops with the import on its way, which goes in; the try after its start leaves
the youth's state as one try would. -/
theorem transition_moves_once_duet : ∃ (cut after : Clocked World) (t : Transition),
    transition 3 annasMove.follows onBens "after" "choir" importStops ⟨followed, 0⟩ = .error .stopped cut ∧
      transition 3 annasMove.follows onBens "after" "choir" calm
        ⟨((cut.world.drifts [.handle]).restart).drift .join, 0⟩ = .ok t after ∧
      (∀ id : String, after.world.store.states[id]? = (followed.store.states[id]?).map (annasMove.goes id)) ∧
      Came annasMove concert.desk.core.state annasKnown after.world.desk.core.state
        (told "choir" after.world.desk.core.state after.world.store.running) ∧
      after.world.desk.core.state.mixes["anna"]?.map (·.out.muted) = some true := by
  have facts : stopsWith (fun cut => returnsWith (fun _ after => decide
      (after.world.desk.core.state.mixes["anna"]?.map (·.out.muted) = some true))
      (transition 3 annasMove.follows onBens "after" "choir" calm
        ⟨((cut.world.drifts [.handle]).restart).drift .join, 0⟩))
      (transition 3 annasMove.follows onBens "after" "choir" importStops ⟨followed, 0⟩) = true := by decide +kernel
  obtain ⟨cut, stopped, facts⟩ := of_stopsWith facts
  obtain ⟨t, after, ran, silent⟩ := of_returnsWith facts
  have before : Tries annasMove followed (((cut.world.drifts [.handle]).restart).drift .join) :=
    .idle (.stopped .start legible_importStops 3 0 stopped [.handle] (by simp)) .join (by simp)
  obtain ⟨-, all⟩ := transition_moves_once annasMove concert.desk.core.state annasKnown followed.store.states followed _
    followed_at annasMove_distinct before
  obtain ⟨states, came⟩ := all calm legible_calm 3 0 t after ran
  exact ⟨cut, after, t, stopped, ran, states, came, of_decide_eq_true silent⟩

theorem transition_brings_rules_duet : ∃ (after : Clocked World) (t : Transition) (b : MixerBackup),
    transition 3 annasMove.follows onBens "after" "choir" calm ⟨followed, 0⟩ = .ok t after ∧
      Proper annasMove.sets annasMove.lineup after.world.desk.core.state ∧
      after.world.store.states["youth"]? = some b ∧ b.follows = some "after" := by
  have facts : returnsWith (fun _ after => after.world.store.states.contains "youth")
      (transition 3 annasMove.follows onBens "after" "choir" calm ⟨followed, 0⟩) = true := by decide +kernel
  obtain ⟨t, after, ran, stored⟩ := of_returnsWith facts
  obtain ⟨engine, states⟩ := transition_brings_rules annasMove concert.desk.core.state annasKnown followed.store.states
    followed followed followed_at annasMove_distinct .start calm legible_calm 3 0 t after ran
  rw [Std.ExtTreeMap.contains_eq_isSome_getElem?, Option.isSome_iff_exists] at stored
  obtain ⟨b, stored⟩ := stored
  have youths : ({ youth with sets := .ofList [("ben", "anna")] } : Lineup) ∈ annasMove.new.lineups := by
    simp [annasMove, onBens]
  obtain ⟨follows, -⟩ := states _ youths (by simp [youth, annasMove, choir, Job.active]) b stored
  exact ⟨after, t, b, ran, engine, stored, follows⟩

/-- The engine refuses the import. -/
def importRefused : Oracle RosterOp Fate := fun _ op => match op with
  | .op (.request (.importState _)) => { ending := .refused ⟨.badValue, ""⟩ }
  | _ => {}

theorem legible_importRefused : Legible importRefused where
  awake t op := by
    cases op with
    | request cmd => cases cmd <;> simp [importRefused]
    | _ => simp [importRefused]
  keptAwake sha256 t op := by simp [importRefused]
  kept t sha256 kind := by simp [importRefused]
  running t kind := by simp [importRefused]

/-- The youth's state, written before the import, is written back. -/
theorem failed_transition_restores_duet : ∃ (why : Untaken) (cut : Clocked World),
    transition 3 annasMove.follows onBens "after" "choir" importRefused ⟨followed, 0⟩ = .error (.error why) cut ∧
      cut.world.desk.core.state = concert.desk.core.state ∧
      ∀ id : String, cut.world.store.states[id]? = followed.store.states[id]? := by
  have facts : failsWith (fun _ => true)
      (transition 3 annasMove.follows onBens "after" "choir" importRefused ⟨followed, 0⟩) = true := by decide +kernel
  obtain ⟨why, cut, ran, -⟩ := of_failsWith facts
  obtain ⟨-, holds, -, states⟩ := failed_transition_restores annasMove concert.desk.core.state annasKnown
    followed.store.states followed followed_at annasMove_distinct importRefused legible_importRefused 3 0 why cut ran
  exact ⟨why, cut, ran, holds.state, fun id => states id fun t kind => by simp [importRefused]⟩

end

end IemMixer.Server
