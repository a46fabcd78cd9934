import IemMixer.Server.SwitchProofs

/-! A switch that the server does not live to end, or that the engine does not take: once
its replay finished it or went back, the lineup recorded active, the one in use and the
engine's state are one lineup's. -/
namespace IemMixer.Server
open Lib Lib.Process Proto IemMixer.Core

section
variable [Libm] [Sha256]
variable {t : Task} {p : Plan} {a l : String} {w₀ w : World}

omit [Sha256] in
theorem Going.restart (going : Going t a w) (active : w.store.active = some l) : Going t l w.restart := by
  have lost : Goes w.desk (w.desk.drift .lose) := drift_goes w.desk .lose (by simp)
  have moved := stable_going t a w _ lost going
  obtain ⟨sha256, same⟩ := going.inUse
  refine ⟨moved.under, ⟨sha256, ?_⟩, going.intent, going.kept, going.stored, ?_, moved.saved⟩
  · simp [World.restart, same, active]
  · simp [World.restart, going.intent]

omit [Sha256] in
/-- The server starts again on a switch that is not over. -/
theorem Halted.restart (halted : Halted t w) : Waiting t w.restart := by
  have lost : Goes w.desk (w.desk.drift .lose) := drift_goes w.desk .lose (by simp)
  obtain ⟨a, moving | moved⟩ := halted
  · exact .inl ⟨_, moving.1.restart moving.2, moving.2⟩
  · exact .inr ⟨moved.1.restart moved.2.1, moved.2.1, moved.2.2.goes lost⟩

omit [Sha256] in
theorem Rest.restart {topo : Topology} {roster : Roster} (rest : Rest topo roster a l w) :
    Rest topo roster l l w.restart := by
  have lost : Goes w.desk (w.desk.drift .lose) := drift_goes w.desk .lose (by simp)
  have moved := stable_rest topo roster a l w _ lost rest
  obtain ⟨sha256, same⟩ := rest.inUse
  exact ⟨moved.whose, ⟨sha256, by simp [World.restart, same, rest.active]⟩, rest.active, rest.intent, moved.saved⟩

/-- What may come before the replay that finishes a switch: the engine and the pipe by
themselves, restarts of the server, and replays it does not live to end. -/
inductive Later (w₀ : World) : World → Prop where
  | refl : Later w₀ w₀
  | drifts {w : World} (earlier : Later w₀ w) (ds : List Drift) (on : Drift.reboot ∉ ds) : Later w₀ (w.drifts ds)
  | restart {w : World} (earlier : Later w₀ w) : Later w₀ w.restart
  | cut {w : World} (earlier : Later w₀ w) {o : Oracle Op Fate} (steady : Steady o) {clock : ℕ} {w' : Clocked World}
      (ran : replayWhenSynced o ⟨w, clock⟩ = .error .stopped w') (ds : List Drift) (on : Drift.reboot ∉ ds) :
    Later w₀ (w'.world.drifts ds).restart

theorem Waiting.later (waiting : Waiting t w₀) (later : Later w₀ w) : Waiting t w := by
  induction later with
  | refl => exact waiting
  | drifts earlier ds on ih => exact (stable_waiting t).drifts on ih
  | restart earlier ih =>
    obtain ⟨a, moving⟩ | moved := ih
    · exact Halted.restart ⟨a, .inl moving⟩
    · exact Halted.restart ⟨_, .inr moved⟩
  | cut earlier steady ran ds on ih =>
    have halted := triple_error (triple_replayWhenSynced steady) ih ran
    exact Halted.restart ((stable_halted t).drifts on halted)

/-- One lineup's: the record, the roster in use and the engine's state, and the state the
engine had before the switch is in its lineup's file. -/
structure Agrees (t : Task) (l : String) (w : World) : Prop where
  active : w.store.active = some l
  inUse : w.inUse.map (·.active) = some l
  owner : w.desk.owner = l
  own : t.Own l w.desk.core.state
  intent : w.store.intent = none
  kept : (w.store.states[t.src.id]?).map (·.state) = some t.live

omit [Sha256] in
theorem Settled.agrees (settled : Settled t l l w) : Agrees t l w := by
  obtain ⟨sha256, same⟩ := settled.rest.inUse
  refine ⟨settled.rest.active, by simp [same], settled.rest.whose.holds, ?_, settled.rest.intent, settled.kept⟩
  have own := settled.under.holds
  rwa [settled.rest.whose.holds] at own

/-- Whatever comes before it, the replay that finishes the switch or goes back leaves one
lineup's. -/
def Recovers (t : Task) (w : World) : Prop :=
  ∀ (later : World) (o : Oracle Op Fate) (clock : ℕ) (how : Replayed) (after : Clocked World), Later w later →
    Steady o → replayWhenSynced o ⟨later, clock⟩ = .ok how after → how ≠ .gaveUp →
      ∃ l, (l = t.src.id ∨ l = t.dst.id) ∧ Agrees t l after.world

theorem Waiting.recovers (waiting : Waiting t w) : Recovers t w := by
  intro later o clock how after between steady ran kept
  have done := triple_ok (triple_replayWhenSynced steady) (waiting.later between) ran
  cases how with
  | nothing => exact done.elim
  | finished => exact ⟨_, .inr rfl, done.agrees⟩
  | fellBack => exact ⟨_, .inl rfl, done.agrees⟩
  | gaveUp => exact absurd rfl kept

omit [Sha256] in
/-- With nothing on its way, what the engine comes to by itself is what it has. -/
theorem Left.idle {topo : Topology} {d : Desk} {s : MixState} (left : Left d s) (sound : d.Sound topo)
    (idle : d.inbox = []) : s = d.core.state := by
  obtain ⟨d', path, rfl⟩ := left
  suffices calm : d'.Sound topo ∧ d'.core.state = d.core.state ∧ ∀ p ∈ d'.inbox, Quiet p.1 from calm.2.1
  induction path with
  | refl => exact ⟨sound, rfl, by simp [idle]⟩
  | tail _ goes ih =>
    obtain ⟨sound, same, quiet⟩ := ih
    cases goes with
    | handle cmd whose rest next =>
      have met := sound.meet (.request cmd) whose
      have state := (Desk.meet_quiet sound (show QuietEvent (.request cmd) from quiet (cmd, whose) (by simp [next]))
        whose).1
      exact ⟨⟨met.wf, met.topo, met.canonical⟩, state.trans same, fun p member => quiet p (by simp [next, member])⟩
    | aside event calm whose =>
      refine ⟨sound.meet event whose, (Desk.meet_quiet sound calm whose).1.trans same, ?_⟩
      rw [(Desk.meet_frame _ event whose).2.1]
      exact quiet
    | save => exact ⟨⟨sound.wf, sound.topo, sound.canonical⟩, same, quiet⟩
    | pipe inbox fewer linked mirror seen =>
      refine ⟨⟨sound.wf, sound.topo, sound.canonical⟩, same, ?_⟩
      rcases fewer with rfl | rfl
      · exact quiet
      · exact fun p member => absurd member List.not_mem_nil
    | send cmd whose calm =>
      refine ⟨⟨sound.wf, sound.topo, sound.canonical⟩, same, fun p member => ?_⟩
      rcases List.mem_append.mp member with before | last
      · exact quiet p before
      · rw [List.mem_singleton.mp last]
        exact calm
    | idle => exact ⟨sound, same, quiet⟩

omit [Sha256] in
/-- A server that stopped before it recorded anything of a switch starts where it was. -/
theorem Before.restart {src : String} {topo : Topology} {roster : Roster} (before : Before src w₀ w)
    (rest : Rest topo roster a l w₀) :
    Rest topo roster l l w.restart ∧ Left w₀.desk w.restart.desk.core.state :=
  ⟨(before.rest rest).restart, _, before.path.tail (drift_goes w.desk .lose (by simp)), rfl⟩

/-- A switch reports success with the target's state in the engine, and a failure other
than a pending one with the lineup before as it was. One that is pending, or that the
server did not live to end, is brought to the target or back by the replay. -/
theorem switchLineup_consistent {o : Oracle Op Fate} (steady : Steady o) {topo : Topology} {roster : Roster}
    (src dst : Lineup) (srcFound : roster.lineup src.id = some src) (dstFound : roster.lineup dst.id = some dst)
    (apart : dst.id ≠ src.id) (rest : Rest topo roster src.id src.id w) (who : AuthClaims) (clock : ℕ) :
    let p : Plan := { topo, roster, src, dst, lax := False, srcFound, dstFound, apart }
    match switchLineup dst.id who o ⟨w, clock⟩ with
    | .ok _ after => ∃ t, Begun p w t ∧ Agrees t dst.id after.world
    | .error (.error (.pending _)) after =>
      after.world.store.active = some src.id ∧ after.world.store.intent = some { src := src.id, dst := dst.id } ∧
        ∃ t, Begun p w t ∧ Recovers t after.world
    | .error (.error _) after => Undone p w after.world ∧
      (w.desk.inbox = [] → after.world.desk.core.state = w.desk.core.state)
    | .error .stopped after => ∀ ds, Drift.reboot ∉ ds → Undone p w (after.world.drifts ds).restart ∨
      ∃ t, Begun p w t ∧ Recovers t (after.world.drifts ds).restart := by
  intro p
  have all := triple_switchLineup (p := p) steady rest who
  have undone : ∀ w', Undone p w w' →
      Undone p w w' ∧ (w.desk.inbox = [] → w'.desk.core.state = w.desk.core.state) :=
    fun w' undone => ⟨undone, fun idle => undone.2.idle rest.whose.sound idle⟩
  cases ran : switchLineup dst.id who o ⟨w, clock⟩ with
  | ok _ after =>
    obtain ⟨t, begun, settled⟩ := triple_ok all rfl ran
    exact ⟨t, begun, settled.agrees⟩
  | error halt after =>
    have cut := triple_error all rfl ran
    cases halt with
    | error e =>
      cases e with
      | pending why =>
        obtain ⟨t, begun, moving⟩ := cut
        have active := moving.2
        have intent := moving.1.intent
        rw [begun.plan] at active intent
        exact ⟨active, intent, t, begun, Waiting.recovers (.inl ⟨_, moving⟩)⟩
      | _ => exact undone _ cut
    | stopped =>
      intro ds on
      rcases cut with before | ⟨t, begun, halted⟩
      · exact .inl (((stable_before _ _).drifts on before).restart rest)
      · exact .inr ⟨t, begun, Waiting.recovers ((stable_halted t).drifts on halted).restart⟩

end

/-- Anna and Ben play; with the youth only Anna. -/
def choir : Lineup := { id := "choir", main := true, sets := .ofList [("anna", "anna"), ("ben", "ben")] }

def youth : Lineup := { id := "youth", sets := .ofList [("anna", "anna")] }

def bands : Roster := { lineups := [choir, youth] }

/-- A digest that tells the states of these runs apart. -/
abbrev mutedDigest : Sha256 where
  stateDigest s := String.join (s.mixes.toList.map fun m => if m.2.out.muted then m.1 else "")

/-- The choir plays, nothing is on its way. -/
def concert : World :=
  let core := (Core.new TopologyProofs.duetCompiled.topo {} 7 {}).withHil []
  let desk : Desk := { core, owner := "choir", saved := (core.state, "choir"), mirror := .start }
  { store := { active := some "choir" }
    desk := { desk with mirror := desk.view }
    inUse := some { roster := bands, sha256 := "", active := "choir" } }

section
attribute [local instance] Core.duetLibm mutedDigest

theorem concert_rest : Rest TopologyProofs.duetCompiled.topo bands "choir" "choir" concert where
  whose := {
    sound := ⟨(TopologyProofs.compile_spec _ TopologyProofs.duetCompiled).1, rfl, Core.new_canonical ..⟩
    holds := rfl
    sees := fun _ => ⟨"choir", rfl⟩
    sent := fun _ member => absurd member List.not_mem_nil }
  inUse := ⟨"", rfl⟩
  active := rfl
  intent := rfl
  saved := fun _ => rfl

/-- The server stops before it records the youth active. -/
def stopping : Oracle Op Fate := fun _ op => match op with
  | .writeActive => { ending := .stop false }
  | _ => {}

/-- No answer to either import, and the second does not leave. -/
def lossy : Oracle Op Fate := fun time op => match op with
  | .request (.importState _) => { drifts := [.handle], ending := .lost (time < 10) false }
  | _ => {}

/-- The connection comes back. -/
def rejoining : Oracle Op Fate := fun _ op => match op with
  | .waitSynced => { drifts := [.join] }
  | _ => {}

def engineer : AuthClaims := { sub := "eng", engineer := true }

theorem steady_stopping : Steady stopping := by
  refine ⟨fun time op => ?_, fun time op kind sure => ?_⟩
  · cases op <;> simp [stopping]
  · cases op <;> simp_all [stopping, Op.mayFail]

theorem steady_rejoining : Steady rejoining := by
  refine ⟨fun time op => ?_, fun time op kind sure => ?_⟩
  · cases op <;> simp [rejoining]
  · cases op <;> simp [rejoining]

theorem steady_lossy : Steady lossy := by
  refine ⟨fun time op => ?_, fun time op kind sure => ?_⟩
  · unfold lossy
    split <;> simp
  · unfold lossy
    split <;> simp

/-- The server stops with the youth's state in the engine and the choir recorded active;
the replay after its start finishes the switch. -/
theorem switchLineup_consistent_duet : ∃ (cut after : Clocked World) (t : Task),
    switchLineup "youth" engineer stopping ⟨concert, 0⟩ = .error .stopped cut ∧
      cut.world.store.active = some "choir" ∧ cut.world.desk.owner = "youth" ∧ Recovers t cut.world.restart ∧
      replayWhenSynced rejoining ⟨cut.world.restart, 0⟩ = .ok .finished after ∧ Agrees t "youth" after.world := by
  have all := switchLineup_consistent steady_stopping choir youth rfl rfl (by simp [choir, youth])
    concert_rest engineer 0
  have facts : stopsWith (fun cut =>
      decide (cut.world.store.active = some "choir" ∧ cut.world.desk.owner = "youth" ∧ cut.world.store.intent.isSome) &&
      returnsWith (fun ending after => ending == .finished && after.world.store.active == some "youth")
        (replayWhenSynced rejoining ⟨cut.world.restart, 0⟩))
      (switchLineup "youth" engineer stopping ⟨concert, 0⟩) = true := by decide +kernel
  obtain ⟨cut, ran, facts⟩ := of_stopsWith facts
  have stopped : switchLineup youth.id engineer stopping ⟨concert, 0⟩ = .error .stopped cut := ran
  rw [stopped] at all
  simp only [Bool.and_eq_true, decide_eq_true_eq] at facts
  obtain ⟨⟨active, owner, recorded⟩, finished⟩ := facts
  obtain undone | ⟨t, begun, recovers⟩ := all [] List.not_mem_nil
  · have none : cut.world.store.intent = none := undone.1.intent
    rw [none] at recorded
    cases recorded
  obtain ⟨ending, after, replayed, finished⟩ := of_returnsWith finished
  simp only [Bool.and_eq_true, beq_iff_eq] at finished
  obtain ⟨rfl, plays⟩ := finished
  obtain ⟨l, -, agrees⟩ := recovers _ _ _ _ after .refl steady_rejoining replayed (by simp)
  have both := agrees.active.symm.trans plays
  rw [Option.some.inj both] at agrees
  exact ⟨cut, after, t, ran, active, owner, recovers, replayed, agrees⟩

/-- The engine takes the youth's state, and neither answer comes: the switch reports that
it failed, and the engine holds another state than before. -/
theorem pending_switch_holds_target : Steady lossy ∧ ∃ (why : SwitchError) (after : Clocked World),
    switchLineup "youth" engineer lossy ⟨concert, 0⟩ = .error (.error why) after ∧
      after.world.desk.core.state ≠ concert.desk.core.state := by
  refine ⟨steady_lossy, ?_⟩
  have facts : failsWith (fun after => decide
      (after.world.desk.core.state.mixes["ben"]?.map (·.out.muted) = some true ∧
        concert.desk.core.state.mixes["ben"]?.map (·.out.muted) = some false))
      (switchLineup "youth" engineer lossy ⟨concert, 0⟩) = true := by decide +kernel
  obtain ⟨why, after, ran, facts⟩ := of_failsWith facts
  obtain ⟨muted, unmuted⟩ := of_decide_eq_true facts
  refine ⟨why, after, ran, fun same => ?_⟩
  rw [same, unmuted] at muted
  cases muted

end

end IemMixer.Server
