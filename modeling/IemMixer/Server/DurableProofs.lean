import IemMixer.Server.CrashProofs

/-! Two stores with commit points of their own: the server's record of the active lineup
and of a running switch, and what the engine saved, some seconds after it took a state.
Over every run of switches, saves and stops of the whole box, what the engine would start
from is the active lineup's, as long as no switch is declared over, and the box does not
stop, before the engine saved. -/
namespace IemMixer.Server
open Lib Lib.Process Proto IemMixer.Core

section
variable [Libm] [Sha256]
variable {o : Oracle Op Fate} {t : Task} {topo : Topology} {roster : Roster} {a l : String} {w₀ w : World}

omit [Libm] [Sha256] in
theorem lineup_id {id : String} {lineup : Lineup} (found : roster.lineup id = some lineup) : lineup.id = id := by
  have named := List.find?_some found
  simpa using named

/-- A switch during one, or to no other lineup, is refused. -/
theorem triple_refused (uses : Uses roster l w₀) (dst : String) (who : AuthClaims)
    (bars : w₀.frozen = true ∨ (∃ src, roster.lineup l = some src) ∧
      ∀ target, roster.lineup dst = some target → target.id = l) :
    Triple o (fun w => w = w₀) (switchLineup dst who) (fun _ _ => False) (fun _ w => w = w₀) := by
  obtain ⟨sha256, used⟩ := uses
  unfold switchLineup
  refine triple_bind (triple_look (Q := fun use w => use = some { roster, sha256, active := l } ∧ w = w₀) ?_)
    fun use => triple_fact fun same => ?_
  · rintro w rfl
    exact ⟨used, rfl⟩
  subst same
  simp only
  refine triple_unless (fun _ _ => id) fun _ => ?_
  cases playing : RosterState.lineup { roster, sha256, active := l } with
  | none => exact triple_fail fun _ => id
  | some src =>
    cases target : roster.lineup dst with
    | none => exact triple_fail fun _ => id
    | some other =>
      refine triple_unless (fun _ _ => id) fun apart => ?_
      rcases bars with frozen | ⟨⟨found, here⟩, same⟩
      · refine triple_bind (triple_look (Q := fun busy w => busy = true ∧ w = w₀) ?_) fun busy =>
          triple_fact fun same => ?_
        · rintro w rfl
          exact ⟨by simp [frozen], rfl⟩
        · exact triple_unless (fun _ _ => id) fun free => absurd same free
      · have same_src : src = found := by simpa [RosterState.lineup, here] using playing.symm
        rw [same_src, lineup_id here] at apart
        exact absurd (same other target) apart

omit [Sha256] in
theorem Rest.thaw (rest : Rest topo roster a l w) : Rest topo roster a l { w with frozen := false } :=
  ⟨rest.whose, rest.inUse, rest.active, rest.intent, rest.saved⟩

/-- A replay finds nothing to finish. -/
theorem triple_replay_rest (steady : Steady o) :
    Triple o (Rest topo roster a l) replayWhenSynced (fun _ => Rest topo roster a l)
      (fun _ => Rest topo roster a l) := by
  have awake := steady.awake
  have stable := stable_rest topo roster a l
  have nothing : ∀ next : Option SwitchIntent → Proc PlayError Unit,
      next none = (do let _ ← look (·.inUse); thaw) → Triple o (Rest topo roster a l)
      (do
        let intent ← mapErr .io Store.readIntent
        next intent)
      (fun _ => Rest topo roster a l) (fun _ => Rest topo roster a l) := by
    intro next thaws
    refine triple_bind (triple_read steady (S := (· = none)) rfl stable (fun _ => id) fun w rest => rest.intent)
      fun intent => triple_fact fun same => ?_
    subst same
    rw [thaws]
    refine triple_bind (triple_look (Q := fun _ => Rest topo roster a l) fun _ => id) fun use => ?_
    exact triple_change fun w rest => rest.thaw
  have tries : ∀ m : Proc PlayError Unit, Triple o (Rest topo roster a l) m (fun _ => Rest topo roster a l)
      (fun _ => Rest topo roster a l) →
      Triple o (Rest topo roster a l) (retry m maxReplays : Proc Empty Bool) (fun _ => Rest topo roster a l)
        (fun _ => Rest topo roster a l) := by
    intro m one
    refine triple_conseq (triple_retry awake stable (fun _ => id) (E := fun _ => Rest topo roster a l) (fun _ => id)
      (triple_conseq one (fun _ => id) (fun _ _ => id) fun e w => ?_) maxReplays) (fun _ => id) (fun b w => ?_)
      fun _ _ => id
    · cases e with
      | stopped => exact id
      | error _ => exact id
    cases b with
    | true => exact id
    | false => exact id
  unfold replayWhenSynced
  refine triple_bind (triple_look (Q := fun _ => Rest topo roster a l) fun _ => id) fun frozen => ?_
  split
  · exact triple_pure fun _ => id
  refine triple_bind (tries _ (nothing _ rfl)) fun finished => ?_
  cases finished with
  | true => exact triple_pure fun _ => id
  | false =>
    refine triple_bind (tries _ (nothing _ rfl)) fun fell => ?_
    cases fell with
    | true => exact triple_pure fun _ => id
    | false =>
      refine triple_bind (triple_attempt (Q := fun _ => Rest topo roster a l) (E := fun _ => Rest topo roster a l)
        (triple_file awake stable ?_ (fun _ _ _ _ => id) fun _ => id) fun _ => id) fun cleared => ?_
      · intro w rest
        refine ⟨rest.whose, rest.inUse, rest.active, rfl, ?_⟩
        simpa [rest.intent] using rest.saved
      refine triple_bind (Q := fun _ => Rest topo roster a l) (triple_change fun w rest => ?_) fun _ =>
        triple_pure fun _ => id
      cases cleared with
      | ok _ => exact Rest.thaw rest
      | error _ => exact Rest.thaw rest

/-- The whole box: the world, and whether the server runs. -/
structure Box where
  world : World
  up : Bool := true

/-- What a computation of the server leaves. -/
def Box.after {ε α : Type} : EStateM.Result (Halt ε) (Clocked World) α → Box
  | .ok _ w => ⟨w.world, true⟩
  | .error (.error _) w => ⟨w.world, true⟩
  | .error .stopped w => ⟨w.world, false⟩

/-- One step of the box: a page's change, what the engine does by itself (its saves among
it), a switch, the replay of one (a replay that gives up leaves it open whose state the
engine holds), a start of the server, a stop of everything. -/
inductive Deed : Box → Box → Prop where
  | page {w : World} (cmd : Cmd) (whose : String) (free : w.frozen = false) (changes : isImport cmd = false) :
    Deed ⟨w, true⟩ ⟨{ w with desk := w.desk.post cmd whose }, true⟩
  | engine {b : Box} (d : Drift) : Deed b ⟨b.world.drift d, b.up⟩
  | switch {w : World} {o : Oracle Op Fate} (steady : Steady o) (dst : String) (who : AuthClaims) (clock : ℕ) :
    Deed ⟨w, true⟩ (.after (switchLineup dst who o ⟨w, clock⟩))
  | replay {w : World} {o : Oracle Op Fate} (steady : Steady o) (clock : ℕ)
      (ends : ∀ w', replayWhenSynced o ⟨w, clock⟩ ≠ .ok .gaveUp w') :
    Deed ⟨w, true⟩ (.after (replayWhenSynced o ⟨w, clock⟩))
  | start {b : Box} : Deed b ⟨b.world.restart, true⟩
  | stop {b : Box} : Deed b ⟨b.world.drift .reboot, false⟩

/-- A run in which no switch is declared over before the engine saved what it plays, and
the box does not stop before the engine saved what a recorded switch made it play. -/
def Timely : Box → Box → Prop := Relation.ReflTransGen fun b b' => Deed b b' ∧ b'.world.early = false

/-- The box is at rest, or in a switch. -/
def Kept (topo : Topology) (roster : Roster) (b : Box) : Prop :=
  (∃ a l src, roster.lineup l = some src ∧ Rest topo roster a l b.world ∧ (b.up = true → a = l)) ∨
    ∃ t : Task, t.topo = topo ∧ t.roster = roster ∧ t.lax ∧
      if b.up then Waiting t b.world else Halted t b.world

omit [Sha256] in
theorem Desk.Under.reboot {own : String → MixState → Prop} {d : Desk} (under : d.Under topo own)
    (holds : own d.saved.2 (d.drift .reboot).core.state) : (d.drift .reboot).Under topo own where
  sound := ⟨under.sound.wf, under.sound.topo, new_canonical ..⟩
  holds := holds
  sees := by simp [Desk.drift, Mirror.disconnected]
  sent := fun _ member => absurd member List.not_mem_nil

omit [Sha256] in
theorem Going.reboot (going : Going t a w) (lax : t.lax) (timely : (w.drift .reboot).early = false) :
    Going t a (w.drift .reboot) := by
  have early : w.early = false := (Bool.or_eq_false_iff.mp timely).1
  refine ⟨?_, going.inUse, going.intent, going.kept, going.stored, going.frozen, fun _ => going.saved early⟩
  exact going.under.reboot (.loaded lax _ (going.saved early))

omit [Sha256] in
theorem Moved.reboot (moved : Moved t a w) (lax : t.lax) (timely : (w.drift .reboot).early = false) :
    Moved t a (w.drift .reboot) := by
  obtain ⟨going, active, whose⟩ := moved
  refine ⟨going.reboot lax timely, active, whose.reboot ?_⟩
  -- The target is recorded active and its switch too: the engine has saved the target's state.
  have saved := (Bool.or_eq_false_iff.mp timely).2
  simp only [going.intent, active, Option.any_some, beq_self_eq_true, Bool.true_and, Bool.and_true, Desk.unsaved,
    bne_eq_false_iff_eq] at saved
  exact saved.trans whose.holds

omit [Sha256] in
theorem Rest.reboot (rest : Rest topo roster a l w) (timely : (w.drift .reboot).early = false) :
    Rest topo roster a l (w.drift .reboot) := by
  have early : w.early = false := (Bool.or_eq_false_iff.mp timely).1
  exact ⟨rest.whose.reboot (rest.saved early), rest.inUse, rest.active, rest.intent, fun _ => rest.saved early⟩

omit [Sha256] in
theorem Halted.reboot (halted : Halted t w) (lax : t.lax) (timely : (w.drift .reboot).early = false) :
    Halted t (w.drift .reboot) := by
  obtain ⟨a, moving | moved⟩ := halted
  · exact ⟨a, .inl ⟨moving.1.reboot lax timely, moving.2⟩⟩
  · exact ⟨a, .inr (moved.reboot lax timely)⟩

omit [Sha256] in
theorem Waiting.reboot (waiting : Waiting t w) (lax : t.lax) (timely : (w.drift .reboot).early = false) :
    Waiting t (w.drift .reboot) := by
  obtain ⟨a, moving⟩ | moved := waiting
  · exact .inl ⟨a, moving.1.reboot lax timely, moving.2⟩
  · exact .inr (moved.reboot lax timely)

omit [Sha256] in
/-- Whatever the engine does by itself, a start anew among it. -/
theorem Stable.drift_timely {P : Assertion World} (stable : Stable P)
    (reboot : (w.drift .reboot).early = false → P (w.drift .reboot)) (pre : P w) {d : Drift}
    (timely : (w.drift d).early = false) : P (w.drift d) := by
  by_cases anew : d = .reboot
  · subst anew
    exact reboot timely
  · have on : Drift.reboot ∉ [d] := by simpa using Ne.symm anew
    exact stable.drifts on pre

omit [Sha256] in
/-- A page's change leaves whose state the engine holds. -/
theorem Rest.page (rest : Rest topo roster a l w) {cmd : Cmd} (changes : isImport cmd = false) (whose : String) :
    Rest topo roster a l { w with desk := w.desk.post cmd whose } := by
  have carries : Carries topo (Whose l) (cmd, whose) := by
    intro d _ holds
    exact (d.meet_owner changes whose).trans holds
  unfold Desk.post
  split
  · exact ⟨rest.whose.post carries, rest.inUse, rest.active, rest.intent, rest.saved⟩
  · exact ⟨rest.whose, rest.inUse, rest.active, rest.intent, rest.saved⟩

omit [Sha256] in
theorem kept_rest {b : Box} {src : Lineup} (found : roster.lineup l = some src) (rest : Rest topo roster l l b.world) :
    Kept topo roster b :=
  .inl ⟨l, l, src, found, rest, fun _ => rfl⟩

/-- A switch begun at rest. -/
theorem kept_switch (steady : Steady o) {src : Lineup} (found : roster.lineup l = some src)
    (rest : Rest topo roster l l w) (dst : String) (who : AuthClaims) (clock : ℕ) :
    Kept topo roster (.after (switchLineup dst who o ⟨w, clock⟩)) := by
  by_cases other : ∃ target, roster.lineup dst = some target ∧ target.id ≠ l
  · obtain ⟨target, there, apart⟩ := other
    have named := lineup_id found
    have named' := lineup_id there
    subst named named'
    let p : Plan := { topo, roster, src, dst := target, lax := True, srcFound := found, dstFound := there, apart }
    have all := triple_switchLineup (p := p) steady rest who
    cases ran : switchLineup target.id who o ⟨w, clock⟩ with
    | ok _ after =>
      obtain ⟨t, begun, settled⟩ := triple_ok all rfl ran
      obtain ⟨plan, -, -⟩ := begun
      have done := settled.rest
      rw [plan] at done
      exact kept_rest there done
    | error halt after =>
      have cut := triple_error all rfl ran
      cases halt with
      | error e =>
        cases e with
        | pending why =>
          obtain ⟨t, ⟨plan, -, -⟩, moving⟩ := cut
          exact .inr ⟨t, by rw [plan], by rw [plan], by rw [plan]; trivial, .inl ⟨_, moving⟩⟩
        | _ => exact kept_rest found cut.1
      | stopped =>
        rcases cut with before | ⟨t, ⟨plan, -, -⟩, halted⟩
        · exact .inl ⟨_, _, src, found, before.rest rest, fun _ => rfl⟩
        · exact .inr ⟨t, by rw [plan], by rw [plan], by rw [plan]; trivial, halted⟩
  · have bars : ∀ target, roster.lineup dst = some target → target.id = l := by
      intro target there
      by_contra apart
      exact other ⟨target, there, apart⟩
    have all := triple_refused (o := o) rest.inUse dst who (.inr ⟨⟨src, found⟩, bars⟩)
    cases ran : switchLineup dst who o ⟨w, clock⟩ with
    | ok _ after => exact (triple_ok all rfl ran).elim
    | error halt after =>
      have still : Rest topo roster l l after.world := by
        rw [triple_error all rfl ran]
        exact rest
      cases halt with
      | error e => exact kept_rest found still
      | stopped => exact kept_rest found still

omit [Sha256] in
theorem Waiting.uses (waiting : Waiting t w) : (∃ a, Uses t.roster a w) ∧ w.frozen = true := by
  obtain ⟨a, moving⟩ | moved := waiting
  · exact ⟨⟨a, moving.1.inUse⟩, moving.1.frozen⟩
  · exact ⟨⟨_, moved.1.inUse⟩, moved.1.frozen⟩

omit [Sha256] in
theorem Waiting.halted (waiting : Waiting t w) : Halted t w := by
  obtain ⟨a, moving⟩ | moved := waiting
  · exact ⟨a, .inl moving⟩
  · exact ⟨_, .inr moved⟩

omit [Sha256] in
theorem unfinished_halted {b : Box} (unfinished : if b.up then Waiting t b.world else Halted t b.world) :
    Halted t b.world := by
  split at unfinished
  · exact unfinished.halted
  · exact unfinished

/-- A replay of nothing. -/
theorem kept_replay_rest (steady : Steady o) {src : Lineup} (found : roster.lineup l = some src)
    (rest : Rest topo roster l l w) (clock : ℕ) : Kept topo roster (.after (replayWhenSynced o ⟨w, clock⟩)) := by
  have all : Triple o (Rest topo roster l l) replayWhenSynced _ _ := triple_replay_rest steady
  cases ran : replayWhenSynced o ⟨w, clock⟩ with
  | ok how after => exact kept_rest found (triple_ok all rest ran)
  | error halt after =>
    have still := triple_error all rest ran
    cases halt with
    | error e => exact e.elim
    | stopped => exact kept_rest found still

/-- A replay that does not give up. -/
theorem kept_replay (steady : Steady o) (lax : t.lax) (waiting : Waiting t w) (clock : ℕ)
    (ends : ∀ w', replayWhenSynced o ⟨w, clock⟩ ≠ .ok .gaveUp w') :
    Kept t.topo t.roster (.after (replayWhenSynced o ⟨w, clock⟩)) := by
  have all := triple_replayWhenSynced steady (t := t)
  cases ran : replayWhenSynced o ⟨w, clock⟩ with
  | ok how after =>
    have ended := triple_ok all waiting ran
    cases how with
    | nothing => exact ended.elim
    | finished => exact kept_rest t.dstFound ended.rest
    | fellBack => exact kept_rest t.srcFound ended.rest
    | gaveUp => exact absurd ran (ends after)
  | error halt after =>
    have halted := triple_error all waiting ran
    cases halt with
    | error e => exact e.elim
    | stopped => exact .inr ⟨t, rfl, rfl, lax, halted⟩

/-- One step keeps the box at rest or in a switch. -/
theorem Kept.deed {b b' : Box} (kept : Kept topo roster b) (deed : Deed b b') (timely : b'.world.early = false) :
    Kept topo roster b' := by
  rcases kept with ⟨a, l, src, found, rest, up⟩ | ⟨t, rfl, rfl, lax, unfinished⟩
  · cases deed with
    | page cmd whose free changes => exact .inl ⟨a, l, src, found, rest.page changes whose, up⟩
    | engine d =>
      exact .inl ⟨a, l, src, found, (stable_rest _ _ _ _).drift_timely rest.reboot rest timely, up⟩
    | switch steady dst who clock =>
      obtain rfl := up rfl
      exact kept_switch steady found rest dst who clock
    | replay steady clock ends =>
      obtain rfl := up rfl
      exact kept_replay_rest steady found rest clock
    | start => exact kept_rest found rest.restart
    | stop =>
      exact .inl ⟨a, l, src, found, (stable_rest _ _ _ _).drift_timely rest.reboot rest timely, by simp⟩
  · cases deed with
    | page cmd whose free changes =>
      rw [unfinished.uses.2] at free
      cases free
    | @engine b d =>
      refine .inr ⟨t, rfl, rfl, lax, ?_⟩
      cases running : b.up with
      | true =>
        simp only [running, if_true] at unfinished ⊢
        exact (stable_waiting t).drift_timely (unfinished.reboot lax) unfinished timely
      | false =>
        simp only [running, Bool.false_eq_true, if_false] at unfinished ⊢
        exact (stable_halted t).drift_timely (unfinished.reboot lax) unfinished timely
    | @switch w o steady dst who clock =>
      -- The pages are frozen: no other switch begins.
      have waiting : Waiting t w := unfinished
      obtain ⟨⟨a, uses⟩, frozen⟩ := waiting.uses
      have all := triple_refused (o := o) uses dst who (.inl frozen)
      cases ran : switchLineup dst who o ⟨w, clock⟩ with
      | ok _ after => exact (triple_ok all rfl ran).elim
      | error halt after =>
        have still : Waiting t after.world := by
          rw [triple_error all rfl ran]
          exact waiting
        cases halt with
        | error e => exact .inr ⟨t, rfl, rfl, lax, still⟩
        | stopped => exact .inr ⟨t, rfl, rfl, lax, still.halted⟩
    | replay steady clock ends => exact kept_replay steady lax unfinished clock ends
    | @start b =>
      refine .inr ⟨t, rfl, rfl, lax, ?_⟩
      exact (unfinished_halted unfinished).restart
    | @stop b =>
      refine .inr ⟨t, rfl, rfl, lax, ?_⟩
      exact (stable_halted t).drift_timely ((unfinished_halted unfinished).reboot lax) (unfinished_halted unfinished)
        timely

theorem Kept.timely {b₀ b : Box} (kept : Kept topo roster b₀) (run : Timely b₀ b) : Kept topo roster b := by
  induction run with
  | refl => exact kept
  | tail _ step ih => exact ih.deed step.1 step.2

/-- Durability. In every timely run from a box at rest: whenever a lineup is recorded
active and no switch is, the state the engine would start from is that lineup's. -/
theorem active_is_durable {b₀ b : Box} {src : Lineup} (found : roster.lineup l = some src)
    (rest : Rest topo roster l l b₀.world) (fresh : b₀.world.early = false) (run : Timely b₀ b) (active : String)
    (recorded : b.world.store.active = some active) (ended : b.world.store.intent = none) :
    b.world.desk.saved.2 = active := by
  have early : b.world.early = false := by
    rcases Relation.ReflTransGen.cases_tail run with same | ⟨_, -, step⟩
    · rw [same]
      exact fresh
    · exact step.2
  rcases (kept_rest found rest : Kept topo roster b₀).timely run with ⟨a, l, -, -, rest, -⟩ | ⟨t, -, -, -, unfinished⟩
  · have same := rest.active.symm.trans recorded
    rw [rest.saved early, Option.some.inj same]
  · obtain ⟨a, moving | moved⟩ := unfinished_halted unfinished
    · have none := moving.1.intent.symm.trans ended
      cases none
    · have none := moved.1.intent.symm.trans ended
      cases none

end

section
attribute [local instance] Core.duetLibm mutedDigest

/-- The engine saves before the intent goes. -/
def savesFirst : Oracle Op Fate := fun _ op => match op with
  | .clearIntent => { drifts := [.save] }
  | _ => {}

theorem steady_savesFirst : Steady savesFirst := by
  refine ⟨fun time op => ?_, fun time op kind sure => ?_⟩
  · cases op <;> simp [savesFirst]
  · cases op <;> simp [savesFirst]

/-- The youth is switched to, and the box stops right after. -/
def switched (o : Oracle Op Fate) : Box := .after (switchLineup "youth" engineer o ⟨concert, 0⟩)

theorem switched_deed {o : Oracle Op Fate} (steady : Steady o) : Deed ⟨concert, true⟩ (switched o) :=
  .switch steady "youth" engineer 0

theorem active_is_durable_duet : ∃ b : Box, Timely ⟨concert, true⟩ ⟨b.world.drift .reboot, false⟩ ∧
    b.world.store.active = some "youth" ∧ (b.world.drift .reboot).desk.saved.2 = "youth" := by
  have facts : (switched savesFirst).world.store.active = some "youth" ∧
      (switched savesFirst).world.store.intent = none ∧ (switched savesFirst).world.early = false ∧
      ((switched savesFirst).world.drift .reboot).early = false := by decide +kernel
  have first := switched_deed steady_savesFirst
  generalize switched savesFirst = b at facts first
  obtain ⟨active, ended, early, later⟩ := facts
  have run : Timely ⟨concert, true⟩ ⟨b.world.drift .reboot, false⟩ :=
    .tail (.single ⟨first, early⟩) ⟨.stop, later⟩
  have found : bands.lineup "choir" = some choir := rfl
  exact ⟨b, run, active, active_is_durable found concert_rest rfl run "youth" active ended⟩

/-- A switch that nothing goes wrong in: the youth is recorded active and no switch is,
and the engine still has the choir's state saved. -/
theorem switch_ends_before_save : ∃ b : Box, Relation.ReflTransGen Deed ⟨concert, true⟩ b ∧
    b.world.store.active = some "youth" ∧ b.world.store.intent = none ∧ b.world.desk.saved.2 = "choir" := by
  have steady : Steady fun _ _ => ({} : Fate) := ⟨fun _ _ => by simp, fun _ _ _ _ => by simp⟩
  have facts : (switched fun _ _ => {}).world.store.active = some "youth" ∧
      (switched fun _ _ => {}).world.store.intent = none ∧
      (switched fun _ _ => {}).world.desk.saved.2 = "choir" := by decide +kernel
  exact ⟨_, .single (switched_deed steady), facts⟩

end

end IemMixer.Server
