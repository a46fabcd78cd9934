import IemMixer.Server.Transition

/-! What becomes of the roster in use in a transition, a switch and its replay: a transition leaves
it to its caller, a switch goes to one of its lineups. -/
namespace IemMixer.Server.RosterWatch
open Lib Lib.Process Proto

/-! ### What the steps of the states leave in use -/

/-- Of the roster in use. -/
def InUse (J : Option RosterState → Prop) (w : World) : Prop := J w.inUse

section
variable {ε α : Type} {J : Option RosterState → Prop}

variable [Libm]

theorem drifts_inUse (w : World) (ds : List Drift) : (w.drifts ds).inUse = w.inUse := by
  induction ds generalizing w with
  | nil => rfl
  | cons d rest ih => exact ih (w.drift d)

section
variable {o : Oracle Op Fate}

theorem keeps_file {op : Op} {act : World → α × World} (same : ∀ w, (act w).2.inUse = w.inUse) :
    Keeps o (InUse J) (Server.fileStep op act) := by
  refine triple_step fun t w held => ?_
  have kept : J (w.drifts (o t op).drifts).inUse := by rwa [drifts_inUse]
  simp only
  cases (o t op).ending with
  | stop _ => exact kept
  | failed _ => exact kept
  | _ =>
    show J (act _).2.inUse
    rwa [same]

theorem keeps_mirror : Keeps o (InUse J) (mirror (ε := ε)) := by
  refine triple_step fun t w held => ?_
  have kept : J (w.drifts (o t .mirror).drifts).inUse := by rwa [drifts_inUse]
  simp only
  cases (o t .mirror).ending <;> exact kept

theorem keeps_waitSynced : Keeps o (InUse J) (waitSynced (ε := ε)) := by
  refine triple_step fun t w held => ?_
  have kept : J (w.drifts (o t .waitSynced).drifts).inUse := by rwa [drifts_inUse]
  simp only
  cases (o t .waitSynced).ending with
  | stop _ => exact kept
  | _ =>
    cases (w.drifts (o t .waitSynced).drifts).desk.mirror.synced with
    | true => exact kept
    | false => exact kept

theorem keeps_request (cmd : Cmd) (whose : String) : Keeps o (InUse J) (requestApplied cmd whose) := by
  refine triple_step fun t w held => ?_
  have kept : J (w.drifts (o t (.request cmd)).drifts).inUse := by rwa [drifts_inUse]
  generalize w.drifts (o t (.request cmd)).drifts = w at kept
  simp only
  cases (o t (.request cmd)).ending with
  | stop sent => cases sent <;> exact kept
  | refused body => cases w.desk.linked <;> exact kept
  | lost sent timeout => cases w.desk.linked <;> cases sent <;> exact kept
  | _ =>
    cases w.desk.linked with
    | false => exact kept
    | true =>
      simp only [World.answered]
      cases w.desk.flush.core.apply cmd <;> exact kept

omit [Libm] in
theorem keeps_change {f : World → World} (same : ∀ w, (f w).inUse = w.inUse) :
    Keeps o (InUse J) (change f : Proc ε Unit) := triple_change fun w held => by
  show J (f w).inUse
  rwa [same]

omit [Libm] in
theorem keeps_thaw : Keeps o (InUse J) (thaw (ε := ε)) := keeps_change fun _ => rfl

theorem keeps_noteRunning (running : Running) : Keeps o (InUse J) (noteRunning (ε := ε) running) :=
  keeps_bind (keeps_attempt (keeps_file fun _ => rfl)) fun _ => keeps_pure

theorem keeps_runningOf (held : String) : Keeps o (InUse J) (runningOf (ε := ε) held) := by
  unfold runningOf
  refine keeps_bind (keeps_attempt (keeps_file fun _ => rfl)) fun read => ?_
  match read with
  | .error _ => exact keeps_pure
  | .ok none => exact keeps_pure
  | .ok (some running) =>
    exact keeps_ite keeps_pure (keeps_bind (keeps_noteRunning _) fun _ => keeps_pure)

theorem keeps_runningFor (lineup held : String) : Keeps o (InUse J) (runningFor (ε := ε) lineup held) := by
  unfold runningFor
  refine keeps_bind (keeps_runningOf held) fun running => ?_
  cases running <;> exact keeps_pure

theorem keeps_endSolos (mixes : List MixId) : Keeps o (InUse J) (endSolos (ε := ε) mixes) :=
  keeps_each fun _ => keeps_bind (keeps_attempt (keeps_request _ _)) fun _ => keeps_pure

theorem keeps_freeze : Keeps o (InUse J) freeze := by
  unfold freeze
  refine keeps_bind keeps_look fun was => keeps_bind (keeps_change fun _ => rfl) fun _ => ?_
  refine keeps_bind (keeps_attempt (keeps_request _ _)) fun answer => ?_
  cases answer with
  | ok _ => exact keeps_pure
  | error e => cases was <;> first | exact keeps_fail | exact keeps_bind keeps_thaw fun _ => keeps_fail

end

/-! A transition. -/

section
variable {o : Oracle RosterOp Fate}

omit [Libm] in
theorem keeps_lineups {m : Proc ε α} (keeps : Keeps (fun t op => o t (.op op)) (InUse J) m) :
    Keeps o (InUse J) (lineups m) := keeps_relabel keeps

theorem keeps_learn (f : Follows) (marker : Option String) : Keeps o (InUse J) (f.learn (ε := ε) marker) := by
  unfold Follows.learn
  cases marker with
  | none => exact keeps_pure
  | some sha256 =>
    refine keeps_ite keeps_pure (keeps_bind (keeps_attempt (keeps_relabel (keeps_file fun _ => rfl))) fun read => ?_)
    match read with
    | .ok (some roster) => exact keeps_pure
    | .ok none => exact keeps_pure
    | .error _ => exact keeps_pure

theorem keeps_undo (written : List Planned) : Keeps o (InUse J) (undo (ε := ε) written) :=
  keeps_each fun _ => keeps_bind (keeps_attempt (keeps_lineups (keeps_file fun _ => rfl))) fun _ => keeps_pure

theorem keeps_writePlanned (written planned : List Planned) : Keeps o (InUse J) (writePlanned written planned) := by
  induction planned generalizing written with
  | nil => exact keeps_pure
  | cons p rest ih =>
    unfold writePlanned
    refine keeps_bind (keeps_attempt (keeps_lineups (keeps_file fun _ => rfl))) fun saved => ?_
    cases saved with
    | ok _ => exact ih _
    | error kind => exact keeps_bind (keeps_undo written) fun _ => keeps_fail

theorem keeps_storedStates (f : Follows) (ls : List Lineup) : Keeps o (InUse J) (storedStates f ls) := by
  induction ls generalizing f with
  | nil => exact keeps_pure
  | cons l rest ih =>
    unfold storedStates
    refine keeps_bind (keeps_mapErr _ (keeps_lineups (keeps_file fun _ => rfl))) fun stored => ?_
    cases stored with
    | none => exact ih f
    | some b => exact keeps_bind (keeps_learn f _) fun f => keeps_bind (ih f) fun _ => keeps_pure

theorem keeps_landed (sent : MixState) (tries : ℕ) : Keeps o (InUse J) (landed (ε := ε) sent tries) := by
  induction tries with
  | zero => exact fun _ => id
  | succ tries ih =>
    unfold landed
    refine keeps_bind (keeps_relabel keeps_waitSynced) fun _ => ?_
    refine keeps_bind (keeps_attempt (keeps_relabel (keeps_request _ _))) fun answer => ?_
    cases answer with
    | ok _ => exact keeps_bind (keeps_relabel keeps_mirror) fun _ => keeps_pure
    | error _ => exact ih

variable [Sha256]

theorem keeps_bring (tries : ℕ) (newSha : String) (next : MixState) (prior running : Running) :
    Keeps o (InUse J) (bring tries newSha next prior running) := by
  unfold bring
  refine keeps_bind (keeps_attempt (keeps_lineups (keeps_file fun _ => rfl))) fun noted => ?_
  cases noted with
  | error _ => exact keeps_fail
  | ok _ =>
    have sends : Keeps o (InUse J) (sendImport tries prior.lineup next) := by
      unfold sendImport
      refine keeps_bind (keeps_attempt (keeps_relabel (keeps_request _ _))) fun answer => ?_
      match answer with
      | .ok _ => exact keeps_pure
      | .error (.refused body) => exact keeps_fail
      | .error .disconnected => exact keeps_bind (keeps_landed _ _) fun _ => keeps_ite keeps_fail keeps_pure
      | .error .timeout => exact keeps_bind (keeps_landed _ _) fun _ => keeps_ite keeps_fail keeps_pure
    refine keeps_bind (keeps_attempt sends) fun sent => ?_
    cases sent with
    | ok _ => exact keeps_pure
    | error _ => exact keeps_bind (keeps_lineups (keeps_noteRunning _)) fun _ => keeps_fail

/-- Whatever becomes of a transition, the roster in use is the caller's to change; one that
succeeds has the lineup. -/
theorem keeps_transition (tries : ℕ) (follows : Follows) (new : Roster) (newSha active : String) :
    Triple o (InUse J) (transition tries follows new newSha active)
      (fun _ w => InUse J w ∧ (new.lineup active).isSome) fun _ => InUse J := by
  unfold transition
  cases found : new.lineup active with
  | none => exact triple_fail fun _ => id
  | some lineup =>
    refine triple_conseq (Q := fun _ => InUse J) ?_ (fun _ => id) (fun _ _ kept => ⟨kept, rfl⟩) fun _ _ => id
    refine keeps_bind keeps_look fun frozen => keeps_unless ?_
    refine keeps_bind (keeps_lineups keeps_mirror) fun seen => ?_
    cases seen.topology.filter fun _ => seen.synced with
    | none => exact keeps_fail
    | some topology =>
      refine keeps_bind (keeps_lineups keeps_mirror) fun seen => ?_
      refine keeps_bind (keeps_lineups (keeps_runningFor _ _)) fun k => ?_
      refine keeps_bind (keeps_learn _ _) fun follows => keeps_bind (keeps_storedStates _ _) fun read => ?_
      refine keeps_bind (keeps_lineups keeps_mirror) fun seen => keeps_ite ?_ ?_
      · refine keeps_bind (keeps_writePlanned _ _) fun _ => ?_
        exact keeps_bind (keeps_lineups (keeps_noteRunning _)) fun _ => keeps_pure
      · refine keeps_bind (keeps_mapErr _ (keeps_lineups keeps_freeze)) fun was => ?_
        refine keeps_bind (keeps_attempt (keeps_writePlanned _ _)) fun written => ?_
        cases written with
        | error why =>
          cases was with
          | false => exact keeps_bind (keeps_lineups keeps_thaw) fun _ => keeps_fail
          | true => exact keeps_fail
        | ok _ =>
          refine keeps_bind (keeps_lineups keeps_mirror) fun seen => ?_
          refine keeps_bind (keeps_attempt (keeps_unless (keeps_ite keeps_pure (keeps_bring _ _ _ _ _))))
            fun taken => ?_
          cases taken with
          | ok running =>
            refine keeps_bind (keeps_lineups (keeps_noteRunning _)) fun _ => ?_
            exact keeps_bind (keeps_lineups (keeps_endSolos _)) fun _ => keeps_pure
          | error why =>
            refine keeps_bind (keeps_undo _) fun _ => ?_
            cases was <;> first | exact keeps_fail | exact keeps_bind (keeps_lineups keeps_thaw) fun _ => keeps_fail
end

/-! A switch, and its replay. -/

/-- The roster in use, by its file: it holds the lineup that plays. -/
def RunsOn (u : Option (Roster × String)) (i : Option RosterState) : Prop :=
  i.map (fun r => (r.roster, r.sha256)) = u ∧ ∀ r, i = some r → (r.roster.lineup r.active).isSome

omit [Libm] in
theorem lineup_of_mem {r : Roster} {l : Lineup} (member : l ∈ r.lineups) : (r.lineup l.id).isSome :=
  List.find?_isSome.mpr ⟨l, member, beq_self_eq_true _⟩

omit [Libm] in
theorem mem_of_lineup {r : Roster} {id : String} {l : Lineup} (found : r.lineup id = some l) : l ∈ r.lineups :=
  List.mem_of_find?_eq_some found

section
variable {o : Oracle Op Fate} {u : Option (Roster × String)} {use : RosterState}

omit [Libm] in
theorem keeps_setActiveInUse (used : RunsOn u (some use)) {l : Lineup} (member : l ∈ use.roster.lineups) :
    Keeps o (InUse (RunsOn u)) (setActiveInUse (ε := ε) l.id) := triple_change fun w held => by
  cases inUse : w.inUse with
  | none => simpa [InUse, inUse] using held
  | some r =>
    have held : RunsOn u (some r) := inUse ▸ held
    have same : r.roster = use.roster := by
      have both := (Option.some.inj (held.1.trans used.1.symm))
      exact congrArg Prod.fst both
    refine ⟨by simpa using held.1, fun r' is => ?_⟩
    simp only [Option.map_some, Option.some.injEq] at is
    rw [← is]
    exact lineup_of_mem (same ▸ member)

omit [Libm] in
/-- The roster in use is read. -/
theorem triple_inUse : Triple o (InUse (RunsOn u)) (look (·.inUse) : Proc ε (Option RosterState))
    (fun i w => RunsOn u i ∧ InUse (RunsOn u) w) fun _ => InUse (RunsOn u) := triple_look fun _ held => ⟨held, held⟩

variable [Sha256]

theorem keeps_run (roster : Roster) (src : String) (dst : Lineup) : Keeps o (InUse J) (Server.run roster src dst) := by
  have forwards : ∀ live, Keeps o (InUse J) (forward roster live src dst) := by
    intro live
    unfold forward
    refine keeps_bind (keeps_mapErr _ (keeps_file fun _ => rfl)) fun stored => keeps_bind keeps_mirror fun seen => ?_
    refine keeps_bind (keeps_mapErr _ (keeps_request _ _)) fun _ => ?_
    refine keeps_bind (keeps_mapErr _ (keeps_file fun _ => rfl)) fun _ => ?_
    exact keeps_bind (keeps_noteRunning _) fun _ => keeps_endSolos _
  have step : Keeps o (InUse J) (steps roster src dst) := by
    unfold steps
    refine keeps_bind keeps_mirror fun seen => keeps_unless ?_
    refine keeps_bind (keeps_mapErr _ (keeps_file fun _ => rfl)) fun live => ?_
    refine keeps_bind (keeps_runningFor _ _) fun k => ?_
    refine keeps_bind (keeps_mapErr _ (keeps_file fun _ => rfl)) fun _ => ?_
    refine keeps_bind (keeps_mapErr _ (keeps_file fun _ => rfl)) fun _ => ?_
    refine keeps_bind (keeps_attempt (forwards _)) fun went => ?_
    cases went with
    | ok _ => exact keeps_bind (keeps_attempt (keeps_file fun _ => rfl)) fun _ => keeps_pure
    | error e =>
      refine keeps_bind (keeps_attempt (keeps_request _ _)) fun back => ?_
      cases back with
      | error _ => exact keeps_fail
      | ok _ => exact keeps_bind (keeps_attempt (keeps_file fun _ => rfl)) fun _ => keeps_fail
  unfold Server.run
  refine keeps_bind keeps_mirror fun seen => keeps_unless ?_
  refine keeps_bind (keeps_mapErr _ keeps_freeze) fun was => keeps_unless ?_
  refine keeps_bind (keeps_attempt step) fun ended => ?_
  match ended with
  | .ok _ => exact keeps_pure
  | .error (.back e) => exact keeps_bind keeps_thaw fun _ => keeps_fail
  | .error (.pending e) => exact keeps_fail

/-- A switch is to a lineup of the roster in use. -/
theorem keeps_switchLineup (dst : String) (who : AuthClaims) :
    Keeps o (InUse (RunsOn u)) (switchLineup dst who) := by
  unfold switchLineup
  refine triple_bind triple_inUse fun i => triple_fact fun used => ?_
  cases i with
  | none => exact keeps_fail
  | some use =>
    refine keeps_unless ?_
    cases use.lineup with
    | none => exact keeps_fail
    | some src =>
      cases found : use.roster.lineup dst with
      | none => exact keeps_fail
      | some target =>
        refine keeps_unless (keeps_bind keeps_look fun busy => keeps_unless (keeps_bind keeps_look fun site => ?_))
        refine keeps_unless (keeps_bind (keeps_run _ _ _) fun _ => ?_)
        exact keeps_bind (keeps_setActiveInUse used (mem_of_lineup found)) fun _ => keeps_thaw

theorem keeps_play (used : RunsOn u (some use)) {l : Lineup} (member : l ∈ use.roster.lineups)
    (stored : Option MixerBackup) (other : Option Lineup) : Keeps o (InUse (RunsOn u))
      (play use.roster l stored other) := by
  unfold play
  refine keeps_bind keeps_mirror fun seen => keeps_unless (keeps_bind (keeps_runningOf _) fun running => ?_)
  refine keeps_bind (keeps_mapErr _ (keeps_request _ _)) fun _ => ?_
  refine keeps_bind (keeps_mapErr _ (keeps_file fun _ => rfl)) fun _ => ?_
  refine keeps_bind (keeps_noteRunning _) fun _ => keeps_bind (keeps_endSolos _) fun _ => ?_
  exact keeps_setActiveInUse used member

omit [Libm] [Sha256] in
theorem mem_of_or {id : String} {l : Lineup} (found : (use.roster.lineup id).or use.lineup = some l) :
    l ∈ use.roster.lineups := by
  rcases Option.or_eq_some_iff.mp found with own | ⟨-, playing⟩
  · exact mem_of_lineup own
  · rcases Option.or_eq_some_iff.mp playing with active | ⟨-, main⟩
    · exact mem_of_lineup active
    · exact List.mem_of_find?_eq_some main

theorem keeps_replayIntent : Keeps o (InUse (RunsOn u)) replayIntent := by
  unfold replayIntent
  refine keeps_bind (keeps_mapErr _ (keeps_file fun _ => rfl)) fun intent => ?_
  refine triple_bind triple_inUse fun i => triple_fact fun used => ?_
  match intent, i with
  | none, _ => exact keeps_thaw
  | some _, none => exact keeps_thaw
  | some intent, some use =>
    refine keeps_bind (keeps_mapErr _ (keeps_file fun _ => rfl)) fun active => ?_
    cases found : (use.roster.lineup intent.dst).or use.lineup with
    | none => exact keeps_fail
    | some lineup =>
      have clears : Keeps o (InUse (RunsOn u)) (do mapErr PlayError.io Store.clearIntent; thaw) :=
        keeps_bind (keeps_mapErr _ (keeps_file fun _ => rfl)) fun _ => keeps_thaw
      refine keeps_ite ?_ ?_
      · refine keeps_bind (keeps_mapErr _ (keeps_file fun _ => rfl)) fun stored => ?_
        exact keeps_bind (keeps_play used (mem_of_or found) _ _) fun _ => clears
      · cases use.roster.lineup intent.src with
        | none => exact clears
        | some before => exact keeps_bind keeps_mirror fun seen => keeps_bind (keeps_endSolos _) fun _ => clears

theorem keeps_fallBack : Keeps o (InUse (RunsOn u)) fallBack := by
  unfold fallBack
  refine keeps_bind (keeps_mapErr _ (keeps_file fun _ => rfl)) fun intent => ?_
  refine triple_bind triple_inUse fun i => triple_fact fun used => ?_
  match intent, i with
  | none, _ => exact keeps_thaw
  | some _, none => exact keeps_thaw
  | some intent, some use =>
    dsimp only
    cases found : (use.roster.lineup intent.src).or use.lineup with
    | none => exact keeps_fail
    | some lineup =>
      refine keeps_bind (keeps_attempt (keeps_file fun _ => rfl)) fun stored => ?_
      refine keeps_bind (keeps_play used (mem_of_or found) _ _) fun _ => ?_
      exact keeps_bind (keeps_mapErr _ (keeps_file fun _ => rfl)) fun _ => keeps_thaw

omit [Sha256] in
theorem keeps_retry {m : Proc PlayError Unit} (keeps : Keeps o (InUse J) m) (tries : ℕ) :
    Keeps o (InUse J) (retry (ε := ε) m tries) := by
  induction tries with
  | zero => exact keeps_pure
  | succ tries ih =>
    unfold retry
    refine keeps_bind keeps_waitSynced fun _ => keeps_bind (keeps_attempt keeps) fun ended => ?_
    cases ended with
    | ok _ => exact keeps_pure
    | error _ => exact ih

theorem keeps_replayWhenSynced : Keeps o (InUse (RunsOn u)) replayWhenSynced := by
  unfold replayWhenSynced
  refine keeps_bind keeps_look fun frozen => keeps_ite keeps_pure ?_
  refine keeps_bind (keeps_retry keeps_replayIntent _) fun finished => keeps_ite keeps_pure ?_
  refine keeps_bind (keeps_retry keeps_fallBack _) fun fell => keeps_ite keeps_pure ?_
  exact keeps_bind (keeps_attempt (keeps_file fun _ => rfl)) fun _ => keeps_bind keeps_thaw fun _ => keeps_pure

end

end

end IemMixer.Server.RosterWatch
