import IemMixer.Control.StepProofs

/-! Nothing stays unsaved: while the core's revision is above the last one the store
accepted, a save is scheduled. A save clears the schedule before it asks the store,
so this lasts only as long as no such save is refused. -/
namespace IemMixer.Control
open Lib Proto Rt

/-- The core's revision is above the last one the store accepted. -/
def Unsaved (c : Control) : Prop := c.accepted.rev < .ofNat c.core.rev

instance (c : Control) : Decidable c.Unsaved := inferInstanceAs (Decidable (_ < _))

/-- What is unsaved is scheduled. -/
def Scheduled (c : Control) : Prop := c.Unsaved → c.schedule.pending = true

section
variable (env : Outside) [Libm]

/-- The loop's state where a step asks the store for a save. -/
def saveAt (l : Loop) : Act → Option Control
  | .frame id (.ok (.request r origin cmd)) =>
    match l.control.peers[id]? with
    | none => none
    | some role =>
      match refusal role cmd, l.control.core.apply cmd with
      | none, .ok out core =>
        if out.effect = .save then some (l.control.answer env id r origin cmd out core) else none
      | _, _ => none
  | .tick p =>
    let c := (l.control.flushRt env).beforeSave env p
    if c.schedule.due p.now then some c else none
  | _ => none

/-- The store refuses this step's save only when nothing is unsaved. -/
def SaveStands (l : Loop) (act : Act) : Prop :=
  ∀ c, saveAt env l act = some c → c.Unsaved → ∃ committed, env.save c.asked = .ok committed

omit env in
/-- Without a change said and without an import the revision stays. -/
theorem handle_rev {c next : Core} {event : Core.Event} {out : Outcome} (sane : Sane c)
    (handled : c.handle event = (some out, next)) (silent : out.changes.isEmpty = true)
    (plain : out.effect ≠ .imported) : next.rev = c.rev := by
  have spec := Core.handle_spec c sane.wf sane.canonical event
  rw [handled] at spec
  cases spec with
  | edited effect quiet path => simp_all [Core.revAfter]
  | imported state => exact absurd rfl plain

omit env [Libm] in
theorem Quiet.scheduled {c c' : Control} (quiet : Quiet c c') (held : c.Scheduled) : c'.Scheduled := by
  unfold Scheduled Unsaved at *
  rwa [quiet.accepted, quiet.core, quiet.schedule]

omit env in
/-- An event said keeps the schedule ahead of the revision. -/
theorem scheduled_said {c : Control} (event : Core.Event) {out : Outcome} {next : Core} (now : ℕ)
    (sane : Sane c.core) (handled : c.core.handle event = (some out, next))
    (plain : out.effect ≠ .imported) (held : c.Scheduled) :
    ({ c with core := next }.said out now).Scheduled := by
  intro unsaved
  cases silent : out.changes.isEmpty with
  | false => simp [said, silent]
  | true =>
    have same := handle_rev sane handled silent plain
    simp only [Unsaved, said, same] at unsaved
    simpa [said, silent] using held unsaved

omit [Libm] in
/-- A save that stands leaves nothing unsaved; one refused with nothing to save loses nothing. -/
theorem scheduled_save {c : Control} (stands : c.Unsaved → ∃ committed, env.save c.asked = .ok committed) :
    (c.save env).Scheduled := by
  rcases sends_save env c with ⟨committed, -, sends⟩ | ⟨e, refused, sends⟩
  · refine sends.toQuiet.scheduled fun unsaved => ?_
    simp [Unsaved, persisted, persistedOf] at unsaved
  · refine sends.toQuiet.scheduled fun unsaved => ?_
    obtain ⟨committed, ok⟩ := stands unsaved
    rw [refused] at ok
    cases ok

theorem scheduled_request {l : Loop} {id r : ℕ} {origin : Option ℕ} {cmd : Cmd} {role : Option Role}
    (sane : Sane l.control.core) (here : l.control.peers[id]? = some role)
    (stands : SaveStands env l (.frame id (.ok (.request r origin cmd)))) (held : l.control.Scheduled) :
    (l.control.request env id role r origin cmd).Scheduled := by
  unfold request
  cases allowed : refusal role cmd with
  | some error => exact (sends_reply env _ id r _).toQuiet.scheduled held
  | none =>
    cases accepted : l.control.core.apply cmd with
    | error e core => exact (sends_reply env _ id r _).toQuiet.scheduled held
    | ok out core =>
      obtain ⟨now, sends⟩ := sends_answer env l.control id r origin cmd out core
      by_cases imports : out.effect = .imported
      · intro _
        simp [imports, perform]
      · have answered : (l.control.answer env id r origin cmd out core).Scheduled :=
          sends.toQuiet.scheduled (scheduled_said _ now sane (handle_request accepted) imports held)
        simp only
        cases effect : out.effect with
        | none => exact answered
        | sendState => exact (sends_send env _ id _).toQuiet.scheduled answered
        | sendTopology => exact (sends_send env _ id _).toQuiet.scheduled answered
        | save =>
          refine scheduled_save env (stands _ ?_)
          simp [saveAt, here, allowed, accepted, effect]
        | shutdown => exact answered
        | imported => exact absurd effect imports

omit env in
private theorem clearSolos_effect (c : Core) : c.clearSolos.1.effect = .none := by
  have silent : ∀ (keys : List ℕ) (acc : Partial × Core), acc.1.effect = none →
      (keys.foldl Core.clearSolo acc).1.effect = none := by
    intro keys
    induction keys with
    | nil => exact fun acc none => none
    | cons m rest ih => exact fun acc none => ih _ none
  simp [Core.clearSolos, Core.finish, silent c.solo.keys ({}, c) rfl]

theorem scheduled_tickSolos {c : Control} (now : ℕ) (sane : Sane c.core) (held : c.Scheduled) :
    (c.tickSolos env now).Scheduled := by
  rcases tickSolos_cases env c now with ⟨-, same⟩ | ⟨-, now', sends⟩
  · rwa [same]
  · have plain : c.core.clearSolos.1.effect ≠ .imported := by simp [clearSolos_effect]
    have said : ({ c with core := c.core.clearSolos.2 }.said c.core.clearSolos.1 now').Scheduled :=
      scheduled_said .clearSolos now' sane rfl plain held
    exact sends.toQuiet.scheduled said

theorem scheduled_tickTest {c : Control} (now : ℕ) (sane : Sane c.core) (held : c.Scheduled) :
    (c.tickTest env now).Scheduled := by
  rcases tickTest_cases env c now with same | ⟨now', sends⟩
  · rwa [same]
  · have plain : c.core.endTestSignal.1.effect ≠ .imported := by
      rcases Core.takeTest_cases [] c.core with ⟨-, same⟩ | same <;>
        simp [Core.endTestSignal, Core.finish, same, Partial.changed]
    exact sends.toQuiet.scheduled (scheduled_said .endTestSignal now' sane rfl plain held)

theorem scheduled_beforeSave {c : Control} (p : Pulse) (sane : Sane c.core) (held : c.Scheduled) :
    (c.beforeSave env p).Scheduled := by
  let told := (c.tickMeters env p.meters).tickStatus env p.now
  have sends : Sends (fun _ => True) c told :=
    (sends_tickMeters env c p.meters).trans (sends_tickStatus env _ p.now)
  have sane' : Sane told.core := sends.toQuiet.progress.sane sane
  have soloed := scheduled_tickSolos env p.now sane' (sends.toQuiet.scheduled held)
  exact scheduled_tickTest env p.now ((progress_tickSolos env told p.now).sane sane') soloed

/-- A step whose save stands keeps what is unsaved scheduled. -/
theorem step_scheduled {l l' : Loop} {act : Act} (sane : Sane l.control.core)
    (held : l.control.Scheduled) (stands : SaveStands env l act) (step : l.Step env act l') :
    l'.control.Scheduled := by
  cases act with
  | connected =>
    rcases (step_connected env step).1 with same | same <;> rw [same]
    · exact held
    · exact held
  | closed id =>
    rw [(step_closed env step).1]
    exact (sends_dropPeer env _ id).toQuiet.scheduled held
  | frame id parsed =>
    rw [(step_frame env step).1]
    unfold frame
    split
    · exact held
    · rename_i role here
      split
      · exact (sends_reply env _ id _ _).toQuiet.scheduled held
      · exact (quiet_hello env _ id _ _ here).scheduled held
      · exact scheduled_request env sane here stands held
  | tick p =>
    rw [(step_tick env step).1]
    have flushed : Quiet l.control (l.control.flushRt env) :=
      (sends_flushLoop (fun _ => True) env _ _).toQuiet
    have before := scheduled_beforeSave env p (flushed.progress.sane sane) (flushed.scheduled held)
    unfold tickOn tickSave
    split
    · rename_i due
      exact scheduled_save env (stands _ (by simp [saveAt, due]))
    · exact before

omit [Libm] in
/-- A loop started on a core holds no unsaved change. -/
theorem new_scheduled (core : Core) (counters : List ℕ) (alarms : List Alarm) (settings : Settings)
    (now : ℕ) : (new core counters alarms settings now).Scheduled := by
  intro unsaved
  simp [Unsaved, new, persistedOf] at unsaved

/-- No change is left unsaved. In every run of the control loop of a compiled site in
which the store refuses a save only when nothing is unsaved, whenever the core's
revision is above the last one the store accepted, the schedule is pending. -/
theorem unsaved_scheduled {digest : TopologyInfo → String} (site : TopologyProofs.Compiled digest)
    (state : MixState) (rev : ℕ) (flags : Flags) (hil : List UInt16) (counters : List ℕ)
    (alarms : List Alarm) (settings : Settings) (now : ℕ) (l : Loop)
    (run : Loop.Reaches env (SaveStands env)
      { control := new ((Core.new site.topo state rev flags).withHil hil) counters alarms settings now } l) :
    l.control.Unsaved → l.control.schedule.pending = true := by
  have sane : Sane ((Core.new site.topo state rev flags).withHil hil) :=
    ⟨(TopologyProofs.compile_spec digest site).1, Core.new_canonical site.topo state rev flags hil⟩
  suffices both : Sane l.control.core ∧ l.control.Scheduled from both.2
  induction run with
  | refl => exact ⟨sane, new_scheduled _ counters alarms settings now⟩
  | tail _ step ih =>
    obtain ⟨act, stands, step⟩ := step
    exact ⟨(step_progress env step).sane ih.1, step_scheduled env ih.1 ih.2 stands step⟩

end

/-- A controller connects, mutes a mix and asks for a save. -/
def muteAndSave : List Act :=
  [.connected, .frame 1 (.ok (.hello 1 .control "server")),
    .frame 1 (.ok (.request 1 none (.setMix "ben" none (some true)))),
    .frame 1 (.ok (.request 2 none .saveNow))]

/-- A mute that waits for its save, at `duet`. -/
theorem unsaved_scheduled_duet :
    ∃ l, DuetReaches calm (@SaveStands calm Core.duetLibm) l ∧ l.control.Unsaved ∧
      l.control.schedule.pending = true := by
  have ran : (duetRun calm (fun _ _ => true) (muteAndSave.take 3)).any fun l =>
      decide l.control.Unsaved := by decide +kernel
  obtain ⟨l, reached, unsaved⟩ := (Option.any_eq_true _ _).mp ran
  have stands : ∀ l act, @SaveStands calm Core.duetLibm l act := fun l act c _ _ => ⟨_, rfl⟩
  have run := @Loop.Reaches.mono calm Core.duetLibm _ _ _ _ (duet_reaches reached) fun l act _ => stands l act
  have left := of_decide_eq_true unsaved
  exact ⟨l, run, left, @unsaved_scheduled calm Core.duetLibm _ TopologyProofs.duetCompiled {} 7 _ [] _ _ _ _ l
    run left⟩

/-- The mute's save is refused: the revision stays above the last one accepted and
nothing is scheduled. -/
theorem refused_save_unscheduled :
    ¬ ∀ (env : Outside) (l : Loop), DuetReaches env (fun _ _ => true) l →
      l.control.Unsaved → l.control.schedule.pending = true := by
  intro all
  let full : Outside := { calm with save := fun _ => .error "No space left on device" }
  have ran : (duetRun full (fun _ _ => true) muteAndSave).any fun l =>
      decide l.control.Unsaved && !l.control.schedule.pending := by decide +kernel
  obtain ⟨l, reached, left⟩ := (Option.any_eq_true _ _).mp ran
  obtain ⟨unsaved, idle⟩ := Bool.and_eq_true_iff.mp left
  have pending := all full l (duet_reaches reached) (of_decide_eq_true unsaved)
  rw [pending] at idle
  cases idle

end IemMixer.Control
