import IemMixer.Control.SoloProofs

/-! Solos do not outlive their controller: while any solo is on, a controller is there or
the time of its loss is known, and the tick after the grace time ends every solo and has
sent each level's own mute to the RT thread. -/
namespace IemMixer.Control
open Lib Proto Rt IemMixer.Core

section
variable [Libm]

private theorem clearSolo_fold (keys : List ℕ) (acc : Partial × Core) (k : ℕ) :
    (keys.foldl clearSolo acc).2.solo[k]? = if k ∈ keys then none else acc.2.solo[k]? := by
  induction keys generalizing acc with
  | nil => simp
  | cons m rest ih =>
    have erased : (clearSolo acc m).2.solo = acc.2.solo.erase m := rfl
    rw [List.foldl_cons, ih, erased, BTreeMap.getElem?_erase_eq]
    by_cases later : k ∈ rest
    · simp [later]
    · by_cases here : m = k
      · simp [later, here]
      · simp [later, here, Ne.symm here]

theorem clearSolos_solo (c : Core) : c.clearSolos.2.solo = ∅ := by
  have cleared : (c.solo.keys.foldl clearSolo ({}, c)).2.solo = ∅ := by
    apply Std.ExtTreeMap.ext_getElem?
    intro k
    rw [clearSolo_fold]
    by_cases held : k ∈ c.solo.keys
    · simp [held]
    · rw [if_neg held, Std.ExtTreeMap.getElem?_empty]
      cases found : c.solo[k]? with
      | none => rfl
      | some set => exact absurd ((BTreeMap.mem_keys_iff c.solo k).mpr ⟨set, found⟩) held
  unfold clearSolos finish
  dsimp only
  split
  · exact cleared
  · exact cleared

end

/-- A controller is there, or the time of its loss is known. -/
def Attended (c : Control) : Prop := c.controller.isSome ∨ c.controllerLost.isSome

/-- Solos are attended. -/
def Watched (c : Control) : Prop := c.core.solo = ∅ ∨ c.Attended

variable {who : ℕ → Prop} {c mid c' : Control}

theorem Thins.attended (thins : Thins who c c') (attended : c.Attended) : c'.Attended := by
  rcases thins.slot with ⟨slot, lost, -⟩ | ⟨id, now, -, -, -, lost, -⟩
  · unfold Attended
    rwa [slot, lost]
  · exact .inr (by simp [lost])

theorem Sends.watched (sends : Sends who c c') (watched : c.Watched) : c'.Watched := by
  rcases watched with empty | attended
  · exact .inl (by rw [sends.core, empty])
  · exact .inr (sends.toThins.attended attended)

section
variable (env : Outside)

theorem hello_attended (id theirs : ℕ) (role : Role) {was : Option Role}
    (here : c.peers[id]? = some was) (attended : c.Attended) :
    (c.hello env id theirs role).Attended := by
  cases speaks : negotiate proto theirs with
  | none => exact (hello_unsupported env c id theirs role speaks).toThins.attended attended
  | some agreed =>
    obtain ⟨mid, first, -, second⟩ := hello_spec env c id theirs role speaks here
    refine second.toThins.attended ?_
    have before := first.toThins.attended attended
    unfold Attended seated at *
    by_cases control : role = .control
    · simp [control]
    · simpa [control] using before

variable [Libm]

theorem tickOn_watched (p : Pulse) (watched : c.Watched) :
    ((c.flushRt env).tickOn env p).Watched := by
  have calm : (c.beforeSolos env p).Watched := (sends_beforeSolos env c p).watched watched
  have soloed : ((c.beforeSolos env p).tickSolos env p.now).Watched := by
    rcases tickSolos_cases env (c.beforeSolos env p) p.now with ⟨-, same⟩ | ⟨-, now, sends⟩
    · rwa [same]
    · exact .inl ((congrArg Core.solo sends.core).trans (clearSolos_solo _))
  have tested : ((c.flushRt env).beforeSave env p).Watched := by
    show (((c.beforeSolos env p).tickSolos env p.now).tickTest env p.now).Watched
    obtain ⟨-, -, solo, -⟩ := tickTest_sameMix env ((c.beforeSolos env p).tickSolos env p.now) p.now
    rcases soloed with empty | attended
    · exact .inl (solo.trans empty)
    · rcases tickTest_cases env ((c.beforeSolos env p).tickSolos env p.now) p.now with same | ⟨now, sends⟩
      · rw [same]
        exact .inr attended
      · exact .inr (sends.toThins.attended attended)
  unfold tickOn tickSave
  split
  · rcases tested with empty | attended
    · exact .inl (by rw [save_core, empty])
    · exact .inr ((thins_save env _).attended attended)
  · exact tested

/-- A step keeps solos attended: only the controller's request sets one. -/
theorem step_watched {l l' : Loop} {act : Act} (seats : Seats l.control) (watched : l.control.Watched)
    (step : l.Step env act l') : l'.control.Watched := by
  cases act with
  | connected =>
    rcases (step_connected env step).1 with same | same <;> rw [same]
    · exact watched
    · exact watched
  | closed id =>
    rw [(step_closed env step).1]
    exact (sends_dropPeer env _ id).watched watched
  | frame id parsed =>
    rw [(step_frame env step).1]
    unfold frame
    split
    · exact watched
    · rename_i role here
      split
      · exact (sends_reply env _ id _ _).watched watched
      · rcases watched with empty | attended
        · exact .inl (by rw [(quiet_hello env _ id _ _ here).core, empty])
        · exact .inr (hello_attended env id _ _ here attended)
      · rename_i r origin cmd
        have spec := request_spec env l.control id role r origin cmd
        by_cases control : role = some .control
        · have slot := seats.control id (control ▸ here)
          exact .inr (spec.thins.attended (.inl (by simp [slot])))
        · rcases watched with empty | attended
          · obtain ⟨-, -, solo, -⟩ := spec.sameMix env control
            exact .inl (solo.trans empty)
          · exact .inr (spec.thins.attended attended)
  | tick p =>
    rw [(step_tick env step).1]
    exact tickOn_watched env p watched

/-- No controller is there; it was lost at `lost`, or the solos ended since. -/
def Left (lost : ℕ) (c : Control) : Prop :=
  c.controller = none ∧ (c.controllerLost = some lost ∨ c.core.solo = ∅)

omit env [Libm] in
theorem Thins.left_slot (thins : Thins who c c') (empty : c.controller = none) :
    c'.controller = none ∧ c'.controllerLost = c.controllerLost := by
  rcases thins.slot with ⟨slot, lost, -⟩ | ⟨id, now, held, -⟩
  · exact ⟨slot.trans empty, lost⟩
  · rw [empty] at held
    cases held

omit env [Libm] in
theorem Thins.left {lost : ℕ} (thins : Thins who c c') (solo : c'.core.solo = c.core.solo)
    (left : c.Left lost) : c'.Left lost := by
  obtain ⟨slot, timed⟩ := thins.left_slot left.1
  refine ⟨slot, ?_⟩
  rw [timed, solo]
  exact left.2

omit env [Libm] in
theorem Sends.left {lost : ℕ} (sends : Sends who c c') (left : c.Left lost) : c'.Left lost :=
  sends.toThins.left (by rw [sends.core]) left

/-- The tick's part after the solos. -/
private theorem rest_left (lost : ℕ) (p : Pulse)
    (left : ((c.beforeSolos env p).tickSolos env p.now).Left lost) :
    ((c.flushRt env).tickOn env p).Left lost ∧ ((c.flushRt env).tickOn env p).core.solo =
      ((c.beforeSolos env p).tickSolos env p.now).core.solo := by
  obtain ⟨-, -, solo, -⟩ := tickTest_sameMix env ((c.beforeSolos env p).tickSolos env p.now) p.now
  have tested : ((c.flushRt env).beforeSave env p).Left lost := by
    show (((c.beforeSolos env p).tickSolos env p.now).tickTest env p.now).Left lost
    rcases tickTest_cases env ((c.beforeSolos env p).tickSolos env p.now) p.now with same | ⟨now, sends⟩
    · rwa [same]
    · have slots : Thins (fun _ => True) ((c.beforeSolos env p).tickSolos env p.now)
          (((c.beforeSolos env p).tickSolos env p.now).tickTest env p.now) :=
        ⟨sends.supervisor, sends.others, sends.gone, sends.slot⟩
      exact slots.left solo left
  unfold tickOn tickSave
  split
  · exact ⟨(thins_save env _).left (by rw [save_core]) tested, by rw [save_core]; exact solo⟩
  · exact ⟨tested, solo⟩

theorem tickOn_left {lost : ℕ} (p : Pulse) (left : c.Left lost) :
    ((c.flushRt env).tickOn env p).Left lost := by
  have calm : (c.beforeSolos env p).Left lost := (sends_beforeSolos env c p).left left
  refine (rest_left env lost p ?_).1
  rcases tickSolos_cases env (c.beforeSolos env p) p.now with ⟨-, same⟩ | ⟨-, now, sends⟩
  · rwa [same]
  · exact ⟨(sends.toThins.left_slot calm.1).1,
      .inr ((congrArg Core.solo sends.core).trans (clearSolos_solo _))⟩

/-- The tick after the grace time leaves no solo. -/
theorem tickOn_cleared {lost : ℕ} (p : Pulse) (left : c.Left lost)
    (ended : c.settings.soloGrace ≤ p.now - lost) : ((c.flushRt env).tickOn env p).core.solo = ∅ := by
  have sends := sends_beforeSolos env c p
  have calm : (c.beforeSolos env p).Left lost := sends.left left
  rcases tickSolos_cases env (c.beforeSolos env p) p.now with ⟨early, same⟩ | ⟨-, now, cleared⟩
  · rcases calm.2 with timed | empty
    · exact absurd ⟨calm.1, lost, timed, by rwa [sends.settings]⟩ early
    · rw [(rest_left env lost p (by rwa [same])).2, same]
      exact empty
  · have empty := (congrArg Core.solo cleared.core).trans (clearSolos_solo _)
    rw [(rest_left env lost p ⟨(cleared.toThins.left_slot calm.1).1, .inr empty⟩).2]
    exact empty

/-- A hello for the controller's role that the engine takes. -/
def welcomesControl (l : Loop) : Act → Bool
  | .frame id (.ok (.hello theirs role _)) =>
    l.control.peers[id]?.isSome && (negotiate proto theirs).isSome && role = .control
  | _ => false

theorem step_left {lost : ℕ} {l l' : Loop} {act : Act} (seats : Seats l.control)
    (left : l.control.Left lost) (other : welcomesControl l act = false) (step : l.Step env act l') :
    l'.control.Left lost := by
  cases act with
  | connected =>
    rcases (step_connected env step).1 with same | same <;> rw [same]
    · exact left
    · exact left
  | closed id =>
    rw [(step_closed env step).1]
    exact (sends_dropPeer env _ id).left left
  | frame id parsed =>
    rw [(step_frame env step).1]
    unfold frame
    split
    · exact left
    · rename_i role here
      split
      · exact (sends_reply env _ id _ _).left left
      · rename_i theirs asked _
        cases speaks : negotiate proto theirs with
        | none => exact (hello_unsupported env _ id theirs asked speaks).left left
        | some agreed =>
          have apart : asked ≠ .control := by simpa [welcomesControl, here, speaks] using other
          obtain ⟨mid, first, -, second⟩ := hello_spec env l.control id theirs asked speaks here
          have gone := first.left left
          refine second.left ⟨?_, ?_⟩
          · simpa [seated, apart] using gone.1
          · simpa [seated, apart] using gone.2
      · rename_i r origin cmd
        have spec := request_spec env l.control id role r origin cmd
        have bystander : role ≠ some .control := by
          rintro rfl
          have slot := seats.control id here
          rw [left.1] at slot
          cases slot
        obtain ⟨-, -, solo, -⟩ := spec.sameMix env bystander
        exact spec.thins.left solo left
  | tick p =>
    rw [(step_tick env step).1]
    exact tickOn_left env p left

theorem reaches_progress {ok : Loop → Act → Prop} {l l' : Loop} (run : Loop.Reaches env ok l l') :
    Progress l.control l'.control := by
  induction run with
  | refl => exact (Quiet.refl _).progress
  | tail _ step ih =>
    obtain ⟨act, -, step⟩ := step
    exact ih.trans (step_progress env step)

omit env in
/-- Without solos a level's mute is its own. -/
theorem own_mute {core : Core} (empty : core.solo = ∅) {m k : ℕ} {t : MixTargets} {g : GainTargets}
    (mix : (coreTargets core).mixes[m]? = some t) (level : t.levels[k]? = some g) :
    g.on = Dsp.onOff (!(core.level m k).muted) := by
  have named := getElem?_of_named mix
  simp only [List.getElem?_map, Option.map_eq_some_iff, List.getElem?_zipIdx] at named
  obtain ⟨⟨rec, at_⟩, ⟨_, -, shape⟩, rfl⟩ := named
  cases shape
  have slot := getElem?_of_named level
  simp only [List.getElem?_map, Option.map_eq_some_iff, List.getElem?_zipIdx] at slot
  obtain ⟨⟨l, at_⟩, ⟨_, -, shape⟩, rfl⟩ := slot
  cases shape
  simp [levelTargets, gainTargets, soloOut, empty]

/-- Solos do not outlive their controller. In every run of a compiled site's loop in
which no hello for another role comes on the controller's connection: while a solo is
on, a connection is in the controller's role or the time of its loss is known; and when
the controller was lost at `lost`, no other was welcomed since, and a tick comes at
least the grace time later, every solo is off and a processor made with the loop and
given every command handed over moves each level to its own mute. -/
theorem solos_end [LawfulLibm] {digest : TopologyInfo → String} (site : TopologyProofs.Compiled digest)
    (state : MixState) (rev : ℕ) (flags : Flags) (hil : List UInt16) (counters : List ℕ)
    (alarms : List Alarm) (settings : Settings) (now : ℕ) (opts : Rt.Options) (l : Loop)
    (run : Loop.Reaches env (fun l act => keepsControl l act)
      { control := .new ((Core.new site.topo state rev flags).withHil hil) counters alarms settings now } l) :
    (l.control.core.solo ≠ ∅ →
      (∃ id : ℕ, l.control.peers[id]? = some (some .control)) ∨ l.control.controllerLost.isSome) ∧
    ∀ (lost : ℕ) (later after : Loop) (p : Pulse), (∀ id : ℕ, l.control.peers[id]? ≠ some (some .control)) →
      l.control.controllerLost = some lost →
      Loop.Reaches env (fun l act => keepsControl l act && !welcomesControl l act) l later →
      later.Step env (.tick p) after → later.control.settings.soloGrace ≤ p.now - lost →
      after.control.core.solo = ∅ ∧
      ∀ (q : Processor) (m k : ℕ) (t : MixTargets) (g : GainTargets),
        (Processor.new site.topo state counters opts).applyAll after.control.published = some q →
        q.targets.mixes[m]? = some t → t.levels[k]? = some g →
        g.on = Dsp.onOff (!(after.control.core.level m k).muted) := by
  let core := (Core.new site.topo state rev flags).withHil hil
  have kept : Slots l.next l.control ∧ l.control.Watched := by
    induction run with
    | refl => exact ⟨new_slots core counters alarms settings now 1, .inl rfl⟩
    | tail _ step ih =>
      obtain ⟨act, keeps, step⟩ := step
      exact ⟨step_slots env ih.1 keeps step, step_watched env ih.1.seats ih.2 step⟩
  obtain ⟨slots, watched⟩ := kept
  refine ⟨fun on => ?_, fun lost later after p gone timed between tick ended => ?_⟩
  · rcases watched.resolve_left on with slot | loss
    · obtain ⟨id, held⟩ := Option.isSome_iff_exists.mp slot
      exact .inl ⟨id, slots.occupied id held⟩
    · exact .inr loss
  · have empty : l.control.controller = none := by
      cases held : l.control.controller with
      | none => rfl
      | some id => exact absurd (slots.occupied id held) (gone id)
    -- the slots and the loss are carried through the time without a controller
    have waited : Slots later.next later.control ∧ later.control.Left lost := by
      clear tick ended
      induction between with
      | refl => exact ⟨slots, empty, .inl timed⟩
      | tail _ step ih =>
        obtain ⟨act, ok, step⟩ := step
        obtain ⟨keeps, other⟩ := Bool.and_eq_true_iff.mp ok
        exact ⟨step_slots env ih.1 keeps step, step_left env ih.1.seats ih.2 (by simpa using other) step⟩
    have cleared : after.control.core.solo = ∅ := by
      rw [(step_tick env tick).1]
      exact tickOn_cleared env p waited.2 ended
    refine ⟨cleared, fun q m k t g ran mix level => ?_⟩
    have sane : Sane core :=
      ⟨(TopologyProofs.compile_spec digest site).1, new_canonical site.topo state rev flags hil⟩
    obtain ⟨events, final, handed⟩ := ((reaches_progress env run).trans (reaches_progress env between)).trans
      (step_progress env tick)
    have all : after.control.published = core.emitted events := by simpa [Control.new] using handed
    have holds := new_holds site.topo state counters opts rev flags hil
    rw [all] at ran
    obtain ⟨targets, -, -⟩ := applyAll_follows holds.sound ran
    rw [holds.targets, (run_leads core events sane.wf sane.canonical).targets] at targets
    rw [targets, ← show after.control.core = core.run events from final] at mix
    exact own_mute cleared mix level

end

/-- A controller sets a solo and is gone, at `duet`. -/
def soloAndLeave : List Act :=
  [.connected, .frame 1 (.ok (.hello 1 .control "server")),
    .frame 1 (.ok (.request 1 none (.setSolo "eng" [.input "voice"]))), .closed 1]

/-- The tick twenty seconds after the controller left ends its solo. -/
theorem solos_end_duet :
    ∃ l after, DuetReaches calm (fun l act => keepsControl l act) l ∧ l.control.core.solo ≠ ∅ ∧
      @Loop.Step calm duetLibm l (.tick { now := 20000000000 }) after ∧ after.control.core.solo = ∅ := by
  have ran : (duetRun calm (fun l act => keepsControl l act) soloAndLeave).any fun l => decide <|
      l.control.core.solo.isEmpty = false ∧ l.control.peers.isEmpty = true ∧
        l.control.controllerLost = some 7 ∧ l.control.settings.soloGrace = 10000000000 ∧
        (@Loop.handle calm duetLibm l (.tick { now := 20000000000 })).2.isNone = true := by decide +kernel
  obtain ⟨l, reached, facts⟩ := (Option.any_eq_true _ _).mp ran
  obtain ⟨on, alone, timed, grace, goesOn⟩ := of_decide_eq_true facts
  have run := duet_reaches reached
  let after := (@Loop.handle calm duetLibm l (.tick { now := 20000000000 })).1
  have step : @Loop.Step calm duetLibm l (.tick { now := 20000000000 }) after :=
    ⟨rfl, Prod.ext rfl (Option.isNone_iff_eq_none.mp goesOn)⟩
  have gone : ∀ id : ℕ, l.control.peers[id]? ≠ some (some .control) := by
    intro id
    rw [Std.ExtTreeMap.isEmpty_iff.mp alone, Std.ExtTreeMap.getElem?_empty]
    exact nofun
  have on' : l.control.core.solo ≠ ∅ := by
    intro empty
    rw [empty] at on
    cases on
  have all := @solos_end calm duetLibm Rt.duetLibm_lawful _ TopologyProofs.duetCompiled {} 7
    { testSignal := true } [] _ _ _ _ {} l run
  exact ⟨l, after, run, on', step, (all.2 7 l after _ gone timed .refl step (by rw [grace]; decide)).1⟩

/-- The controller sets a solo and says hello as an observer: the solo is on, nobody is
in the controller's role, and no loss is timed. -/
theorem role_change_keeps_solo :
    ¬ ∀ (env : Outside) (l : Loop), DuetReaches env (fun _ _ => true) l → l.control.core.solo ≠ ∅ →
      (∃ id : ℕ, l.control.peers[id]? = some (some .control)) ∨ l.control.controllerLost.isSome := by
  intro all
  have ran : (duetRun calm (fun _ _ => true)
      (soloAndLeave.take 3 ++ [.frame 1 (.ok (.hello 1 .observe "server"))])).any fun l => decide <|
      l.control.core.solo.isEmpty = false ∧ l.control.peers.toList = [(1, some .observe)] ∧
        l.control.controllerLost = none := by decide +kernel
  obtain ⟨l, reached, facts⟩ := (Option.any_eq_true _ _).mp ran
  obtain ⟨on, peers, untimed⟩ := of_decide_eq_true facts
  have on' : l.control.core.solo ≠ ∅ := by
    intro empty
    rw [empty] at on
    cases on
  rcases all calm l (duet_reaches reached) on' with ⟨id, there⟩ | timed
  · have member := Std.ExtTreeMap.mem_toList_iff_getElem?_eq_some.mpr there
    rw [peers] at member
    simp at member
  · rw [untimed] at timed
    cases timed

end IemMixer.Control
