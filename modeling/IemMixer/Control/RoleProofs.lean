import IemMixer.Control.StepProofs

/-! Role slots. The controller's slot names the connection in that role, and each slot
has one connection, as long as nobody in the controller's slot says hello for another
role and no new supervisor finds the controller in the supervisor's slot. -/
namespace IemMixer.Control
open Lib Proto Rt

variable {who : ℕ → Prop} {c mid c' : Control}

/-- A connection in a role is in that role's slot. -/
structure Seats (c : Control) : Prop where
  control : ∀ q : ℕ, c.peers[q]? = some (some .control) → c.controller = some q
  supervisor : ∀ q : ℕ, c.peers[q]? = some (some .supervisor) → c.supervisor = some q

/-- The connection in the controller's slot is in that role. -/
def Occupied (c : Control) : Prop :=
  ∀ q : ℕ, c.controller = some q → c.peers[q]? = some (some .control)

/-- Connections are numbered below `next`. -/
def Below (next : ℕ) (c : Control) : Prop :=
  ∀ (q : ℕ) (role : Option Role), c.peers[q]? = some role → q < next

/-- The slots and the connections' own roles agree. -/
structure Slots (next : ℕ) (c : Control) : Prop where
  seats : Seats c
  occupied : Occupied c
  below : Below next c

theorem Thins.was {q : ℕ} {role : Option Role} (thins : Thins who c c') (there : c'.peers[q]? = some role) :
    c.peers[q]? = some role := by
  rcases thins.gone q with same | gone
  · exact same.symm.trans there
  · rw [gone] at there
    cases there

theorem Thins.seats (thins : Thins who c c') (seats : Seats c) : Seats c' := by
  constructor
  · intro q there
    have held := seats.control q (thins.was there)
    rcases thins.slot with ⟨same, -⟩ | ⟨id, -, slot, -, -, -, gone⟩
    · exact same.trans held
    · cases held.symm.trans slot
      rw [gone] at there
      cases there
  · intro q there
    exact thins.supervisor.trans (seats.supervisor q (thins.was there))

theorem Thins.occupied (thins : Thins who c c') (occupied : Occupied c) : Occupied c' := by
  intro q slot
  rcases thins.slot with ⟨same, -, kept⟩ | ⟨id, -, -, -, empty, -⟩
  · have held := same.symm.trans slot
    exact (kept q held).trans (occupied q held)
  · rw [empty] at slot
    cases slot

theorem Thins.slots {next : ℕ} (thins : Thins who c c') (slots : Slots next c) : Slots next c' :=
  ⟨thins.seats slots.seats, thins.occupied slots.occupied, fun q role there =>
    slots.below q role (thins.was there)⟩

section
variable (env : Outside)

theorem thins_save (c : Control) : Thins (fun _ => True) c (c.save env) := by
  rcases sends_save env c with ⟨committed, -, sends⟩ | ⟨e, -, sends⟩
  · exact ⟨sends.supervisor, sends.others, sends.gone, sends.slot⟩
  · exact ⟨sends.supervisor, sends.others, sends.gone, sends.slot⟩

variable [Libm]

theorem Taken.thins {role : Option Role} {cmd : Cmd} {out : Outcome} (taken : Taken c role cmd out c') :
    Thins (fun _ => True) c c' := by
  obtain ⟨next, now, -, sends⟩ := taken.accepted
  exact ⟨sends.supervisor, sends.others, sends.gone, sends.slot⟩

theorem Requested.thins {id : ℕ} {role : Option Role} {cmd : Cmd}
    (requested : Requested env c id role cmd c') : Thins (fun _ => True) c c' := by
  cases requested with
  | refused sends => exact sends.toThins.mono fun _ _ => trivial
  | told taken _ => exact taken.thins
  | saves taken _ => exact taken.thins.trans (thins_save env _)
  | stops taken _ =>
    have thins := taken.thins
    exact ⟨thins.supervisor, thins.others, thins.gone, thins.slot⟩
  | imported now taken _ =>
    have thins := taken.thins
    exact ⟨thins.supervisor, thins.others, thins.gone, thins.slot⟩

omit env [Libm] in
/-- The slots after a hello for `role`, its holder gone. -/
theorem seated_seats {id : ℕ} {role : Role} (thins : Thins (fun q => c.Holder role q ∧ q ≠ id) c mid)
    (vacated : ∀ q : ℕ, c.Holder role q → q ≠ id → mid.peers[q]? = none) (seats : Seats c) :
    Seats (mid.seated id role) := by
  have kept := thins.seats seats
  constructor
  · intro q there
    simp only [seated, BTreeMap.getElem?_insert_eq] at there ⊢
    by_cases here : id = q
    · simp_all
    · rw [if_neg here] at there
      by_cases control : role = .control
      · have holder : c.Holder role q := .inl ⟨control, seats.control q (thins.was there)⟩
        rw [vacated q holder (Ne.symm here)] at there
        cases there
      · rw [if_neg control]
        exact kept.control q there
  · intro q there
    simp only [seated, BTreeMap.getElem?_insert_eq] at there ⊢
    by_cases here : id = q
    · simp_all
    · rw [if_neg here] at there
      by_cases supervisor : role = .supervisor
      · have holder : c.Holder role q := .inr ⟨supervisor, seats.supervisor q (thins.was there)⟩
        rw [vacated q holder (Ne.symm here)] at there
        cases there
      · rw [if_neg supervisor]
        exact kept.supervisor q there

omit env [Libm] in
theorem seated_occupied {id : ℕ} {role : Role} (thins : Thins who c mid) (occupied : Occupied c)
    (keeps : role = .control ∨ c.controller ≠ some id) : Occupied (mid.seated id role) := by
  intro q slot
  simp only [seated, BTreeMap.getElem?_insert_eq] at slot ⊢
  by_cases control : role = .control
  · simp_all
  · rw [if_neg control] at slot
    have other : id ≠ q := by
      rintro rfl
      rcases thins.slot with ⟨same, -⟩ | ⟨-, -, -, -, empty, -⟩
      · exact (keeps.resolve_left control) (same.symm.trans slot)
      · rw [empty] at slot
        cases slot
    rw [if_neg other]
    exact thins.occupied occupied q slot

/-- No hello for another role comes on the connection in the controller's slot. -/
def keepsControl (l : Loop) : Act → Bool
  | .frame id (.ok (.hello theirs role _)) =>
    (negotiate proto theirs).isNone || role = .control || l.control.controller ≠ some id
  | _ => true

/-- No hello for the supervisor comes while the connection in that slot is the controller. -/
def sparesControl (l : Loop) : Act → Bool
  | .frame id (.ok (.hello theirs role _)) =>
    (negotiate proto theirs).isNone || role ≠ .supervisor || l.control.supervisor.all fun q =>
      q = id || l.control.peers[q]? ≠ some (some .control)
  | _ => true

omit [Libm] in
theorem hello_slots {next id theirs : ℕ} {role : Role} {was : Option Role} (slots : Slots next c)
    (here : c.peers[id]? = some was)
    (keeps : (negotiate proto theirs).isSome → role ≠ .control → c.controller ≠ some id) :
    Slots next (c.hello env id theirs role) := by
  cases speaks : negotiate proto theirs with
  | none => exact (hello_unsupported env c id theirs role speaks).toThins.slots slots
  | some agreed =>
    obtain ⟨mid, first, vacated, second⟩ := hello_spec env c id theirs role speaks here
    refine second.toThins.slots ⟨seated_seats first.toThins vacated slots.seats, ?_, ?_⟩
    · refine seated_occupied first.toThins slots.occupied ?_
      by_cases control : role = .control
      · exact .inl control
      · exact .inr (keeps (by simp [speaks]) control)
    · intro q role' there
      simp only [seated, BTreeMap.getElem?_insert_eq] at there
      split at there
      · rename_i same
        exact same ▸ slots.below id was here
      · exact slots.below q role' (first.toThins.was there)

theorem tickOn_slots {next : ℕ} (p : Pulse) (slots : Slots next c) : Slots next (c.tickOn env p) := by
  let told := (c.tickMeters env p.meters).tickStatus env p.now
  have calm : Slots next told := (sends_tickStatus env _ p.now).toThins.slots
    ((sends_tickMeters env c p.meters).toThins.slots slots)
  have soloed : Slots next (told.tickSolos env p.now) := by
    rcases tickSolos_cases env told p.now with ⟨-, same⟩ | ⟨-, now, sends⟩
    · rwa [same]
    · exact sends.toThins.slots ⟨⟨calm.seats.control, calm.seats.supervisor⟩, calm.occupied, calm.below⟩
  have tested : Slots next (c.beforeSave env p) := by
    show Slots next ((told.tickSolos env p.now).tickTest env p.now)
    rcases tickTest_cases env (told.tickSolos env p.now) p.now with same | ⟨now, sends⟩
    · rwa [same]
    · exact sends.toThins.slots ⟨⟨soloed.seats.control, soloed.seats.supervisor⟩, soloed.occupied,
        soloed.below⟩
  unfold tickOn tickSave
  split
  · exact (thins_save env _).slots tested
  · exact tested

/-- A step whose hello keeps the controller in its role keeps the slots. -/
theorem step_slots {l l' : Loop} {act : Act} (slots : Slots l.next l.control) (keeps : keepsControl l act = true)
    (step : l.Step env act l') : Slots l'.next l'.control := by
  cases act with
  | connected =>
    obtain ⟨same | same, next⟩ := step_connected env step
    · rw [same, next]
      exact ⟨slots.seats, slots.occupied, fun q role there => (slots.below q role there).trans (by simp)⟩
    · rw [same, next]
      -- the new connection's number is in nobody's slot
      have unused : ∀ (q : ℕ) (role : Option Role), l.control.peers[q]? = some role → l.next ≠ q :=
        fun q role there same => absurd (slots.below q role there) (by simp [same])
      refine ⟨⟨fun q there => ?_, fun q there => ?_⟩, fun q slot => ?_, fun q role there => ?_⟩
      · simp only [BTreeMap.getElem?_insert_eq] at there
        split at there
        · cases there
        · exact slots.seats.control q there
      · simp only [BTreeMap.getElem?_insert_eq] at there
        split at there
        · cases there
        · exact slots.seats.supervisor q there
      · have held := slots.occupied q slot
        simp only [BTreeMap.getElem?_insert_eq]
        rw [if_neg (unused q _ held)]
        exact held
      · simp only [BTreeMap.getElem?_insert_eq] at there
        split at there
        · rename_i new
          simp [← new]
        · exact (slots.below q role there).trans (by simp)
  | closed id =>
    rw [(step_closed env step).1, (step_closed env step).2]
    exact (sends_dropPeer env _ id).toThins.slots slots
  | frame id parsed =>
    rw [(step_frame env step).1, (step_frame env step).2]
    unfold frame
    split
    · exact slots
    · rename_i role here
      split
      · exact (sends_reply env _ id _ _).toThins.slots slots
      · refine hello_slots env slots here fun speaks other => ?_
        simp only [keepsControl, Bool.or_eq_true, decide_eq_true_eq] at keeps
        rcases keeps with (unknown | control) | apart
        · simp_all
        · exact absurd control other
        · exact apart
      · exact (request_spec env _ id role _ _ _).thins.slots slots
  | tick p =>
    rw [(step_tick env step).1, (step_tick env step).2]
    exact tickOn_slots env p ((sends_flushLoop (fun _ => True) env _ _).toThins.slots slots)

omit [Libm] in
/-- A hello closes and demotes nobody who holds the other role. -/
theorem hello_spares {next id theirs : ℕ} {role other : Role} {was : Option Role} {q : ℕ}
    (slots : Slots next c) (here : c.peers[id]? = some was) (apart : q ≠ id)
    (there : c.peers[q]? = some (some other)) (held : other ≠ .observe) (differ : other ≠ role)
    (spares : role = .supervisor → (negotiate proto theirs).isSome → c.supervisor = some q →
      other ≠ .control) : (c.hello env id theirs role).peers[q]? = some (some other) := by
  cases speaks : negotiate proto theirs with
  | none =>
    exact ((hello_unsupported env c id theirs role speaks).others q apart).trans there
  | some agreed =>
    obtain ⟨mid, first, -, second⟩ := hello_spec env c id theirs role speaks here
    have stays : ¬ (c.Holder role q ∧ q ≠ id) := by
      rintro ⟨⟨rfl, slot⟩ | ⟨rfl, slot⟩, -⟩
      · cases (slots.occupied q slot).symm.trans there
        exact differ rfl
      · have := spares rfl (by simp [speaks]) slot
        cases other <;> simp_all
    rw [second.others q apart]
    simp only [seated, BTreeMap.getElem?_insert_eq]
    rw [if_neg (Ne.symm apart), first.others q stays]
    exact there

omit [Libm] env in
/-- The loop just started has no connections. -/
theorem new_slots (core : Core) (counters : List ℕ) (alarms : List Alarm) (settings : Settings)
    (now next : ℕ) : Slots next (new core counters alarms settings now) :=
  ⟨⟨by simp [new], by simp [new]⟩, by simp [Occupied, new], by simp [Below, new]⟩

/-- At most one connection is in each of the two roles; the controller's slot names
exactly the one in that role; a hello that meets `ok` leaves alone whoever else holds
the other role. -/
structure RolesKept (ok : Loop → Act → Prop) (l : Loop) : Prop where
  oneControl : ∀ p q : ℕ, l.control.peers[p]? = some (some .control) →
    l.control.peers[q]? = some (some .control) → p = q
  oneSupervisor : ∀ p q : ℕ, l.control.peers[p]? = some (some .supervisor) →
    l.control.peers[q]? = some (some .supervisor) → p = q
  slot : ∀ id : ℕ, l.control.controller = some id ↔ l.control.peers[id]? = some (some .control)
  spared : ∀ (id theirs : ℕ) (role : Role) (client : String) (l' : Loop),
    ok l (.frame id (.ok (.hello theirs role client))) →
    l.Step env (.frame id (.ok (.hello theirs role client))) l' →
    ∀ (q : ℕ) (other : Role), q ≠ id → other ≠ .observe → other ≠ role →
      l.control.peers[q]? = some (some other) → l'.control.peers[q]? = some (some other)

/-- Role slots. In every run of the loop in which no hello for another role comes on the
controller's connection, and none for the supervisor while the controller sits in that
slot, the roles are kept. -/
theorem role_slots (core : Core) (counters : List ℕ) (alarms : List Alarm) (settings : Settings)
    (now : ℕ) (l : Loop)
    (run : Loop.Reaches env (fun l act => keepsControl l act && sparesControl l act)
      { control := new core counters alarms settings now } l) :
    RolesKept env (fun l act => keepsControl l act && sparesControl l act) l := by
  have slots : Slots l.next l.control := by
    induction run with
    | refl => exact new_slots core counters alarms settings now 1
    | tail _ step ih =>
      obtain ⟨act, ok, step⟩ := step
      exact step_slots env ih (Bool.and_eq_true_iff.mp ok).1 step
  constructor
  case oneControl =>
    intro p q atP atQ
    exact Option.some.inj ((slots.seats.control p atP).symm.trans (slots.seats.control q atQ))
  case oneSupervisor =>
    intro p q atP atQ
    exact Option.some.inj ((slots.seats.supervisor p atP).symm.trans (slots.seats.supervisor q atQ))
  case slot => exact fun id => ⟨slots.occupied id, slots.seats.control id⟩
  case spared =>
    intro id theirs role client l' ok step q other apart held differ there
    rw [(step_frame env step).1]
    unfold frame
    split
    · exact there
    · rename_i was here
      refine hello_spares env slots here apart there held differ ?_
      rintro rfl speaks slot rfl
      have spares := (Bool.and_eq_true_iff.mp ok).2
      simp_all [sparesControl]

end

/-- A controller, a supervisor, and the next controller at `duet`: the old one is gone,
the supervisor stays. -/
theorem role_slots_duet :
    ∃ l, DuetReaches calm (fun l act => keepsControl l act && sparesControl l act) l ∧
      l.control.peers.toList = [(2, some .supervisor), (3, some .control)] ∧
      @RolesKept calm Core.duetLibm (fun l act => keepsControl l act && sparesControl l act) l := by
  have ran : (duetRun calm (fun l act => keepsControl l act && sparesControl l act)
      [.connected, .connected, .connected, .frame 1 (.ok (.hello 1 .control "server")),
        .frame 2 (.ok (.hello 1 .supervisor "supervise")),
        .frame 3 (.ok (.hello 1 .control "server"))]).any fun l =>
      l.control.peers.toList = [(2, some .supervisor), (3, some .control)] := by decide +kernel
  obtain ⟨l, reached, peers⟩ := (Option.any_eq_true _ _).mp ran
  have run := duet_reaches reached
  exact ⟨l, run, of_decide_eq_true peers, @role_slots calm Core.duetLibm _ _ _ _ _ l run⟩

/-- The controller says hello as an observer: its slot still names it. -/
theorem role_change_keeps_slot :
    ¬ ∀ (env : Outside) (l : Loop), DuetReaches env (fun _ _ => true) l →
      @RolesKept env Core.duetLibm (fun _ _ => true) l := by
  intro all
  have ran : (duetRun calm (fun _ _ => true)
      [.connected, .frame 1 (.ok (.hello 1 .control "server")),
        .frame 1 (.ok (.hello 1 .observe "server"))]).any fun l =>
      l.control.controller = some 1 && l.control.peers[1]? ≠ some (some .control) := by decide +kernel
  obtain ⟨l, reached, stale⟩ := (Option.any_eq_true _ _).mp ran
  obtain ⟨slot, role⟩ := Bool.and_eq_true_iff.mp stale
  obtain ⟨-, -, named, -⟩ := all calm l (duet_reaches reached)
  exact of_decide_eq_true role ((named 1).mp (of_decide_eq_true slot))

end IemMixer.Control
