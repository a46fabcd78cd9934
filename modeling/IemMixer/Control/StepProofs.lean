import IemMixer.Control.Loop
import IemMixer.Core.BatchProofs
import Mathlib.Logic.Relation

/-! What each part of the control loop can do. `Sends` is everything that sending
messages can do: a connection whose write failed is gone, and with it the controller's
slot; every function is then a `Sends` around the fields it writes itself. -/
namespace IemMixer.Control
open Lib Proto Rt

/-- Sending did not touch these. -/
structure Quiet (c c' : Control) : Prop where
  core : c'.core = c.core
  schedule : c'.schedule = c.schedule
  settings : c'.settings = c.settings
  shutdown : c'.shutdown = c.shutdown
  published : c'.published = c.published
  accepted : c'.accepted = c.accepted

theorem Quiet.refl (c : Control) : Quiet c c := ⟨rfl, rfl, rfl, rfl, rfl, rfl⟩

theorem Quiet.trans {c mid c' : Control} (first : Quiet c mid) (second : Quiet mid c') : Quiet c c' :=
  ⟨second.core.trans first.core, second.schedule.trans first.schedule,
    second.settings.trans first.settings, second.shutdown.trans first.shutdown,
    second.published.trans first.published, second.accepted.trans first.accepted⟩

/-- Some connections in `who` are gone, and when the controller is one of them its slot
is empty and the loss is timed. -/
structure Thins (who : ℕ → Prop) (c c' : Control) : Prop where
  supervisor : c'.supervisor = c.supervisor
  others : ∀ q, ¬ who q → c'.peers[q]? = c.peers[q]?
  gone : ∀ q : ℕ, c'.peers[q]? = c.peers[q]? ∨ c'.peers[q]? = none
  slot : (c'.controller = c.controller ∧ c'.controllerLost = c.controllerLost ∧
      ∀ id : ℕ, c.controller = some id → c'.peers[id]? = c.peers[id]?) ∨
    ∃ id now : ℕ, c.controller = some id ∧ who id ∧ c'.controller = none ∧ c'.controllerLost = some now ∧
      c'.peers[id]? = none

/-- `c'` is `c` after messages to connections in `who` were sent. -/
structure Sends (who : ℕ → Prop) (c c' : Control) : Prop extends Quiet c c', Thins who c c'

variable {who : ℕ → Prop} {c mid c' : Control}

theorem Thins.refl (who : ℕ → Prop) (c : Control) : Thins who c c :=
  ⟨rfl, fun _ _ => rfl, fun _ => .inl rfl, .inl ⟨rfl, rfl, fun _ _ => rfl⟩⟩

theorem Thins.mono {who' : ℕ → Prop} (thins : Thins who c c') (more : ∀ q, who q → who' q) :
    Thins who' c c' := by
  refine ⟨thins.supervisor, fun q out => thins.others q fun inside => out (more q inside), thins.gone, ?_⟩
  rcases thins.slot with kept | ⟨id, now, held, inside, rest⟩
  · exact .inl kept
  · exact .inr ⟨id, now, held, more id inside, rest⟩

theorem Thins.trans (first : Thins who c mid) (second : Thins who mid c') : Thins who c c' := by
  refine ⟨second.supervisor.trans first.supervisor,
    fun q out => (second.others q out).trans (first.others q out), fun q => ?_, ?_⟩
  · rcases second.gone q with same | gone
    · rw [same]
      exact first.gone q
    · exact .inr gone
  · rcases first.slot with ⟨slot, lost, there⟩ | ⟨id, now, held, inside, empty, lost, gone⟩
    · rcases second.slot with ⟨slot', lost', there'⟩ | ⟨id, now, held, inside, rest⟩
      · left
        refine ⟨slot'.trans slot, lost'.trans lost, fun id held => ?_⟩
        exact (there' id (slot.trans held)).trans (there id held)
      · exact .inr ⟨id, now, slot.symm.trans held, inside, rest⟩
    · rcases second.slot with ⟨slot', lost', -⟩ | ⟨other, -, held', -⟩
      · right
        refine ⟨id, now, held, inside, slot'.trans empty, lost'.trans lost, ?_⟩
        rcases second.gone id with same | gone'
        · exact same.trans gone
        · exact gone'
      · rw [empty] at held'
        cases held'

theorem Sends.refl (who : ℕ → Prop) (c : Control) : Sends who c c := ⟨.refl c, .refl who c⟩

theorem Sends.mono {who' : ℕ → Prop} (sends : Sends who c c') (more : ∀ q, who q → who' q) :
    Sends who' c c' := ⟨sends.toQuiet, sends.toThins.mono more⟩

theorem Sends.trans (first : Sends who c mid) (second : Sends who mid c') : Sends who c c' :=
  ⟨first.toQuiet.trans second.toQuiet, first.toThins.trans second.toThins⟩

/-- Only connections are looked at: the queue to the RT thread, the counters, the
alarms and the log may have changed. -/
theorem Sends.of_eq (quiet : Quiet c c') (supervisor : c'.supervisor = c.supervisor)
    (peers : c'.peers = c.peers) (slot : c'.controller = c.controller)
    (lost : c'.controllerLost = c.controllerLost) : Sends who c c' :=
  ⟨quiet, ⟨supervisor, fun _ _ => by rw [peers], fun _ => .inl (by rw [peers]),
    .inl ⟨slot, lost, fun _ _ => by rw [peers]⟩⟩⟩

section
variable (env : Outside)

theorem sends_dropPeer (c : Control) (id : ℕ) : Sends (· = id) c (c.dropPeer env id) := by
  have others : ∀ q : ℕ, ¬ q = id → (c.peers.erase id)[q]? = c.peers[q]? := by
    intro q other
    rw [BTreeMap.getElem?_erase_eq, if_neg (Ne.symm other)]
  have gone : ∀ q : ℕ, (c.peers.erase id)[q]? = c.peers[q]? ∨ (c.peers.erase id)[q]? = none := by
    intro q
    rw [BTreeMap.getElem?_erase_eq]
    split
    · exact .inr rfl
    · exact .inl rfl
  unfold dropPeer
  by_cases here : c.controller = some id
  · simp only [here, if_true]
    exact ⟨⟨rfl, rfl, rfl, rfl, rfl, rfl⟩, rfl, others, gone,
      .inr ⟨id, _, here, rfl, rfl, rfl, by simp [ask]⟩⟩
  · simp only [here, if_false]
    refine ⟨⟨rfl, rfl, rfl, rfl, rfl, rfl⟩, rfl, others, gone, .inl ⟨rfl, rfl, fun q held => ?_⟩⟩
    exact others q fun same => here (same ▸ held)

theorem sends_ask (c : Control) : Sends who c c.ask :=
  .of_eq ⟨rfl, rfl, rfl, rfl, rfl, rfl⟩ rfl rfl rfl rfl

theorem sends_write (c : Control) (id : ℕ) (msg : EngineMsg) : Sends (· = id) c (c.write env id msg) := by
  unfold write
  split
  · exact .refl _ c
  · split
    · exact .of_eq ⟨rfl, rfl, rfl, rfl, rfl, rfl⟩ rfl rfl rfl rfl
    · exact (sends_ask c).trans (sends_dropPeer env c.ask id)

theorem sends_send (c : Control) (id : ℕ) (msg : EngineMsg) : Sends (· = id) c (c.send env id msg) := by
  unfold send
  split
  · exact sends_write env c id msg
  · exact .refl _ c

/-- Sending step after step. -/
theorem sends_foldl {α : Type} (f : Control → α → Control) (xs : List α)
    (each : ∀ c, ∀ x ∈ xs, Sends who c (f c x)) (c : Control) : Sends who c (xs.foldl f c) := by
  induction xs generalizing c with
  | nil => exact .refl who c
  | cons x rest ih =>
    have later : ∀ c, ∀ y ∈ rest, Sends who c (f c y) := fun c y member => each c y (by simp [member])
    exact (each c x (by simp)).trans (ih later (f c x))

theorem sends_broadcast (c : Control) (msg : EngineMsg) :
    Sends (fun _ => True) c (c.broadcast env msg) := by
  unfold broadcast
  split
  · exact sends_foldl _ _ (fun c id _ => (sends_write env c id msg).mono fun _ _ => trivial) c
  · exact .refl _ c

theorem sends_reply (c : Control) (id request : ℕ) (error : Option ErrorBody) :
    Sends (· = id) c (c.reply env id request error) := sends_send env c id _

theorem sends_alarm (c : Control) (code : AlarmCode) (detail : String) :
    Sends (fun _ => True) c (c.alarm env code detail) := by
  have noted : Sends (fun _ => True) c { c with alarms := pushAlarm c.alarms ⟨code, detail⟩ } :=
    .of_eq ⟨rfl, rfl, rfl, rfl, rfl, rfl⟩ rfl rfl rfl rfl
  exact noted.trans (sends_broadcast env _ _)

theorem sends_welcome (c : Control) (id proto : ℕ) (role : Role) :
    Sends (· = id) c (c.welcome env id proto role) := by
  unfold welcome
  refine .trans ?_ (sends_foldl _ _ (fun c alarm _ => sends_send env c id _) _)
  exact (sends_send env _ id _).trans ((sends_send env _ id _).trans (sends_send env _ id _))

/-- The fields `publish` writes. -/
def said (c : Control) (out : Outcome) (now : ℕ) : Control :=
  { c with
    published := c.published ++ out.rt
    schedule := if out.changes.isEmpty then c.schedule else c.schedule.changed now }

omit env in
theorem Sends.said (sends : Sends who c c') (out : Outcome) (now : ℕ) :
    Sends who (c.said out now) (c'.said out now) := by
  refine ⟨⟨sends.core, ?_, sends.settings, sends.shutdown, ?_, sends.accepted⟩, ⟨sends.supervisor,
    sends.others, sends.gone, sends.slot⟩⟩
  · simp only [Control.said, sends.schedule]
  · simp only [Control.said, sends.published]

variable (who) in
theorem sends_flushLoop (c : Control) (groups : List (List RtOp)) :
    Sends who c (c.flushLoop env groups) := by
  induction groups generalizing c with
  | nil => exact .of_eq ⟨rfl, rfl, rfl, rfl, rfl, rfl⟩ rfl rfl rfl rfl
  | cons group rest ih =>
    simp only [flushLoop]
    split
    · exact .of_eq ⟨rfl, rfl, rfl, rfl, rfl, rfl⟩ rfl rfl rfl rfl
    · refine .trans ?_ (ih _)
      exact .of_eq ⟨rfl, rfl, rfl, rfl, rfl, rfl⟩ rfl rfl rfl rfl

theorem sends_publish (c : Control) (out : Outcome) (origin : Option ℕ) :
    ∃ now, Sends (fun _ => True) (c.said out now) (c.publish env out origin) := by
  let queued : Control := { c with
    pending := c.pending ++ chunks maxCmdsPerBlock out.rt, published := c.published ++ out.rt }
  have flushed : Sends (fun _ => True) queued (queued.flushRt env) := sends_flushLoop _ env _ _
  cases none : out.changes.isEmpty with
  | true =>
    have same : Sends (fun _ => True) (c.said out 0) queued :=
      .of_eq ⟨rfl, by simp [said, queued, none], rfl, rfl, rfl, rfl⟩ rfl rfl rfl rfl
    exact ⟨0, by simpa [publish, none] using same.trans flushed⟩
  | false =>
    let now := env.now (queued.flushRt env).asked
    let marked : Control := { (queued.flushRt env).ask with
      schedule := (queued.flushRt env).schedule.changed now }
    have sent : c.publish env out origin = marked.broadcast env (.delta out.rev origin out.changes) := by
      simp [publish, none, marked, now, queued]
    refine ⟨now, sent ▸ Sends.trans ?_ (sends_broadcast env marked _)⟩
    refine ⟨⟨flushed.core, ?_, flushed.settings, flushed.shutdown, flushed.published, flushed.accepted⟩,
      ⟨flushed.supervisor, flushed.others, flushed.gone, flushed.slot⟩⟩
    simp [said, marked, none, flushed.schedule, queued]

/-- A save clears the schedule, whatever the store answers. -/
theorem sends_save (c : Control) :
    (∃ committed, env.save c.asked = .ok committed ∧ Sends (fun _ => True)
      { c with schedule := .saved, accepted := c.persisted env } (c.save env)) ∨
    ∃ e, env.save c.asked = .error e ∧
      Sends (fun _ => True) { c with schedule := .saved } (c.save env) := by
  unfold save
  cases answer : env.save c.asked with
  | ok committed =>
    left
    refine ⟨committed, rfl, ?_⟩
    simp only [answer]
    refine .trans ?_ (sends_broadcast env _ _)
    cases committed.orphaned with
    | none => exact .of_eq ⟨rfl, rfl, rfl, rfl, rfl, rfl⟩ rfl rfl rfl rfl
    | some aside =>
      refine .trans ?_ (sends_alarm env _ _ _)
      exact .of_eq ⟨rfl, rfl, rfl, rfl, rfl, rfl⟩ rfl rfl rfl rfl
  | error e =>
    right
    refine ⟨e, rfl, ?_⟩
    simp only [answer]
    refine .trans ?_ (sends_alarm env _ _ _)
    exact sends_ask _

theorem sends_note (c : Control) (cmd : Cmd) : Sends who c (c.note env cmd) := by
  unfold note
  split <;> exact .of_eq ⟨rfl, rfl, rfl, rfl, rfl, rfl⟩ rfl rfl rfl rfl

theorem sends_answer (c : Control) (id r : ℕ) (origin : Option ℕ) (cmd : Cmd) (out : Outcome)
    (core : Core) : ∃ now, Sends (fun _ => True) ({ c with core }.said out now)
      (c.answer env id r origin cmd out core) := by
  let answered : Control := ({ c with core }.note env cmd).reply env id r none
  have before : Sends (fun _ => True) { c with core } answered :=
    ((sends_note env _ cmd).trans (sends_reply env _ id r none)).mono fun _ _ => trivial
  obtain ⟨now, published⟩ := sends_publish env answered out origin
  exact ⟨now, (before.said out now).trans published⟩

variable [Libm]

/-- The core took the request, and its outcome is said. -/
structure Taken (c : Control) (role : Option Role) (cmd : Cmd) (out : Outcome) (c' : Control) :
    Prop where
  allowed : refusal role cmd = none
  accepted : ∃ next now, c.core.apply cmd = .ok out next ∧
    Sends (fun _ => True) ({ c with core := next }.said out now) c'

omit env in
theorem Taken.sends {role : Option Role} {cmd : Cmd} {out : Outcome} (taken : Taken c role cmd out mid)
    (sends : Sends (fun _ => True) mid c') : Taken c role cmd out c' := by
  obtain ⟨next, now, accepted, before⟩ := taken.accepted
  exact ⟨taken.allowed, next, now, accepted, before.trans sends⟩

/-- What a request of a connection in `role` can do: it is refused; or the core took it,
its outcome is said, and then its effect follows. -/
inductive Requested (c : Control) (id : ℕ) (role : Option Role) (cmd : Cmd) : Control → Prop where
  | refused {c' : Control} (sends : Sends (· = id) c c') : Requested c id role cmd c'
  | told {out : Outcome} {c' : Control} (taken : Taken c role cmd out c')
      (plain : out.effect ≠ .imported) : Requested c id role cmd c'
  | saves {out : Outcome} {c' : Control} (taken : Taken c role cmd out c')
      (effect : out.effect = .save) : Requested c id role cmd (c'.save env)
  | stops {out : Outcome} {c' : Control} (taken : Taken c role cmd out c')
      (effect : out.effect = .shutdown) : Requested c id role cmd { c' with shutdown := true }
  | imported {out : Outcome} {c' : Control} (now : ℕ) (taken : Taken c role cmd out c')
      (effect : out.effect = .imported) :
    Requested c id role cmd { c'.ask with schedule := c'.schedule.changed now }

theorem request_spec (c : Control) (id : ℕ) (role : Option Role) (r : ℕ) (origin : Option ℕ) (cmd : Cmd) :
    Requested env c id role cmd (c.request env id role r origin cmd) := by
  unfold request
  cases allowed : refusal role cmd with
  | some error => exact .refused (sends_reply env c id r _)
  | none =>
    cases accepted : c.core.apply cmd with
    | error e core => exact .refused (sends_reply env c id r _)
    | ok out core =>
      simp only
      obtain ⟨now, sends⟩ := sends_answer env c id r origin cmd out core
      have taken : Taken c role cmd out (c.answer env id r origin cmd out core) :=
        ⟨allowed, core, now, accepted, sends⟩
      cases effect : out.effect with
      | none => exact .told taken (by simp [effect])
      | sendState => exact .told (taken.sends ((sends_send env _ id _).mono fun _ _ => trivial)) (by simp [effect])
      | sendTopology => exact .told (taken.sends ((sends_send env _ id _).mono fun _ _ => trivial)) (by simp [effect])
      | save => exact .saves taken effect
      | shutdown => exact .stops taken effect
      | imported => exact .imported _ (taken.sends (sends_broadcast env _ _)) effect

omit [Libm] in
theorem sends_tickMeters (c : Control) (frame : Option MeterFrame) :
    Sends (fun _ => True) c (c.tickMeters env frame) := by
  unfold tickMeters
  cases frame with
  | none => exact .refl _ c
  | some frame =>
    refine .trans ?_ (sends_broadcast env _ _)
    split
    · have seen : Sends (fun _ => True) c { c with tripsSeen := frame.trips } :=
        .of_eq ⟨rfl, rfl, rfl, rfl, rfl, rfl⟩ rfl rfl rfl rfl
      have alarmed := seen.trans (sends_alarm env _ .sanitizer s!"sanitiser trips: {frame.trips}")
      exact alarmed.trans (.of_eq ⟨rfl, rfl, rfl, rfl, rfl, rfl⟩ rfl rfl rfl rfl)
    · exact .of_eq ⟨rfl, rfl, rfl, rfl, rfl, rfl⟩ rfl rfl rfl rfl

omit [Libm] in
theorem sends_tickStatus (c : Control) (now : ℕ) : Sends (fun _ => True) c (c.tickStatus env now) := by
  unfold tickStatus
  split
  · have noted : Sends (fun _ => True) c { c with lastStatus := now } :=
      .of_eq ⟨rfl, rfl, rfl, rfl, rfl, rfl⟩ rfl rfl rfl rfl
    exact noted.trans (sends_broadcast env _ _)
  · exact .refl _ c

/-- The solo grace is over at `now`. -/
def GraceOver (c : Control) (now : ℕ) : Prop :=
  c.controller = none ∧ ∃ lost, c.controllerLost = some lost ∧ c.settings.soloGrace ≤ now - lost

theorem tickSolos_cases (c : Control) (now : ℕ) :
    ¬ c.GraceOver now ∧ c.tickSolos env now = c ∨
    c.GraceOver now ∧ ∃ at', Sends (fun _ => True)
      ({ c with controllerLost := none, core := c.core.clearSolos.2 }.said c.core.clearSolos.1 at')
      (c.tickSolos env now) := by
  unfold tickSolos
  split
  · rename_i lost slot timed
    by_cases ended : c.settings.soloGrace ≤ now - lost
    · right
      rw [if_pos ended]
      exact ⟨⟨slot, lost, timed, ended⟩, sends_publish env _ _ _⟩
    · left
      rw [if_neg ended]
      refine ⟨?_, rfl⟩
      rintro ⟨-, other, held, ended'⟩
      cases timed.symm.trans held
      exact ended ended'
  · rename_i other
    left
    refine ⟨?_, rfl⟩
    rintro ⟨slot, lost, timed, -⟩
    exact other lost slot timed

omit [Libm] in
theorem tickTest_cases (c : Control) (now : ℕ) :
    c.tickTest env now = c ∨ ∃ at', Sends (fun _ => True)
      ({ c with core := c.core.endTestSignal.2 }.said c.core.endTestSignal.1 at')
      (c.tickTest env now) := by
  unfold tickTest
  split
  · rename_i deadline held
    split
    · right
      obtain ⟨at', sends⟩ := sends_publish env
        { c with testDeadline := none, core := c.core.endTestSignal.2 } c.core.endTestSignal.1 none
      refine ⟨at', .trans ?_ sends⟩
      exact .of_eq ⟨rfl, rfl, rfl, rfl, rfl, rfl⟩ rfl rfl rfl rfl
    · exact .inl rfl
  · exact .inl rfl

omit [Libm] in
theorem sends_supersede (c : Control) (holder : Option ℕ) (id : ℕ) :
    Sends (fun q => holder = some q ∧ q ≠ id) c (c.supersede env holder id) ∧
      ∀ q : ℕ, holder = some q → q ≠ id → (c.supersede env holder id).peers[q]? = none := by
  unfold supersede
  split
  · rename_i kept
    refine ⟨.refl _ c, fun q held other => ?_⟩
    rw [held, Option.filter_some, if_pos (by simpa using other)] at kept
    cases kept
  · rename_i old found
    obtain ⟨held, other⟩ := Option.filter_eq_some_iff.mp found
    have apart : old ≠ id := by simpa using other
    refine ⟨?_, fun q held' _ => ?_⟩
    · refine .mono ((sends_send env c old _).trans (sends_dropPeer env _ old)) ?_
      rintro q rfl
      exact ⟨held, apart⟩
    · cases held.symm.trans held'
      simp [dropPeer]
      split <;> simp [ask]

/-- The connection that holds the slot `role` asks for. -/
def Holder (c : Control) (role : Role) (q : ℕ) : Prop :=
  role = .control ∧ c.controller = some q ∨ role = .supervisor ∧ c.supervisor = some q

/-- Connection `id` in its role and slot. -/
def seated (c : Control) (id : ℕ) (role : Role) : Control :=
  { c with
    peers := c.peers.insert id (some role)
    controller := if role = .control then some id else c.controller
    controllerLost := if role = .control then none else c.controllerLost
    supervisor := if role = .supervisor then some id else c.supervisor }

omit [Libm] in
/-- A hello in a version the engine speaks: the slot's holder goes, `id` is seated, and
then it is told where the engine stands. -/
theorem hello_spec (c : Control) (id theirs : ℕ) (role : Role) {agreed : ℕ} {was : Option Role}
    (speaks : negotiate proto theirs = some agreed) (here : c.peers[id]? = some was) :
    ∃ mid, Sends (fun q => c.Holder role q ∧ q ≠ id) c mid ∧
      (∀ q : ℕ, c.Holder role q → q ≠ id → mid.peers[q]? = none) ∧
      Sends (· = id) (mid.seated id role) (c.hello env id theirs role) := by
  have stays : ∀ holder : Option ℕ, (c.supersede env holder id).peers[id]? = some was := fun holder =>
    ((sends_supersede env c holder id).1.others id (by simp)).trans here
  unfold hello
  simp only [speaks]
  cases role with
  | control =>
    obtain ⟨sends, gone⟩ := sends_supersede env c c.controller id
    refine ⟨c.supersede env c.controller id, sends.mono fun q held => ⟨.inl ⟨rfl, held.1⟩, held.2⟩,
      fun q held other => ?_, ?_⟩
    · rcases held with ⟨-, held⟩ | ⟨wrong, -⟩
      · exact gone q held other
      · cases wrong
    · simp only [seat, stays]
      exact sends_welcome env _ id agreed .control
  | supervisor =>
    obtain ⟨sends, gone⟩ := sends_supersede env c c.supervisor id
    refine ⟨c.supersede env c.supervisor id, sends.mono fun q held => ⟨.inr ⟨rfl, held.1⟩, held.2⟩,
      fun q held other => ?_, ?_⟩
    · rcases held with ⟨wrong, -⟩ | ⟨-, held⟩
      · cases wrong
      · exact gone q held other
    · simp only [seat, stays]
      exact sends_welcome env _ id agreed .supervisor
  | observe =>
    refine ⟨c, .refl _ c, fun q held _ => ?_, ?_⟩
    · rcases held with ⟨wrong, -⟩ | ⟨wrong, -⟩ <;> cases wrong
    · simp only [seat, here]
      exact sends_welcome env _ id agreed .observe

omit [Libm] in
/-- A hello in a version the engine does not speak: the connection is closed. -/
theorem hello_unsupported (c : Control) (id theirs : ℕ) (role : Role)
    (unknown : negotiate proto theirs = none) : Sends (· = id) c (c.hello env id theirs role) := by
  unfold hello
  simp only [unknown]
  exact (sends_reply env c id 0 _).trans (sends_dropPeer env _ id)

omit [Libm] in
/-- Whatever a hello says, the core and its saves are not touched. -/
theorem quiet_hello (c : Control) (id theirs : ℕ) (role : Role) {was : Option Role}
    (here : c.peers[id]? = some was) : Quiet c (c.hello env id theirs role) := by
  cases speaks : negotiate proto theirs with
  | none => exact (hello_unsupported env c id theirs role speaks).toQuiet
  | some agreed =>
    obtain ⟨mid, first, -, second⟩ := hello_spec env c id theirs role speaks here
    have seated : Quiet mid (mid.seated id role) := ⟨rfl, rfl, rfl, rfl, rfl, rfl⟩
    exact (first.toQuiet.trans seated).trans second.toQuiet

omit [Libm] in
theorem save_core (c : Control) : (c.save env).core = c.core := by
  rcases sends_save env c with ⟨committed, -, sends⟩ | ⟨e, -, sends⟩
  · exact sends.core
  · exact sends.core

omit [Libm] in
theorem release_core (c : Control) (reason : String) : (c.release env reason).core = c.core :=
  (sends_broadcast env c _).core

omit [Libm] in
theorem flushRt_core (c : Control) : (c.flushRt env).core = c.core :=
  (sends_flushLoop (fun _ => True) env c c.pending).core

omit [Libm] in
theorem fadeOut_core (c : Control) : (c.fadeOut env).core = c.core := by
  have looks : ∀ (n : ℕ) (c : Control), ((List.range n).foldl (fun c _ => c.flushRt env) c).core = c.core := by
    intro n
    induction n with
    | zero => exact fun c => rfl
    | succ n ih =>
      intro c
      rw [List.range_succ, List.foldl_append]
      exact (flushRt_core env _).trans (ih c)
  exact looks _ _

/-- A tick ends the run and leaves the core alone, or the loop goes on. -/
theorem tick_cases (c : Control) (p : Pulse) :
    (∃ exit, (c.tick env p).2 = some exit ∧ (c.tick env p).1.core = c.core) ∨
      c.tick env p = ((c.flushRt env).tickOn env p, none) := by
  unfold tick
  split
  · left
    exact ⟨_, rfl, by simp only [fault, release_core, (sends_alarm env _ _ _).core, save_core,
      (sends_broadcast env _ _).core, flushRt_core]⟩
  · split
    · left
      exact ⟨_, rfl, by simp only [backendEnded, release_core, save_core, flushRt_core]⟩
    · have asked : ((c.flushRt env).stopAsked p).core = c.core := by
        unfold stopAsked
        split <;> exact flushRt_core env c
      dsimp only
      split
      · left
        exact ⟨_, rfl, by simp only [shutdownNow, release_core, fadeOut_core, save_core, asked]⟩
      · rename_i running
        right
        have unasked : (c.flushRt env).stopAsked p = c.flushRt env := by
          unfold stopAsked at running ⊢
          split at running
          · simp at running
          · rfl
        rw [unasked]

/-- A tick after which the loop goes on. -/
theorem step_tick {l l' : Loop} {p : Pulse} (step : l.Step env (.tick p) l') :
    l'.control = (l.control.flushRt env).tickOn env p ∧ l'.next = l.next := by
  obtain ⟨-, step⟩ := step
  simp only [Loop.handle, Prod.mk.injEq] at step
  obtain ⟨rfl, goesOn⟩ := step
  rcases tick_cases env l.control p with ⟨exit, ended, -⟩ | same
  · rw [ended] at goesOn
    cases goesOn
  · rw [same]
    exact ⟨rfl, rfl⟩

theorem step_frame {l l' : Loop} {id : ℕ} {parsed : Except (Option ℕ × ErrorBody) ClientMsg}
    (step : l.Step env (.frame id parsed) l') :
    l'.control = l.control.frame env id parsed ∧ l'.next = l.next := by
  obtain ⟨-, step⟩ := step
  simp only [Loop.handle, Prod.mk.injEq, and_true] at step
  subst step
  exact ⟨rfl, rfl⟩

theorem step_closed {l l' : Loop} {id : ℕ} (step : l.Step env (.closed id) l') :
    l'.control = l.control.dropPeer env id ∧ l'.next = l.next := by
  obtain ⟨-, step⟩ := step
  simp only [Loop.handle, Prod.mk.injEq, and_true] at step
  subst step
  exact ⟨rfl, rfl⟩

theorem step_connected {l l' : Loop} (step : l.Step env .connected l') :
    (l'.control = l.control ∨
      l'.control = { l.control with peers := l.control.peers.insert l.next none }) ∧
      l'.next = l.next + 1 := by
  obtain ⟨-, step⟩ := step
  simp only [Loop.handle] at step
  split at step
  · simp only [Prod.mk.injEq, and_true] at step
    subst step
    exact ⟨.inl rfl, rfl⟩
  · simp only [Prod.mk.injEq, and_true] at step
    subst step
    exact ⟨.inr rfl, rfl⟩

/-- The core ran some events, and what they emitted was handed to the RT thread. -/
def Progress (c c' : Control) : Prop :=
  ∃ events, c'.core = c.core.run events ∧ c'.published = c.published ++ c.core.emitted events

omit env in
theorem Quiet.progress (quiet : Quiet c c') : Progress c c' :=
  ⟨[], quiet.core, by simpa [Core.emitted] using quiet.published⟩

omit env in
theorem Progress.trans (first : Progress c mid) (second : Progress mid c') : Progress c c' := by
  obtain ⟨events, core, published⟩ := first
  obtain ⟨later, core', published'⟩ := second
  refine ⟨events ++ later, ?_, ?_⟩
  · rw [core', core, Core.run_append]
  · rw [published', published, core, Core.emitted_append, List.append_assoc]

omit env in
/-- One event of the core, said. -/
theorem progress_said (c : Control) (event : Core.Event) {out : Outcome} {next : Core} (now : ℕ)
    (handled : c.core.handle event = (some out, next)) :
    Progress c ({ c with core := next }.said out now) :=
  ⟨[event], by simp [Core.run, handled, said], by simp [Core.emitted, handled, said]⟩

omit env in
theorem handle_request {c next : Core} {cmd : Cmd} {out : Outcome} (accepted : c.apply cmd = .ok out next) :
    c.handle (.request cmd) = (some out, next) := by
  simp [Core.handle, accepted]

theorem Taken.progress {role : Option Role} {cmd : Cmd} {out : Outcome}
    (taken : Taken c role cmd out c') : Progress c c' := by
  obtain ⟨next, now, accepted, sends⟩ := taken.accepted
  exact (progress_said c (.request cmd) now (handle_request accepted)).trans sends.toQuiet.progress

theorem progress_save (c : Control) : Progress c (c.save env) := by
  rcases sends_save env c with ⟨committed, -, sends⟩ | ⟨e, -, sends⟩
  · exact ⟨[], sends.core, by simpa [Core.emitted] using sends.published⟩
  · exact ⟨[], sends.core, by simpa [Core.emitted] using sends.published⟩

theorem Requested.progress {id : ℕ} {role : Option Role} {cmd : Cmd}
    (requested : Requested env c id role cmd c') : Progress c c' := by
  cases requested with
  | refused sends => exact sends.toQuiet.progress
  | told taken _ => exact taken.progress
  | saves taken _ => exact taken.progress.trans (progress_save env _)
  | stops taken _ => exact taken.progress
  | imported now taken _ => exact taken.progress

theorem progress_frame (c : Control) (id : ℕ) (parsed : Except (Option ℕ × ErrorBody) ClientMsg) :
    Progress c (c.frame env id parsed) := by
  unfold frame
  split
  · exact (Quiet.refl c).progress
  · rename_i role here
    split
    · exact (sends_reply env c id _ _).toQuiet.progress
    · exact (quiet_hello env c id _ _ here).progress
    · exact (request_spec env c id role _ _ _).progress

theorem progress_tickSolos (c : Control) (now : ℕ) : Progress c (c.tickSolos env now) := by
  rcases tickSolos_cases env c now with ⟨-, same⟩ | ⟨-, now', sends⟩
  · rw [same]
    exact (Quiet.refl c).progress
  · refine .trans ?_ sends.toQuiet.progress
    exact progress_said { c with controllerLost := none } .clearSolos now' rfl

theorem progress_tickTest (c : Control) (now : ℕ) : Progress c (c.tickTest env now) := by
  rcases tickTest_cases env c now with same | ⟨now', sends⟩
  · rw [same]
    exact (Quiet.refl c).progress
  · exact (progress_said c .endTestSignal now' rfl).trans sends.toQuiet.progress

theorem progress_beforeSave (c : Control) (p : Pulse) : Progress c (c.beforeSave env p) := by
  have meters := (sends_tickMeters env c p.meters).toQuiet.progress
  have status := (sends_tickStatus env (c.tickMeters env p.meters) p.now).toQuiet.progress
  exact ((meters.trans status).trans (progress_tickSolos env _ p.now)).trans (progress_tickTest env _ p.now)

theorem progress_tickSave (c : Control) (now : ℕ) : Progress c (c.tickSave env now) := by
  unfold tickSave
  split
  · exact progress_save env c
  · exact (Quiet.refl c).progress

/-- One step of the loop runs the core by its events. -/
theorem step_progress {l l' : Loop} {act : Act} (step : l.Step env act l') :
    Progress l.control l'.control := by
  cases act with
  | connected =>
    rcases (step_connected env step).1 with same | same <;> rw [same]
    · exact (Quiet.refl _).progress
    · exact ⟨[], rfl, by simp [Core.emitted]⟩
  | frame id parsed =>
    rw [(step_frame env step).1]
    exact progress_frame env _ id parsed
  | closed id =>
    rw [(step_closed env step).1]
    exact (sends_dropPeer env _ id).toQuiet.progress
  | tick p =>
    rw [(step_tick env step).1]
    have flushed : Progress l.control (l.control.flushRt env) :=
      (sends_flushLoop (fun _ => True) env _ _).toQuiet.progress
    exact flushed.trans ((progress_beforeSave env _ p).trans (progress_tickSave env _ p.now))

/-- The loop from its start, each step meeting `ok`. -/
def Loop.Reaches (ok : Loop → Act → Prop) : Loop → Loop → Prop :=
  Relation.ReflTransGen fun l l' => ∃ act, ok l act ∧ l.Step env act l'

/-- A run that got through is made of steps. -/
theorem reaches_run {ok : Loop → Act → Bool} (acts : List Act) {l l' : Loop}
    (ran : l.run env ok acts = some l') : Loop.Reaches env (fun l act => ok l act = true) l l' := by
  induction acts generalizing l with
  | nil =>
    cases ran
    exact .refl
  | cons act rest ih =>
    simp only [Loop.run] at ran
    split at ran
    · rename_i mid met takes handled
      exact .head ⟨act, met, takes, handled⟩ (ih ran)
    · cases ran

theorem Loop.Reaches.mono {ok ok' : Loop → Act → Prop} {l l' : Loop} (run : Loop.Reaches env ok l l')
    (weaker : ∀ l act, ok l act → ok' l act) : Loop.Reaches env ok' l l' := by
  refine Relation.ReflTransGen.mono ?_ l l' run
  rintro l l' ⟨act, met, step⟩
  exact ⟨act, weaker l act met, step⟩

/-- A core the topology was compiled for, in canonical form. -/
structure Sane (core : Core) : Prop where
  wf : TopologyProofs.WellFormed core.topo
  canonical : Core.Canonical core

omit env in
theorem Progress.sane (progress : Progress c c') (sane : Sane c.core) : Sane c'.core := by
  obtain ⟨events, core, -⟩ := progress
  obtain ⟨topo, canonical⟩ := Core.run_canonical c.core events sane.wf sane.canonical
  rw [core]
  exact ⟨topo.symm ▸ sane.wf, canonical⟩

end

/-- Everything goes through. -/
def calm : Outside where
  now t := t
  unixMs _ := 0
  wrote _ := true
  took _ := 0
  waits _ := 0
  save _ := .ok ⟨1, none, none⟩
  fits _ := true
  engineBuild := "0+local"

/-- The loop of `duet`, just started. -/
def duetLoop : Loop where
  control := new ((Core.new TopologyProofs.duetCompiled.topo {} 7 { testSignal := true }).withHil [])
    [0, 0, 0] [] { soloGrace := 10000000000, block := 32, hold := false } 0

def duetRun (env : Outside) (ok : Loop → Act → Bool) (acts : List Act) : Option Loop :=
  @Loop.run env Core.duetLibm ok duetLoop acts

def DuetReaches (env : Outside) (ok : Loop → Act → Prop) (l : Loop) : Prop :=
  @Loop.Reaches env Core.duetLibm ok duetLoop l

theorem duet_reaches {env : Outside} {ok : Loop → Act → Bool} {acts : List Act} {l : Loop}
    (ran : duetRun env ok acts = some l) : DuetReaches env (fun l act => ok l act = true) l :=
  @reaches_run env Core.duetLibm ok acts _ _ ran

end IemMixer.Control
