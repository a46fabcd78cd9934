import IemMixer.Control.StepProofs
import IemMixer.MirrorProofs

/-! What the loop's connections hear. Every message is said at the core's revision of
that moment and is about the cores passed until then, so on each connection the
revisions of states, deltas and replies never fall. -/
namespace IemMixer.Control
open Lib Proto Rt MirrorProofs

/-! ### What may be said -/

/-- The revision a message is said at, where it has one. -/
def stamp : EngineMsg → Option ℕ
  | .state rev .. => some rev
  | .delta rev .. => some rev
  | .reply r => some r.rev
  | _ => none

/-- A message about the cores passed, or a reply at the revision of one of them. -/
inductive Spoken (past : List Core) : EngineMsg → Prop where
  | about {msg : EngineMsg} (about : About past msg) : Spoken past msg
  | reply (r : Reply) (c : Core) (seen : c ∈ past) (rev : r.rev = c.rev) : Spoken past (.reply r)
  | plain {msg : EngineMsg} (none : stamp msg = none) : Spoken past msg

theorem Spoken.mono {past past' : List Core} {msg : EngineMsg} (more : ∀ c ∈ past, c ∈ past')
    (spoken : Spoken past msg) : Spoken past' msg := by
  cases spoken with
  | about about => exact .about (about.mono more)
  | reply r c seen rev => exact .reply r c (more c seen) rev
  | plain none => exact .plain none

/-- New messages: `P` holds of each, and each went to a connection that was there. -/
structure Says (P : ℕ → EngineMsg → Prop) (c c' : Control) : Prop where
  core : c'.core = c.core
  log : ∃ new, c'.sent = c.sent ++ new ∧ ∀ e ∈ new, P e.1 e.2 ∧ c.peers[e.1]?.isSome = true
  fewer : ∀ q : ℕ, c'.peers[q]?.isSome = true → c.peers[q]?.isSome = true

variable {P : ℕ → EngineMsg → Prop} {c mid c' : Control}

theorem Says.of_eq (core : c'.core = c.core) (sent : c'.sent = c.sent) (peers : c'.peers = c.peers) :
    Says P c c' := ⟨core, ⟨[], by simp [sent], by simp⟩, fun q there => peers ▸ there⟩

theorem Says.refl (P : ℕ → EngineMsg → Prop) (c : Control) : Says P c c := .of_eq rfl rfl rfl

theorem Says.trans (first : Says P c mid) (second : Says P mid c') : Says P c c' := by
  obtain ⟨new, sent, each⟩ := first.log
  obtain ⟨more, sent', each'⟩ := second.log
  refine ⟨second.core.trans first.core, ⟨new ++ more, by rw [sent', sent, List.append_assoc], ?_⟩,
    fun q there => first.fewer q (second.fewer q there)⟩
  intro e member
  rcases List.mem_append.mp member with early | late
  · exact each e early
  · exact ⟨(each' e late).1, first.fewer e.1 (each' e late).2⟩

theorem Says.mono {P' : ℕ → EngineMsg → Prop} (said' : Says P c c') (weaker : ∀ q msg, P q msg → P' q msg) :
    Says P' c c' := by
  obtain ⟨new, sent, each⟩ := said'.log
  exact ⟨said'.core, ⟨new, sent, fun e member => ⟨weaker _ _ (each e member).1, (each e member).2⟩⟩, said'.fewer⟩

section
variable (env : Outside)

theorem says_dropPeer (c : Control) (id : ℕ) : Says P c (c.dropPeer env id) := by
  have sends := sends_dropPeer env c id
  refine ⟨sends.core, ⟨[], ?_, by simp⟩, fun q there => ?_⟩
  · simp only [dropPeer]
    split <;> simp [ask]
  · rcases sends.gone q with same | gone
    · exact same ▸ there
    · rw [gone] at there
      cases there

theorem says_write (c : Control) (id : ℕ) (msg : EngineMsg) (holds : P id msg) :
    Says P c (c.write env id msg) := by
  unfold write
  split
  · exact .refl P c
  · rename_i role here
    split
    · exact ⟨rfl, ⟨[(id, msg)], rfl, by simpa [holds] using Option.isSome_of_eq_some here⟩, fun q there => there⟩
    · refine .trans ?_ (says_dropPeer env c.ask id)
      exact .of_eq rfl rfl rfl

theorem says_send (c : Control) (id : ℕ) (msg : EngineMsg) (holds : P id msg) :
    Says P c (c.send env id msg) := by
  unfold send
  split
  · exact says_write env c id msg holds
  · exact .refl P c

theorem says_foldl {α : Type} (f : Control → α → Control) (xs : List α)
    (each : ∀ c, ∀ x ∈ xs, Says P c (f c x)) (c : Control) : Says P c (xs.foldl f c) := by
  induction xs generalizing c with
  | nil => exact .refl P c
  | cons x rest ih =>
    have later : ∀ c, ∀ y ∈ rest, Says P c (f c y) := fun c y member => each c y (by simp [member])
    exact (each c x (by simp)).trans (ih later (f c x))

theorem says_broadcast (c : Control) (msg : EngineMsg) (holds : ∀ q, P q msg) :
    Says P c (c.broadcast env msg) := by
  unfold broadcast
  split
  · exact says_foldl _ _ (fun c id _ => says_write env c id msg (holds id)) c
  · exact .refl P c

theorem says_reply (c : Control) (id request : ℕ) (error : Option ErrorBody)
    (holds : P id (.reply { id := request, rev := c.core.rev, error })) :
    Says P c (c.reply env id request error) := says_send env c id _ holds

/-- A message that carries no revision. -/
def Plain (_ : ℕ) (msg : EngineMsg) : Prop := stamp msg = none

theorem says_alarm (c : Control) (code : AlarmCode) (detail : String) :
    Says Plain c (c.alarm env code detail) := by
  refine .trans ?_ (says_broadcast env _ _ fun _ => rfl)
  exact .of_eq rfl rfl rfl

theorem says_save (c : Control) : Says Plain c (c.save env) := by
  unfold save
  cases answer : env.save c.asked with
  | ok committed =>
    simp only [answer]
    refine .trans ?_ (says_broadcast env _ _ fun _ => rfl)
    cases committed.orphaned with
    | none => exact .of_eq rfl rfl rfl
    | some aside =>
      refine .trans ?_ (says_alarm env _ _ _)
      exact .of_eq rfl rfl rfl
  | error e =>
    simp only [answer]
    refine .trans ?_ (says_alarm env _ _ _)
    exact .of_eq rfl rfl rfl

theorem says_flushRt (c : Control) : Says P c (c.flushRt env) := by
  have loop : ∀ (groups : List (List RtOp)) (c : Control), Says P c (c.flushLoop env groups) := by
    intro groups
    induction groups with
    | nil => exact fun c => .of_eq rfl rfl rfl
    | cons group rest ih =>
      intro c
      simp only [flushLoop]
      split
      · exact .of_eq rfl rfl rfl
      · refine .trans ?_ (ih _)
        exact .of_eq rfl rfl rfl
  exact loop c.pending c

theorem says_tickMeters (c : Control) (frame : Option MeterFrame) : Says Plain c (c.tickMeters env frame) := by
  unfold tickMeters
  cases frame with
  | none => exact .refl _ c
  | some frame =>
    refine .trans ?_ (says_broadcast env _ _ fun _ => rfl)
    split
    · have seen : Says Plain c { c with tripsSeen := frame.trips } := .of_eq rfl rfl rfl
      have alarmed := seen.trans (says_alarm env _ .sanitizer s!"sanitiser trips: {frame.trips}")
      exact alarmed.trans (.of_eq rfl rfl rfl)
    · exact .of_eq rfl rfl rfl

theorem says_tickStatus (c : Control) (now : ℕ) : Says Plain c (c.tickStatus env now) := by
  unfold tickStatus
  split
  · refine .trans ?_ (says_broadcast env _ _ fun _ => rfl)
    exact .of_eq rfl rfl rfl
  · exact .refl _ c

/-! ### An outcome said -/

/-- The delta of an outcome. -/
def Delta (out : Outcome) (origin : Option ℕ) (msg : EngineMsg) : Prop :=
  out.changes.isEmpty = false ∧ msg = .delta out.rev origin out.changes

theorem says_publish (c : Control) (out : Outcome) (origin : Option ℕ) :
    Says (fun _ => Delta out origin) c (c.publish env out origin) := by
  let queued : Control := { c with
    pending := c.pending ++ chunks maxCmdsPerBlock out.rt, published := c.published ++ out.rt }
  have queues : Says (fun _ => Delta out origin) c queued := .of_eq rfl rfl rfl
  have flushed := queues.trans (says_flushRt env queued)
  cases none : out.changes.isEmpty with
  | true => simpa [publish, none] using flushed
  | false =>
    simp only [publish, none]
    refine .trans (flushed.trans ?_) (says_broadcast env _ _ fun _ => ⟨none, rfl⟩)
    exact .of_eq rfl rfl rfl

/-- What an accepted request of connection `id` is answered with: the reply to `id`, the
outcome's delta, the state after it, and messages that carry no revision. -/
def Answers (id request : ℕ) (origin : Option ℕ) (out : Outcome) (core : Core) (q : ℕ) (msg : EngineMsg) :
    Prop :=
  q = id ∧ msg = .reply { id := request, rev := core.rev } ∨ Delta out origin msg ∨
    (out.effect = .sendState ∨ out.effect = .imported) ∧ msg = core.stateMsg ∨ stamp msg = none

theorem says_answer (c : Control) (id request : ℕ) (origin : Option ℕ) (cmd : Cmd) (out : Outcome)
    (core : Core) : Says (Answers id request origin out core) { c with core }
      ((c.answer env id request origin cmd out core).perform env id out.effect) := by
  have noted : Says (Answers id request origin out core) { c with core } ({ c with core }.note env cmd) := by
    unfold note
    split <;> exact .of_eq rfl rfl rfl
  have replied := noted.trans
    (says_reply env ({ c with core }.note env cmd) id request none (.inl ⟨rfl, by rw [noted.core]⟩))
  have answered : Says (Answers id request origin out core) { c with core }
      (c.answer env id request origin cmd out core) :=
    replied.trans ((says_publish env _ out origin).mono fun _ _ delta => .inr (.inl delta))
  have now : (c.answer env id request origin cmd out core).core = core := answered.core
  refine answered.trans ?_
  unfold perform
  cases effect : out.effect with
  | none => exact .refl _ _
  | sendState => exact says_send env _ id _ (.inr (.inr (.inl ⟨.inl effect, by rw [stateMsg, now]⟩)))
  | sendTopology => exact says_send env _ id _ (.inr (.inr (.inr rfl)))
  | save => exact (says_save env _).mono fun _ _ plain => .inr (.inr (.inr plain))
  | shutdown => exact .of_eq rfl rfl rfl
  | imported =>
    refine .trans (says_broadcast env _ _ fun _ => ?_) (.of_eq rfl rfl rfl)
    exact .inr (.inr (.inl ⟨.inr effect, by rw [stateMsg, now]⟩))

/-- What a hello is answered with. -/
def Greets (core : Core) (_ : ℕ) (msg : EngineMsg) : Prop :=
  stamp msg = none ∨ msg = core.stateMsg ∨
    ∃ request error, msg = .reply { id := request, rev := core.rev, error := some error }

theorem says_supersede (c : Control) (holder : Option ℕ) (id : ℕ) :
    Says Plain c (c.supersede env holder id) := by
  unfold supersede
  split
  · exact .refl _ c
  · exact (says_send env c _ .superseded rfl).trans (says_dropPeer env _ _)

theorem says_seat (c : Control) (id : ℕ) (role : Role) : Says Plain c (c.seat env id role) := by
  cases role with
  | control => exact (says_supersede env c c.controller id).trans (.of_eq rfl rfl rfl)
  | supervisor => exact (says_supersede env c c.supervisor id).trans (.of_eq rfl rfl rfl)
  | observe => exact .refl _ c

theorem says_welcome (c : Control) (id proto : ℕ) (role : Role) :
    Says (Greets c.core) c (c.welcome env id proto role) := by
  have core : ∀ (c : Control) (msg : EngineMsg), (c.send env id msg).core = c.core :=
    fun c msg => (sends_send env c id msg).core
  unfold welcome
  refine .trans ?_ (says_foldl _ _ (fun c alarm _ => says_send env c id _ (.inl rfl)) _)
  refine .trans (.trans (says_send env c id _ (.inl rfl)) (says_send env _ id _ (.inl rfl)))
    (says_send env _ id _ (.inr (.inl ?_)))
  simp only [stateMsg, core]

theorem says_hello (c : Control) (id theirs : ℕ) (role : Role) (here : c.peers[id]?.isSome = true) :
    Says (Greets c.core) c (c.hello env id theirs role) := by
  unfold hello
  split
  · exact (says_reply env c id 0 _ (.inr (.inr ⟨0, _, rfl⟩))).trans (says_dropPeer env _ id)
  · rename_i agreed speaks
    have seat : Says (Greets c.core) c (c.seat env id role) :=
      (says_seat env c id role).mono fun _ _ plain => .inl plain
    dsimp only
    split
    · exact seat
    · let seated : Control :=
        { c.seat env id role with peers := (c.seat env id role).peers.insert id (some role) }
      have insert : Says (Greets c.core) c seated := by
        refine ⟨seat.core, seat.log, fun q there => ?_⟩
        by_cases same : id = q
        · exact same ▸ here
        · rw [show seated.peers = (c.seat env id role).peers.insert id (some role) from rfl,
            BTreeMap.getElem?_insert_eq, if_neg same] at there
          exact seat.fewer q there
      have told := says_welcome env seated id agreed role
      rw [show seated.core = c.core from seat.core] at told
      exact insert.trans told

/-! ### What was heard so far -/

section
variable [Libm]

/-- From `a` the core came to `b`; at one revision it shows one view. -/
def Onward (a b : Core) : Prop :=
  (∃ events, b = a.run events) ∧ a.rev ≤ b.rev ∧ (a.rev = b.rev → Same a b)

theorem Onward.refl (a : Core) : Onward a a := ⟨⟨[], rfl⟩, Nat.le_refl _, fun _ => Same.refl a⟩

theorem Onward.trans {a b d : Core} (first : Onward a b) (second : Onward b d) : Onward a d := by
  obtain ⟨⟨events, rfl⟩, le, same⟩ := first
  obtain ⟨⟨later, rfl⟩, le', same'⟩ := second
  refine ⟨⟨events ++ later, (Core.run_append ..).symm⟩, Nat.le_trans le le', fun rev => ?_⟩
  exact (same (by omega)).trans (same' (by omega))

/-- The cores passed, oldest first, up to `now`. -/
structure Passed (past : List Core) (now : Core) : Prop where
  order : past.Pairwise Onward
  upTo : ∀ a ∈ past, Onward a now
  here : now ∈ past

theorem Passed.start (now : Core) : Passed [now] now :=
  ⟨by simp, by simpa using Onward.refl now, by simp⟩

theorem Passed.step {past : List Core} {now next : Core} (passed : Passed past now)
    (onward : Onward now next) : Passed (past ++ [next]) next := by
  have all : ∀ a ∈ past, Onward a next := fun a seen => (passed.upTo a seen).trans onward
  refine ⟨List.pairwise_append.mpr ⟨passed.order, by simp, fun a seen b last => ?_⟩, fun a seen => ?_, by simp⟩
  · rw [List.mem_singleton.mp last]
    exact all a seen
  · rcases List.mem_append.mp seen with early | last
    · exact all a early
    · rw [List.mem_singleton.mp last]
      exact .refl next

/-- Of two cores passed the one at the higher revision is onward from the other, or both
are at one revision and show one view. -/
theorem Passed.later {past : List Core} {now a b : Core} (passed : Passed past now) (seenA : a ∈ past)
    (seenB : b ∈ past) (above : a.rev ≤ b.rev) : Onward a b ∨ a.rev = b.rev ∧ Same a b := by
  obtain ⟨i, inside, rfl⟩ := List.mem_iff_getElem.mp seenA
  obtain ⟨j, inside', rfl⟩ := List.mem_iff_getElem.mp seenB
  have order := List.pairwise_iff_getElem.mp passed.order
  rcases Nat.lt_trichotomy i j with less | rfl | more
  · exact .inl (order i j inside inside' less)
  · exact .inl (.refl _)
  · obtain ⟨-, le, same⟩ := order j i inside' inside more
    exact .inr ⟨by omega, (same (by omega)).symm⟩

theorem Passed.steady {past : List Core} {now : Core} (passed : Passed past now) :
    ∀ a ∈ past, ∀ b ∈ past, a.rev = b.rev → Same a b := by
  intro a seenA b seenB rev
  rcases passed.later seenA seenB (by omega) with onward | ⟨-, same⟩
  · exact onward.2.2 rev
  · exact same

/-- Everything said is about the cores passed, at revisions that never fall. -/
structure Heard (past : List Core) (c : Control) : Prop where
  passed : Passed past c.core
  spoken : ∀ e ∈ c.sent, Spoken past e.2
  order : c.sent.Pairwise fun a b => ∀ r r', stamp a.2 = some r → stamp b.2 = some r' → r ≤ r'
  upTo : ∀ e ∈ c.sent, ∀ r, stamp e.2 = some r → r ≤ c.core.rev

theorem Heard.says {past : List Core} (heard : Heard past c)
    (said : Says (fun _ msg => Spoken past msg ∧ ∀ r, stamp msg = some r → r = c.core.rev) c c') :
    Heard past c' := by
  obtain ⟨new, sent, each⟩ := said.log
  refine ⟨said.core ▸ heard.passed, ?_, ?_, ?_⟩
  · intro e member
    rw [sent] at member
    rcases List.mem_append.mp member with early | late
    · exact heard.spoken e early
    · exact (each e late).1.1
  · rw [sent]
    refine List.pairwise_append.mpr ⟨heard.order, ?_, ?_⟩
    · refine List.pairwise_of_forall_mem_list fun a seenA b seenB r r' stampA stampB => ?_
      rw [(each a seenA).1.2 r stampA, (each b seenB).1.2 r' stampB]
    · intro a seenA b seenB r r' stampA stampB
      rw [(each b seenB).1.2 r' stampB]
      exact heard.upTo a seenA r stampA
  · intro e member r stamped
    rw [sent] at member
    rw [said.core]
    rcases List.mem_append.mp member with early | late
    · exact heard.upTo e early r stamped
    · exact Nat.le_of_eq ((each e late).1.2 r stamped)

/-- The core moved on; nothing is said of it yet. -/
theorem Heard.move {past : List Core} (heard : Heard past c) {next : Core} (onward : Onward c.core next) :
    Heard (past ++ [next]) { c with core := next } where
  passed := heard.passed.step onward
  spoken := fun e member => (heard.spoken e member).mono fun _ seen => List.mem_append_left _ seen
  order := heard.order
  upTo := fun e member r stamped => Nat.le_trans (heard.upTo e member r stamped) onward.2.1

/-! ### Step by step -/

/-- From `c` to `c'` the loop passed on and said new messages, each at a revision not
before `c`'s and to a connection that was there; `Ok` holds of each reply without an
error. -/
structure Talks (Ok : ℕ → Reply → Prop) (past past' : List Core) (c c' : Control) : Prop where
  more : ∀ a ∈ past, a ∈ past'
  heard : Heard past' c'
  onward : Onward c.core c'.core
  log : ∃ new, c'.sent = c.sent ++ new ∧ ∀ e ∈ new, (∀ r, stamp e.2 = some r → c.core.rev ≤ r) ∧
    (∀ r, e.2 = .reply r → r.error = none → Ok e.1 r) ∧ c.peers[e.1]?.isSome = true
  fewer : ∀ q : ℕ, c'.peers[q]?.isSome = true → c.peers[q]?.isSome = true

variable {Ok : ℕ → Reply → Prop} {past past' past'' : List Core}

theorem Talks.trans (first : Talks Ok past past' c mid) (second : Talks Ok past' past'' mid c') :
    Talks Ok past past'' c c' := by
  obtain ⟨new, sent, each⟩ := first.log
  obtain ⟨later, sent', each'⟩ := second.log
  refine ⟨fun a seen => second.more a (first.more a seen), second.heard, first.onward.trans second.onward,
    ⟨new ++ later, by rw [sent', sent, List.append_assoc], fun e member => ?_⟩,
    fun q there => first.fewer q (second.fewer q there)⟩
  rcases List.mem_append.mp member with early | late
  · exact each e early
  · obtain ⟨stamps, ok, there⟩ := each' e late
    exact ⟨fun r stamped => Nat.le_trans first.onward.2.1 (stamps r stamped), ok, first.fewer e.1 there⟩

/-- What may be said while the core stays. -/
def Still (core : Core) (msg : EngineMsg) : Prop :=
  stamp msg = none ∨ msg = core.stateMsg ∨
    ∃ request error, msg = .reply { id := request, rev := core.rev, error := some error }

theorem Heard.talks (heard : Heard past c) (said : Says (fun _ => Still c.core) c c') :
    Talks Ok past past c c' := by
  have now : ∀ msg, Still c.core msg → Spoken past msg ∧ ∀ r, stamp msg = some r → r = c.core.rev := by
    rintro msg (plain | rfl | ⟨request, error, rfl⟩)
    · exact ⟨.plain plain, fun r stamped => by simp [plain] at stamped⟩
    · exact ⟨.about (.state c.core heard.passed.here), by simp [Core.stateMsg, stamp]⟩
    · exact ⟨.reply _ c.core heard.passed.here rfl, by simp [stamp]⟩
  obtain ⟨new, sent, each⟩ := said.log
  refine ⟨fun a seen => seen, heard.says (said.mono fun _ msg still => now msg still),
    said.core ▸ .refl _, ⟨new, sent, fun e member => ?_⟩, said.fewer⟩
  obtain ⟨still, there⟩ := each e member
  refine ⟨fun r stamped => Nat.le_of_eq ((now _ still).2 r stamped).symm, fun r reply none => ?_, there⟩
  rcases still with plain | state | ⟨request, error, other⟩
  · simp [reply, stamp] at plain
  · simp [reply, Core.stateMsg] at state
  · rw [reply] at other
    cases other
    cases none

theorem Heard.plain (heard : Heard past c) (said : Says Plain c c') : Talks Ok past past c c' :=
  heard.talks (said.mono fun _ _ plain => .inl plain)

/-- One event of the core and what is said of it. -/
theorem Heard.event (heard : Heard past c) (sane : Sane c.core) {event : Core.Event} {out : Outcome}
    {next : Core} (handled : c.core.handle event = (some out, next)) (origin : Option ℕ)
    {P : ℕ → EngineMsg → Prop} (said : Says P { c with core := next } c')
    (each : ∀ q msg, P q msg → stamp msg = none ∨ msg ∈ next.messages origin out ∨
      ∃ request, msg = .reply { id := request, rev := next.rev } ∧ Ok q { id := request, rev := next.rev }) :
    Talks Ok past (past ++ [next]) c c' := by
  obtain ⟨told, -, -⟩ := tick_told c.core sane.wf sane.canonical (.event event origin)
  simp only [Core.tick, handled] at told
  have onward : Onward c.core next := by
    refine ⟨⟨[event], by simp [Core.run, handled]⟩, ?_⟩
    rcases told.step with ⟨rev, same⟩ | rev
    · exact ⟨by omega, fun _ => same⟩
    · exact ⟨by omega, fun rev' => by omega⟩
  have moved := heard.move onward
  have now : ∀ q msg, P q msg → Spoken (past ++ [next]) msg ∧ ∀ r, stamp msg = some r → r = next.rev := by
    intro q msg holds
    rcases each q msg holds with plain | spoken | ⟨request, rfl, -⟩
    · exact ⟨.plain plain, fun r stamped => by simp [plain] at stamped⟩
    · obtain ⟨about, rev⟩ := told.about msg spoken
      refine ⟨.about (about.mono ?_), fun r stamped => ?_⟩
      · intro a seen
        rcases List.mem_cons.mp seen with rfl | last
        · exact List.mem_append_left _ heard.passed.here
        · exact List.mem_append_right _ last
      · cases about with
        | state c seen =>
          simp only [Core.stateMsg, stamp, Option.some.injEq] at stamped
          exact stamped.symm.trans rev
        | delta a b _ _ _ _ _ _ =>
          simp only [stamp, Option.some.injEq] at stamped
          exact stamped.symm.trans rev
    · exact ⟨.reply _ next (by simp) rfl, by simp [stamp]⟩
  obtain ⟨new, sent, which⟩ := said.log
  refine ⟨fun a seen => List.mem_append_left _ seen, moved.says (said.mono now), ?_,
    ⟨new, sent, fun e member => ?_⟩, said.fewer⟩
  · rw [said.core]
    exact onward
  · obtain ⟨holds, there⟩ := which e member
    refine ⟨fun r stamped => ?_, fun r reply none => ?_, there⟩
    · rw [(now _ _ holds).2 r stamped]
      exact onward.2.1
    · rcases each _ _ holds with plain | spoken | ⟨request, same, ok⟩
      · simp [reply, stamp] at plain
      · obtain ⟨about, -⟩ := told.about _ spoken
        rw [reply] at about
        cases about
      · rw [reply] at same
        cases same
        exact ok

/-- A reply without an error is the answer to the request it names, at the revision after
it. -/
def Answered (act : Act) (now : Core) (q : ℕ) (r : Reply) : Prop :=
  (∃ origin cmd, act = .frame q (.ok (.request r.id origin cmd))) ∧ r.rev = now.rev

variable (env : Outside)

theorem request_talks (heard : Heard past c) (sane : Sane c.core) (id : ℕ) (role : Option Role) (r : ℕ)
    (origin : Option ℕ) (cmd : Cmd) : ∃ past', Talks (Answered (.frame id (.ok (.request r origin cmd)))
      (c.request env id role r origin cmd).core) past past' c (c.request env id role r origin cmd) := by
  unfold request
  cases refusal role cmd with
  | some error => exact ⟨past, heard.talks (says_reply env c id r _ (.inr (.inr ⟨r, _, rfl⟩)))⟩
  | none =>
    cases accepted : c.core.apply cmd with
    | error e core => exact ⟨past, heard.talks (says_reply env c id r _ (.inr (.inr ⟨r, _, rfl⟩)))⟩
    | ok out core =>
      simp only
      have said := says_answer env c id r origin cmd out core
      have now : ((c.answer env id r origin cmd out core).perform env id out.effect).core = core := said.core
      refine ⟨past ++ [core], heard.event sane (handle_request accepted) origin said fun q msg holds => ?_⟩
      rcases holds with ⟨rfl, rfl⟩ | ⟨some, rfl⟩ | ⟨effect, rfl⟩ | plain
      · exact .inr (.inr ⟨r, rfl, ⟨origin, cmd, rfl⟩, by rw [now]⟩)
      · exact .inr (.inl (by simp [Core.messages, some]))
      · exact .inr (.inl (by rcases effect with effect | effect <;> simp [Core.messages, effect]))
      · exact .inl plain

theorem frame_talks (heard : Heard past c) (sane : Sane c.core) (id : ℕ)
    (parsed : Except (Option ℕ × ErrorBody) ClientMsg) :
    ∃ past', Talks (Answered (.frame id parsed) (c.frame env id parsed).core) past past' c
      (c.frame env id parsed) := by
  unfold frame
  split
  · exact ⟨past, heard.talks (.refl _ c)⟩
  · rename_i role here
    split
    · exact ⟨past, heard.talks (says_reply env c id _ _ (.inr (.inr ⟨_, _, rfl⟩)))⟩
    · exact ⟨past, heard.talks (says_hello env c id _ _ (Option.isSome_of_eq_some here))⟩
    · exact request_talks env heard sane id role _ _ _

theorem tickSolos_talks (heard : Heard past c) (sane : Sane c.core) (now : ℕ) :
    ∃ past', Talks Ok past past' c (c.tickSolos env now) := by
  unfold tickSolos
  split
  · split
    · have handled : c.core.handle .clearSolos = (some c.core.clearSolos.1, c.core.clearSolos.2) := rfl
      let cleared : Control := { c with controllerLost := none, core := c.core.clearSolos.2 }
      have start : Says (fun _ => Delta c.core.clearSolos.1 none) { c with core := c.core.clearSolos.2 }
        cleared := .of_eq rfl rfl rfl
      refine ⟨_, heard.event sane handled none (start.trans (says_publish env cleared _ _)) ?_⟩
      rintro q msg ⟨some, rfl⟩
      exact .inr (.inl (by simp [Core.messages, some]))
    · exact ⟨past, heard.talks (.refl _ c)⟩
  · exact ⟨past, heard.talks (.refl _ c)⟩

theorem tickTest_talks (heard : Heard past c) (sane : Sane c.core) (now : ℕ) :
    ∃ past', Talks Ok past past' c (c.tickTest env now) := by
  unfold tickTest
  split
  · split
    · have handled : c.core.handle .endTestSignal =
        (some c.core.endTestSignal.1, c.core.endTestSignal.2) := rfl
      let ended : Control := { c with testDeadline := none, core := c.core.endTestSignal.2 }
      have start : Says (fun _ => Delta c.core.endTestSignal.1 none)
        { c with core := c.core.endTestSignal.2 } ended := .of_eq rfl rfl rfl
      refine ⟨_, heard.event sane handled none (start.trans (says_publish env ended _ _)) ?_⟩
      rintro q msg ⟨some, rfl⟩
      exact .inr (.inl (by simp [Core.messages, some]))
    · exact ⟨past, heard.talks (.refl _ c)⟩
  · exact ⟨past, heard.talks (.refl _ c)⟩

theorem tickOn_talks (heard : Heard past c) (sane : Sane c.core) (p : Pulse) :
    ∃ past', Talks Ok past past' c ((c.flushRt env).tickOn env p) := by
  have flushed : Talks Ok past past c (c.flushRt env) := heard.plain (says_flushRt env c)
  have meters := flushed.trans (flushed.heard.plain (says_tickMeters env _ p.meters))
  have status := meters.trans (meters.heard.plain (says_tickStatus env _ p.now))
  have sane' : ∀ {c' : Control} {past' : List Core}, Talks Ok past past' c c' → Sane c'.core := by
    intro c' past' talks
    obtain ⟨⟨events, core⟩, -⟩ := talks.onward
    obtain ⟨topo, canonical⟩ := Core.run_canonical c.core events sane.wf sane.canonical
    rw [core]
    exact ⟨topo.symm ▸ sane.wf, canonical⟩
  obtain ⟨past₁, solos⟩ := tickSolos_talks env status.heard (sane' status) p.now
  have soloed := status.trans solos
  obtain ⟨past₂, test⟩ := tickTest_talks env soloed.heard (sane' soloed) p.now
  have tested := soloed.trans test
  refine ⟨past₂, tested.trans ?_⟩
  show Talks Ok past₂ past₂ _ (tickSave env _ p.now)
  unfold tickSave
  split
  · exact tested.heard.plain (says_save env _)
  · exact tested.heard.talks (.refl _ _)

/-- The connections and everything said are numbered below the next connection. -/
def Loop.Numbered (l : Loop) : Prop :=
  (∀ q : ℕ, l.control.peers[q]?.isSome = true → q < l.next) ∧ ∀ e ∈ l.control.sent, e.1 < l.next

/-- What one step of the loop says. -/
structure Uttered (act : Act) (past past' : List Core) (l l' : Loop) : Prop where
  more : ∀ a ∈ past, a ∈ past'
  heard : Heard past' l'.control
  onward : Onward l.control.core l'.control.core
  numbered : l'.Numbered
  next : l.next ≤ l'.next
  log : ∃ new, l'.control.sent = l.control.sent ++ new ∧ ∀ e ∈ new, e.1 < l.next ∧
    (∀ r, stamp e.2 = some r → l.control.core.rev ≤ r) ∧
    ∀ r, e.2 = .reply r → r.error = none → Answered act l'.control.core e.1 r

theorem Talks.uttered {l l' : Loop} {act : Act}
    (talks : Talks (Answered act l'.control.core) past past' l.control l'.control)
    (next : l'.next = l.next) (numbered : l.Numbered) : Uttered act past past' l l' := by
  obtain ⟨new, sent, each⟩ := talks.log
  refine ⟨talks.more, talks.heard, talks.onward, ⟨fun q there => ?_, fun e member => ?_⟩,
    Nat.le_of_eq next.symm, new, sent, fun e member => ?_⟩
  · rw [next]
    exact numbered.1 q (talks.fewer q there)
  · rw [next]
    rw [sent] at member
    rcases List.mem_append.mp member with early | late
    · exact numbered.2 e early
    · exact numbered.1 e.1 (each e late).2.2
  · obtain ⟨stamps, ok, there⟩ := each e member
    exact ⟨numbered.1 e.1 there, stamps, ok⟩

theorem step_uttered {l l' : Loop} {act : Act} (step : l.Step env act l') (heard : Heard past l.control)
    (sane : Sane l.control.core) (numbered : l.Numbered) : ∃ past', Uttered act past past' l l' := by
  cases act with
  | connected =>
    obtain ⟨control, next⟩ := step_connected env step
    have core : l'.control.core = l.control.core := by rcases control with same | same <;> rw [same]
    have sent : l'.control.sent = l.control.sent := by rcases control with same | same <;> rw [same]
    refine ⟨past, fun a seen => seen, ⟨core ▸ heard.passed, sent ▸ heard.spoken, sent ▸ heard.order,
      by rw [sent, core]; exact heard.upTo⟩, core ▸ .refl _, ⟨fun q there => ?_, fun e member => ?_⟩,
      by omega, [], by simp [sent], by simp⟩
    · rcases control with same | same
      · rw [same] at there
        have := numbered.1 q there
        omega
      · rw [same] at there
        simp only [BTreeMap.getElem?_insert_eq] at there
        split at there
        · omega
        · have := numbered.1 q there
          omega
    · rw [sent] at member
      have := numbered.2 e member
      omega
  | frame id parsed =>
    obtain ⟨control, next⟩ := step_frame env step
    obtain ⟨past', talks⟩ := frame_talks env heard sane id parsed
    rw [← control] at talks
    exact ⟨past', talks.uttered next numbered⟩
  | closed id =>
    obtain ⟨control, next⟩ := step_closed env step
    have talks : Talks (Answered (.closed id) l'.control.core) past past l.control l'.control := by
      rw [control]
      exact heard.plain (says_dropPeer env _ id)
    exact ⟨past, talks.uttered next numbered⟩
  | tick p =>
    obtain ⟨control, next⟩ := step_tick env step
    obtain ⟨past', talks⟩ := tickOn_talks env heard sane p
    rw [← control] at talks
    exact ⟨past', talks.uttered next numbered⟩

end

end

end IemMixer.Control
