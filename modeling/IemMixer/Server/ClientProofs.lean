import IemMixer.Control.SpeechProofs
import IemMixer.Server.Client

/-! A confirmed request is in the mirror, as long as the connection that confirmed it
lives. The mirror follows the cores the engine passed since the connection opened; an
unsynced mirror is below every revision still to be read, so a reply whose revision it
has reached finds it synced. -/
namespace IemMixer.Server
open Lib Proto Control MirrorProofs

section
variable [Libm]

/-- A loop as an engine process starts it. -/
def Boots (l : Loop) : Prop :=
  ∃ (digest : TopologyInfo → String) (site : TopologyProofs.Compiled digest) (state : MixState) (rev : ℕ)
    (flags : Flags) (hil : List UInt16) (counters : List ℕ) (alarms : List Alarm)
    (settings : Settings) (now : ℕ),
    l = { control := Control.new ((Core.new site.topo state rev flags).withHil hil) counters alarms settings now }

namespace Net

/-- The loops the net starts with and moves to are booted ones. -/
def Real : Move → Prop
  | .boot loop => Boots loop
  | _ => True

/-- Requests answered whose callers have not returned. -/
def Waits (s : Net) (id rev : ℕ) : Prop := s.client.calls[id]? = some (.replied (.ok rev))

/-- While an answered request waits for its caller, the connection does not end, and no
gap is found at its revision or above; and no request is answered before a state came on
its connection. -/
def Calm (s : Net) : Move → Prop
  | .drop => ∀ id rev, ¬ s.Waits id rev
  | .read =>
    match s.unread with
    | .delta rev .. :: _ => s.client.mirror.synced = true → s.client.mirror.rev + 1 < rev →
      ∀ id r, s.Waits id r → s.client.mirror.rev < r
    | .reply r :: _ => r.error = none → s.client.connected = true
    | _ => True
  | _ => True

/-- One move of the net. -/
def Step (s : Net) (m : Move) (s' : Net) : Prop := Real m ∧ s.move m = some s'

/-- The net from its start, each move meeting `ok`. -/
def Reaches (ok : Net → Move → Prop) : Net → Net → Prop :=
  Relation.ReflTransGen fun s s' => ∃ m, ok s m ∧ s.Step m s'

/-! ### The invariant -/

/-- An open connection. -/
structure Open (past : List Core) (s : Net) : Prop where
  conn : s.conn < s.loop.next
  readable : s.read ≤ s.stream.length
  follows : Follows past s.client.mirror
  made : ∀ p ∈ s.made, p.2 ∈ past
  replies : ∀ r, .reply r ∈ s.stream → r.error = none → ∃ core, (r.id, core) ∈ s.made ∧ core.rev = r.rev
  floor : s.client.connected = true → s.client.mirror.synced = false →
    s.client.mirror.rev < s.loop.control.core.rev ∧
      ∀ msg ∈ s.unread, ∀ r, stamp msg = some r → s.client.mirror.rev < r
  calls : ∀ id r, s.Waits id r → s.client.connected = true ∧
    (∃ core, (id, core) ∈ s.made ∧ core.rev = r) ∧ (s.client.mirror.synced = false → s.client.mirror.rev < r)

/-- Between connections. -/
structure Shut (s : Net) : Prop where
  connected : s.client.connected = false
  synced : s.client.mirror.synced = false
  calls : ∀ id r, ¬ s.Waits id r

omit [Libm] in
theorem Shut.of_client {s s' : Net} (shut : s.Shut) (same : s'.client = s.client) : s'.Shut := by
  obtain ⟨connected, synced, calls⟩ := shut
  exact ⟨same ▸ connected, same ▸ synced, fun id r waits => calls id r (by rw [Waits, ← same]; exact waits)⟩

/-- The connection's requests, handled and on the way. -/
def ids (s : Net) : List ℕ := s.made.map (·.1) ++ asked s.toEngine

structure Distinct (s : Net) : Prop where
  nodup : s.ids.Nodup
  below : ∀ id ∈ s.ids, id < s.client.nextId

structure Inv (past : List Core) (s : Net) : Prop where
  heard : Heard past s.loop.control
  sane : Sane s.loop.control.core
  numbered : s.loop.Numbered
  watch : s.client.rev = s.client.mirror.rev
  distinct : s.Distinct
  opened : s.client.out = true → s.Open past
  shut : s.client.out = false → s.Shut

/-! ### The engine's moves -/

theorem meet_step {l l' : Loop} {env : Outside} {act : Act} (met : meet l env act = some l') :
    l.Step env act l' := by
  unfold meet at met
  split at met
  · rename_i takes
    split at met
    · rename_i same
      cases met
      exact ⟨takes, same⟩
    · cases met
  · cases met

theorem onward_sane {a b : Core} (sane : Sane a) (onward : Onward a b) : Sane b := by
  obtain ⟨⟨events, rfl⟩, -⟩ := onward
  obtain ⟨topo, canonical⟩ := Core.run_canonical a events sane.wf sane.canonical
  exact ⟨topo.symm ▸ sane.wf, canonical⟩

omit [Libm] in
/-- What the engine says goes to the end of the stream. -/
theorem stream_append {s : Net} {loop : Loop} {new : List (ℕ × EngineMsg)}
    (sent : loop.control.sent = s.loop.control.sent ++ new) (made : List (ℕ × Core))
    (toEngine : List ClientMsg) :
    ({ s with loop, made, toEngine } : Net).stream =
      s.stream ++ (new.filter (·.1 = s.conn)).map (·.2) := by
  simp [stream, sent, List.filter_append]

/-- An open connection while the engine moves: `act` is not a frame of it, or `made`
records the request it carries. -/
theorem Open.engine {past past' : List Core} {s : Net} {loop : Loop} {act : Act} (op : s.Open past)
    (uttered : Uttered act past past' s.loop loop) {made : List (ℕ × Core)} (toEngine : List ClientMsg)
    (kept : ∀ p ∈ s.made, p ∈ made) (seen : ∀ p ∈ made, p.2 ∈ past')
    (records : ∀ id origin cmd, act = .frame s.conn (.ok (.request id origin cmd)) →
      (id, loop.control.core) ∈ made) :
    ({ s with loop, made, toEngine } : Net).Open past' := by
  obtain ⟨new, sent, each⟩ := uttered.log
  have stream := stream_append sent made toEngine
  have added : ∀ msg ∈ (new.filter (·.1 = s.conn)).map (·.2), (s.conn, msg) ∈ new := by
    intro msg member
    obtain ⟨e, inside, rfl⟩ := List.mem_map.mp member
    obtain ⟨there, here⟩ := List.mem_filter.mp inside
    have : e.1 = s.conn := by simpa using here
    rw [← this]
    exact there
  refine ⟨Nat.lt_of_lt_of_le op.conn uttered.next, ?_, ?_, seen, ?_, ?_, ?_⟩
  · rw [stream, List.length_append]
    have := op.readable
    show s.read ≤ _
    omega
  · intro synced
    obtain ⟨c, held, rest⟩ := op.follows synced
    exact ⟨c, uttered.more c held, rest⟩
  · intro r member none
    rw [stream] at member
    rcases List.mem_append.mp member with early | late
    · obtain ⟨core, held, rev⟩ := op.replies r early none
      exact ⟨core, kept _ held, rev⟩
    · obtain ⟨⟨origin, cmd, same⟩, rev⟩ := (each _ (added _ late)).2.2 r rfl none
      exact ⟨loop.control.core, records r.id origin cmd same, rev.symm⟩
  · intro connected unsynced
    obtain ⟨under, ahead⟩ := op.floor connected unsynced
    refine ⟨Nat.lt_of_lt_of_le under uttered.onward.2.1, fun msg member r stamped => ?_⟩
    have split : ({ s with loop, made, toEngine } : Net).unread =
        s.unread ++ (new.filter (·.1 = s.conn)).map (·.2) := by
      unfold unread
      rw [stream]
      exact List.drop_append_of_le_length op.readable
    rw [split] at member
    rcases List.mem_append.mp member with early | late
    · exact ahead msg early r stamped
    · exact Nat.lt_of_lt_of_le under ((each _ (added _ late)).2.1 r stamped)
  · intro id r waits
    obtain ⟨connected, ⟨core, held, rev⟩, under⟩ := op.calls id r waits
    exact ⟨connected, ⟨core, kept _ held, rev⟩, under⟩

/-! ### The client's reads -/

section
variable {past : List Core} {s : Net} {msg : EngineMsg} {rest : List EngineMsg}

omit [Libm] in
theorem mem_stream (next : s.unread = msg :: rest) : msg ∈ s.stream := by
  have member : msg ∈ s.stream.drop s.read := by
    show msg ∈ s.unread
    simp [next]
  exact List.mem_of_mem_drop member

theorem spoken_next (heard : Heard past s.loop.control) (next : s.unread = msg :: rest) :
    Spoken past msg := by
  obtain ⟨e, inside, rfl⟩ := List.mem_map.mp (mem_stream next)
  exact heard.spoken e (List.mem_of_mem_filter inside)

/-- What is read later is at no lower revision. -/
theorem stamps_rise (heard : Heard past s.loop.control) (next : s.unread = msg :: rest) {r : ℕ}
    (stamped : stamp msg = some r) : r ≤ s.loop.control.core.rev ∧
      ∀ later ∈ rest, ∀ r', stamp later = some r' → r ≤ r' := by
  constructor
  · obtain ⟨e, inside, rfl⟩ := List.mem_map.mp (mem_stream next)
    exact heard.upTo e (List.mem_of_mem_filter inside) r stamped
  · have order : s.stream.Pairwise fun a b => ∀ r r', stamp a = some r → stamp b = some r' → r ≤ r' :=
      List.pairwise_map.mpr (heard.order.filter _)
    have tail : (msg :: rest).Pairwise fun a b => ∀ r r', stamp a = some r → stamp b = some r' → r ≤ r' :=
      next ▸ order.drop
    exact fun later member r' => (List.pairwise_cons.mp tail).1 later member r r' stamped

omit [Libm] in
/-- One message further, with the client it leaves. -/
theorem Open.advance (op : s.Open past) (next : s.unread = msg :: rest) {client : Client}
    (toEngine : List ClientMsg) (follows : Follows past client.mirror)
    (floor : client.connected = true → client.mirror.synced = false →
      client.mirror.rev < s.loop.control.core.rev ∧
        ∀ msg ∈ rest, ∀ r, stamp msg = some r → client.mirror.rev < r)
    (calls : ∀ id r, client.calls[id]? = some (.replied (.ok r)) → client.connected = true ∧
      (∃ core, (id, core) ∈ s.made ∧ core.rev = r) ∧ (client.mirror.synced = false → client.mirror.rev < r)) :
    ({ s with client, toEngine, read := s.read + 1 } : Net).Open past := by
  have after : s.stream.drop (s.read + 1) = rest := by
    rw [← List.tail_drop]
    show s.unread.tail = rest
    rw [next]
    rfl
  have more : s.read < s.stream.length := by
    by_contra past_end
    have none : s.unread = [] := List.drop_eq_nil_of_le (by omega)
    rw [none] at next
    cases next
  exact ⟨op.conn, more, follows, op.made, op.replies,
    fun connected unsynced => ⟨(floor connected unsynced).1, fun msg member =>
      (floor connected unsynced).2 msg (after ▸ member)⟩, calls⟩

omit [Libm] in
/-- A message that leaves the client as it is, read or skipped. -/
theorem Open.pass (op : s.Open past) (next : s.unread = msg :: rest) (toEngine : List ClientMsg) :
    ({ s with toEngine, read := s.read + 1 } : Net).Open past :=
  op.advance next toEngine op.follows
    (fun connected unsynced => ⟨(op.floor connected unsynced).1, fun msg member =>
      (op.floor connected unsynced).2 msg (by simp [next, member])⟩) op.calls

omit [Libm] in
theorem Open.reply {r : Reply} (op : s.Open past) (next : s.unread = .reply r :: rest)
    (calm : r.error = none → s.client.connected = true) (toEngine : List ClientMsg) :
    ({ s with client := (s.client.handle (.reply r)).1, toEngine, read := s.read + 1 } : Net).Open past := by
  simp only [Client.handle]
  split
  · refine op.advance next toEngine op.follows (fun connected unsynced => ?_) fun id rev call => ?_
    · obtain ⟨under, ahead⟩ := op.floor connected unsynced
      exact ⟨under, fun msg member => ahead msg (by simp [next, member])⟩
    · simp only [BTreeMap.getElem?_insert_eq] at call
      split at call
      · rename_i same
        subst same
        cases none : r.error with
        | some e => simp [none] at call
        | none =>
          simp only [none, Option.some.injEq, Call.replied.injEq, Except.ok.injEq] at call
          subst call
          refine ⟨calm none, op.replies r (mem_stream next) none, fun unsynced => ?_⟩
          exact (op.floor (calm none) unsynced).2 (.reply r) (by simp [next]) r.rev rfl
      · exact op.calls id rev call
  · exact op.pass next toEngine

theorem about_next (heard : Heard past s.loop.control) (next : s.unread = msg :: rest) {r : ℕ}
    (stamped : stamp msg = some r) (other : ∀ reply, msg ≠ .reply reply) : About past msg := by
  cases spoken_next heard next with
  | about about => exact about
  | reply r c seen rev => exact absurd rfl (other r)
  | plain none => simp [none] at stamped

theorem Open.state {rev : ℕ} {state : MixState} {transient : Transient} (op : s.Open past)
    (heard : Heard past s.loop.control) (next : s.unread = .state rev state transient :: rest)
    (toEngine : List ClientMsg) :
    ({ s with client := (s.client.follow (.state rev state transient)).1, toEngine, read := s.read + 1 } :
      Net).Open past := by
  have about := about_next heard next rfl (by simp)
  have follows := apply_follows heard.passed.steady about op.follows
  exact op.advance next toEngine follows (fun _ unsynced => by cases unsynced) fun id r waits =>
    ⟨rfl, (op.calls id r waits).2.1, fun unsynced => by cases unsynced⟩

omit [Libm] in
theorem synced_changes (changes : List Change) (m : Mirror) :
    (changes.foldl Mirror.change m).synced = m.synced := by
  induction changes generalizing m with
  | nil => rfl
  | cons change rest ih =>
    rw [List.foldl_cons, ih]
    unfold Mirror.change
    split <;> rfl

theorem Open.delta {rev : ℕ} {origin : Option ℕ} {changes : List Change} (op : s.Open past)
    (heard : Heard past s.loop.control) (next : s.unread = .delta rev origin changes :: rest)
    (calm : s.client.mirror.synced = true → s.client.mirror.rev + 1 < rev →
      ∀ id r, s.Waits id r → s.client.mirror.rev < r) (toEngine : List ClientMsg) :
    ({ s with client := (s.client.follow (.delta rev origin changes)).1, toEngine, read := s.read + 1 } :
      Net).Open past := by
  have about := about_next heard next rfl (by simp)
  have follows := apply_follows heard.passed.steady about op.follows
  have rise := stamps_rise heard next rfl
  simp only [Client.follow]
  rcases apply_cases s.client.mirror rev origin changes with ⟨-, same⟩ | ⟨synced, gap, same⟩ | ⟨synced, -, same⟩
  · rw [same]
    exact op.advance next toEngine op.follows
      (fun connected unsynced => ⟨(op.floor connected unsynced).1, fun msg member =>
        (op.floor connected unsynced).2 msg (by simp [next, member])⟩) op.calls
  · -- The mirror stays where it was, and everything still to be read is past it.
    rw [same] at follows ⊢
    refine op.advance next toEngine follows (fun _ _ => ⟨?_, fun msg member r stamped => ?_⟩)
      fun id r waits => ?_
    · show s.client.mirror.rev < _
      omega
    · have := rise.2 msg member r stamped
      show s.client.mirror.rev < r
      omega
    · exact ⟨(op.calls id r waits).1, (op.calls id r waits).2.1, fun _ => calm synced gap id r waits⟩
  · rw [same] at follows ⊢
    have still : (changes.foldl Mirror.change s.client.mirror).synced = true :=
      (synced_changes changes _).trans synced
    refine op.advance next toEngine follows (fun _ unsynced => ?_) fun id r waits =>
      ⟨(op.calls id r waits).1, (op.calls id r waits).2.1, fun unsynced => ?_⟩
    · have off : (changes.foldl Mirror.change s.client.mirror).synced = false := unsynced
      rw [still] at off
      cases off
    · have off : (changes.foldl Mirror.change s.client.mirror).synced = false := unsynced
      rw [still] at off
      cases off

omit [Libm] in
theorem Open.plain (op : s.Open past) (next : s.unread = msg :: rest) (mirror : Mirror)
    (same : (mirror.state, mirror.transient, mirror.rev, mirror.synced) =
      (s.client.mirror.state, s.client.mirror.transient, s.client.mirror.rev, s.client.mirror.synced))
    (toEngine : List ClientMsg) :
    ({ s with client := { s.client with mirror, rev := mirror.rev }, toEngine, read := s.read + 1 } :
      Net).Open past := by
  simp only [Prod.mk.injEq] at same
  obtain ⟨state, transient, rev, synced⟩ := same
  refine op.advance next toEngine ?_ ?_ ?_
  · simp only [Follows, Shows, state, transient, rev, synced]
    exact op.follows
  · simp only [rev, synced]
    exact fun connected unsynced => ⟨(op.floor connected unsynced).1, fun msg member =>
      (op.floor connected unsynced).2 msg (by simp [next, member])⟩
  · simp only [rev, synced]
    exact op.calls

/-- The client after a message it read. -/
theorem Open.handle (op : s.Open past) (heard : Heard past s.loop.control)
    (next : s.unread = msg :: rest) (calm : s.Calm .read) (toEngine : List ClientMsg) :
    ({ s with client := (s.client.handle msg).1, toEngine, read := s.read + 1 } : Net).Open past := by
  simp only [Calm, next] at calm
  cases msg with
  | hello h => exact op.plain next { s.client.mirror with hello := some h } rfl toEngine
  | topology t => exact op.plain next { s.client.mirror with topology := some t } rfl toEngine
  | state rev state transient => exact op.state heard next toEngine
  | delta rev origin changes => exact op.delta heard next calm toEngine
  | reply r => exact op.reply next calm toEngine
  | meters => exact op.pass next toEngine
  | status => exact op.pass next toEngine
  | alarm a => exact op.pass next toEngine
  | driverReleased path => exact op.pass next toEngine
  | saved rev unix => exact op.pass next toEngine
  | superseded => exact op.pass next toEngine

end

/-! ### Every move -/

section
variable {past : List Core} {s s' : Net}

omit [Libm] in
/-- The requests a message makes the client ask carry the next id. -/
theorem handle_asks (c : Client) (msg : EngineMsg) :
    (c.handle msg).1.out = c.out ∧ (c.rev = c.mirror.rev → (c.handle msg).1.rev = (c.handle msg).1.mirror.rev) ∧
      c.nextId ≤ (c.handle msg).1.nextId ∧ ((c.handle msg).2.1 = [] ∨
        asked (c.handle msg).2.1 = [c.nextId] ∧ c.nextId < (c.handle msg).1.nextId) := by
  have followed : ∀ msg, (c.follow msg).1.out = c.out ∧ (c.follow msg).1.rev = (c.follow msg).1.mirror.rev ∧
      c.nextId ≤ (c.follow msg).1.nextId ∧ ((c.follow msg).2 = [] ∨
        asked (c.follow msg).2 = [c.nextId] ∧ c.nextId < (c.follow msg).1.nextId) := by
    intro msg
    simp only [Client.follow]
    split
    · exact ⟨rfl, rfl, Nat.le_refl _, .inl rfl⟩
    · refine ⟨rfl, rfl, Nat.le_succ _, ?_⟩
      split
      · exact .inr ⟨rfl, Nat.lt_succ_self _⟩
      · exact .inl rfl
    · exact ⟨rfl, rfl, Nat.le_refl _, .inl rfl⟩
  unfold Client.handle
  split
  · split
    · exact ⟨rfl, id, Nat.le_refl _, .inl rfl⟩
    · exact ⟨rfl, id, Nat.le_refl _, .inl rfl⟩
  all_goals first
    | exact ⟨rfl, id, Nat.le_refl _, .inl rfl⟩
    | exact ⟨(followed _).1, fun _ => (followed _).2.1, (followed _).2.2⟩

omit [Libm] in
theorem Distinct.ask (distinct : s.Distinct) (asks : List ClientMsg) (same : s'.ids = s.ids ++ asked asks)
    (next : s.client.nextId ≤ s'.client.nextId)
    (fresh : asks = [] ∨ asked asks = [s.client.nextId] ∧ s.client.nextId < s'.client.nextId) :
    s'.Distinct := by
  rcases fresh with rfl | ⟨one, above⟩
  · have kept : s'.ids = s.ids := by simpa [asked] using same
    refine ⟨kept ▸ distinct.nodup, fun id member => ?_⟩
    have := distinct.below id (kept ▸ member)
    omega
  · rw [one] at same
    constructor
    · rw [same]
      refine List.nodup_append.mpr ⟨distinct.nodup, by simp, fun id held other new => ?_⟩
      have := distinct.below id held
      rw [List.mem_singleton.mp new]
      omega
    · intro id member
      rw [same] at member
      rcases List.mem_append.mp member with held | new
      · have := distinct.below id held
        omega
      · rw [List.mem_singleton.mp new]
        exact above

omit [Libm] in
theorem asked_append (xs ys : List ClientMsg) : asked (xs ++ ys) = asked xs ++ asked ys :=
  List.filterMap_append

/-- The engine moves, with or without a request of the client. -/
theorem Inv.engine (inv : s.Inv past) {loop : Loop} {env : Outside} {act : Act}
    (met : meet s.loop env act = some loop) {made : List (ℕ × Core)} {toEngine : List ClientMsg}
    (kept : ∀ p ∈ s.made, p ∈ made) (seen : ∀ p ∈ made, p ∈ s.made ∨ p.2 = loop.control.core)
    (records : s.client.out = true → ∀ id origin cmd, act = .frame s.conn (.ok (.request id origin cmd)) →
      (id, loop.control.core) ∈ made)
    (ids : ({ s with loop, made, toEngine } : Net).ids = s.ids) :
    ∃ past', ({ s with loop, made, toEngine } : Net).Inv past' := by
  obtain ⟨past', uttered⟩ := step_uttered env (meet_step met) inv.heard inv.sane inv.numbered
  refine ⟨past', uttered.heard, onward_sane inv.sane uttered.onward, uttered.numbered, inv.watch, ?_,
    fun out => ?_, fun off => ?_⟩
  · exact inv.distinct.ask [] (by simp [ids, asked]) (Nat.le_refl _) (.inl rfl)
  · have op := inv.opened out
    refine op.engine uttered toEngine kept (fun p member => ?_) (records out)
    rcases seen p member with old | now
    · exact uttered.more _ (op.made p old)
    · rw [now]
      exact uttered.heard.passed.here
  · exact (inv.shut off).of_client rfl

theorem boots_heard {loop : Loop} (boots : Boots loop) :
    ∃ past, Heard past loop.control ∧ Sane loop.control.core ∧ loop.Numbered := by
  obtain ⟨digest, site, state, rev, flags, hil, counters, alarms, settings, now, rfl⟩ := boots
  exact ⟨_, ⟨.start _, by simp [Control.new], by simp [Control.new], by simp [Control.new]⟩,
    ⟨(TopologyProofs.compile_spec digest site).1, Core.new_canonical ..⟩,
    by simp [Control.new], by simp [Control.new]⟩

theorem Inv.boot (inv : s.Inv past) (off : s.client.out = false) {loop : Loop} (boots : Boots loop) :
    ∃ past', ({ s with loop } : Net).Inv past' := by
  obtain ⟨past', heard, sane, numbered⟩ := boots_heard boots
  refine ⟨past', heard, sane, numbered, inv.watch, ⟨inv.distinct.nodup, inv.distinct.below⟩,
    fun out => ?_, fun _ => (inv.shut off).of_client rfl⟩
  have up : s.client.out = true := out
  rw [off] at up
  cases up

theorem Inv.connect (inv : s.Inv past) (off : s.client.out = false) {loop : Loop} {env : Outside}
    (met : meet s.loop env .connected = some loop) (hello : ClientMsg) (greets : asked [hello] = []) :
    ∃ past', ({ s with
      client := { s.client with out := true }, loop, conn := s.loop.next, toEngine := [hello]
      read := 0, made := [] } : Net).Inv past' := by
  have step := meet_step met
  obtain ⟨past', uttered⟩ := step_uttered env step inv.heard inv.sane inv.numbered
  obtain ⟨connected, synced, calls⟩ := inv.shut off
  obtain ⟨new, sent, each⟩ := uttered.log
  -- Nobody was told anything under the new connection's number.
  have silent : (loop.control.sent.filter (·.1 = s.loop.next)).map (·.2) = [] := by
    simp only [List.map_eq_nil_iff, List.filter_eq_nil_iff, sent, decide_eq_true_eq]
    intro e member
    rcases List.mem_append.mp member with early | late
    · exact Nat.ne_of_lt (inv.numbered.2 e early)
    · exact Nat.ne_of_lt (each e late).1
  have opens : ∀ client : Client, client.mirror = s.client.mirror → client.connected = false →
      (∀ id r : ℕ, client.calls[id]? ≠ some (.replied (.ok r))) →
      ({ s with client, loop, conn := s.loop.next, toEngine := [hello], read := 0, made := [] } : Net).Open
        past' := by
    intro client mirror down none
    refine ⟨by rw [(step_connected env step).2]; exact Nat.lt_succ_self _, Nat.zero_le _, ?_, by simp, ?_, ?_, ?_⟩
    · intro up
      rw [mirror, synced] at up
      cases up
    · intro r member
      rw [stream, silent] at member
      cases member
    · intro up
      rw [down] at up
      cases up
    · exact fun id r waits => absurd waits (none id r)
  refine ⟨past', uttered.heard, onward_sane inv.sane uttered.onward, uttered.numbered, inv.watch, ?_,
    fun _ => opens _ rfl connected calls, fun off => by cases off⟩
  exact ⟨by simp [ids, greets], by simp [ids, greets]⟩

theorem Inv.read (inv : s.Inv past) (out : s.client.out = true) {msg : EngineMsg}
    {rest : List EngineMsg} (next : s.unread = msg :: rest) (calm : s.Calm .read) :
    ({ s with client := (s.client.handle msg).1, toEngine := s.toEngine ++ (s.client.handle msg).2.1
              read := s.read + 1 } : Net).Inv past := by
  obtain ⟨same, watch, later, asks⟩ := handle_asks s.client msg
  refine ⟨inv.heard, inv.sane, inv.numbered, watch inv.watch, ?_,
    fun _ => (inv.opened out).handle inv.heard next calm _, fun off => ?_⟩
  · refine inv.distinct.ask (s.client.handle msg).2.1 ?_ later asks
    simp only [ids, asked_append, List.append_assoc]
  · have up : (s.client.handle msg).1.out = true := same.trans out
    rw [up] at off
    cases off

/-- Calls are forgotten, or asked anew: none is answered that was not. -/
theorem Inv.calls (inv : s.Inv past) (client : Client) (asks : List ClientMsg)
    (fewer : ∀ id r, client.calls[id]? = some (.replied (.ok r)) → s.Waits id r)
    (same : (client.mirror, client.out, client.connected, client.rev) =
      (s.client.mirror, s.client.out, s.client.connected, s.client.rev))
    (next : s.client.nextId ≤ client.nextId)
    (fresh : asks = [] ∨ asked asks = [s.client.nextId] ∧ s.client.nextId < client.nextId) :
    ({ s with client, toEngine := s.toEngine ++ asks } : Net).Inv past := by
  simp only [Prod.mk.injEq] at same
  obtain ⟨mirror, out, connected, rev⟩ := same
  refine ⟨inv.heard, inv.sane, inv.numbered, ?_, ?_, fun up => ?_, fun off => ?_⟩
  · show client.rev = client.mirror.rev
    rw [rev, mirror]
    exact inv.watch
  · refine inv.distinct.ask asks ?_ next fresh
    simp only [ids, asked_append, List.append_assoc]
  · obtain ⟨conn, readable, follows, made, replies, floor, calls⟩ := inv.opened (out.symm.trans up)
    refine ⟨conn, readable, ?_, made, replies, ?_, fun id r waits => ?_⟩
    · show Follows past client.mirror
      rw [mirror]
      exact follows
    · simp only [connected, mirror]
      exact floor
    · simp only [connected, mirror]
      exact calls id r (fewer id r waits)
  · obtain ⟨down, synced, calls⟩ := inv.shut (out.symm.trans off)
    exact ⟨connected.trans down, by rw [mirror]; exact synced, fun id r waits => calls id r (fewer id r waits)⟩

omit [Libm] in
/-- Teardown answers nobody with a revision. -/
theorem teardown_calls (c : Client) {id r : ℕ} (waits : c.teardown.calls[id]? = some (.replied (.ok r))) :
    c.calls[id]? = some (.replied (.ok r)) := by
  simp only [Client.teardown, Std.ExtTreeMap.getElem?_map, Option.map_eq_some_iff] at waits
  obtain ⟨call, held, same⟩ := waits
  cases call with
  | pending => cases same
  | replied reply =>
    cases same
    exact held
  | dropped => cases same

theorem Inv.drop (inv : s.Inv past) (calm : s.Calm .drop) :
    ({ s with client := s.client.teardown, toEngine := [] } : Net).Inv past := by
  refine ⟨inv.heard, inv.sane, inv.numbered, inv.watch, ⟨?_, fun id member => ?_⟩, fun up => (by cases up),
    fun _ => ⟨rfl, rfl, fun id r waits => calm id r (teardown_calls s.client waits)⟩⟩
  · have all := inv.distinct.nodup
    simp only [ids, asked, List.filterMap_nil, List.append_nil]
    exact (List.nodup_append.mp all).1
  · refine inv.distinct.below id ?_
    simp only [ids, asked, List.filterMap_nil, List.append_nil] at member
    exact List.mem_append_left _ member

theorem Inv.step (inv : s.Inv past) {m : Move} (calm : s.Calm m) (step : s.Step m s') :
    ∃ past', s'.Inv past' := by
  obtain ⟨real, moved⟩ := step
  cases m with
  | send cmd origin =>
    simp only [move, Client.send] at moved
    split at moved
    · cases moved
      refine ⟨past, inv.calls _ [.request s.client.nextId origin cmd] (fun id r waits => ?_) rfl
        (Nat.le_succ _) (.inr ⟨rfl, Nat.lt_succ_self _⟩)⟩
      simp only [BTreeMap.getElem?_insert_eq] at waits
      split at waits
      · cases waits
      · exact waits
    · cases moved
  | serve env =>
    simp only [move] at moved
    split at moved
    · cases moved
    · rename_i msg rest head
      obtain ⟨loop, met, rfl⟩ := Option.map_eq_some_iff.mp moved
      refine inv.engine met (fun p held => List.mem_append_left _ held) (fun p member => ?_)
        (fun _ id origin cmd same => ?_) ?_
      · rcases List.mem_append.mp member with old | new
        · exact .inl old
        · obtain ⟨id, -, rfl⟩ := List.mem_map.mp new
          exact .inr rfl
      · cases same
        simp [asked]
      · rw [ids, ids, head, List.map_append, List.append_assoc,
          show asked (msg :: rest) = asked [msg] ++ asked rest from asked_append [msg] rest]
        simp [Function.comp_def]
  | engine env act =>
    simp only [move] at moved
    split at moved
    · rename_i foreign
      obtain ⟨loop, met, rfl⟩ := Option.map_eq_some_iff.mp moved
      refine inv.engine met (fun p held => held) (fun p member => .inl member)
        (fun out id origin cmd same => ?_) rfl
      subst same
      simp [Net.foreign, out] at foreign
    · cases moved
  | read =>
    simp only [move] at moved
    split at moved
    · rename_i msg rest out next
      cases moved
      exact ⟨past, inv.read out next calm⟩
    · cases moved
  | skip =>
    simp only [move] at moved
    split at moved
    · rename_i msg rest next
      cases moved
      refine ⟨past, inv.heard, inv.sane, inv.numbered, inv.watch, ⟨inv.distinct.nodup, inv.distinct.below⟩,
        fun out => (inv.opened out).pass next _, fun off => (inv.shut off).of_client rfl⟩
    · cases moved
  | finish id =>
    cases moved
    have kept := inv.calls { s.client with calls := s.client.calls.erase id } []
      (fun other r waits => ?_) rfl (Nat.le_refl _) (.inl rfl)
    · rw [List.append_nil] at kept
      exact ⟨past, kept⟩
    · simp only [BTreeMap.getElem?_erase_eq] at waits
      split at waits
      · cases waits
      · exact waits
  | drop =>
    cases moved
    exact ⟨past, inv.drop calm⟩
  | boot loop =>
    simp only [move] at moved
    split at moved
    · cases moved
    · rename_i off
      cases moved
      exact inv.boot (by simpa using off) real
  | connect env =>
    simp only [move] at moved
    split at moved
    · cases moved
    · rename_i off
      obtain ⟨loop, met, rfl⟩ := Option.map_eq_some_iff.mp moved
      exact inv.connect (by simpa using off) met _ rfl

theorem inv_start {loop : Loop} (boots : Boots loop) : ∃ past, ({ loop } : Net).Inv past := by
  obtain ⟨past, heard, sane, numbered⟩ := boots_heard boots
  exact ⟨past, heard, sane, numbered, rfl, ⟨by simp [ids, asked], by simp [ids, asked]⟩,
    fun up => (by cases up), fun _ => ⟨rfl, rfl, by simp [Waits]⟩⟩

theorem reaches_inv {loop : Loop} (boots : Boots loop) (run : Reaches Calm { loop } s) :
    ∃ past, s.Inv past := by
  induction run with
  | refl => exact inv_start boots
  | tail _ last ih =>
    obtain ⟨past, inv⟩ := ih
    obtain ⟨m, calm, step⟩ := last
    exact inv.step calm step

/-- Request `id` was handled once on the connection there is, and the mirror is synced and
shows a core the engine came to from the one right after it. -/
def InMirror (s : Net) (id : ℕ) : Prop :=
  s.client.out = true ∧ s.client.mirror.synced = true ∧
    ∃ core now, (id, core) ∈ s.made ∧ (∀ other, (id, other) ∈ s.made → other = core) ∧
      core.rev ≤ s.client.mirror.rev ∧ (∃ events, now = core.run events) ∧
      now.rev = s.client.mirror.rev ∧ Shows s.client.mirror now

/-- A handled request is in the mirror once the mirror is at its revision. -/
theorem Inv.in_mirror (inv : s.Inv past) (out : s.client.out = true) (synced : s.client.mirror.synced = true) {id : ℕ}
    {core : Core} (held : (id, core) ∈ s.made) (reached : core.rev ≤ s.client.mirror.rev) : s.InMirror id := by
  have op := inv.opened out
  have once : ∀ other, (id, other) ∈ s.made → other = core := by
    intro other there
    have keys := (List.nodup_append.mp inv.distinct.nodup).1
    exact congrArg Prod.snd (List.inj_on_of_nodup_map keys there held rfl)
  obtain ⟨now, seen, rev, shown⟩ := op.follows synced
  refine ⟨out, synced, core, ?_⟩
  rcases inv.heard.passed.later (op.made _ held) seen (by rw [rev]; exact reached) with onward | ⟨same, view⟩
  · exact ⟨now, held, once, reached, onward.1, rev, shown⟩
  · exact ⟨core, held, once, reached, ⟨[], rfl⟩, same.trans rev, shown.trans view.symm⟩

theorem Inv.confirmed (inv : s.Inv past) {id : ℕ} (confirmed : s.client.applied id = some (.ok ())) : s.InMirror id := by
  obtain ⟨r, waits, reached⟩ : ∃ r, s.Waits id r ∧ r ≤ s.client.rev := by
    unfold Client.applied at confirmed
    split at confirmed
    · rename_i r held
      split at confirmed
      · exact ⟨r, held, by assumption⟩
      · cases confirmed
    all_goals cases confirmed
  rw [inv.watch] at reached
  have out : s.client.out = true := by
    by_contra off
    exact (inv.shut (by simpa using off)).calls id r waits
  obtain ⟨-, ⟨core, held, rfl⟩, under⟩ := (inv.opened out).calls id r waits
  have synced : s.client.mirror.synced = true := by
    by_contra off
    have := under (by simpa using off)
    omega
  exact inv.in_mirror out synced held reached

/-- A confirmed request is in the mirror. In every run of the client against engines and
their restarts in which no connection ends while an answered request waits for its caller,
no gap is found at such a request's revision or above, and no request is answered before a
state came: a request whose `applied` is ok is in the mirror, with everything the engine
did before it. -/
theorem confirmed_in_mirror {loop : Loop} (boots : Boots loop) (run : Reaches Calm { loop } s) (id : ℕ)
    (confirmed : s.client.applied id = some (.ok ())) : s.InMirror id := by
  obtain ⟨past, inv⟩ := reaches_inv boots run
  exact inv.confirmed confirmed

theorem reaches_run (ok : Net → Move → Bool) (moves : List Move) (real : ∀ m ∈ moves, Real m)
    (ran : s.run ok moves = some s') : Reaches (fun s m => ok s m = true) s s' := by
  induction moves generalizing s with
  | nil =>
    cases ran
    exact .refl
  | cons m rest ih =>
    simp only [run] at ran
    split at ran
    · rename_i fine
      obtain ⟨mid, moved, later⟩ := Option.bind_eq_some_iff.mp ran
      exact .head ⟨m, fine, real m (by simp), moved⟩ (ih (fun m member => real m (by simp [member])) later)
    · cases ran

/-- Nothing ends, no delta is a gap, and what is answered is answered after a state. -/
def calmly (s : Net) : Move → Bool
  | .drop => false
  | .read =>
    match s.unread with
    | .delta rev .. :: _ => rev ≤ s.client.mirror.rev + 1
    | .reply _ :: _ => s.client.connected
    | _ => true
  | _ => true

omit [Libm] in
theorem calm_of_calmly {m : Move} (fine : s.calmly m = true) : s.Calm m := by
  cases m with
  | drop => cases fine
  | read =>
    simp only [calmly] at fine
    simp only [Calm]
    split
    · rename_i rev _ _ _ next
      simp only [next, decide_eq_true_eq] at fine
      exact fun _ gap => by omega
    · rename_i r rest next
      simp only [next] at fine
      exact fun _ => fine
    · trivial
  | _ => trivial

end

end Net
end

/-! ### A client of `duet` -/

namespace Net

theorem duet_boots : Boots duetLoop :=
  ⟨_, TopologyProofs.duetCompiled, {}, 7, { testSignal := true }, [], _, [], _, 0, rfl⟩

/-- A connection and its greeting. -/
def greeted : List Move := [.connect calm, .serve calm, .read, .read, .read]

/-- The server mutes `mix` and reads the reply. -/
def mutes (mix : MixId) : List Move := [.send (.setMix mix none (some true)) none, .serve calm, .read]

theorem duet_reaches {ok : Net → Move → Bool} {moves : List Move} {s : Net}
    (real : ∀ m ∈ moves, Real m) (ran : @run Core.duetLibm ok { loop := duetLoop } moves = some s) :
    @Reaches Core.duetLibm (fun s m => ok s m = true) { loop := duetLoop } s :=
  @reaches_run Core.duetLibm _ _ ok moves real ran

theorem confirmed_in_mirror_duet :
    ∃ s, @Reaches Core.duetLibm Calm { loop := duetLoop } s ∧
      s.client.applied 1 = some (.ok ()) ∧ @InMirror Core.duetLibm s 1 := by
  have ran : (@run Core.duetLibm calmly { loop := duetLoop } (greeted ++ mutes "ben" ++ [.read])).any
      fun s => decide (s.client.applied 1 = some (.ok ())) := by decide +kernel
  obtain ⟨s, reached, facts⟩ := (Option.any_eq_true _ _).mp ran
  have calm := duet_reaches (by simp [greeted, mutes, Real]) reached
  have run : @Reaches Core.duetLibm Calm { loop := duetLoop } s := by
    refine Relation.ReflTransGen.mono ?_ _ _ calm
    rintro s s' ⟨m, fine, step⟩
    exact ⟨m, calm_of_calmly fine, step⟩
  have confirmed := of_decide_eq_true facts
  exact ⟨s, run, confirmed, @confirmed_in_mirror Core.duetLibm s duetLoop duet_boots run 1 confirmed⟩

/-- Request 1, that mutes ben, is answered at revision 8. Then the engine dies before it
saved, and the next one starts from revision 7 and comes to revision 8 by muting anna: the
first engine's reply is confirmed by the second one's mirror, in which ben is not muted. -/
theorem reply_outlives_engine :
    ∃ s, @Reaches Core.duetLibm (fun _ _ => True) { loop := duetLoop } s ∧
      s.client.applied 1 = some (.ok ()) ∧ s.client.mirror.synced = true ∧
      s.client.mirror.state.mixes["ben"]?.map (·.out.muted) = some false ∧
      ¬ @InMirror Core.duetLibm s 1 := by
  have ran : (@run Core.duetLibm (fun _ _ => true) { loop := duetLoop } (greeted ++ mutes "ben" ++
      [.drop, .boot duetLoop] ++ greeted ++ mutes "anna" ++ [.read])).any fun s => decide <|
        s.client.applied 1 = some (.ok ()) ∧ s.client.mirror.synced = true ∧
          s.client.mirror.state.mixes["ben"]?.map (·.out.muted) = some false ∧
          s.made.map (·.1) = [2] := by decide +kernel
  obtain ⟨s, reached, facts⟩ := (Option.any_eq_true _ _).mp ran
  obtain ⟨confirmed, synced, unmuted, other⟩ := of_decide_eq_true facts
  have run := duet_reaches (by simp [greeted, mutes, Real, duet_boots]) reached
  have any : @Reaches Core.duetLibm (fun _ _ => True) { loop := duetLoop } s := by
    refine Relation.ReflTransGen.mono ?_ _ _ run
    rintro s s' ⟨m, -, step⟩
    exact ⟨m, trivial, step⟩
  refine ⟨s, any, confirmed, synced, unmuted, ?_⟩
  rintro ⟨-, -, core, now, held, -⟩
  have key : 1 ∈ s.made.map (·.1) := List.mem_map.mpr ⟨_, held, rfl⟩
  rw [other] at key
  simp at key

end Net
end IemMixer.Server
