import IemMixer.Server.TransitionProofs

/-! The steps of one transition. The engine is still, so its mirror shows what it holds; only
while an import's answer is missing either state may be in it. -/
namespace IemMixer.Server
open Lib Lib.Process Proto IemMixer.Core

/-- The engine does not start anew, and what tells which roster a state follows can be read. -/
structure Legible (o : Oracle RosterOp Fate) : Prop where
  awake : Awake fun t op => o t (.op op)
  keptAwake : ∀ sha256, Awake fun t _ => o t (.readKept sha256)
  kept : ∀ t sha256 kind, (o t (.readKept sha256)).ending ≠ .failed kind
  running : ∀ t kind, (o t (.op .readRunning)).ending ≠ .failed kind

/-- What the files hold: `record` of the running record, `stored` of the stored states. -/
structure Files (j : Job) (record : Option Running → Prop) (stored : BTreeMap String MixerBackup → Prop) (frozen : Bool)
    (w : World) : Prop where
  rosters : w.store.rosters = j.kept
  stored : stored w.store.states
  record : record w.store.running
  intent : w.store.intent = none
  frozen : w.frozen = frozen

section
variable [Libm]

/-- The engine plays `s`, the mirror shows it, and nothing on its way brings another state. -/
structure Plays (j : Job) (s : MixState) (d : Desk) : Prop where
  holds : d.Holds j.topo j.active s
  shows : d.mirror.state = s
  site : ∀ t, d.mirror.topology = some t → t = j.topo.info

/-- An import is under way: the engine plays `s` or `n`. -/
structure Sent (j : Job) (s n : MixState) (d : Desk) : Prop where
  under : d.Under j.topo fun whose state => whose = j.active ∧ (state = s ∨ state = n)
  site : ∀ t, d.mirror.topology = some t → t = j.topo.info

section
variable {j : Job} {s n : MixState} {d : Desk}

theorem Plays.state (plays : Plays j s d) : d.core.state = s := plays.holds.state

theorem Plays.sound (plays : Plays j s d) : d.Sound j.topo := plays.holds.whose.sound

/-- What the engine plays is in its topology's shape. -/
theorem Plays.fixed (plays : Plays j s d) : (Proto.reconcile j.topo.info s).1 = s := by
  have fixed := plays.sound.fixed
  rw [plays.state] at fixed
  exact fixed

theorem drift_site {e : Drift} (on : e ≠ .reboot) (sound : d.Sound j.topo)
    (site : ∀ t, d.mirror.topology = some t → t = j.topo.info) (t : TopologyInfo)
    (shown : (d.drift e).mirror.topology = some t) : t = j.topo.info := by
  rcases drift_mirror d on with same | viewed | stale
  · exact site t (same ▸ shown)
  · rw [viewed] at shown
    cases shown
    rw [sound.topo]
  · rw [stale] at shown
    exact site t shown

theorem lasting_plays (j : Job) (s : MixState) : Lasting fun w => Plays j s w.desk where
  drift w e on plays := by
    have shows : (w.desk.drift e).mirror.state = s := by
      rcases drift_mirror w.desk on with same | viewed | stale
      · rw [same]
        exact plays.shows
      · rw [viewed]
        exact plays.state
      · rw [stale]
        exact plays.shows
    exact ⟨fun own is => (plays.holds own is).goes (drift_goes w.desk e on), shows,
      drift_site on plays.sound plays.site⟩
  flush w plays := by
    obtain ⟨mirror, -⟩ := flush_frame w.desk
    refine ⟨(stable_holds j.topo j.active s).flush plays.holds, ?_, ?_⟩
    · exact (congrArg Mirror.state mirror).trans plays.shows
    · exact fun t shown => plays.site t (mirror ▸ shown)

theorem lasting_sent (j : Job) (s n : MixState) : Lasting fun w => Sent j s n w.desk where
  drift w e on sent := ⟨sent.under.goes (drift_goes w.desk e on), drift_site on sent.under.sound sent.site⟩
  flush w sent :=
    ⟨(stable_under j.topo _).flush sent.under, fun t shown => sent.site t ((flush_frame w.desk).1 ▸ shown)⟩

/-- The files are the server's own. -/
theorem lasting_files (j : Job) (record : Option Running → Prop) (stored : BTreeMap String MixerBackup → Prop)
    (frozen : Bool) : Lasting (Files j record stored frozen) where
  drift _ _ _ files := ⟨files.rosters, files.stored, files.record, files.intent, files.frozen⟩
  flush _ files := ⟨files.rosters, files.stored, files.record, files.intent, files.frozen⟩

/-- An answer came, with nothing else on its way: the engine plays what it holds. -/
theorem plays_after {cmd : Cmd} {whose : String} (idle : d.inbox = []) (sound : (d.after cmd whose).Sound j.topo)
    (owner : (d.after cmd whose).owner = j.active) (state : (d.after cmd whose).core.state = s) :
    Plays j s (d.after cmd whose) where
  holds own is := by
    refine ⟨sound, ?_, fun _ => ⟨j.active, ?_⟩, ?_⟩
    · rw [owner, state]
      exact is
    · have shown : (d.after cmd whose).mirror.state = s := state
      rw [shown]
      exact is
    · intro p member
      have empty : (d.after cmd whose).inbox = [] := (d.meet_frame (.request cmd) whose).2.1.trans idle
      rw [empty] at member
      exact absurd member List.not_mem_nil
  shows := state
  site t shown := by
    cases shown
    have topo := sound.topo
    exact congrArg Topology.info topo

theorem Desk.Sound.after (sound : d.Sound j.topo) (cmd : Cmd) (whose : String) : (d.after cmd whose).Sound j.topo := by
  have met := sound.meet (.request cmd) whose
  exact ⟨met.wf, met.topo, met.canonical⟩

/-- Answered, a request that leaves the mixes as they are. -/
theorem plays_quiet {cmd : Cmd} (quiet : Quiet cmd) (whose : String) (sound : d.Sound j.topo) (idle : d.inbox = [])
    (owner : d.owner = j.active) (state : d.core.state = s) : Plays j s (d.after cmd whose) := by
  obtain ⟨sameState, sameOwner⟩ := Desk.meet_quiet sound (show QuietEvent (.request cmd) from quiet) whose
  exact plays_after idle (sound.after cmd whose) (sameOwner.trans owner) (sameState.trans state)

theorem plays_import {state : MixState} (sound : d.Sound j.topo) (idle : d.inbox = [])
    (shaped : (Proto.reconcile j.topo.info state).1 = state) :
    Plays j state (d.after (.importState state) j.active) := by
  obtain ⟨imported, owner⟩ := Desk.meet_import sound state j.active
  exact plays_after idle (sound.after _ _) owner (imported.trans shaped)

theorem Plays.sent (plays : Plays j s d) (n : MixState) : Sent j s n d :=
  ⟨plays.holds _ ⟨rfl, .inl rfl⟩, plays.site⟩

end

/-- Between the steps of a try, the engine still. -/
def At (j : Job) (s : MixState) (record : Option Running → Prop) (stored : BTreeMap String MixerBackup → Prop) (frozen : Bool)
    (w : World) : Prop :=
  Plays j s w.desk ∧ Files j record stored frozen w

/-- The same while an import's answer is missing. -/
def Waits (j : Job) (s n : MixState) (record : Option Running → Prop) (stored : BTreeMap String MixerBackup → Prop)
    (frozen : Bool) (w : World) : Prop :=
  Sent j s n w.desk ∧ Files j record stored frozen w

section
variable {j : Job} {s n : MixState} {record record' : Option Running → Prop} {stored stored' : BTreeMap String MixerBackup → Prop}
  {frozen : Bool} {w : World} {o : Oracle Op Fate} {ε : Type} {E : Halt ε → Assertion World}

theorem lasting_at (j : Job) (s : MixState) (record : Option Running → Prop) (stored : BTreeMap String MixerBackup → Prop)
    (frozen : Bool) : Lasting (At j s record stored frozen) :=
  (lasting_plays j s).and (lasting_files j record stored frozen)

theorem lasting_waits (j : Job) (s n : MixState) (record : Option Running → Prop) (stored : BTreeMap String MixerBackup → Prop)
    (frozen : Bool) : Lasting (Waits j s n record stored frozen) :=
  (lasting_sent j s n).and (lasting_files j record stored frozen)

theorem At.recorded (here : At j s record stored frozen w) (is : record' w.store.running) :
    At j s record' stored frozen w :=
  ⟨here.1, here.2.rosters, here.2.stored, is, here.2.intent, here.2.frozen⟩

theorem At.weaken (here : At j s record stored frozen w) (weaker : ∀ r, record r → record' r) :
    At j s record' stored frozen w :=
  here.recorded (weaker _ here.2.record)

theorem At.restate (here : At j s record stored frozen w) (weaker : ∀ m, stored m → stored' m) :
    At j s record stored' frozen w :=
  ⟨here.1, here.2.rosters, weaker _ here.2.stored, here.2.record, here.2.intent, here.2.frozen⟩

theorem At.waits (here : At j s record stored frozen w) (n : MixState) : Waits j s n record stored frozen w :=
  ⟨here.1.sent n, here.2⟩

theorem Waits.restate (here : Waits j s n record stored frozen w) (weaker : ∀ m, stored m → stored' m) :
    Waits j s n record stored' frozen w :=
  ⟨here.1, here.2.rosters, weaker _ here.2.stored, here.2.record, here.2.intent, here.2.frozen⟩

theorem At.arrived (here : At j n record stored frozen w) (s : MixState) : Waits j s n record stored frozen w :=
  ⟨⟨here.1.holds _ ⟨rfl, .inr rfl⟩, here.1.site⟩, here.2⟩

omit [Libm] in
/-- The files of a world whose engine is another. -/
theorem Files.desk (files : Files j record stored frozen w) (desk : Desk) :
    Files j record stored frozen { w with desk } :=
  ⟨files.rosters, files.stored, files.record, files.intent, files.frozen⟩

omit [Libm] in
/-- A record is written. -/
theorem Files.noted (files : Files j record stored frozen w) {r : Running} (is : record' (some r)) :
    Files j record' stored frozen { w with store := { w.store with running := some r } } :=
  ⟨files.rosters, files.stored, is, files.intent, files.frozen⟩

section
variable (awake : Awake o)
include awake

/-- A quiet request that is answered, or is not: the engine plays on. -/
theorem at_quiet {cmd : Cmd} (quiet : Quiet cmd) (whose : String) :
    Triple o (At j s record stored frozen) (requestApplied cmd whose) (fun _ => At j s record stored frozen)
      (fun _ => At j s record stored frozen) := by
  refine lasting_request awake (lasting_at j s record stored frozen) ?_ (fun _ _ => id) ?_
  · intro w ⟨plays, files⟩ idle
    have owner := plays.holds.whose.holds
    exact ⟨plays_quiet quiet whose plays.sound idle owner plays.state, files.desk _⟩
  · intro _ _ w ⟨plays, files⟩
    refine ⟨⟨fun own is => ?_, plays.shows, plays.site⟩, files.desk _⟩
    exact (plays.holds own is).post (carries_quiet quiet whose)

theorem at_endSolos (mixes : List MixId) (stop : ∀ w, At j s record stored frozen w → E .stopped w) :
    Triple o (At j s record stored frozen) (endSolos mixes) (fun _ => At j s record stored frozen) E := by
  unfold endSolos
  refine triple_each fun mix => ?_
  refine triple_bind (triple_attempt (at_quiet awake (.inr ⟨mix, rfl⟩) "") stop) fun r => ?_
  cases r with
  | ok _ => exact triple_pure fun _ => id
  | error _ => exact triple_pure fun _ => id

/-- The record is written; a failure leaves the one before. -/
theorem at_noteRunning {r : Running} (weaker : ∀ r, record r → record' r) (is : record' (some r))
    (stop : ∀ w, At j s record' stored frozen w → E .stopped w) :
    Triple o (At j s record stored frozen) (noteRunning r) (fun _ => At j s record' stored frozen) E := by
  unfold noteRunning
  refine triple_bind (triple_attempt (E := fun _ => At j s record' stored frozen)
    (Q := fun _ => At j s record' stored frozen) ?_ stop) ?_
  · exact lasting_file awake (lasting_at j s record stored frozen) (fun w before => ⟨before.1, before.2.noted is⟩)
      (fun _ _ _ w before => before.weaken weaker) fun w before => before.weaken weaker
  · intro result
    cases result with
    | ok _ => exact triple_pure fun _ => id
    | error _ => exact triple_pure fun _ => id

/-- An import of `n`: in, or not, or under way. -/
theorem at_import (shaped : (Proto.reconcile j.topo.info n).1 = n) :
    Triple o (At j s record stored frozen) (requestApplied (.importState n) j.active)
      (fun _ => At j n record stored frozen) fun e w => match e with
        | .error (.refused _) => At j s record stored frozen w
        | _ => Waits j s n record stored frozen w := by
  refine lasting_request awake (lasting_at j s record stored frozen) ?_ ?_ ?_
  · exact fun w before idle => ⟨plays_import before.1.sound idle shaped, before.2.desk _⟩
  · intro e w before
    split
    · exact before
    · exact before.waits n
  · intro e plain w before
    have under : Sent j s n { w.desk with inbox := w.desk.inbox ++ [(.importState n, j.active)] } :=
      ⟨((before.waits n).1.under).post (carries_import ⟨rfl, .inr shaped⟩), before.1.site⟩
    split
    · next body => exact absurd rfl (plain body)
    · exact ⟨under, before.2.desk _⟩

/-- A `Ping` while an import is under way: answered, the engine plays one of the two. -/
theorem waits_ping : Triple o (Waits j s n record stored frozen) (requestApplied .ping "")
    (fun _ w => At j s record stored frozen w ∨ At j n record stored frozen w)
    (fun _ => Waits j s n record stored frozen) := by
  refine lasting_request awake (lasting_waits j s n record stored frozen) ?_ (fun _ _ => id) ?_
  · intro w ⟨sent, files⟩ idle
    obtain ⟨owner, state⟩ := sent.under.holds
    rcases state with before | next
    · exact .inl ⟨plays_quiet (.inl rfl) "" sent.under.sound idle owner before, files.desk _⟩
    · exact .inr ⟨plays_quiet (.inl rfl) "" sent.under.sound idle owner next, files.desk _⟩
  · intro _ _ w ⟨sent, files⟩
    exact ⟨⟨sent.under.post (carries_quiet (.inl rfl) ""), sent.site⟩, files.desk _⟩

omit awake in
theorem At.frost (here : At j s record stored frozen w) (frozen' : Bool) :
    At j s record stored frozen' { w with frozen := frozen' } :=
  ⟨here.1, here.2.rosters, here.2.stored, here.2.record, here.2.intent, rfl⟩

/-- The pages are frozen, or as they were. -/
theorem at_freeze : Triple o (At j s record stored false) freeze (fun was w => was = false ∧ At j s record stored true w)
    fun e w => match e with
      | .stopped => ∃ frozen, At j s record stored frozen w
      | .error _ => At j s record stored false w := by
  unfold freeze
  refine triple_bind (Q := fun was w => was = false ∧ At j s record stored false w)
    (triple_look fun w here => ⟨here.2.frozen, here⟩) fun was => triple_fact fun off => ?_
  subst off
  refine triple_bind (Q := fun _ => At j s record stored true) (triple_change fun w here => here.frost true) fun _ => ?_
  refine triple_bind (triple_attempt (at_quiet awake (.inl rfl) "") fun w here => ⟨true, here⟩) fun answer => ?_
  cases answer with
  | ok _ => exact triple_pure fun w here => ⟨rfl, here⟩
  | error e =>
    refine triple_bind (Q := fun _ => At j s record stored false) (triple_change fun w here => here.frost false) fun _ => ?_
    exact triple_fail fun _ => id

end

end

end

end IemMixer.Server
