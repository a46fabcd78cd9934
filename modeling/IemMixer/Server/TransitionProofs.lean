import IemMixer.Server.FollowProofs
import IemMixer.Server.SwitchProofs
import IemMixer.Server.Transition

/-! One try of a transition, whatever becomes of its steps: the stored states are between what
they were and what follows the roster, and the record of the running state tells which of the two
the engine holds. What the mirror holds, synced or not, is part of each assertion here. -/
namespace IemMixer.Server
open Lib Lib.Process Proto IemMixer.Core

section
variable [Libm]

/-- Kept by what the engine and the pipe do by themselves, a restart of the engine apart, and
by the engine's hearing all that is on its way. -/
structure Lasting (P : Assertion World) : Prop where
  drift : ∀ w e, e ≠ .reboot → P w → P { w with desk := w.desk.drift e }
  flush : ∀ w, P w → P { w with desk := w.desk.flush }

variable {o : Oracle Op Fate} {P Q : Assertion World} {α ε : Type}

theorem Stable.lasting (stable : Stable P) : Lasting P :=
  ⟨fun w e on pre => stable w _ (drift_goes w.desk e on) pre, fun _ pre => stable.flush pre⟩

theorem Lasting.and (hp : Lasting P) (hq : Lasting Q) : Lasting fun w => P w ∧ Q w :=
  ⟨fun w e on both => ⟨hp.drift w e on both.1, hq.drift w e on both.2⟩,
    fun w both => ⟨hp.flush w both.1, hq.flush w both.2⟩⟩

theorem Lasting.drifts (lasting : Lasting P) {ds : List Drift} (on : Drift.reboot ∉ ds) {w : World} (pre : P w) :
    P (w.drifts ds) := by
  induction ds generalizing w with
  | nil => exact pre
  | cons e rest ih =>
    have apart : e ≠ .reboot := fun same => on (by simp [same])
    have same : w.drift e = { w with desk := w.desk.drift e } := by simp [World.drift, apart]
    refine ih (fun member => on (by simp [member])) ?_
    rw [same]
    exact lasting.drift w e apart pre

section
variable (awake : Awake o)
include awake

theorem lasting_file {op : Op} {act : World → α × World} {R : α → Assertion World} {E : Halt String → Assertion World}
    (lasting : Lasting P) (done : ∀ w, P w → R (act w).1 (act w).2)
    (failed : ∀ t kind, (o t op).ending = .failed kind → ∀ w, P w → E (.error kind) w)
    (stop : ∀ w, P w → E .stopped w) : Triple o P (fileStep op act) R E := by
  refine triple_step fun t w pre => ?_
  have moved := lasting.drifts (awake t op) pre
  simp only
  cases ending : (o t op).ending with
  | stop sent => exact stop _ moved
  | failed kind => exact failed t kind ending _ moved
  | done => exact done _ moved
  | refused body => exact done _ moved
  | lost sent timeout => exact done _ moved

theorem lasting_mirror {R : Mirror → Assertion World} {E : Halt ε → Assertion World} (lasting : Lasting P)
    (done : ∀ w, P w → R w.desk.mirror w) (stop : ∀ w, P w → E .stopped w) : Triple o P mirror R E := by
  refine triple_step fun t w pre => ?_
  have moved := lasting.drifts (awake t .mirror) pre
  generalize w.drifts (o t .mirror).drifts = w at moved
  cases (o t .mirror).ending with
  | stop sent => exact stop _ moved
  | _ => exact done _ moved

theorem lasting_waitSynced {E : Halt ε → Assertion World} (lasting : Lasting P) (stop : ∀ w, P w → E .stopped w) :
    Triple o P waitSynced (fun _ => P) E := by
  refine triple_step fun t w pre => ?_
  have moved := lasting.drifts (awake t .waitSynced) pre
  generalize w.drifts (o t .waitSynced).drifts = w at moved
  cases synced : w.desk.mirror.synced with
  | true =>
    cases (o t .waitSynced).ending with
    | stop sent => exact stop _ moved
    | _ =>
      simp only [synced, if_true]
      exact moved
  | false =>
    cases (o t .waitSynced).ending with
    | stop sent => exact stop _ moved
    | _ =>
      simp only [synced, Bool.false_eq_true, if_false]
      exact stop _ moved

/-- A request: answered, all before it handled; or it never left; or, not refused, it is on its
way. -/
theorem lasting_request {cmd : Cmd} {whose : String} {R : Assertion World} {E : Halt EngineError → Assertion World}
    (lasting : Lasting P) (answered : ∀ w, P w → w.desk.inbox = [] → R { w with desk := w.desk.after cmd whose })
    (idle : ∀ e w, P w → E e w)
    (posted : ∀ e, (∀ body, e ≠ .error (.refused body)) → ∀ w, P w →
      E e { w with desk := { w.desk with inbox := w.desk.inbox ++ [(cmd, whose)] } }) :
    Triple o P (requestApplied cmd whose) (fun _ => R) E := by
  refine triple_step fun t w pre => ?_
  have moved := lasting.drifts (awake t (.request cmd)) pre
  generalize w.drifts (o t (.request cmd)).drifts = w at moved
  have post : ∀ e, (∀ body, e ≠ .error (.refused body)) → E e { w with desk := w.desk.post cmd whose } := by
    intro e plain
    unfold Desk.post
    split
    · exact posted e plain w moved
    · exact idle e w moved
  have flushed := lasting.flush w moved
  simp only
  cases ending : (o t (.request cmd)).ending with
  | stop sent =>
    cases sent with
    | true => exact post _ (by simp)
    | false => exact idle _ _ moved
  | refused body =>
    cases linked : w.desk.linked with
    | true => exact idle _ _ flushed
    | false => exact idle _ _ moved
  | lost sent timeout =>
    cases linked : w.desk.linked with
    | false => exact idle _ _ moved
    | true =>
      cases sent with
      | true => exact post _ (by cases timeout <;> simp)
      | false => exact idle _ _ moved
  | _ =>
    cases linked : w.desk.linked with
    | false => exact idle _ _ moved
    | true =>
      rcases answered_cases w cmd whose with said | ⟨e, said⟩
      · simp only [said, Bool.not_true, Bool.false_eq_true, if_false]
        exact answered _ flushed rfl
      · simp only [said, Bool.not_true, Bool.false_eq_true, if_false]
        exact idle _ _ flushed

end

theorem drift_mirror (d : Desk) {e : Drift} (on : e ≠ .reboot) : (d.drift e).mirror = d.mirror ∨
    (d.drift e).mirror = d.view ∨ (d.drift e).mirror = { d.mirror with synced := false } := by
  cases e with
  | handle =>
    simp only [Desk.drift]
    split
    · next cmd whose rest _ => exact .inl (d.meet_frame (.request cmd) whose).2.2.2
    · exact .inl rfl
  | see =>
    simp only [Desk.drift]
    split
    · exact .inr (.inl rfl)
    · exact .inl rfl
  | gap => exact .inr (.inr rfl)
  | lose => exact .inr (.inr rfl)
  | join =>
    simp only [Desk.drift]
    split
    · exact .inl rfl
    · exact .inr (.inl rfl)
  | save => exact .inl rfl
  | reboot => exact absurd rfl on
  | clearSolos => exact .inl (d.meet_frame .clearSolos d.owner).2.2.2
  | endTestSignal => exact .inl (d.meet_frame .endTestSignal d.owner).2.2.2

/-- What the engine hears of what is on its way changes neither the mirror nor the connection. -/
theorem flush_frame (d : Desk) : d.flush.mirror = d.mirror ∧ d.flush.linked = d.linked := by
  have fold : ∀ (ps : List (Cmd × String)) (d : Desk),
      (ps.foldl (fun d p => d.meet (.request p.1) p.2) d).mirror = d.mirror ∧
        (ps.foldl (fun d p => d.meet (.request p.1) p.2) d).linked = d.linked := by
    intro ps
    induction ps with
    | nil => exact fun d => ⟨rfl, rfl⟩
    | cons p rest ih =>
      intro d
      obtain ⟨mirror, linked⟩ := ih (d.meet (.request p.1) p.2)
      obtain ⟨-, -, sameLinked, same⟩ := d.meet_frame (.request p.1) p.2
      exact ⟨mirror.trans same, linked.trans sameLinked⟩
  exact fold d.inbox d

end

/-- Of one transition: the rosters the states follow, the new one, and its lineup that plays. -/
structure Job where
  topo : Topology
  follows : Follows
  kept : BTreeMap String Roster
  new : Roster
  newSha : String
  lineup : Lineup
  found : new.lineup lineup.id = some lineup
  distinct : (new.lineups.map (·.id)).Nodup

namespace Job
variable (j : Job)

/-- The lineup that plays. -/
def active : String := j.lineup.id

def sets : BTreeSet String := Std.ExtTreeSet.ofList (j.follows.sets ++ j.new.sets.toList) compare

/-- The roster a state with this marker moves people's mixes from, every kept one known. -/
def base : Option String → Option Roster
  | some sha => if sha = j.newSha then none
    else ((j.follows.known.find? (·.sha256 == sha)).map (·.roster)).or j.kept[sha]?
  | none => j.follows.unmarked.map (·.roster)

/-- A stored state of `l` that follows the roster. -/
def carry (l : Lineup) (b : MixerBackup) : MixerBackup :=
  let (state, silenced) := follow b.state b.silenced (j.base b.follows) j.new j.sets l none
  { b with state, silenced, follows := some j.newSha }

/-- The running state that follows the roster, with its record of silenced sets, of one that
`known` tells about. -/
def next (s : MixState) (known : Option String × BTreeSet String) : MixState × BTreeSet String :=
  follow s known.2 (j.base known.1) j.new j.sets j.lineup (some j.topo.info)

/-- What is known of a state that follows the roster. -/
def settled (s : MixState) (known : Option String × BTreeSet String) : Option String × BTreeSet String :=
  (some j.newSha, (j.next s known).2)

/-- The lineups whose stored states go along. -/
def others : List Lineup := j.new.lineups.filter (·.id != j.active)

/-- What of `l`'s stored state a try writes. -/
def plannedOf (states : BTreeMap String MixerBackup) (l : Lineup) : Option Planned :=
  (states[l.id]?).bind fun b =>
    if (j.carry l b).peq b then none else some { id := l.id, original := b, next := j.carry l b }

/-- What a try writes of the stored states `states`. -/
def planned (states : BTreeMap String MixerBackup) : List Planned := j.others.filterMap (j.plannedOf states)

end Job

/-- A stored state that follows a roster and is made to follow it again. -/
theorem Job.carry_again (j : Job) (l : Lineup) (b : MixerBackup) : j.carry l (j.carry l b) = j.carry l b := by
  have ruled : Ruled j.sets l (follow b.state b.silenced (j.base b.follows) j.new j.sets l none) :=
    ruled_follow _ _ _ _
  have carried : j.carry l b = { b with
      state := (follow b.state b.silenced (j.base b.follows) j.new j.sets l none).1
      silenced := (follow b.state b.silenced (j.base b.follows) j.new j.sets l none).2
      follows := some j.newSha } := rfl
  rw [carried]
  generalize follow b.state b.silenced (j.base b.follows) j.new j.sets l none = s at ruled
  have follower : j.base (some j.newSha) = none := if_pos rfl
  have again : follow s.1 s.2 none j.new j.sets l none = s := follow_ruled ruled
  simp only [Job.carry, follower, again]

/-- The running state, followed again, from what is known of it then. -/
theorem Job.next_again (j : Job) (s : MixState) (known : Option String × BTreeSet String) {s' : MixState}
    (held : s' = (j.next s known).1 ∨ (j.next s known).1.peq s' = true ∧ (Proto.reconcile j.topo.info s').1 = s') :
    j.next s' (j.settled s known) = (s', (j.next s known).2) := by
  have ruled : Ruled j.sets j.lineup (j.next s known) :=
    ruled_follow _ _ _ _
  have follower : j.base (some j.newSha) = none := if_pos rfl
  have follows : j.next s' (j.settled s known) =
      follow s' (j.next s known).2 none j.new j.sets j.lineup (some j.topo.info) := by
    unfold Job.next Job.settled
    rw [follower]
    rfl
  rw [follows]
  rcases held with rfl | ⟨same, shaped⟩
  · exact follow_shaped ruled (shaped_follow j.topo.info _ _ _)
  · have fits : Ruled j.sets j.lineup (s', (j.next s known).2) := ruled.peq same
    exact follow_shaped (s := (s', (j.next s known).2)) fits shaped

section
variable [Sha256]

/-- A record with its pending import settled by the state the engine holds. -/
def settledBy (held : MixState) (running : Option Running) : Option Running :=
  running.map fun r => resolved r (stateDigest held)

/-- The marker and the record that are `lineup`'s. -/
def knownOf (lineup : String) : Option Running → Option String × BTreeSet String
  | some r => if r.lineup = lineup then (r.follows, r.silenced) else (none, ∅)
  | none => (none, ∅)

/-- What the record tells about `lineup`'s state when the engine holds `held`. -/
def told (lineup : String) (held : MixState) (running : Option Running) : Option String × BTreeSet String :=
  knownOf lineup (settledBy held running)

omit [Sha256] in
theorem resolved_plain {r : Running} (plain : r.pending.isNone = true) (held : String) : resolved r held = r := by
  cases pending : r.pending with
  | none => simp [resolved, pending]
  | some p => simp [pending] at plain

omit [Sha256] in
theorem resolved_settled (r : Running) (held : String) : (resolved r held).pending.isNone = true := by
  unfold resolved
  split
  · split <;> rfl
  · next same => simp [same]

theorem settledBy_again (held : MixState) (running : Option Running) :
    settledBy held (settledBy held running) = settledBy held running := by
  cases running with
  | none => rfl
  | some r => exact congrArg some (resolved_plain (resolved_settled r _) _)

theorem told_settled (lineup : String) (held : MixState) (running : Option Running) :
    told lineup held (settledBy held running) = told lineup held running := by
  unfold told
  rw [settledBy_again]

theorem told_plain (lineup : String) (held : MixState) (follows : Option String) (silenced : BTreeSet String) :
    told lineup held (some { lineup, follows, silenced }) = (follows, silenced) := by
  simp [told, settledBy, knownOf, resolved]

/-- A record with a pending import, by whether it went in. -/
theorem told_pending (lineup : String) (held : MixState) (follows : Option String) (silenced : BTreeSet String)
    (p : Pending) : told lineup held (some { lineup, follows, silenced, pending := some p }) =
      if p.digest = stateDigest held then (some p.follows, p.silenced) else (follows, silenced) := by
  simp only [told, settledBy, Option.map_some, resolved, knownOf]
  split <;> simp

end

end IemMixer.Server
