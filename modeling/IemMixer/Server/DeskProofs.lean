import IemMixer.Server.Desk

/-! The engine behind the pipe: what a request makes of the mixes, and how an assertion
that the engine keeps by itself goes through a step of the server. -/
namespace IemMixer.Server
open Lib Lib.Process Proto IemMixer.Core

/-- Requests that leave the mixes as they are. -/
def Quiet (cmd : Cmd) : Prop := cmd = .ping ∨ ∃ mix, cmd = .setSolo mix []

theorem finish_s (p : Partial) (c : Core) : (finish p c).2.s = c.s := by
  unfold finish
  cases p.bump <;> rfl

theorem endTestSignal_s (c : Core) : c.endTestSignal.2.s = c.s := by
  unfold endTestSignal
  rw [finish_s]
  rcases takeTest_cases [] c with ⟨-, same⟩ | same
  · rw [same]
  · rw [same]

section
variable [Libm]

theorem setSolo_s {mix : MixId} {sources : List Source} {c c' : Core} {p : Partial}
    (ran : Core.setSolo mix sources c = .ok p c') : c'.s = c.s := by
  simp only [Core.setSolo, then_ok_iff, get_run, lift_ok_iff, EStateM.Result.ok.injEq] at ran
  obtain ⟨_, _, ⟨rfl, rfl⟩, m, _, ⟨-, rfl⟩, ran⟩ := ran
  split at ran
  · cases ran
  · simp only [then_ok_iff, lift_ok_iff, modifyGet_run, EStateM.Result.ok.injEq] at ran
    obtain ⟨new, _, ⟨-, rfl⟩, -, rfl⟩ := ran
    rcases replaceSolo_cases m mix new c with same | same
    · rw [same]
    · rw [same]
      rfl

theorem handle_quiet {cmd : Cmd} (quiet : Quiet cmd) (c : Core) :
    (c.handle (.request cmd)).2.s = c.s := by
  rcases quiet with rfl | ⟨mix, rfl⟩
  · rfl
  · simp only [handle]
    cases ran : Core.apply (.setSolo mix []) c with
    | error e c' => rw [apply_keepsOnError _ c e c' ran]
    | ok out c' =>
      obtain ⟨p, mid, dispatched, finished⟩ := then_ok_iff.mp ran
      simp only [modifyGet_run, EStateM.Result.ok.injEq] at finished
      rw [← finished.2, finish_s]
      exact setSolo_s dispatched

theorem clearSolos_s (c : Core) : c.clearSolos.2.s = c.s := by
  have fold : ∀ (ms : List ℕ) (acc : Partial × Core), (ms.foldl clearSolo acc).2.s = acc.2.s := by
    intro ms
    induction ms with
    | nil => exact fun acc => rfl
    | cons m rest ih =>
      intro acc
      rw [List.foldl_cons, ih]
      rfl
  unfold clearSolos
  rw [finish_s]
  exact fold _ _

/-- A core of the topology, in canonical form. -/
structure Desk.Sound (topo : Topology) (d : Desk) : Prop where
  wf : TopologyProofs.WellFormed topo
  topo : d.core.topo = topo
  canonical : Canonical d.core

variable {topo : Topology} {d : Desk}

theorem Desk.Sound.handle (sound : d.Sound topo) (event : Event) :
    (d.core.handle event).2.topo = topo ∧ Canonical (d.core.handle event).2 := by
  have wf : TopologyProofs.WellFormed d.core.topo := sound.topo.symm ▸ sound.wf
  obtain ⟨kept, canonical⟩ := (handle_spec d.core wf sound.canonical event).canonical wf sound.canonical
  exact ⟨kept.trans sound.topo, canonical⟩

theorem Desk.Sound.meet (sound : d.Sound topo) (event : Event) (whose : String) :
    (d.meet event whose).Sound topo := by
  obtain ⟨kept, canonical⟩ := sound.handle event
  unfold Desk.meet
  split
  · exact ⟨sound.wf, kept, canonical⟩
  · exact ⟨sound.wf, kept, canonical⟩

omit [Libm] in
/-- The engine's state, shaped by its topology, is what the shaper makes of it. -/
theorem Desk.Sound.fixed (sound : d.Sound topo) :
    (Proto.reconcile topo.info d.core.state).1 = d.core.state := by
  have wf : TopologyProofs.WellFormed d.core.topo := sound.topo.symm ▸ sound.wf
  rw [← sound.topo]
  exact congrArg Prod.fst (shaper_fixed wf sound.canonical.shaped)

/-- The parts of the desk a met event leaves alone. -/
theorem Desk.meet_frame (d : Desk) (event : Event) (whose : String) :
    (d.meet event whose).saved = d.saved ∧ (d.meet event whose).inbox = d.inbox ∧
      (d.meet event whose).linked = d.linked ∧ (d.meet event whose).mirror = d.mirror := by
  unfold Desk.meet
  split <;> exact ⟨rfl, rfl, rfl, rfl⟩

omit [Libm] in
theorem Desk.post_core (d : Desk) (cmd : Cmd) (whose : String) : (d.post cmd whose).core = d.core := by
  unfold Desk.post
  split <;> rfl

omit [Libm] in
theorem Desk.post_inbox (d : Desk) (cmd : Cmd) (whose : String) {p : Cmd × String}
    (member : p ∈ (d.post cmd whose).inbox) : p ∈ d.inbox ∨ p = (cmd, whose) := by
  unfold Desk.post at member
  split at member
  · exact (List.mem_append.mp member).imp_right List.mem_singleton.mp
  · exact .inl member

theorem Desk.meet_core (d : Desk) (event : Event) (whose : String) :
    (d.meet event whose).core = (d.core.handle event).2 := by
  unfold Desk.meet
  split <;> rfl

theorem Desk.meet_import (sound : d.Sound topo) (state : MixState) (whose : String) :
    (d.meet (.request (.importState state)) whose).core.state = (Proto.reconcile topo.info state).1 ∧
      (d.meet (.request (.importState state)) whose).owner = whose := by
  have wf : TopologyProofs.WellFormed d.core.topo := sound.topo.symm ▸ sound.wf
  refine ⟨?_, rfl⟩
  rw [← sound.topo]
  exact toState_reconcile wf state

/-- Events that leave the mixes as they are. -/
def QuietEvent : Event → Prop
  | .request cmd => Quiet cmd
  | _ => True

theorem Desk.meet_quiet (sound : d.Sound topo) {event : Event} (quiet : QuietEvent event) (whose : String) :
    (d.meet event whose).core.state = d.core.state ∧ (d.meet event whose).owner = d.owner := by
  have kept := (sound.handle event).1.trans sound.topo.symm
  have state : ∀ c : Core, c.topo = d.core.topo → c.s = d.core.s → c.state = d.core.state := by
    intro c topo s
    simp only [Core.state, topo, s]
  cases event with
  | request cmd =>
    have unchanged := state _ kept (handle_quiet quiet d.core)
    rcases quiet with rfl | ⟨mix, rfl⟩
    · exact ⟨unchanged, rfl⟩
    · exact ⟨unchanged, rfl⟩
  | clearSolos => exact ⟨state _ kept (clearSolos_s d.core), rfl⟩
  | endTestSignal => exact ⟨state _ kept (endTestSignal_s d.core), rfl⟩

/-- The desk right after `cmd` was answered. -/
def Desk.after (d : Desk) (cmd : Cmd) (whose : String) : Desk :=
  let d := d.meet (.request cmd) whose
  { d with mirror := d.view }

/-- Only an import changes whose state the core holds. -/
theorem Desk.meet_owner (d : Desk) {cmd : Cmd} (other : isImport cmd = false) (whose : String) :
    (d.meet (.request cmd) whose).owner = d.owner := by
  cases cmd with
  | importState state => cases other
  | _ => rfl

/-- The engine goes on by itself, or hears what leaves the mixes as they are. -/
inductive Goes (d : Desk) : Desk → Prop where
  /-- It handles the next message. -/
  | handle (cmd : Cmd) (whose : String) (rest : List (Cmd × String)) (next : d.inbox = (cmd, whose) :: rest) :
    Goes d { d.meet (.request cmd) whose with inbox := rest }
  | aside (event : Event) (quiet : QuietEvent event) (whose : String) : Goes d (d.meet event whose)
  | save : Goes d { d with saved := (d.core.state, d.owner) }
  /-- Messages on the way are lost, or the mirror changes: to the core's state when it is
  synced anew. -/
  | pipe (inbox : List (Cmd × String)) (fewer : inbox = d.inbox ∨ inbox = []) (linked : Bool)
      (mirror : Mirror) (seen : mirror.synced = true → mirror = d.view) :
    Goes d { d with inbox, linked, mirror }
  | send (cmd : Cmd) (whose : String) (quiet : Quiet cmd) :
    Goes d { d with inbox := d.inbox ++ [(cmd, whose)] }
  | idle : Goes d d

theorem drift_goes (d : Desk) (e : Drift) (on : e ≠ .reboot) : Goes d (d.drift e) := by
  cases e with
  | handle =>
    simp only [Desk.drift]
    split
    · rename_i cmd whose rest next
      exact .handle cmd whose rest next
    · exact .idle
  | see =>
    simp only [Desk.drift]
    split
    · exact .pipe d.inbox (.inl rfl) d.linked d.view fun _ => rfl
    · exact .idle
  | gap => exact .pipe d.inbox (.inl rfl) d.linked _ (by simp)
  | lose => exact .pipe d.inbox (.inl rfl) false _ (by simp [Mirror.disconnected])
  | join =>
    simp only [Desk.drift]
    split
    · exact .idle
    · exact .pipe [] (.inr rfl) true _ fun _ => rfl
  | save => exact .save
  | reboot => exact absurd rfl on
  | clearSolos => exact .aside .clearSolos trivial d.owner
  | endTestSignal => exact .aside .endTestSignal trivial d.owner

/-- Handling `p` leaves a state that `own` allows where there was one. -/
def Carries (topo : Topology) (own : String → MixState → Prop) (p : Cmd × String) : Prop :=
  ∀ d : Desk, d.Sound topo → own d.owner d.core.state →
    own (d.meet (.request p.1) p.2).owner (d.meet (.request p.1) p.2).core.state

/-- Whose state the core holds, the mirror shows and the messages on the way bring is as
`own` allows. -/
structure Desk.Under (topo : Topology) (own : String → MixState → Prop) (d : Desk) : Prop where
  sound : d.Sound topo
  holds : own d.owner d.core.state
  sees : d.mirror.synced = true → ∃ l, own l d.mirror.state
  sent : ∀ p ∈ d.inbox, Carries topo own p

section
variable {own : String → MixState → Prop}

theorem carries_quiet {cmd : Cmd} (quiet : Quiet cmd) (whose : String) : Carries topo own (cmd, whose) := by
  intro d sound holds
  obtain ⟨state, owner⟩ := Desk.meet_quiet sound (show QuietEvent (.request cmd) from quiet) whose
  rw [state, owner]
  exact holds

theorem carries_import {state : MixState} {whose : String} (is : own whose (Proto.reconcile topo.info state).1) :
    Carries topo own (.importState state, whose) := by
  intro d sound _
  obtain ⟨shaped, owner⟩ := Desk.meet_import sound state whose
  rw [shaped, owner]
  exact is

theorem Desk.Under.post (under : d.Under topo own) {cmd : Cmd} {whose : String}
    (carries : Carries topo own (cmd, whose)) :
    { d with inbox := d.inbox ++ [(cmd, whose)] : Desk }.Under topo own where
  sound := ⟨under.sound.wf, under.sound.topo, under.sound.canonical⟩
  holds := under.holds
  sees := under.sees
  sent := by
    intro p member
    rcases List.mem_append.mp member with before | last
    · exact under.sent p before
    · rw [List.mem_singleton.mp last]
      exact carries

theorem Desk.Under.met (under : d.Under topo own) {event : Event} {whose : String}
    (holds : own (d.meet event whose).owner (d.meet event whose).core.state) :
    (d.meet event whose).Under topo own := by
  obtain ⟨-, inbox, -, mirror⟩ := d.meet_frame event whose
  refine ⟨under.sound.meet event whose, holds, ?_, ?_⟩
  · rw [mirror]
    exact under.sees
  · rw [inbox]
    exact under.sent

/-- An import that was answered, with nothing else on its way. -/
theorem Desk.under_import (sound : d.Sound topo) (idle : d.inbox = []) {state : MixState} {whose : String}
    (is : own whose (Proto.reconcile topo.info state).1) :
    (d.after (.importState state) whose).Under topo own := by
  obtain ⟨shaped, owner⟩ := Desk.meet_import sound state whose
  have met := sound.meet (.request (.importState state)) whose
  have holds : own (d.meet (.request (.importState state)) whose).owner
      (d.meet (.request (.importState state)) whose).core.state := by
    rw [shaped, owner]
    exact is
  refine ⟨⟨met.wf, met.topo, met.canonical⟩, holds, fun _ => ⟨_, holds⟩, ?_⟩
  intro p member
  have empty : (d.after (.importState state) whose).inbox = [] := idle
  rw [empty] at member
  exact absurd member List.not_mem_nil

/-- The same of a request that leaves the mixes as they are. -/
theorem Desk.under_quiet (sound : d.Sound topo) (idle : d.inbox = []) {cmd : Cmd} (quiet : Quiet cmd)
    (whose : String) (holds : own d.owner d.core.state) : (d.after cmd whose).Under topo own := by
  obtain ⟨state, owner⟩ := Desk.meet_quiet sound (show QuietEvent (.request cmd) from quiet) whose
  obtain ⟨-, inbox, -⟩ := d.meet_frame (.request cmd) whose
  have met := sound.meet (.request cmd) whose
  have after : own (d.meet (.request cmd) whose).owner (d.meet (.request cmd) whose).core.state := by
    rw [state, owner]
    exact holds
  refine ⟨⟨met.wf, met.topo, met.canonical⟩, after, fun _ => ⟨_, after⟩, ?_⟩
  intro p member
  have empty : (d.after cmd whose).inbox = [] := inbox.trans idle
  rw [empty] at member
  exact absurd member List.not_mem_nil

theorem Desk.Under.goes (under : d.Under topo own) {d' : Desk} (goes : Goes d d') : d'.Under topo own := by
  cases goes with
  | handle cmd whose rest next =>
    have met := under.met (under.sent (cmd, whose) (by simp [next]) d under.sound under.holds)
    exact ⟨⟨met.sound.wf, met.sound.topo, met.sound.canonical⟩, met.holds, met.sees,
      fun p member => under.sent p (by simp [next, member])⟩
  | aside event quiet whose =>
    obtain ⟨state, owner⟩ := Desk.meet_quiet under.sound quiet whose
    refine under.met ?_
    rw [state, owner]
    exact under.holds
  | save => exact ⟨⟨under.sound.wf, under.sound.topo, under.sound.canonical⟩, under.holds, under.sees, under.sent⟩
  | pipe inbox fewer linked mirror seen =>
    refine ⟨⟨under.sound.wf, under.sound.topo, under.sound.canonical⟩, under.holds, ?_, ?_⟩
    · intro synced
      refine ⟨d.owner, ?_⟩
      rw [seen synced]
      exact under.holds
    · rcases fewer with rfl | rfl
      · exact under.sent
      · exact fun p member => absurd member List.not_mem_nil
  | send cmd whose quiet => exact under.post (carries_quiet quiet whose)
  | idle => exact under

end

/-- Kept by whatever the engine and the pipe do by themselves, a restart of the engine
apart. -/
def Stable (P : Assertion World) : Prop := ∀ w desk, Goes w.desk desk → P w → P { w with desk }

/-- No step waits for an engine that starts anew. -/
def Awake (o : Oracle Op Fate) : Prop := ∀ t op, Drift.reboot ∉ (o t op).drifts

variable {P Q : Assertion World}

theorem Stable.drifts (stable : Stable P) {ds : List Drift} (on : Drift.reboot ∉ ds) {w : World} (pre : P w) :
    P (w.drifts ds) := by
  induction ds generalizing w with
  | nil => exact pre
  | cons e rest ih =>
    have apart : e ≠ .reboot := fun same => on (by simp [same])
    have moved := stable w _ (drift_goes w.desk e apart) pre
    have same : w.drift e = { w with desk := w.desk.drift e } := by simp [World.drift, apart]
    refine ih (fun member => on (by simp [member])) ?_
    rw [same]
    exact moved

theorem Stable.flush (stable : Stable P) {w : World} (pre : P w) : P { w with desk := w.desk.flush } := by
  obtain ⟨store, desk, inUse, frozen, settling, early⟩ := w
  simp only [Desk.flush]
  generalize sent : desk.inbox = inbox
  induction inbox generalizing desk with
  | nil =>
    rw [List.foldl_nil, ← sent]
    exact pre
  | cons p rest ih =>
    have first := stable _ _ (.handle p.1 p.2 rest sent) pre
    have later := ih _ first rfl
    simp only [List.foldl_cons]
    -- The inbox of the desk is not read while its messages are met one by one.
    have unread : ∀ (ps : List (Cmd × String)) (d : Desk) (inbox : List (Cmd × String)),
        { ps.foldl (fun d p => d.meet (.request p.1) p.2) { d with inbox } with inbox := [] } =
          { ps.foldl (fun d p => d.meet (.request p.1) p.2) d with inbox := [] } := by
      intro ps
      induction ps with
      | nil => exact fun d inbox => rfl
      | cons p rest ih =>
        intro d inbox
        rw [List.foldl_cons, List.foldl_cons, ← ih (d.meet (.request p.1) p.2) inbox]
        unfold Desk.meet
        split <;> rfl
    rw [unread] at later
    exact later

section
variable {o : Oracle Op Fate} (awake : Awake o)
include awake

/-- A step on the files of an assertion the engine keeps. -/
theorem triple_file {α : Type} {op : Op} {act : World → α × World} {R : α → Assertion World}
    {E : Halt String → Assertion World} (stable : Stable P) (done : ∀ w, P w → R (act w).1 (act w).2)
    (failed : ∀ t kind, (o t op).ending = .failed kind → ∀ w, P w → E (.error kind) w)
    (stop : ∀ w, P w → E .stopped w) : Triple o P (fileStep op act) R E := by
  refine triple_step fun t w pre => ?_
  have moved := stable.drifts (awake t op) pre
  simp only
  cases ending : (o t op).ending with
  | stop sent => exact stop _ moved
  | failed kind => exact failed t kind ending _ moved
  | done => exact done _ moved
  | refused body => exact done _ moved
  | lost sent timeout => exact done _ moved

theorem triple_mirror {ε : Type} {R : Mirror → Assertion World} {E : Halt ε → Assertion World}
    (stable : Stable P) (done : ∀ w, P w → R w.desk.mirror w) (stop : ∀ w, P w → E .stopped w) :
    Triple o P mirror R E := by
  refine triple_step fun t w pre => ?_
  have moved := stable.drifts (awake t .mirror) pre
  simp only
  split
  · rename_i ended
    split at ended
    · cases ended
    · cases ended
      exact done _ moved
  · rename_i ended
    split at ended
    · cases ended
      exact stop _ moved
    · cases ended

theorem triple_waitSynced {ε : Type} {E : Halt ε → Assertion World} (stable : Stable P)
    (stop : ∀ w, P w → E .stopped w) : Triple o P waitSynced (fun _ => P) E := by
  refine triple_step fun t w pre => ?_
  have moved := stable.drifts (awake t .waitSynced) pre
  simp only
  split
  · rename_i ended
    split at ended
    · cases ended
    · split at ended
      · cases ended
        exact moved
      · cases ended
  · rename_i ended
    split at ended
    · cases ended
      exact stop _ moved
    · split at ended
      · cases ended
      · cases ended
        exact stop _ moved

omit awake in
theorem answered_cases (w : World) (cmd : Cmd) (whose : String) :
    w.answered cmd whose = (.ok (), { w with desk := w.desk.flush.after cmd whose }) ∨
      ∃ e, w.answered cmd whose = (.error e, { w with desk := w.desk.flush }) := by
  unfold World.answered
  cases ran : w.desk.flush.core.apply cmd with
  | ok out core => exact .inl (by simp only [ran, Desk.after])
  | error e core => exact .inr ⟨_, by simp only [ran]; rfl⟩

/-- A request of an assertion the engine keeps: it is on its way, or it never left, or it
was answered, all before it handled. -/
theorem triple_request {cmd : Cmd} {whose : String} {R : Assertion World}
    {E : Halt EngineError → Assertion World} (stable : Stable P)
    (answered : ∀ w, P w → w.desk.inbox = [] → R { w with desk := w.desk.after cmd whose })
    (idle : ∀ e w, P w → E e w)
    (posted : ∀ e w, P w → E e { w with desk := { w.desk with inbox := w.desk.inbox ++ [(cmd, whose)] } }) :
    Triple o P (requestApplied cmd whose) (fun _ => R) E := by
  refine triple_step fun t w pre => ?_
  have moved := stable.drifts (awake t (.request cmd)) pre
  generalize w.drifts (o t (.request cmd)).drifts = w at moved
  have post : ∀ e, E e { w with desk := w.desk.post cmd whose } := by
    intro e
    unfold Desk.post
    split
    · exact posted e w moved
    · exact idle e w moved
  have flushed := stable.flush moved
  simp only
  cases ending : (o t (.request cmd)).ending with
  | stop sent =>
    cases sent with
    | true => exact post _
    | false => exact idle _ _ moved
  | refused body =>
    cases linked : w.desk.linked with
    | true => exact idle _ _ flushed
    | false => exact idle _ _ moved
  | lost sent timeout =>
    cases linked : w.desk.linked with
    | false => exact idle _ _ moved
    | true =>
      cases sent with
      | true => exact post _
      | false => exact idle _ _ moved
  | done =>
    cases linked : w.desk.linked with
    | true =>
      rcases answered_cases w cmd whose with said | ⟨e, said⟩
      · simp only [said, Bool.not_true, Bool.false_eq_true, if_false]
        exact answered _ flushed rfl
      · simp only [said, Bool.not_true, Bool.false_eq_true, if_false]
        exact idle _ _ flushed
    | false => exact idle _ _ moved
  | failed kind =>
    cases linked : w.desk.linked with
    | true =>
      rcases answered_cases w cmd whose with said | ⟨e, said⟩
      · simp only [said, Bool.not_true, Bool.false_eq_true, if_false]
        exact answered _ flushed rfl
      · simp only [said, Bool.not_true, Bool.false_eq_true, if_false]
        exact idle _ _ flushed
    | false => exact idle _ _ moved

/-- A request that leaves the mixes as they are. -/
theorem triple_quiet {cmd : Cmd} {whose : String} (quiet : Quiet cmd) (stable : Stable P) :
    Triple o P (requestApplied cmd whose) (fun _ => P) (fun _ => P) := by
  refine triple_request awake stable ?_ (fun _ _ => id) ?_
  · intro w pre _
    have met := stable w _ (.aside (.request cmd) quiet whose) pre
    exact stable { w with desk := w.desk.meet (.request cmd) whose } _
      (.pipe _ (.inl rfl) _ _ fun _ => rfl) met
  · intro _ w pre
    exact stable w _ (.send cmd whose quiet) pre

end

end

end IemMixer.Server
