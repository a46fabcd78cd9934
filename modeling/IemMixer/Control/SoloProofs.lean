import IemMixer.Control.RoleProofs
import IemMixer.Rt.FullSyncProofs

/-! Who changes the mix, and how long solos last: only the controller's requests change
the mix state, the solos and the taps, and solos end when the controller has been gone
for the grace time. -/
namespace IemMixer.Control
open Lib Proto Rt IemMixer.Core

section
variable (env : Outside) [Libm]

/-! ### Only the controller -/

omit env in
/-- A request accepted from a connection in another role leaves the mix as it was. -/
theorem bystander_sameMix {c next : Core} {role : Option Role} {cmd : Cmd} {out : Outcome}
    (other : role ≠ some .control) (allowed : refusal role cmd = none)
    (accepted : c.apply cmd = .ok out next) : SameMix c next := by
  have may : cmd.supervisorMay = true := by
    unfold refusal at allowed
    split at allowed
    · cases allowed
    · split at allowed
      · cases allowed
      · simp_all [Cmd.supervisorMay]
    · split at allowed
      · cases allowed
      · simp_all
    · exact absurd rfl other
  unfold apply at accepted
  obtain ⟨p, mid, ran, finished⟩ := then_ok_iff.mp accepted
  have single : dispatch cmd = one cmd := by
    rcases dispatch_cases cmd with ⟨ops, rfl⟩ | single
    · cases may
    · exact single
  rw [single] at ran
  obtain ⟨topo, s, solo, listen⟩ := supervisor_sameMix may ran
  cases finished
  split
  · exact ⟨topo, s, solo, listen⟩
  · exact ⟨topo, s, solo, listen⟩

/-- The state in which a tick comes to its solos. -/
def beforeSolos (c : Control) (p : Pulse) : Control :=
  ((c.flushRt env).tickMeters env p.meters).tickStatus env p.now

omit [Libm] in
theorem sends_beforeSolos (c : Control) (p : Pulse) : Sends (fun _ => True) c (c.beforeSolos env p) :=
  ((sends_flushLoop _ env c c.pending).trans (sends_tickMeters env _ p.meters)).trans
    (sends_tickStatus env _ p.now)

omit [Libm] in
theorem tickTest_sameMix (c : Control) (now : ℕ) : SameMix c.core (c.tickTest env now).core := by
  rcases tickTest_cases env c now with same | ⟨now', sends⟩
  · rw [same]
    exact ⟨rfl, rfl, rfl, rfl⟩
  · rw [sends.core]
    have taken := takeTest_sameMix [] c.core
    show SameMix c.core c.core.endTestSignal.2
    unfold endTestSignal finish
    dsimp only
    split
    · exact taken
    · exact taken

/-- A tick changes the mix only where it ends the solos. -/
theorem tick_sameMix (c : Control) (p : Pulse) (early : ¬ (c.beforeSolos env p).GraceOver p.now) :
    SameMix c.core (c.tick env p).1.core := by
  rcases tick_cases env c p with ⟨exit, -, core⟩ | goesOn
  · rw [core]
    exact ⟨rfl, rfl, rfl, rfl⟩
  rw [goesOn]
  have kept : (c.beforeSolos env p).tickSolos env p.now = c.beforeSolos env p := by
    rcases tickSolos_cases env (c.beforeSolos env p) p.now with ⟨-, same⟩ | ⟨ended, -⟩
    · exact same
    · exact absurd ended early
  have before : SameMix c.core ((c.flushRt env).beforeSave env p).core := by
    have tested := tickTest_sameMix env (c.beforeSolos env p) p.now
    rw [(sends_beforeSolos env c p).core] at tested
    show SameMix c.core (((c.beforeSolos env p).tickSolos env p.now).tickTest env p.now).core
    rwa [kept]
  show SameMix c.core (((c.flushRt env).beforeSave env p).tickSave env p.now).core
  unfold tickSave
  split
  · rwa [save_core]
  · exact before

theorem Requested.sameMix {c c' : Control} {id : ℕ} {role : Option Role} {cmd : Cmd}
    (requested : Requested env c id role cmd c') (other : role ≠ some .control) :
    SameMix c.core c'.core := by
  have said : ∀ {out : Outcome} {c' : Control}, Taken c role cmd out c' → SameMix c.core c'.core := by
    intro out c' taken
    obtain ⟨next, now, accepted, sends⟩ := taken.accepted
    rw [sends.core]
    exact bystander_sameMix other taken.allowed accepted
  cases requested with
  | refused sends =>
    rw [sends.core]
    exact ⟨rfl, rfl, rfl, rfl⟩
  | told taken _ => exact said taken
  | saves taken _ =>
    rw [save_core]
    exact said taken
  | stops taken _ =>
    have same := said taken
    exact same
  | imported now taken _ =>
    have same := said taken
    exact same

/-- A frame changes the mix only as a request from the connection in the controller's role. -/
theorem frame_sameMix (c : Control) (id : ℕ) (parsed : Except (Option ℕ × ErrorBody) ClientMsg)
    (bystander : ∀ r origin cmd, parsed = .ok (.request r origin cmd) →
      c.peers[id]? ≠ some (some .control)) : SameMix c.core (c.frame env id parsed).core := by
  have silent : ∀ {c' : Control}, c'.core = c.core → SameMix c.core c'.core := by
    rintro c' same
    rw [same]
    exact ⟨rfl, rfl, rfl, rfl⟩
  unfold frame
  split
  · exact silent rfl
  · rename_i role here
    split
    · exact silent (sends_reply env c id _ _).core
    · exact silent (quiet_hello env c id _ _ here).core
    · rename_i r origin cmd
      have other : role ≠ some .control := fun same => bystander r origin cmd rfl (same ▸ here)
      exact (request_spec env c id role r origin cmd).sameMix env other

/-- Only the controller changes the mix. Whatever the loop meets, in any state of it: the
mix state, the solos and the taps differ afterwards only after a request frame of the
connection whose role is then `Control`, or after the tick that ends the solos when no
controller was there for the grace time. -/
theorem only_controller_mixes (l : Loop) (act : Act)
    (differs : (l.handle env act).1.control.core.state ≠ l.control.core.state ∨
      (l.handle env act).1.control.core.solo ≠ l.control.core.solo ∨
      (l.handle env act).1.control.core.listen ≠ l.control.core.listen) :
    (∃ id r origin cmd, act = .frame id (.ok (.request r origin cmd)) ∧
      l.control.peers[id]? = some (some .control)) ∨
    ∃ p, act = .tick p ∧ (l.control.beforeSolos env p).GraceOver p.now := by
  by_contra neither
  rw [not_or] at neither
  have same : SameMix l.control.core (l.handle env act).1.control.core := by
    cases act with
    | connected =>
      simp only [Loop.handle]
      split <;> exact ⟨rfl, rfl, rfl, rfl⟩
    | closed id =>
      rw [show (l.handle env (.closed id)).1.control.core = l.control.core from
        (sends_dropPeer env _ id).core]
      exact ⟨rfl, rfl, rfl, rfl⟩
    | frame id parsed =>
      refine frame_sameMix env l.control id parsed fun r origin cmd shape here => ?_
      exact neither.1 ⟨id, r, origin, cmd, by rw [shape], here⟩
    | tick p => exact tick_sameMix env l.control p fun ended => neither.2 ⟨p, rfl, ended⟩
  obtain ⟨topo, s, solo, listen⟩ := same
  rcases differs with state | other | other
  · exact state (by simp only [Core.state, topo, s])
  · exact other solo
  · exact other listen

end

/-- At `duet` a solo changed the core, and it was a request of connection 1, then the
controller. -/
theorem only_controller_mixes_duet :
    ∃ l, DuetReaches calm (fun _ _ => true) l ∧
      (@Loop.handle calm duetLibm l
        (.frame 1 (.ok (.request 1 none (.setSolo "eng" [.input "voice"]))))).1.control.core.solo ≠
          l.control.core.solo ∧ l.control.peers[1]? = some (some .control) := by
  have ran : (duetRun calm (fun _ _ => true)
      [.connected, .frame 1 (.ok (.hello 1 .control "server"))]).any fun l => decide <|
      l.control.core.solo.isEmpty = true ∧ (@Loop.handle calm duetLibm l
        (.frame 1 (.ok (.request 1 none (.setSolo "eng" [.input "voice"]))))).1.control.core.solo.isEmpty =
          false := by decide +kernel
  obtain ⟨l, reached, facts⟩ := (Option.any_eq_true _ _).mp ran
  obtain ⟨off, on⟩ := of_decide_eq_true facts
  have differs : (@Loop.handle calm duetLibm l
      (.frame 1 (.ok (.request 1 none (.setSolo "eng" [.input "voice"]))))).1.control.core.solo ≠
        l.control.core.solo := by
    intro same
    rw [same, off] at on
    cases on
  rcases @only_controller_mixes calm duetLibm l _ (.inr (.inl differs)) with
    ⟨id, r, origin, cmd, shape, there⟩ | ⟨p, shape, -⟩
  · cases shape
    exact ⟨l, duet_reaches reached, differs, there⟩
  · cases shape

end IemMixer.Control
