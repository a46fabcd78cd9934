import IemMixer.Server.CrashProofs
import IemMixer.Server.EntryProofs

/-! A restore among the pages' changes. Until the engine comes to the import every entry has the
value of the last change accepted to it; the import sets an entry that the restore should leave
alone back to what the mirror showed when the restore read it. -/
namespace IemMixer.Server
open Lib Proto

namespace Restore
variable [Libm] [Sha256] {topo : Topology} {start a a' : Restore}

/-- When the engine comes to the import, each entry the restore should leave alone has the value
that the mirror had when the restore read it. -/
def Calm (a : Restore) : Move → Prop
  | .drift .handle => ∀ (state : MixState) (whose : String) (rest : List (Cmd × String)),
    a.desk.inbox = (.importState state, whose) :: rest → ∀ seen, a.phase.imported = some seen →
      ∀ e, a.Spared e → e.value seen = e.value a.desk.core.state
  | _ => True

/-- Every entry the restore should leave alone has the value of the last accepted change to it,
or the one it had at `start` if there was none. -/
def KeepsChanges (start a : Restore) : Prop :=
  ∀ e, a.Spared e → e.value a.desk.core.state = e.last (e.value start.desk.core.state) a.changes

structure Inv (topo : Topology) (start a : Restore) : Prop where
  sound : a.desk.Sound topo
  /-- The only import on its way is the restore's. -/
  imports : ∀ (state : MixState) (whose : String), (.importState state, whose) ∈ a.desk.inbox →
    ∃ seen, a.phase.imported = some seen ∧ state = a.target seen
  kept : KeepsChanges start a

omit [Libm] in
theorem Spared.seen {e : Entry} (spared : a.Spared e) {seen : MixState} (sent : a.phase.imported = some seen) :
    e.value (a.target seen) = e.value seen :=
  (spared seen sent).2.trans (Entry.value_keepRunning (spared seen sent).1)

omit [Libm] in
/-- Only the pipe, the mirror and what is saved change. -/
private theorem Inv.aside (inv : Inv topo start a) {d : Desk} (core : d.core = a.desk.core)
    (inbox : ∀ p ∈ d.inbox, p ∈ a.desk.inbox ∨ isImport p.1 = false) : Inv topo start { a with desk := d } where
  sound := ⟨inv.sound.wf, core ▸ inv.sound.topo, core ▸ inv.sound.canonical⟩
  imports state whose member := by
    rcases inbox _ member with before | plain
    · exact inv.imports state whose before
    · cases plain
  kept e spared := by
    rw [core]
    exact inv.kept e spared

/-- The engine meets something of its own. -/
private theorem Inv.meets (inv : Inv topo start a) {event : Core.Event} (own : QuietEvent event) (whose : String) :
    Inv topo start { a with desk := a.desk.meet event whose } where
  sound := inv.sound.meet event whose
  imports state whose' member := by
    rw [(a.desk.meet_frame event whose).2.1] at member
    exact inv.imports state whose' member
  kept e spared := by
    rw [(Desk.meet_quiet inv.sound own whose).1]
    exact inv.kept e spared

private theorem Inv.handle (inv : Inv topo start a) (calm : a.Calm (.drift .handle)) :
    Inv topo start { a with desk := a.desk.drift .handle, changes := a.changes ++ said a.desk } := by
  cases inbox : a.desk.inbox with
  | nil => simpa only [Desk.drift, said, inbox, List.append_nil] using inv
  | cons p rest =>
    obtain ⟨cmd, whose⟩ := p
    have core := a.desk.meet_core (.request cmd) whose
    have met := inv.sound.meet (.request cmd) whose
    simp only [Desk.drift, said, inbox]
    refine ⟨⟨met.wf, met.topo, met.canonical⟩, fun state whose' member => ?_, fun e spared => ?_⟩
    · exact inv.imports state whose' (inbox ▸ List.mem_cons_of_mem _ member)
    · have before := inv.kept e spared
      show e.value (a.desk.meet (.request cmd) whose).core.state = _
      rw [core, Entry.last_append, ← before]
      cases plain : isImport cmd with
      | false => exact Entry.value_request inv.sound plain
      | true => cases cmd with
        | importState state =>
          obtain ⟨seen, sent, target⟩ := inv.imports state whose (inbox ▸ List.mem_cons_self)
          have read := calm state whose rest inbox seen sent e spared
          have brought : e.value state = e.value a.desk.core.state := target ▸ (spared.seen sent).trans read
          exact Entry.value_import inv.sound brought
        | _ => cases plain

omit [Libm] in
private theorem Inv.page (inv : Inv topo start a) {cmds : List Cmd} (plain : cmds.any isImport = false) :
    Inv topo start { a with desk := cmds.foldl (fun d cmd => d.post cmd "") a.desk } := by
  have posted : ∀ d : Desk, (cmds.foldl (fun d cmd => d.post cmd "") d).core = d.core ∧
      ∀ p ∈ (cmds.foldl (fun d cmd => d.post cmd "") d).inbox, p ∈ d.inbox ∨ isImport p.1 = false := by
    clear inv
    induction cmds with
    | nil => exact fun d => ⟨rfl, fun p => .inl⟩
    | cons cmd rest ih =>
      intro d
      obtain ⟨first, later⟩ := Bool.or_eq_false_iff.mp (List.any_cons.symm.trans plain)
      obtain ⟨core, inbox⟩ := ih later (d.post cmd "")
      refine ⟨core.trans (d.post_core cmd ""), fun p member => ?_⟩
      rcases inbox p member with before | plain
      · rcases d.post_inbox cmd "" before with before | rfl
        · exact .inl before
        · exact .inr first
      · exact .inr plain
  exact inv.aside (posted a.desk).1 (posted a.desk).2

omit [Libm] in
/-- The restore goes on before its import is sent. -/
private theorem Inv.goes (inv : Inv topo start a) (before : a.phase.imported = none) (phase : Restoring) :
    Inv topo start { a with phase } where
  sound := inv.sound
  imports state whose member := by
    obtain ⟨seen, sent, -⟩ := inv.imports state whose member
    cases before.symm.trans sent
  kept e _ := inv.kept e fun seen sent => by cases before.symm.trans sent

omit [Libm] in
private theorem Inv.send (inv : Inv topo start a) {seen : MixState} (read : a.phase = .read seen) :
    Inv topo start { a with desk := a.desk.post (.importState (a.target seen)) "", phase := .sent seen } where
  sound := by
    have core := a.desk.post_core (.importState (a.target seen)) ""
    exact ⟨inv.sound.wf, core ▸ inv.sound.topo, core ▸ inv.sound.canonical⟩
  imports state whose member := by
    rcases Desk.post_inbox _ _ _ member with before | new
    · obtain ⟨other, sent, -⟩ := inv.imports state whose before
      rw [read] at sent
      cases sent
    · cases new
      exact ⟨seen, rfl, rfl⟩
  kept e _ := by
    rw [Desk.post_core]
    refine inv.kept e fun other sent => ?_
    rw [read] at sent
    cases sent

theorem Inv.move (inv : Inv topo start a) {m : Move} (calm : a.Calm m) (moved : a.move m = some a') :
    Inv topo start a' := by
  cases m with
  | page cmds =>
    simp only [Restore.move] at moved
    split at moved
    · cases moved
    rename_i plain
    split at moved
    · cases moved
      exact inv
    · cases moved
      exact inv.page (by simpa using plain)
  | check =>
    simp only [Restore.move] at moved
    split at moved
    · rename_i asked
      cases moved
      exact inv.goes (by rw [asked]; rfl) _
    · cases moved
  | read =>
    simp only [Restore.move] at moved
    split at moved
    · rename_i checked
      cases moved
      exact inv.goes (by rw [checked]; rfl) _
    · cases moved
  | send =>
    simp only [Restore.move] at moved
    split at moved
    · rename_i seen read
      split at moved
      · cases moved
        exact inv.send read
      · cases moved
        exact inv.goes (by rw [read]; rfl) _
    · cases moved
  | finish =>
    simp only [Restore.move] at moved
    split at moved
    · rename_i seen sent
      cases moved
      refine ⟨inv.sound, fun state whose member => ?_, fun e spared => inv.kept e fun other was => spared other ?_⟩
      · obtain ⟨other, was, target⟩ := inv.imports state whose member
        rw [sent] at was
        exact ⟨other, was, target⟩
      · rw [sent] at was
        exact was
    · cases moved
  | drift d =>
    cases d with
    | handle =>
      cases moved
      exact inv.handle calm
    | see =>
      cases moved
      unfold Desk.drift
      dsimp only
      split
      · exact inv.aside rfl fun p => .inl
      · exact inv
    | gap | save | lose =>
      cases moved
      exact inv.aside rfl fun p => .inl
    | join =>
      cases moved
      unfold Desk.drift
      dsimp only
      split
      · exact inv
      · exact inv.aside rfl fun p member => absurd member List.not_mem_nil
    | reboot => cases moved
    | clearSolos =>
      cases moved
      exact inv.meets (show QuietEvent .clearSolos from trivial) a.desk.owner
    | endTestSignal =>
      cases moved
      exact inv.meets (show QuietEvent .endTestSignal from trivial) a.desk.owner

omit [Libm] in
theorem inv_starts (sound : start.desk.Sound topo) (starts : start.Starts) : Inv topo start start where
  sound := sound
  imports state whose member := by
    rw [starts.inbox] at member
    cases member
  kept e _ := by
    rw [starts.changes]
    rfl

/-- While a restore runs among the pages' changes, and once all were answered, each entry that the
backup lacks and the lineup's rules do not touch has the value of the last change accepted to
it, or the one before the restore. -/
theorem restore_keeps_changes (start : Restore) (sound : start.desk.Sound topo) (starts : start.Starts) (a : Restore)
    (run : Leads move Calm start a) : KeepsChanges start a :=
  (run.invariant (I := Inv topo start) (fun _ _ _ inv calm moved => inv.move calm moved) (inv_starts sound starts)).kept

end Restore

section
attribute [local instance] Core.duetLibm mutedDigest

open Restore

/-- A backup that holds nothing is restored. -/
def duetRestore : Restore :=
  let desk : Desk := { core := Core.duetCore, owner := "", saved := ({}, ""), mirror := .start }
  { desk := { desk with mirror := desk.view }, backup := { state := {} } }

theorem duetRestore_sound : duetRestore.desk.Sound TopologyProofs.duetCompiled.topo :=
  ⟨(TopologyProofs.compile_spec _ TopologyProofs.duetCompiled).1, rfl, Core.new_canonical ..⟩

def mutesAnna : Restore.Move := .page [.setMix "anna" none (some true)]

/-- The engine comes to the import in the state that the restore read. -/
def Restore.unchanged (a : Restore) : Restore.Move → Bool
  | .drift .handle => a.desk.inbox.head?.all fun p =>
    !isImport p.1 || a.phase.imported.all fun seen => decide (seen = a.desk.core.state)
  | _ => true

theorem calm_of_unchanged {a : Restore} {m : Restore.Move} (same : a.unchanged m = true) : a.Calm m := by
  cases m with
  | drift d =>
    cases d with
    | handle =>
      intro state whose rest inbox seen sent e _
      have all : a.unchanged (.drift .handle) = true := same
      simp only [unchanged, inbox, List.head?_cons, Option.all_some, isImport, Bool.not_true, Bool.false_or, sent,
        decide_eq_true_eq] at all
      rw [all]
    | _ => trivial
  | _ => trivial

/-- Anna's mute comes after the import. -/
theorem restore_keeps_changes_duet : ∃ a : Restore, Leads move Calm duetRestore a ∧ KeepsChanges duetRestore a ∧
    a.desk.inbox = [] ∧ a.phase.imported ≠ none ∧
      (Entry.out "anna").value a.desk.core.state ≠ (Entry.out "anna").value duetRestore.desk.core.state := by
  have ran : (runThrough move unchanged duetRestore [.check, .read, .send, mutesAnna, .drift .handle, .drift .handle,
      .finish]).any (fun a => a.desk.inbox.isEmpty && a.phase.imported.isSome &&
        decide ((Entry.out "anna").value a.desk.core.state ≠ (Entry.out "anna").value duetRestore.desk.core.state)) =
          true := by
    decide +kernel
  obtain ⟨a, led, fine⟩ := (Option.any_eq_true _ _).mp ran
  simp only [Bool.and_eq_true, List.isEmpty_iff, decide_eq_true_eq] at fine
  have run : Leads move Calm duetRestore a := runThrough_leads (fun _ _ => calm_of_unchanged) led
  refine ⟨a, run, restore_keeps_changes duetRestore duetRestore_sound ⟨rfl, rfl, rfl⟩ a run, fine.1.1, ?_, fine.2⟩
  rw [← Option.isSome_iff_ne_none]
  exact fine.1.2

/-- Anna's mute is accepted after the restore read the mirror and before its import. -/
theorem a_restore_undoes_a_mute : duetRestore.Starts ∧ ∃ a : Restore, Leads move (fun _ _ => True) duetRestore a ∧
    a.desk.inbox = [] ∧ a.phase.imported ≠ none ∧ ¬ KeepsChanges duetRestore a := by
  have ran : (runThrough move (fun _ _ => true) duetRestore [.check, .read, mutesAnna, .send, .drift .handle,
      .drift .handle, .finish]).any (fun a => a.desk.inbox.isEmpty && a.phase.imported.isSome &&
        a.phase.imported.all (fun seen => !(Entry.out "anna").holds a.backup.state &&
          decide ((Entry.out "anna").value (a.target seen) =
            (Entry.out "anna").value (keepRunning a.backup.state seen))) &&
        decide ((Entry.out "anna").value a.desk.core.state ≠
          (Entry.out "anna").last ((Entry.out "anna").value duetRestore.desk.core.state) a.changes)) = true := by
    decide +kernel
  obtain ⟨a, led, fine⟩ := (Option.any_eq_true _ _).mp ran
  simp only [Bool.and_eq_true, List.isEmpty_iff, decide_eq_true_eq] at fine
  obtain ⟨⟨⟨inbox, sent⟩, spared⟩, lost⟩ := fine
  refine ⟨⟨rfl, rfl, rfl⟩, a, runThrough_leads (fun _ _ _ => trivial) led, inbox, Option.isSome_iff_ne_none.mp sent, ?_⟩
  intro keeps
  refine lost (keeps (.out "anna") fun seen imported => ?_)
  rw [imported] at spared
  simpa using spared

end
end IemMixer.Server
