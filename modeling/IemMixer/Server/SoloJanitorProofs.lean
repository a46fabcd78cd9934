import IemMixer.Server.DeskProofs
import IemMixer.Server.SoloJanitor

/-! Solos without a page. A mix that has a solo once the engine handled everything sent has a
page, or is on the janitor's schedule, or was let go of: by a tick that found no solo in the
mirror, or that had no connection, or by a request that the connection lost. -/
namespace IemMixer.Server
open Lib Proto TopologyProofs

namespace SoloJanitor
variable {j : SoloJanitor} {mix : MixId} {now : ℕ}

theorem mem_due (mix : MixId) : mix ∈ (j.due now).1 ↔ ∃ t, j.left[mix]? = some t ∧ soloGrace ≤ now - t := by
  simp only [due, List.mem_map, List.mem_filter, decide_eq_true_eq]
  constructor
  · rintro ⟨⟨other, t⟩, ⟨member, late⟩, rfl⟩
    exact ⟨t, Std.ExtTreeMap.mem_toList_iff_getElem?_eq_some.mp member, late⟩
  · rintro ⟨t, left, late⟩
    exact ⟨(mix, t), ⟨Std.ExtTreeMap.mem_toList_iff_getElem?_eq_some.mpr left, late⟩, rfl⟩

theorem due_left (mix : MixId) : (j.due now).2.left[mix]? = if mix ∈ (j.due now).1 then none else j.left[mix]? := by
  have erased : ∀ (due : List MixId) (left : BTreeMap MixId ℕ),
      (due.foldl (fun left mix => left.erase mix) left)[mix]? = if mix ∈ due then none else left[mix]? := by
    intro due
    induction due with
    | nil => simp
    | cons first rest ih =>
      intro left
      rw [List.foldl_cons, ih, BTreeMap.getElem?_erase_eq]
      by_cases later : mix ∈ rest
      · simp [later]
      · by_cases here : first = mix
        · simp [here]
        · simp [later, here, Ne.symm here]
  exact erased _ _

/-- The count of each mix's page connections. -/
def Counts (j : SoloJanitor) (sessions : List MixId) : Prop :=
  ∀ mix, j.opened[mix]? = if mix ∈ sessions then some (sessions.count mix) else none

theorem Counts.connected {sessions : List MixId} (counts : j.Counts sessions) (mix : MixId) :
    (j.connected mix).Counts (mix :: sessions) := by
  intro other
  have before := counts other
  simp only [SoloJanitor.connected, BTreeMap.getElem?_insert_eq, List.mem_cons, List.count_cons]
  by_cases same : mix = other
  · subst same
    rw [before]
    by_cases member : mix ∈ sessions
    · simp [member]
    · simp [member, List.count_eq_zero.mpr member]
  · simp [same, Ne.symm same, before]

theorem Counts.disconnected {sessions : List MixId} (counts : j.Counts sessions) (now : ℕ) (member : mix ∈ sessions) :
    (j.disconnected mix now).Counts (sessions.erase mix) ∧
      (j.disconnected mix now).left = if mix ∈ sessions.erase mix then j.left else j.left.insert mix now := by
  have count : (sessions.erase mix).count mix = sessions.count mix - 1 := List.count_erase_self
  have still : mix ∈ sessions.erase mix ↔ ¬ sessions.count mix - 1 = 0 := by
    rw [← List.count_pos_iff, count]
    omega
  have others : ∀ other, mix ≠ other →
      (if other ∈ sessions.erase mix then some ((sessions.erase mix).count other) else none) =
        if other ∈ sessions then some (sessions.count other) else none := by
    intro other apart
    rw [List.count_erase_of_ne (Ne.symm apart)]
    simp only [List.mem_erase_of_ne (Ne.symm apart)]
  unfold SoloJanitor.disconnected
  rw [counts mix, if_pos member]
  dsimp only
  split
  · rename_i last
    refine ⟨fun other => ?_, by rw [if_neg (fun more => still.mp more last)]⟩
    dsimp only
    rw [BTreeMap.getElem?_erase_eq]
    by_cases same : mix = other
    · subst same
      rw [if_pos rfl, if_neg (fun more => still.mp more last)]
    · rw [if_neg same, counts, others other same]
  · rename_i more
    refine ⟨fun other => ?_, by rw [if_pos (still.mpr more)]⟩
    dsimp only
    rw [BTreeMap.getElem?_insert_eq]
    by_cases same : mix = other
    · subst same
      rw [if_pos rfl, if_pos (still.mpr more), count]
    · rw [if_neg same, counts, others other same]

end SoloJanitor

namespace Solos
variable {mix : MixId}

/-! ### What the engine does to the solos -/

theorem foldl_leaves_mono {cmds : List Cmd} {held held' : Bool} (more : held = true → held' = true)
    (left : cmds.foldl (leaves mix) held = true) : cmds.foldl (leaves mix) held' = true := by
  induction cmds generalizing held held' with
  | nil => exact more left
  | cons cmd rest ih =>
    refine ih (fun step => ?_) left
    unfold leaves at step ⊢
    split
    · simp only at step
      split
      · simpa [*] using step
      · simp only [*, if_false] at step
        exact more step
    · rename_i plain
      refine more ?_
      split at step
      · exact absurd rfl (plain _ _)
      · exact step

/-- What was there and is no more was cleared by a request. -/
theorem foldl_leaves_cleared {cmds : List Cmd} (gone : cmds.foldl (leaves mix) true = false) :
    .setSolo mix [] ∈ cmds := by
  induction cmds with
  | nil => cases gone
  | cons cmd rest ih =>
    rw [List.foldl_cons] at gone
    cases step : leaves mix true cmd with
    | true => exact List.mem_cons_of_mem _ (ih (step ▸ gone))
    | false =>
      unfold leaves at step
      split at step
      · split at step
        · rename_i same
          subst same
          have empty := List.isEmpty_iff.mp (by simpa using step)
          subst empty
          exact List.mem_cons_self
        · cases step
      · cases step

/-- No batch that sets a solo. -/
def tame : Cmd → Bool
  | .batch ops => !ops.any Core.setsSolo
  | _ => true

theorem tame_of_soloFree {cmd : Cmd} (free : soloFree cmd = true) : tame cmd = true := by
  cases cmd <;> first | rfl | exact free

theorem leaves_soloFree {cmd : Cmd} (free : soloFree cmd = true) {held : Bool} (left : leaves mix held cmd = true) :
    held = true := by
  cases cmd with
  | setSolo other sources =>
    have empty : sources.isEmpty = true := free
    unfold leaves at left
    simp only [empty, Bool.not_true] at left
    split at left
    · cases left
    · exact left
  | _ => exact left

theorem ahead_post (d : Desk) (cmd : Cmd) (whose : String) (mix : MixId) :
    ahead (d.post cmd whose) mix = if d.linked then leaves mix (ahead d mix) cmd else ahead d mix := by
  unfold Desk.post
  split
  · simp only [ahead, List.map_append, List.map_cons, List.map_nil, List.foldl_append, List.foldl_cons, List.foldl_nil]
  · rfl

variable [Libm]

/-- What the engine holds after a request was there, or is what the request leaves. -/
theorem soloed_handle {c : Core} (wf : WellFormed c.topo) {cmd : Cmd} (tamed : tame cmd = true) (mix : MixId) :
    (c.handle (.request cmd)).2.topo = c.topo ∧
      ((c.handle (.request cmd)).2.soloed mix = true → leaves mix (c.soloed mix) cmd = true) := by
  have quiet (silent : Core.Event.all (fun cmd => !Core.setsSolo cmd) (.request cmd) = true) :
      (c.handle (.request cmd)).2.topo = c.topo ∧
        ((c.handle (.request cmd)).2.soloed mix = true → c.soloed mix = true) :=
    let fewer := Core.handle_solos silent c
    ⟨fewer.1, fewer.soloed⟩
  cases cmd with
  | setSolo other sources =>
    obtain ⟨topo, others, clears⟩ := Core.setSolo_cases c wf other sources
    refine ⟨topo, fun held => ?_⟩
    unfold leaves
    dsimp only
    split
    · rename_i same
      subst same
      cases sources with
      | nil => cases (clears rfl).symm.trans held
      | cons _ _ => rfl
    · rename_i apart
      rwa [← others mix (Ne.symm apart)]
  | batch ops => exact quiet (by simpa [Core.Event.all, tame] using tamed)
  | _ => exact quiet rfl

/-! ### What keeps the solos tracked -/

def Covered (a : Solos) (mix : MixId) : Prop := mix ∈ a.sessions ∨ a.Scheduled mix

/-- A tick that looks at a mix while connected, which the engine has or will have a solo
on, finds one in the mirror; and no solo that the engine still has at a reconnect, on a mix with
no page and no schedule, is one let go of without a connection, or one whose clearing request
the last connection lost. -/
def Fair (a : Solos) : Move → Prop
  | .work => ∀ mix rest, a.hand = mix :: rest → a.desk.linked = true → ahead a.desk mix = true →
    (a.desk.mirror.solo mix).isEmpty = false
  | .drift .join => ∀ mix, a.desk.core.soloed mix = true → a.Covered mix ∨ (mix ∉ a.missed ∧ ahead a.desk mix = true)
  | _ => True

structure Inv (a : Solos) : Prop where
  wf : WellFormed a.desk.core.topo
  counts : a.janitor.Counts a.sessions
  tamed : ∀ p ∈ a.desk.inbox, tame p.1 = true
  past : ∀ (mix : MixId) (t : ℕ), a.janitor.left[mix]? = some t → t ≤ a.clock
  linked : a.desk.linked = true → a.missed = ∅
  tracked : ∀ mix, ahead a.desk mix = true → a.Covered mix ∨ mix ∈ a.missed

variable {a a' : Solos}

omit [Libm] in
theorem inv_starts (wf : WellFormed a.desk.core.topo) (starts : a.Starts) : a.Inv := by
  obtain ⟨sessions, janitor, ⟨hand, missed, inbox⟩, silent⟩ := starts
  refine ⟨wf, fun mix => ?_, by simp [inbox], by simp [janitor], fun _ => missed, fun mix more => ?_⟩
  · simp [janitor, sessions]
  · simp [ahead, inbox, silent] at more

omit [Libm] in
/-- A reconnect is fair just when each mix the engine still solos has a page or a schedule: on one
without, the solo was let go of without a connection or its clearing request was lost. -/
theorem Inv.fair_join (inv : a.Inv) :
    a.Fair (.drift .join) ↔ ∀ mix, a.desk.core.soloed mix = true → a.Covered mix := by
  constructor
  · intro fair mix held
    rcases fair mix held with covered | ⟨kept, more⟩
    · exact covered
    · exact (inv.tracked mix more).resolve_right kept
  · exact fun covered mix held => .inl (covered mix held)

omit [Libm] in
/-- Only what the engine will hold changes, and becomes no more. -/
private theorem Inv.desk (inv : a.Inv) {d : Desk} (lost : Option ℕ) (topo : d.core.topo = a.desk.core.topo)
    (tamed : ∀ p ∈ d.inbox, tame p.1 = true) (linked : d.linked = true → a.missed = ∅)
    (fewer : ∀ mix, ahead d mix = true → a.Covered mix ∨ ahead a.desk mix = true) :
    ({ a with desk := d, lost } : Solos).Inv where
  wf := topo ▸ inv.wf
  counts := inv.counts
  tamed := tamed
  past := inv.past
  linked := linked
  tracked mix more := (fewer mix more).elim .inl (inv.tracked mix)

omit [Libm] in
private theorem Inv.posts (inv : a.Inv) {cmd : Cmd} {whose : String} (tamed : tame cmd = true)
    (fewer : ∀ mix held, leaves mix held cmd = true → a.Covered mix ∨ held = true) :
    ({ a with desk := a.desk.post cmd whose } : Solos).Inv := by
  refine inv.desk a.lost ?_ (fun p member => ?_) (fun linked => inv.linked ?_) fun mix more => ?_
  · unfold Desk.post
    split <;> rfl
  · unfold Desk.post at member
    split at member
    · rcases List.mem_append.mp member with before | new
      · exact inv.tamed p before
      · rw [List.mem_singleton.mp new]
        exact tamed
    · exact inv.tamed p member
  · unfold Desk.post at linked
    split at linked
    · exact linked
    · exact linked
  · rw [ahead_post] at more
    split at more
    · exact fewer mix _ more
    · exact .inr more

omit [Libm] in
private theorem Inv.connect (inv : a.Inv) (mix : MixId) :
    ({ a with
        sessions := mix :: a.sessions
        janitor := a.janitor.connected mix
        missed := a.missed.erase mix } : Solos).Inv := by
  refine ⟨inv.wf, inv.counts.connected mix, inv.tamed, fun other t left => ?_, fun linked => ?_, fun other more => ?_⟩
  · simp only [SoloJanitor.connected, BTreeMap.getElem?_erase_eq] at left
    split at left
    · cases left
    · exact inv.past other t left
  · simp [inv.linked linked]
  · by_cases same : mix = other
    · exact .inl (.inl (same ▸ List.mem_cons_self))
    · rcases inv.tracked other more with (page | left | hand) | missed
      · exact .inl (.inl (List.mem_cons_of_mem _ page))
      · refine .inl (.inr (.inl ?_))
        simpa [SoloJanitor.connected, same] using left
      · exact .inl (.inr (.inr hand))
      · refine .inr ?_
        simpa [same] using missed

omit [Libm] in
private theorem Inv.close (inv : a.Inv) {mix : MixId} (member : mix ∈ a.sessions) :
    ({ a with sessions := a.sessions.erase mix, janitor := a.janitor.disconnected mix a.clock } : Solos).Inv := by
  obtain ⟨counts, left⟩ := inv.counts.disconnected a.clock member
  refine ⟨inv.wf, counts, inv.tamed, fun other t there => ?_, inv.linked, fun other more => ?_⟩
  · rw [left] at there
    split at there
    · exact inv.past other t there
    · rw [BTreeMap.getElem?_insert_eq] at there
      split at there
      · cases there
        exact le_refl _
      · exact inv.past other t there
  · have kept (there : a.janitor.left.contains other = true) :
        (a.janitor.disconnected mix a.clock).left.contains other = true := by
      rw [left]
      split
      · exact there
      · simp [there]
    rcases inv.tracked other more with (page | there | hand) | missed
    · by_cases same : other = mix
      · subst same
        by_cases still : other ∈ a.sessions.erase other
        · exact .inl (.inl still)
        · refine .inl (.inr (.inl ?_))
          simp [left, still]
      · exact .inl (.inl ((List.mem_erase_of_ne same).mpr page))
    · exact .inl (.inr (.inl (kept there)))
    · exact .inl (.inr (.inr hand))
    · exact .inr missed

omit [Libm] in
private theorem Inv.tick (inv : a.Inv) (rest : a.hand = []) :
    ({ a with hand := (a.janitor.due a.clock).1, janitor := (a.janitor.due a.clock).2 } : Solos).Inv := by
  refine ⟨inv.wf, inv.counts, inv.tamed, fun mix t left => ?_, inv.linked, fun mix more => ?_⟩
  · rw [SoloJanitor.due_left] at left
    split at left
    · cases left
    · exact inv.past mix t left
  · rcases inv.tracked mix more with (page | there | hand) | missed
    · exact .inl (.inl page)
    · by_cases due : mix ∈ (a.janitor.due a.clock).1
      · exact .inl (.inr (.inr due))
      · refine .inl (.inr (.inl ?_))
        rw [Std.ExtTreeMap.contains_eq_isSome_getElem?] at there ⊢
        rwa [SoloJanitor.due_left, if_neg due]
    · rw [rest] at hand
      cases hand
    · exact .inr missed

omit [Libm] in
/-- The tick lets go of `mix`, its clearing sent or not. -/
private theorem Inv.lets {mix : MixId} {rest : List MixId} (hand : a.hand = mix :: rest)
    {d : Desk} (next : ({ a with desk := d } : Solos).Inv) (none : d.linked = true → ahead d mix = false) :
    ({ a with
        desk := d, hand := rest
        missed := if ahead d mix then a.missed.insert mix else a.missed } : Solos).Inv := by
  refine ⟨next.wf, next.counts, next.tamed, next.past, fun linked => ?_, fun other more => ?_⟩
  · rw [none linked, if_neg (by simp)]
    exact next.linked linked
  · rcases next.tracked other more with (page | left | there) | missed
    · exact .inl (.inl page)
    · exact .inl (.inr (.inl left))
    · by_cases same : other = mix
      · subst same
        refine .inr ?_
        rw [more, if_pos rfl]
        simp
      · refine .inl (.inr (.inr ?_))
        have member : other ∈ a.hand := there
        rw [hand] at member
        exact (List.mem_cons.mp member).resolve_left same
    · refine .inr ?_
      have before : other ∈ a.missed := missed
      dsimp only
      split
      · simp [before]
      · exact before

omit [Libm] in
private theorem post_linked (d : Desk) (cmd : Cmd) (whose : String) : (d.post cmd whose).linked = d.linked := by
  unfold Desk.post
  split <;> rfl

private theorem Inv.work (inv : a.Inv) (fair : a.Fair .work) (moved : a.move .work = some a') : a'.Inv := by
  simp only [Solos.move] at moved
  split at moved
  · cases moved
  rename_i mix rest hand
  cases moved
  by_cases empty : (a.desk.mirror.solo mix).isEmpty = true
  · simp only [empty, if_true]
    refine Inv.lets hand inv fun linked => ?_
    cases more : ahead a.desk mix with
    | false => rfl
    | true => exact absurd ((fair mix rest hand linked more).symm.trans empty) (by simp)
  · simp only [empty, Bool.false_eq_true, if_false]
    refine Inv.lets hand (inv.posts rfl fun other held left => .inr ?_) fun linked => ?_
    · have free : soloFree (.setSolo mix []) = true := rfl
      exact leaves_soloFree free left
    · rw [ahead_post, ← post_linked, linked, if_pos rfl]
      simp [leaves]

/-! ### What the engine and the pipe do -/

/-- An event of the engine's own. -/
private theorem Inv.meets (inv : a.Inv) (event : Core.Event) (whose : String) {lost : Option ℕ}
    (fewer : Core.FewerSolos a.desk.core (a.desk.core.handle event).2) :
    ({ a with desk := a.desk.meet event whose, lost } : Solos).Inv := by
  have core := a.desk.meet_core event whose
  obtain ⟨-, inbox, linked, -⟩ := a.desk.meet_frame event whose
  refine inv.desk lost (core ▸ fewer.1) (inbox ▸ inv.tamed) (linked ▸ inv.linked) fun mix more => .inr ?_
  unfold ahead at more ⊢
  rw [core, inbox] at more
  exact foldl_leaves_mono fewer.soloed more

private theorem Inv.drift (inv : a.Inv) {d : Drift} (fair : a.Fair (.drift d)) (moved : a.move (.drift d) = some a') :
    a'.Inv := by
  cases d with
  | handle =>
    cases moved
    cases inbox : a.desk.inbox with
    | nil => simpa only [Desk.drift, inbox] using inv
    | cons p rest =>
      obtain ⟨cmd, whose⟩ := p
      have core := a.desk.meet_core (.request cmd) whose
      have linked := (a.desk.meet_frame (.request cmd) whose).2.2.1
      have tamed := inv.tamed (cmd, whose) (inbox ▸ List.mem_cons_self)
      simp only [Desk.drift, inbox]
      refine inv.desk a.lost ?_ (fun p member => ?_) (linked ▸ inv.linked) fun mix more => .inr ?_
      · exact core ▸ (soloed_handle inv.wf tamed "").1
      · exact inv.tamed p (inbox ▸ List.mem_cons_of_mem _ member)
      · unfold ahead at more ⊢
        rw [inbox, List.map_cons, List.foldl_cons]
        rw [core] at more
        exact foldl_leaves_mono (soloed_handle inv.wf tamed mix).2 more
  | see =>
    cases moved
    have same : ∀ mix, ahead (a.desk.drift .see) mix = ahead a.desk mix ∧
        (a.desk.drift .see).core.topo = a.desk.core.topo ∧ (a.desk.drift .see).inbox = a.desk.inbox ∧
          (a.desk.drift .see).linked = a.desk.linked := by
      intro mix
      unfold Desk.drift
      dsimp only
      split <;> exact ⟨rfl, rfl, rfl, rfl⟩
    exact inv.desk a.lost (same "").2.1 ((same "").2.2.1 ▸ inv.tamed) ((same "").2.2.2 ▸ inv.linked)
      fun mix more => .inr ((same mix).1 ▸ more)
  | gap =>
    cases moved
    exact inv.desk (d := a.desk.drift .gap) a.lost rfl inv.tamed inv.linked fun mix => .inr
  | save =>
    cases moved
    exact inv.desk (d := a.desk.drift .save) a.lost rfl inv.tamed inv.linked fun mix => .inr
  | lose =>
    simp only [Solos.move] at moved
    split at moved
    · cases moved
      exact inv.desk (d := a.desk.drift .lose) (some a.clock) rfl inv.tamed (fun linked => by cases linked) fun mix => .inr
    · cases moved
  | join =>
    simp only [Solos.move] at moved
    split at moved
    · cases moved
    rename_i apart
    cases moved
    have fresh : ∀ mix, ahead (a.desk.drift .join) mix = a.desk.core.soloed mix ∧
        (a.desk.drift .join).core = a.desk.core ∧ (a.desk.drift .join).inbox = [] := by
      intro mix
      unfold Desk.drift
      dsimp only
      rw [if_neg apart]
      exact ⟨rfl, rfl, rfl⟩
    refine ⟨(fresh "").2.1 ▸ inv.wf, inv.counts, ?_, inv.past, fun _ => rfl, fun mix more => .inl ?_⟩
    · simp [(fresh "").2.2]
    · rw [(fresh mix).1] at more
      exact inv.fair_join.mp fair mix more
  | reboot =>
    cases moved
    refine inv.desk (d := a.desk.drift .reboot) none rfl (fun p member => by cases member) (fun linked => by cases linked)
      fun mix more => ?_
    simp [ahead, Desk.drift, Core.soloed, Core.new, Core.withHil] at more
  | clearSolos =>
    simp only [Solos.move] at moved
    split at moved
    · split at moved
      · cases moved
        exact inv.meets .clearSolos a.desk.owner (Core.clearSolos_fewer _)
      · cases moved
    · cases moved
  | endTestSignal =>
    cases moved
    exact inv.meets .endTestSignal a.desk.owner (Core.handle_solos (rfl : Core.Event.all _ .endTestSignal = true) _)

/-! ### Runs -/

theorem Inv.move (inv : a.Inv) {m : Move} (fair : a.Fair m) (moved : a.move m = some a') : a'.Inv := by
  cases m with
  | pass time =>
    cases moved
    exact ⟨inv.wf, inv.counts, inv.tamed, fun mix t left => (inv.past mix t left).trans (Nat.le_add_right ..),
      inv.linked, inv.tracked⟩
  | connect mix =>
    cases moved
    exact inv.connect mix
  | close mix =>
    simp only [Solos.move] at moved
    split at moved
    · rename_i member
      cases moved
      exact inv.close member
    · cases moved
  | solo mix sources =>
    simp only [Solos.move] at moved
    split at moved
    · rename_i member
      cases moved
      refine inv.posts rfl fun other held left => ?_
      by_cases same : other = mix
      · exact .inl (.inl (same ▸ member))
      · simp only [leaves, if_neg (Ne.symm same)] at left
        exact .inr left
    · cases moved
  | send cmd whose =>
    simp only [Solos.move] at moved
    split at moved
    · rename_i free
      cases moved
      exact inv.posts (tame_of_soloFree free) fun _ _ left => .inr (leaves_soloFree free left)
    · cases moved
  | tick =>
    simp only [Solos.move] at moved
    split at moved
    · rename_i rest
      cases moved
      exact inv.tick rest
    · cases moved
  | work => exact inv.work fair moved
  | drift d => exact inv.drift fair moved

/-- Nobody opens a page of the mix. -/
def FairWithout (mix : MixId) (a : Solos) (m : Move) : Prop := a.Fair m ∧ m ≠ .connect mix

theorem Leads.inv {ok : Solos → Move → Prop} (fair : ∀ a m, ok a m → a.Fair m) (run : Leads Solos.move ok a a')
    (inv : a.Inv) : a'.Inv := run.invariant (fun _ m _ inv fine moved => inv.move (fair _ m fine) moved) inv

/-- The mix has no page; if it is on the schedule, then since a time that is `P`. -/
def LeftAt (a : Solos) (mix : MixId) (P : ℕ → Prop) : Prop :=
  mix ∉ a.sessions ∧ ∀ t, a.janitor.left[mix]? = some t → P t

private theorem LeftAt.move {P : ℕ → Prop} (left : a.LeftAt mix P) {m : Move} (apart : m ≠ .connect mix)
    (moved : a.move m = some a') : a'.LeftAt mix P := by
  cases m with
  | connect other =>
    cases moved
    have differs : other ≠ mix := fun same => apart (same ▸ rfl)
    refine ⟨?_, fun t there => ?_⟩
    · simp [left.1, Ne.symm differs]
    · simp only [SoloJanitor.connected, BTreeMap.getElem?_erase_eq, if_neg differs] at there
      exact left.2 t there
  | close other =>
    simp only [Solos.move] at moved
    split at moved
    · rename_i member
      cases moved
      have differs : other ≠ mix := by
        rintro rfl
        exact left.1 member
      refine ⟨fun still => left.1 (List.mem_of_mem_erase still), fun t there => left.2 t ?_⟩
      unfold SoloJanitor.disconnected at there
      split at there
      · exact there
      · split at there
        · simpa [BTreeMap.getElem?_insert_eq, differs] using there
        · exact there
    · cases moved
  | tick =>
    simp only [Solos.move] at moved
    split at moved
    · cases moved
      refine ⟨left.1, fun t there => left.2 t ?_⟩
      rw [SoloJanitor.due_left] at there
      split at there
      · cases there
      · exact there
    · cases moved
  | pass time =>
    cases moved
    exact left
  | solo other sources | send cmd whose =>
    simp only [Solos.move] at moved
    split at moved
    · cases moved
      exact left
    · cases moved
  | work =>
    simp only [Solos.move] at moved
    split at moved
    · cases moved
    · cases moved
      exact left
  | drift d =>
    simp only [Solos.move] at moved
    split at moved
    · split at moved
      · split at moved
        · cases moved
          exact left
        · cases moved
      · cases moved
    · split at moved
      · cases moved
        exact left
      · cases moved
    · split at moved
      · cases moved
      · cases moved
        exact left
    · cases moved
      exact left
    · cases moved
      exact left

private theorem LeftAt.run {P : ℕ → Prop} (left : a.LeftAt mix P) (run : Leads Solos.move (FairWithout mix) a a') :
    a'.LeftAt mix P :=
  run.invariant (I := (LeftAt · mix P)) (fun _ _ _ left fine moved => left.move fine.2 moved) left

/-- A tick takes every mix that was left long ago off the schedule. -/
private theorem LeftAt.tick {time : ℕ} (left : a.LeftAt mix (· ≤ time)) (late : time + soloGrace ≤ a.clock)
    (moved : a.move .tick = some a') : a'.LeftAt mix fun _ => False := by
  simp only [Solos.move] at moved
  split at moved
  · cases moved
    refine ⟨left.1, fun t there => ?_⟩
    rw [SoloJanitor.due_left] at there
    split at there
    · cases there
    · rename_i early
      have since : t ≤ time := left.2 t there
      exact early ((SoloJanitor.mem_due mix).mpr ⟨t, there, by omega⟩)
  · cases moved

/-- While the server is connected, a mix the engine has a solo on has a page, is on the janitor's
schedule, or is about to be cleared. Left without a page, it is cleared by the next tick after
the grace: once the engine handled what that tick sent. -/
theorem solo_is_never_forgotten (start : Solos) (wf : WellFormed start.desk.core.topo) (starts : start.Starts)
    (a : Solos) (run : Leads move Fair start a) :
    (a.desk.linked = true → a.desk.mirror.synced = true → ∀ mix, a.desk.core.soloed mix = true →
      mix ∈ a.sessions ∨ a.Scheduled mix ∨ a.Clearing mix) ∧
    ∀ mix before ticked after, mix ∉ a.sessions → Leads move (FairWithout mix) a before →
      a.clock + soloGrace ≤ before.clock → before.move .tick = some ticked → Leads move (FairWithout mix) ticked after →
      after.hand = [] → after.desk.inbox = [] → after.desk.linked = true → after.desk.core.soloed mix = false := by
  have inv : a.Inv := Leads.inv (fun _ _ => id) run (inv_starts wf starts)
  constructor
  · intro linked _ mix held
    cases more : ahead a.desk mix with
    | true =>
      rcases inv.tracked mix more with (page | scheduled) | missed
      · exact .inl page
      · exact .inr (.inl scheduled)
      · rw [inv.linked linked] at missed
        simp at missed
    | false =>
      refine .inr (.inr ?_)
      unfold ahead at more
      rw [held] at more
      exact foldl_leaves_cleared more
  · intro mix before ticked after nobody first late tick later hand inbox linked
    have fair : ∀ a m, FairWithout mix a m → a.Fair m := fun _ _ fine => fine.1
    have invBefore : before.Inv := Leads.inv fair first inv
    have invAfter : after.Inv := Leads.inv fair later (invBefore.move (m := .tick) trivial tick)
    have left : a.LeftAt mix (· ≤ a.clock) := ⟨nobody, inv.past mix⟩
    have gone := ((left.run first).tick late tick).run later
    rw [Bool.eq_false_iff]
    intro held
    have more : ahead after.desk mix = true := by simpa [ahead, inbox] using held
    rcases invAfter.tracked mix more with (page | there | taken) | missed
    · exact gone.1 page
    · rw [Std.ExtTreeMap.contains_eq_isSome_getElem?, Option.isSome_iff_exists] at there
      obtain ⟨t, there⟩ := there
      exact gone.2 t there
    · rw [hand] at taken
      cases taken
    · rw [invAfter.linked linked] at missed
      simp at missed

end Solos

/-! ### At the duet -/

section
attribute [local instance] Core.duetLibm

open Solos

def duetSolos : Solos := { desk := { core := Core.duetCore, owner := "", saved := ({}, ""), mirror := .start } }

theorem duetSolos_starts : duetSolos.Starts where
  sessions := rfl
  janitor := rfl
  rest := ⟨rfl, rfl, rfl⟩
  silent mix := by
    unfold Core.soloed
    cases duetSolos.desk.core.topo.mixIndex mix <;> rfl

/-- Ben solos a voice and closes his page. -/
def benSolos : List Solos.Move :=
  [.connect "ben", .solo "ben" [.input "voice"], .drift .handle, .drift .see, .close "ben"]

/-- Every mix that the tick looks at shows its solo, and no connection is lost. -/
def Solos.calm (a : Solos) : Solos.Move → Bool
  | .work => a.hand.all fun mix => !(a.desk.mirror.solo mix).isEmpty
  | .drift .join => false
  | _ => true

theorem fair_of_calm_solos {a : Solos} {m : Solos.Move} (calm : a.calm m = true) : a.Fair m := by
  cases m with
  | work =>
    intro mix rest hand _ _
    have all : a.hand.all (fun mix => !(a.desk.mirror.solo mix).isEmpty) = true := calm
    rw [hand, List.all_cons, Bool.and_eq_true] at all
    simpa using all.1
  | drift d =>
    cases d with
    | join => cases calm
    | _ => trivial
  | _ => trivial

/-- No page opens, too. -/
def Solos.shut (a : Solos) : Solos.Move → Bool
  | .connect _ => false
  | m => a.calm m

theorem fairWithout_of_shut {a : Solos} {m : Solos.Move} (shut : a.shut m = true) (mix : MixId) :
    a.FairWithout mix m := by
  cases m <;> first | cases shut; done | exact ⟨fair_of_calm_solos shut, by simp⟩

theorem solo_is_never_forgotten_duet : ∃ a before ticked after : Solos, Leads move Fair duetSolos a ∧
    (a.desk.core.soloed "ben" = true ∧ ("ben" ∈ a.sessions ∨ a.Scheduled "ben" ∨ a.Clearing "ben")) ∧
    Leads move (FairWithout "ben") a before ∧ before.move .tick = some ticked ∧
    Leads move (FairWithout "ben") ticked after ∧ after.desk.core.soloed "ben" = false := by
  have ran : (runThrough move calm duetSolos benSolos).any (fun a =>
      a.desk.linked && a.desk.mirror.synced && a.desk.core.soloed "ben" && a.sessions.isEmpty && a.clock == 0 &&
      (runThrough move shut a [.pass 10000]).any fun before => before.clock == 10000 &&
      (before.move .tick).any fun ticked =>
      (runThrough move shut ticked [.work, .drift .handle]).any fun after =>
        after.hand.isEmpty && after.desk.inbox.isEmpty && after.desk.linked) = true := by
    decide +kernel
  simp only [Option.any_eq_true, Bool.and_eq_true, List.isEmpty_iff, beq_iff_eq] at ran
  obtain ⟨a, first, ⟨⟨⟨⟨linked, synced⟩, held⟩, sessions⟩, clock⟩, before, second, clock', ticked, tick, after, third,
    ⟨hand, inbox⟩, linked'⟩ := ran
  have run : Leads move Fair duetSolos a := runThrough_leads (fun _ _ => fair_of_calm_solos) first
  have waits := runThrough_leads (fun _ _ shut => fairWithout_of_shut shut "ben") second
  have ends := runThrough_leads (fun _ _ shut => fairWithout_of_shut shut "ben") third
  obtain ⟨tracked, cleared⟩ := solo_is_never_forgotten duetSolos
    (TopologyProofs.compile_spec _ TopologyProofs.duetCompiled).1 duetSolos_starts a run
  refine ⟨a, before, ticked, after, run, ⟨held, tracked linked synced "ben" held⟩, waits, tick, ends, ?_⟩
  exact cleared "ben" before ticked after (by simp [sessions]) waits (by simp [clock, clock', soloGrace]) tick ends hand
    inbox linked'

/-- The page closes 9 s before the connection is lost; the tick that takes the mix off the
schedule cannot send; 1 s later the server is back at an engine that still has the solo. -/
theorem an_outage_forgets_a_solo : duetSolos.Starts ∧ ∃ a : Solos, Leads move (fun _ _ => True) duetSolos a ∧
    a.desk.linked = true ∧ a.desk.mirror.synced = true ∧ a.desk.core.soloed "ben" = true ∧
    ¬ ("ben" ∈ a.sessions ∨ a.Scheduled "ben" ∨ a.Clearing "ben") := by
  have ran : (runThrough move (fun _ _ => true) duetSolos (benSolos ++ [.pass 9000, .drift .lose, .pass 1000,
      .tick, .work, .drift .join])).any (fun a => a.desk.linked && a.desk.mirror.synced && a.desk.core.soloed "ben" &&
        a.sessions.isEmpty && a.janitor.left.isEmpty && a.hand.isEmpty && a.desk.inbox.isEmpty) = true := by
    decide +kernel
  obtain ⟨a, led, fine⟩ := (Option.any_eq_true _ _).mp ran
  simp only [Bool.and_eq_true, List.isEmpty_iff] at fine
  obtain ⟨⟨⟨⟨⟨⟨linked, synced⟩, held⟩, sessions⟩, left⟩, hand⟩, inbox⟩ := fine
  refine ⟨duetSolos_starts, a, runThrough_leads (fun _ _ _ => trivial) led, linked, synced, held, ?_⟩
  rintro (page | (scheduled | taken) | sent)
  · rw [sessions] at page
    cases page
  · rw [Std.ExtTreeMap.isEmpty_iff.mp left] at scheduled
    simp at scheduled
  · rw [hand] at taken
    cases taken
  · unfold Clearing at sent
    rw [inbox] at sent
    cases sent

end
end IemMixer.Server
