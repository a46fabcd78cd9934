import IemMixer.Server.ApplyProofs
import IemMixer.Server.ConfineProofs

/-! The freeze is a barrier: when it returns, what every page asked for before it is in the mirror
or its page hears otherwise, and until the thaw no page asks for more. -/
namespace IemMixer.Server
open Lib Proto Control MirrorProofs

section
variable [Libm]

namespace Barrier

section
variable {h h' : Barrier}

omit [Libm] in
theorem Busy.unique {was was' : Bool} (busy : h.Busy was) (busy' : h.Busy was') : was = was' := by
  rcases busy with same | ⟨id, same⟩ <;> rcases busy' with same' | ⟨id', same'⟩ <;> simp_all

/-- A step while a freeze is on its way, and still is after it. -/
def Underway (a b : Barrier) : Prop := (∃ m, a.move m = some b) ∧ ∃ was, b.Busy was

/-- A step that is no thaw. -/
def Shut (a b : Barrier) : Prop := ∃ m, m ≠ .thaw ∧ m ≠ .thawUnchanged ∧ a.move m = some b

/-- What a step makes of a freeze on its way. -/
theorem underway_step {m : Move} {was : Bool} (busy : h.Busy was) (frozen : h.app.frozen = true)
    (moved : h.move m = some h') : (h'.Busy was ∧ h'.app.frozen = true) ∨
      (h'.freezing = .rest ∧ h'.app.frozen = was) ∨ (h'.freezing = .frozen was ∧ h'.app.frozen = true) := by
  cases does moved with
  | applies | confirms | fails | other | otherDone | net => exact .inl ⟨busy, frozen⟩
  | sets kept => exact .inl ⟨busy, kept.trans frozen⟩
  | freezes rest => exact absurd busy (idle_busy (.inl rest))
  | pings gate =>
    cases busy.unique (.inl gate)
    exact .inl ⟨.inr ⟨_, rfl⟩, frozen⟩
  | unsent gate =>
    cases busy.unique (.inl gate)
    exact .inr (.inl ⟨rfl, fail_frozen frozen was⟩)
  | returns pinged =>
    cases busy.unique (.inr ⟨_, pinged⟩)
    exact .inr (.inr ⟨rfl, frozen⟩)
  | unanswered pinged =>
    cases busy.unique (.inr ⟨_, pinged⟩)
    exact .inr (.inl ⟨rfl, fail_frozen frozen was⟩)
  | thaws _ _ idle => exact absurd busy (idle_busy idle)
  | stays held => exact absurd busy (idle_busy (.inr ⟨_, held⟩))

/-- On its way a freeze remembers what it found. -/
theorem underway_run {was : Bool} (run : Relation.ReflTransGen Underway h h') (busy : h.Busy was)
    (frozen : h.app.frozen = true) : h'.Busy was ∧ h'.app.frozen = true := by
  induction run with
  | refl => exact ⟨busy, frozen⟩
  | tail _ last ih =>
    obtain ⟨⟨m, moved⟩, was', still⟩ := last
    rcases underway_step ih.1 ih.2 moved with kept | ⟨rest, -⟩ | ⟨held, -⟩
    · exact kept
    · exact absurd still (idle_busy (.inl rest))
    · exact absurd still (idle_busy (.inr ⟨was, held⟩))

/-- Frozen, and a freeze on its way found it so. -/
def Held (h : Barrier) : Prop := h.app.frozen = true ∧ ∀ was, h.Busy was → was = true

/-- The pages stay frozen until a thaw: a freeze that fails meanwhile found them frozen. -/
theorem held_step (held : h.Held) (step : Shut h h') : h'.Held := by
  obtain ⟨frozen, found⟩ := held
  obtain ⟨m, noThaw, noThawUnchanged, moved⟩ := step
  by_cases idle : ∃ was, h.Busy was
  · obtain ⟨was, busy⟩ := idle
    cases found was busy
    rcases underway_step busy frozen moved with ⟨busy', kept⟩ | ⟨rest, kept⟩ | ⟨back, kept⟩
    · exact ⟨kept, fun was' again => again.unique busy'⟩
    · exact ⟨kept, fun was' again => absurd again (idle_busy (.inl rest))⟩
    · exact ⟨kept, fun was' again => absurd again (idle_busy (.inr ⟨true, back⟩))⟩
  · cases does moved with
    | applies | confirms | fails | other | otherDone | net => exact ⟨frozen, found⟩
    | sets kept => exact ⟨kept.trans frozen, found⟩
    | freezes => exact ⟨rfl, fun was busy => (busy.unique (.inl rfl)).trans frozen⟩
    | pings gate | unsent gate => exact absurd ⟨_, .inl gate⟩ idle
    | returns pinged | unanswered pinged => exact absurd ⟨_, .inr ⟨_, pinged⟩⟩ idle
    | thaws _ thaw => exact absurd thaw (by simp [noThaw, noThawUnchanged])
    | stays => exact ⟨frozen, fun was busy => absurd busy (idle_busy (.inl rfl))⟩

theorem held_run (run : Relation.ReflTransGen Shut h h') (held : h.Held) : h'.Held := by
  induction run with
  | refl => exact held
  | tail _ last ih => exact held_step ih last

/-- While the pages are frozen, an `apply` either was there before or queued nothing. -/
theorem held_queues (run : Relation.ReflTransGen Shut h h') (held : h.Held) {n : ℕ} {after : Applying}
    (there : h'.applying[n]? = some after) :
    after.ids = [] ∨ ∃ before, h.applying[n]? = some before ∧ after.ids = before.ids := by
  induction run generalizing after with
  | refl => exact .inr ⟨after, there, rfl⟩
  | @tail a b earlier last ih =>
    have still := (held_run earlier held).1
    obtain ⟨m, -, -, moved⟩ := last
    rcases goes moved with kept | ⟨k, next, inserted, goes⟩
    · exact ih (kept ▸ there)
    · rw [inserted] at there
      simp only [BTreeMap.getElem?_insert_eq] at there
      split at there
      · rename_i own
        subst own
        cases there
        cases goes with
        | starts _ _ quiet => exact .inl (quiet still)
        | confirms old _ before _ _ ids =>
          rw [ids]
          exact ih before
        | fails old _ before ids =>
          rw [ids]
          exact ih before
      · exact ih there

/-- Request `x` was in the mirror at some moment of the run from `h` to `h'`. -/
def Seen (h h' : Barrier) (x : ℕ) : Prop := ∃ mid, Reaches h mid ∧ Reaches mid h' ∧ mid.net.InMirror x

theorem seen_later {mid : Barrier} {x : ℕ} (seen : Seen h mid x) (run : Reaches mid h') : Seen h h' x := by
  obtain ⟨there, first, second, shown⟩ := seen
  exact ⟨there, first, second.trans run, shown⟩

end

section
variable {h : Barrier} {app : App} {loop : Loop}

theorem mirrored (boots : Boots loop) (run : Reaches { app, net := { loop } } h) {id : ℕ}
    (ok : h.net.client.applied id = some (.ok ())) : h.net.InMirror id := by
  obtain ⟨past, inv⟩ := Net.reaches_inv boots (reaches_net run)
  exact inv.confirmed ok

/-- What an `apply` no longer waits for was in the mirror, or the `apply` failed. -/
theorem confirmed_seen (boots : Boots loop) (run : Reaches { app, net := { loop } } h) {n : ℕ} {call : Applying}
    (held : h.applying[n]? = some call) {x : ℕ} (queued : x ∈ call.ids) (done : x ∉ call.left) :
    (∃ e, call.result = some (.error e)) ∨ Seen { app, net := { loop } } h x := by
  induction run generalizing call with
  | refl => simp at held
  | @tail a b earlier last ih =>
    have onward : Reaches a b := .single last
    obtain ⟨m, -, moved⟩ := last
    have before : ∀ {old : Applying}, a.applying[n]? = some old → x ∈ old.ids → x ∉ old.left →
        (∃ e, old.result = some (.error e)) ∨ Seen { app, net := { loop } } b x := fun held queued done =>
      (ih held queued done).imp_right fun seen => seen_later seen onward
    rcases goes moved with kept | ⟨k, next, inserted, goes⟩
    · exact before (kept ▸ held) queued done
    · rw [inserted] at held
      simp only [BTreeMap.getElem?_insert_eq] at held
      split at held
      · rename_i own
        subst own
        cases held
        cases goes with
        | starts _ begun =>
          rcases begun with all | told
          · rw [all] at done
            exact absurd queued done
          · exact .inl told
        | confirms old id there head ok ids =>
          right
          rw [ids] at queued
          by_cases now : x = id
          · subst now
            exact ⟨a, earlier, onward, mirrored boots earlier ok⟩
          · have apart : x ∉ old.left := by
              rw [head]
              simp [now, done]
            rcases before there queued apart with told | seen
            · have nothing := ((reaches_inv earlier (inv_start app loop)).tracks k old there).settled told
              rw [head] at nothing
              cases nothing
            · exact seen
        | fails _ e _ _ told => exact .inl ⟨e, told⟩
      · exact before held queued done

/-- A freeze returns ok. -/
def Returns (h next : Barrier) : Prop := h.move .answer = some next ∧ ∃ was, next.freezing = .frozen was

theorem returns_inv {next : Barrier} (returns : h.Returns next) : ∃ was id, h.freezing = .ping was id ∧
    h.net.client.applied id = some (.ok ()) ∧
    next = { h with net := forget [id] h.net, freezing := .frozen was } := by
  obtain ⟨moved, was, frozen⟩ := returns
  simp only [move] at moved
  split at moved
  · rename_i was id pinged
    split at moved
    · cases moved
    · rename_i ok
      cases moved
      exact ⟨was, id, pinged, ok, rfl⟩
    · cases moved
      cases frozen
  · cases moved

/-- Whatever the pages queued on the connection a freeze is confirmed on is in the mirror. -/
theorem returned_here (boots : Boots loop) (run : Reaches { app, net := { loop } } h) {next : Barrier}
    (returns : h.Returns next) {n : ℕ} {call : Applying} (held : next.applying[n]? = some call) {x : ℕ}
    (queued : x ∈ call.ids) (here : x ∈ next.net.ids) : next.net.InMirror x := by
  obtain ⟨was, id, pinged, ok, same⟩ := returns_inv returns
  have inv := reaches_inv run (inv_start app loop)
  rw [same] at held here ⊢
  obtain ⟨past, netInv⟩ := Net.reaches_inv boots (reaches_net run)
  exact netInv.before (Net.reaches_ordered boots (reaches_net run)) (netInv.confirmed ok) here
    ((inv.ping was id pinged).2 n call held x queued)

/-- What was queued on a connection that ended since failed, or was in the mirror then. -/
theorem returned (boots : Boots loop) (run : Reaches { app, net := { loop } } h) {next : Barrier}
    (returns : h.Returns next) {n : ℕ} {call : Applying} (held : next.applying[n]? = some call) {x : ℕ}
    (queued : x ∈ call.ids) : next.net.InMirror x ∨ Failed next.net call ∨
      x ∉ next.net.ids ∧ Seen { app, net := { loop } } next x := by
  have onward : Reaches { app, net := { loop } } next := run.tail ⟨.answer, trivial, returns.1⟩
  by_cases here : x ∈ next.net.ids
  · exact .inl (returned_here boots run returns held queued here)
  · right
    rcases ((reaches_inv onward (inv_start app loop)).tracks n call held).fate x queued with ⟨-, inside⟩ | failed | done
    · exact absurd inside here
    · exact .inl failed
    · rcases confirmed_seen boots onward held queued done with told | seen
      · exact .inl (.inl told)
      · exact .inr ⟨here, seen⟩

/-- A freeze that fails leaves the pages frozen as it found them. -/
theorem freeze_fails {mid last next : Barrier} {m : Move} (begun : h.move .freeze = some mid)
    (run : Relation.ReflTransGen Underway mid last) (moved : last.move m = some next) (rest : next.freezing = .rest) :
    next.app.frozen = h.app.frozen := by
  have started : mid.freezing = .gate h.app.frozen ∧ mid.app.frozen = true := by
    simp only [move] at begun
    split at begun
    · cases begun
      exact ⟨rfl, rfl⟩
    · cases begun
  obtain ⟨busy, frozen⟩ := underway_run run (.inl started.1) started.2
  rcases underway_step busy frozen moved with ⟨still, -⟩ | ⟨-, back⟩ | ⟨held, -⟩
  · exact absurd still (idle_busy (.inl rest))
  · exact back
  · cases rest.symm.trans held

/-- The freeze is a barrier. When one returns ok, each request the pages queued before is in the
mirror, or its page hears that its call failed, or it went out on a connection that ended since and
was in the mirror then; on the connection it is confirmed on each is in the mirror; until the thaw no page queues any. A freeze that fails leaves the pages
frozen as it found them, and what an `apply` queued it queued at once. -/
theorem freeze_is_a_barrier (boots : Boots loop) (run : Reaches { app, net := { loop } } h) :
    (∀ next, h.Returns next →
      (∀ (n : ℕ) call, next.applying[n]? = some call → ∀ x ∈ call.ids,
        (x ∈ next.net.ids → next.net.InMirror x) ∧
        (next.net.InMirror x ∨ Failed next.net call ∨
          x ∉ next.net.ids ∧ Seen { app, net := { loop } } next x)) ∧
      ∀ last, Relation.ReflTransGen Shut next last → last.app.frozen = true ∧
        ∀ (n : ℕ) after, last.applying[n]? = some after → after.ids = [] ∨
          ∃ before, next.applying[n]? = some before ∧ after.ids = before.ids) ∧
    (∀ mid last m next, h.move .freeze = some mid → Relation.ReflTransGen Underway mid last →
      last.move m = some next → next.freezing = .rest → next.app.frozen = h.app.frozen) ∧
    ∀ (n : ℕ) before later, h.applying[n]? = some before → Relation.ReflTransGen Moves h later →
      ∃ after, later.applying[n]? = some after ∧ after.ids = before.ids := by
  refine ⟨fun next returns => ⟨fun n call held x queued => ⟨returned_here boots run returns held queued,
    returned boots run returns held queued⟩, fun last shut => ?_⟩,
    fun mid last m next begun ran moved rest => freeze_fails begun ran moved rest,
    fun n before later held ran => queues_once ran held⟩
  obtain ⟨was, id, pinged, -, same⟩ := returns_inv returns
  have held : next.Held := by
    rw [same]
    exact ⟨(reaches_inv run (inv_start app loop)).frozen was (.inr ⟨id, pinged⟩), fun _ busy =>
      absurd busy (idle_busy (.inr ⟨was, rfl⟩))⟩
  exact ⟨(held_run shut held).1, fun n after there => held_queues shut held there⟩

/-- Move after move, each one meeting `ok`. -/
def run (ok : Barrier → Move → Bool) (h : Barrier) : List Move → Option Barrier
  | [] => some h
  | m :: rest => if ok h m then (h.move m).bind fun next => next.run ok rest else none

end

/-- A connection ends with no caller waiting, and else nothing that is not calm. -/
def calmly (h : Barrier) : Move → Bool
  | .net .drop => h.net.client.calls.isEmpty
  | .net m => h.net.calmly m
  | _ => true

omit [Libm] in
theorem calm_of_calmly {h : Barrier} {m : Move} (real : ∀ own, m = .net own → Net.Real own)
    (fine : h.calmly m = true) : h.Calm m := by
  cases m with
  | net own =>
    refine ⟨real own rfl, ?_⟩
    cases own with
    | drop =>
      intro id rev waits
      have none : h.net.client.calls = ∅ := Std.ExtTreeMap.isEmpty_iff.mp fine
      simp [Net.Waits, none] at waits
    | _ => exact Net.calm_of_calmly fine
  | _ => trivial

theorem reaches_run {h h' : Barrier} (moves : List Move)
    (real : ∀ m ∈ moves, ∀ own, m = .net own → Net.Real own) (ran : h.run calmly moves = some h') : Reaches h h' := by
  induction moves generalizing h with
  | nil =>
    cases ran
    exact .refl
  | cons m rest ih =>
    simp only [run] at ran
    split at ran
    · rename_i fine
      obtain ⟨mid, moved, later⟩ := Option.bind_eq_some_iff.mp ran
      exact .head ⟨m, calm_of_calmly (real m (by simp)) fine, moved⟩
        (ih (fun m member => real m (by simp [member])) later)
    · cases ran

end Barrier
end

namespace Barrier

/-- A server of `duet`, and its engine. -/
def duetBarrier : Barrier where
  app := { siteConfig := duetConfig }
  net := { client := { mirror := .start }, loop := duetLoop }

/-- The client greets its engine; ben's page mutes its own mix and hears that it did. -/
def muted : List Move :=
  Net.greeted.map .net ++ [.apply 0 benPage [.setMix "ben" none (some true)] none, .net (.serve Control.calm), .net .read,
    .net .read, .wake 0]

/-- A freeze up to its answer. -/
def frozen : List Move := [.freeze, .ping, .net (.serve Control.calm), .net .read]

/-- Ben's page mutes its mix and a freeze returns: the mute is in the mirror. -/
theorem freeze_is_a_barrier_duet :
    ∃ h next, @Reaches Core.duetLibm duetBarrier h ∧ @Returns Core.duetLibm h next ∧ ∃ call,
      next.applying[0]? = some call ∧ call.ids = [1] ∧ @Net.InMirror Core.duetLibm next.net 1 := by
  have ran : (@run Core.duetLibm calmly duetBarrier (muted ++ frozen)).any fun h =>
      (@move Core.duetLibm h .answer).any fun next => next.applying[0]?.any fun call =>
        decide (next.freezing = .frozen false ∧ next.net.ids = [1, 2] ∧ call.ids = [1]) := by decide +kernel
  obtain ⟨h, reached, ran⟩ := (Option.any_eq_true _ _).mp ran
  obtain ⟨next, moved, ran⟩ := (Option.any_eq_true _ _).mp ran
  obtain ⟨call, held, facts⟩ := (Option.any_eq_true _ _).mp ran
  obtain ⟨froze, queued, ids⟩ := of_decide_eq_true facts
  have run := @reaches_run Core.duetLibm _ _ (muted ++ frozen) (by simp [muted, frozen, Net.greeted, Net.Real]) reached
  have returns : @Returns Core.duetLibm h next := ⟨moved, false, froze⟩
  refine ⟨h, next, run, returns, call, held, ids, ?_⟩
  have stands := ((@freeze_is_a_barrier Core.duetLibm h _ _ Net.duet_boots run).1 next returns).1 0 call held 1
    (by simp [ids])
  exact stands.1 (by simp [queued])

/-- Ben's page mutes its mix and hears that it did. Then the engine dies before it saved, another
takes its place and a freeze returns: the mute is not in the mirror, and nobody hears that. -/
theorem confirmed_before_engine_died :
    ∃ h next, @Reaches Core.duetLibm duetBarrier h ∧ @Returns Core.duetLibm h next ∧ ∃ call,
      next.applying[0]? = some call ∧ call.ids = [1] ∧ ¬ @Net.InMirror Core.duetLibm next.net 1 ∧
      ¬ Failed next.net call ∧ next.net.client.mirror.state.mixes["ben"]?.map (·.out.muted) = some false := by
  have ran : (@run Core.duetLibm calmly duetBarrier (muted ++ [.net .drop, .net (.boot duetLoop)] ++
      Net.greeted.map .net ++ frozen)).any fun h =>
        (@move Core.duetLibm h .answer).any fun next => next.applying[0]?.any fun call =>
          decide (next.freezing = .frozen false ∧ next.net.made.map (·.1) = [2] ∧ call.ids = [1] ∧ call.left = [] ∧
            next.net.client.mirror.state.mixes["ben"]?.map (·.out.muted) = some false) &&
              call.result.any (·.isOk) := by decide +kernel
  obtain ⟨h, reached, ran⟩ := (Option.any_eq_true _ _).mp ran
  obtain ⟨next, moved, ran⟩ := (Option.any_eq_true _ _).mp ran
  obtain ⟨call, held, facts⟩ := (Option.any_eq_true _ _).mp ran
  obtain ⟨facts, told⟩ := Bool.and_eq_true_iff.mp facts
  obtain ⟨froze, other, ids, left, unmuted⟩ := of_decide_eq_true facts
  have run := @reaches_run Core.duetLibm _ _ _ (by simp [muted, frozen, Net.greeted, Net.Real, Net.duet_boots]) reached
  refine ⟨h, next, run, ⟨moved, false, froze⟩, call, held, ids, ?_, ?_, unmuted⟩
  · rintro ⟨-, -, core, now, made, -⟩
    have key : 1 ∈ next.net.made.map (·.1) := List.mem_map.mpr ⟨_, made, rfl⟩
    rw [other] at key
    simp at key
  · rintro (⟨e, failed⟩ | ⟨id, head, -⟩)
    · rw [failed] at told
      cases told
    · rw [left] at head
      cases head

end Barrier
end IemMixer.Server
