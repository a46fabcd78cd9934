import Mathlib.Data.List.DropRight
import IemMixer.Server.BackupDaemon

/-! What the backup daemon does at a tick is told by what it did before: each slot of a day is
saved once, a refused one is tried again, and a refusal reaches the engineer's devices once until
a capture succeeds. -/
namespace IemMixer.Server

namespace BackupStore.Stamp

theorem today_length (s : Stamp) : s.today.length = 10 := by
  obtain ⟨year, month, day, -⟩ := s.widths
  simp only [today, List.length_append, List.length_cons]
  omega

end BackupStore.Stamp

/-! ### The subscriptions -/

namespace PushStore

/-- No device is subscribed twice. -/
def Distinct (s : PushStore) : Prop := (s.map (·.endpoint)).Nodup

theorem Distinct.add {s : PushStore} (distinct : s.Distinct) (sub : PushSubscription) : (s.add sub).Distinct := by
  unfold PushStore.add
  cases found : s.findIdx? (·.endpoint == sub.endpoint) with
  | some i =>
    have same : (s.modify i fun existing => { existing with p256dh := sub.p256dh, auth := sub.auth }).map (·.endpoint) =
        s.map (·.endpoint) := by
      apply List.ext_getElem?
      intro n
      simp only [List.getElem?_map, List.getElem?_modify]
      cases s[n]? with
      | none => simp
      | some x => by_cases here : i = n <;> simp [here]
    exact (congrArg List.Nodup same).mpr distinct
  | none =>
    have absent := List.findIdx?_eq_none_iff.mp found
    show ((s ++ [sub]).map (·.endpoint)).Nodup
    rw [List.map_append, List.nodup_append]
    refine ⟨distinct, List.nodup_singleton _, ?_⟩
    rintro _ member _ last rfl
    obtain ⟨x, held, same⟩ := List.mem_map.mp member
    have apart : x.endpoint ≠ sub.endpoint := by simpa using absent x held
    exact apart (same.trans (List.mem_singleton.mp last))

theorem Distinct.removeEndpoint {s : PushStore} (distinct : s.Distinct) (endpoint : String) :
    (s.removeEndpoint endpoint).Distinct :=
  distinct.sublist (List.filter_sublist.map _)

end PushStore

namespace BackupDaemon
open BackupStore (Stamp)

theorem distinct_pushEngineers {store : PushStore} (distinct : store.Distinct) (vapid : Bool) (push : Push) :
    (pushEngineers vapid store push).2.Distinct := by
  unfold pushEngineers
  cases vapid with
  | false => exact distinct
  | true =>
    have added : ∀ (subs : List PushSubscription) {s : PushStore}, s.Distinct → (subs.foldl .add s).Distinct := by
      intro subs
      induction subs with
      | nil => exact id
      | cons sub rest ih => exact fun distinct => ih (distinct.add sub)
    have removed : ∀ (gone : List String) {s : PushStore}, s.Distinct → (gone.foldl .removeEndpoint s).Distinct := by
      intro gone
      induction gone with
      | nil => exact id
      | cons endpoint rest ih => exact fun distinct => ih (distinct.removeEndpoint endpoint)
    exact removed _ (added _ distinct)

/-! ### What was done -/

namespace Deed

def today (e : Deed) : List Char := e.tick.now.today

def hhmm (e : Deed) : List Char := e.tick.now.hhmm

/-- Its capture was saved. -/
def saved (e : Deed) : Bool := match e.captured with
  | some (.ok _) => true
  | _ => false

/-- It had a device told of `error`. -/
def Told (e : Deed) (error : String) : Prop :=
  e.captured = some (.error error) ∧ ∃ alarm devices, e.alarm = some (alarm, devices) ∧ 0 < devices

/-- Since the date last became that day. -/
def sameDay (deeds : List Deed) (today : List Char) : List Deed := deeds.rtakeWhile fun e => e.today == today

/-- Since a capture was last saved. -/
def unsaved (deeds : List Deed) : List Deed := deeds.rtakeWhile fun e => !e.saved

end Deed

/-- The daemon after `deeds`: the slots of a day that ran are those saved since that day began, and
the refusals told are those told since the last capture that was saved. -/
structure Inv (deeds : List Deed) (d : Daemon) : Prop where
  done : ∀ (s : Stamp) (k : List Char), (k ∈ d.done ∧ s.today <+: k) ↔
    ∃ e ∈ Deed.sameDay deeds s.today, e.saved ∧ k = key e.today e.hhmm
  raised : ∀ error : String, error ∈ d.alarms.raised ↔ ∃ e ∈ Deed.unsaved deeds, e.Told error
  store : d.store.Distinct

theorem inv_start : Inv [] {} where
  done s k := by simp [Deed.sameDay]
  raised error := by simp [Deed.unsaved]
  store := List.nodup_nil

theorem prefix_key (today hhmm : List Char) : today <+: key today hhmm := ⟨' ' :: hhmm, rfl⟩

theorem key_inj {today a b : List Char} (same : key today a = key today b) : a = b :=
  (List.cons.inj (List.append_cancel_left same)).2

/-- Two days' keys are apart. -/
theorem today_unique {s t : Stamp} {k : List Char} (first : s.today <+: k) (second : t.today <+: k) : s.today = t.today :=
  List.prefix_of_prefix_length_le first second (s.today_length.trans t.today_length.symm).le |>.eq_of_length
    (s.today_length.trans t.today_length.symm)

/-- What is due, by what was done. -/
theorem due_cases {deeds : List Deed} {d : Daemon} (inv : Inv deeds d) (t : Tick) :
    let slot := due t.schedule t.now.today t.now.hhmm (d.done.filter fun k => t.now.today.isPrefixOf k)
    let fresh := t.now.hhmm ∈ t.schedule ∧ ∀ e ∈ Deed.sameDay deeds t.now.today, e.saved → e.hhmm ≠ t.now.hhmm
    fresh ∧ slot = some (key t.now.today t.now.hhmm) ∨ ¬fresh ∧ slot = none := by
  intro slot fresh
  have listed : t.schedule.any (· == t.now.hhmm) = true ↔ t.now.hhmm ∈ t.schedule := by simp
  have ran : (d.done.filter fun k => t.now.today.isPrefixOf k).contains (key t.now.today t.now.hhmm) = true ↔
      ∃ e ∈ Deed.sameDay deeds t.now.today, e.saved ∧ e.hhmm = t.now.hhmm := by
    rw [List.contains_iff_mem, List.mem_filter, List.isPrefixOf_iff_prefix, inv.done t.now]
    refine exists_congr fun e => and_congr_right fun member => and_congr_right fun _ => ?_
    have day : e.today = t.now.today := by simpa using List.mem_rtakeWhile_imp member
    rw [day]
    exact ⟨fun same => (key_inj same).symm, fun same => by rw [same]⟩
  by_cases scheduled : t.now.hhmm ∈ t.schedule
  · have some' : slot = Option.filter _ (some (key t.now.today t.now.hhmm)) :=
      congrArg (Option.filter _) (if_pos (listed.mpr scheduled))
    cases held : (d.done.filter fun k => t.now.today.isPrefixOf k).contains (key t.now.today t.now.hhmm) with
    | true =>
      obtain ⟨e, member, saved, same⟩ := ran.mp held
      refine .inr ⟨fun isFresh => isFresh.2 e member saved same, ?_⟩
      rw [some', Option.filter_some, held]
      rfl
    | false =>
      refine .inl ⟨⟨scheduled, fun e member saved same => ?_⟩, ?_⟩
      · rw [ran.mpr ⟨e, member, saved, same⟩] at held
        cases held
      · rw [some', Option.filter_some, held]
        rfl
  · refine .inr ⟨fun isFresh => scheduled isFresh.1, ?_⟩
    have none' : slot = Option.filter _ none := congrArg (Option.filter _) (if_neg (mt listed.mp scheduled))
    rw [none', Option.filter_none]

/-- What a tick does, told by what was done before. -/
structure Follows (before : List Deed) (e : Deed) : Prop where
  captures : e.captured.isSome ↔ e.hhmm ∈ e.tick.schedule ∧
    ∀ x ∈ Deed.sameDay before e.today, x.saved → x.hhmm ≠ e.hhmm
  outcome : ∀ outcome, e.captured = some outcome → outcome = e.tick.capture
  alarms : e.alarm.isSome ↔ ∃ error, e.captured = some (.error error) ∧ ∀ x ∈ Deed.unsaved before, ¬x.Told error
  names : ∀ alarm devices, e.alarm = some (alarm, devices) →
    ∃ error, e.captured = some (.error error) ∧ alarm = refusalAlarm e.hhmm error
  prunes : e.prunes = e.saved

/-- A deed more: what was done since the date last became `today`. -/
theorem sameDay_concat (deeds : List Deed) (e : Deed) (today : List Char) :
    Deed.sameDay (deeds ++ [e]) today = if e.today = today then Deed.sameDay deeds today ++ [e] else [] := by
  unfold Deed.sameDay
  rw [List.rtakeWhile_concat]
  simp only [beq_iff_eq]

theorem unsaved_concat (deeds : List Deed) (e : Deed) :
    Deed.unsaved (deeds ++ [e]) = if e.saved then [] else Deed.unsaved deeds ++ [e] := by
  unfold Deed.unsaved
  rw [List.rtakeWhile_concat]
  cases e.saved <;> rfl

/-- The slots that ran, with one deed more. -/
theorem Inv.slots {deeds : List Deed} {d d' : Daemon} (inv : Inv deeds d) {e : Deed}
    (done : ∀ k, k ∈ d'.done ↔ (k ∈ d.done ∧ e.today <+: k) ∨ e.saved ∧ k = key e.today e.hhmm) (s : Stamp)
    (k : List Char) : (k ∈ d'.done ∧ s.today <+: k) ↔
      ∃ x ∈ Deed.sameDay (deeds ++ [e]) s.today, x.saved ∧ k = key x.today x.hhmm := by
  rw [sameDay_concat, done]
  by_cases day : e.today = s.today
  · rw [if_pos day, day]
    have before := inv.done s k
    constructor
    · rintro ⟨⟨held, -⟩ | ⟨saved, rfl⟩, starts⟩
      · obtain ⟨x, member, rest⟩ := before.mp ⟨held, starts⟩
        exact ⟨x, List.mem_append_left _ member, rest⟩
      · exact ⟨e, by simp, saved, by rw [day]⟩
    · rintro ⟨x, member, saved, rfl⟩
      rcases List.mem_append.mp member with earlier | last
      · obtain ⟨held, starts⟩ := before.mpr ⟨x, earlier, saved, rfl⟩
        exact ⟨.inl ⟨held, starts⟩, starts⟩
      · obtain rfl := List.mem_singleton.mp last
        rw [day]
        exact ⟨.inr ⟨saved, rfl⟩, prefix_key _ _⟩
  · rw [if_neg day]
    refine ⟨?_, fun ⟨x, member, _⟩ => absurd member List.not_mem_nil⟩
    rintro ⟨⟨-, starts⟩ | ⟨-, rfl⟩, other⟩
    · exact absurd (today_unique (s := e.tick.now) starts other) day
    · exact absurd (today_unique (s := e.tick.now) (prefix_key _ _) other) day

/-- The refusals told, with one deed more. -/
theorem Inv.refusals {deeds : List Deed} {d d' : Daemon} (inv : Inv deeds d) {e : Deed}
    (saved : e.saved → d'.alarms.raised = [])
    (unsaved : e.saved = false → ∀ error : String, error ∈ d'.alarms.raised ↔ error ∈ d.alarms.raised ∨ e.Told error)
    (error : String) : error ∈ d'.alarms.raised ↔ ∃ x ∈ Deed.unsaved (deeds ++ [e]), x.Told error := by
  rw [unsaved_concat]
  cases was : e.saved with
  | true => simp [saved was]
  | false =>
    rw [unsaved was, inv.raised]
    simp only [Bool.false_eq_true, if_false, List.mem_append, List.mem_singleton]
    constructor
    · rintro (⟨x, member, told⟩ | told)
      · exact ⟨x, .inl member, told⟩
      · exact ⟨e, .inr rfl, told⟩
    · rintro ⟨x, member | rfl, told⟩
      · exact .inl ⟨x, member, told⟩
      · exact .inr told

theorem tick_follows {deeds : List Deed} {d : Daemon} (inv : Inv deeds d) (t : Tick) :
    Follows deeds (tick d t).1 ∧ Inv (deeds ++ [(tick d t).1]) (tick d t).2 := by
  have slot := due_cases inv t
  have kept : ∀ k, k ∈ (d.done.filter fun k => t.now.today.isPrefixOf k) ↔ k ∈ d.done ∧ t.now.today <+: k := fun k => by
    rw [List.mem_filter, List.isPrefixOf_iff_prefix]
  rcases slot with ⟨fresh, some'⟩ | ⟨stale, none'⟩
  · cases outcome : t.capture with
    | ok filename =>
      have done : tick d t = ({ tick := t, captured := some (.ok filename), prunes := true },
          { done := key t.now.today t.now.hhmm :: d.done.filter fun k => t.now.today.isPrefixOf k, alarms := {}
            store := d.store }) := by
        simp only [tick, some', settle, outcome]
        rfl
      rw [done]
      refine ⟨⟨⟨fun _ => fresh, fun _ => rfl⟩, ?_, ?_, nofun, rfl⟩, inv.slots ?_, inv.refusals (fun _ => rfl) nofun, inv.store⟩
      · rintro _ ⟨⟩
        exact outcome.symm
      · simp
      · intro k
        rw [List.mem_cons, kept]
        exact or_comm.trans (or_congr_right (by simp [Deed.saved, Deed.today, Deed.hhmm]))
    | error error =>
      have told : d.alarms.due error = true ↔ ∀ x ∈ Deed.unsaved deeds, ¬x.Told error := by
        have raised := inv.raised error
        simp only [RefusalAlarms.due, Bool.not_eq_true', ← Bool.not_eq_true, List.contains_iff_mem, raised]
        simp
      -- Refused: the slot stays open, and the refusals go on from `alarms`.
      have open_ : ∀ {e : Deed} {d' : Daemon}, e.tick = t → e.captured = some (.error error) →
          d'.done = d.done.filter (fun k => t.now.today.isPrefixOf k) → d'.store.Distinct →
          (∀ error' : String, error' ∈ d'.alarms.raised ↔ error' ∈ d.alarms.raised ∨ e.Told error') →
          Inv (deeds ++ [e]) d' := by
        intro e d' same captured done store alarms
        have unsaved : e.saved = false := by rw [Deed.saved, captured]
        refine ⟨inv.slots fun k => ?_, inv.refusals (fun saved => ?_) fun _ => alarms, store⟩
        · rw [done, kept, unsaved, Deed.today, same]
          simp
        · rw [unsaved] at saved
          cases saved
      cases due : d.alarms.due error with
      | false =>
        have done : tick d t = ({ tick := t, captured := some (.error error) },
            { d with done := d.done.filter fun k => t.now.today.isPrefixOf k }) := by
          simp only [tick, some', settle, outcome, due]
          rfl
        rw [done]
        refine ⟨⟨⟨fun _ => fresh, fun _ => rfl⟩, ?_, ?_, nofun, rfl⟩, open_ rfl rfl rfl inv.store fun error' => ?_⟩
        · rintro _ ⟨⟩
          exact outcome.symm
        · refine ⟨nofun, ?_⟩
          rintro ⟨_, ⟨⟩, untold⟩
          rw [told.mpr untold] at due
          cases due
        · refine ⟨.inl, fun held => held.resolve_right ?_⟩
          rintro ⟨-, alarm, devices, ⟨⟩, -⟩
      | true =>
        have done : tick d t = (
            { tick := t, captured := some (.error error)
              alarm := some (refusalAlarm t.now.hhmm error, (pushEngineers t.vapid d.store t.push).1) },
            { done := d.done.filter fun k => t.now.today.isPrefixOf k
              alarms := (if 0 < (pushEngineers t.vapid d.store t.push).1 then d.alarms.raise error else d.alarms)
              store := (pushEngineers t.vapid d.store t.push).2 }) := by
          simp only [tick, some', settle, outcome, due]
          rfl
        rw [done]
        have store := distinct_pushEngineers inv.store t.vapid t.push
        generalize pushEngineers t.vapid d.store t.push = pushed at store ⊢
        refine ⟨⟨⟨fun _ => fresh, fun _ => rfl⟩, ?_, ⟨fun _ => ⟨error, rfl, told.mp due⟩, fun _ => rfl⟩, ?_, rfl⟩,
          open_ rfl rfl rfl store fun error' => ?_⟩
        · rintro _ ⟨⟩
          exact outcome.symm
        · rintro _ _ ⟨⟩
          exact ⟨error, rfl, rfl⟩
        · have reached : Deed.Told
              { tick := t, captured := some (.error error), alarm := some (refusalAlarm t.now.hhmm error, pushed.1) }
              error' ↔ error' = error ∧ 0 < pushed.1 := by
            constructor
            · rintro ⟨⟨⟩, alarm, devices, ⟨⟩, some_⟩
              exact ⟨rfl, some_⟩
            · rintro ⟨rfl, some_⟩
              exact ⟨rfl, _, _, rfl, some_⟩
          rw [reached]
          by_cases some_ : 0 < pushed.1
          · rw [if_pos some_, RefusalAlarms.raise, List.mem_cons, and_iff_left some_]
            exact or_comm
          · simp [some_]
  · have done : tick d t = ({ tick := t },
        { d with done := d.done.filter fun k => t.now.today.isPrefixOf k }) := by
      simp only [tick, none']
    rw [done]
    refine ⟨⟨⟨nofun, fun fresh => absurd fresh stale⟩, nofun, by simp, nofun, rfl⟩, inv.slots ?_, inv.refusals nofun ?_,
      inv.store⟩
    · intro k
      rw [kept]
      simp [Deed.saved, Deed.today]
    · intro _ error
      simp [Deed.Told]

theorem run_concat (events : List Event) (event : Event) : run (events ++ [event]) = match event with
    | .tick t => ((run events).1 ++ [(tick (run events).2 t).1], (tick (run events).2 t).2)
    | .subscribe sub => ((run events).1, { (run events).2 with store := (run events).2.store.add sub }) := by
  unfold run
  rw [List.foldl_append]
  rfl

/-- At every tick of a run: a slot of the schedule is captured exactly when it was not saved since
the date last became that day, so a slot of a day is saved once unless the date was another in
between; a refusal goes to the engineer's devices exactly when none of them was told of it since a
capture was last saved, with the slot and the reason; and old backups go only after a save. -/
theorem scheduled_backups (events : List Event) {before after : List Deed} {e : Deed}
    (ran : (run events).1 = before ++ e :: after) :
    Follows before e ∧ ∀ early x between, before = early ++ x :: between → x.saved → x.today = e.today →
      x.hhmm = e.hhmm → e.saved → ∃ y ∈ between, y.today ≠ e.today := by
  have all : ∀ events, Inv (run events).1 (run events).2 ∧
      ∀ before e after, (run events).1 = before ++ e :: after → Follows before e := by
    intro events
    induction events using List.reverseRecOn with
    | nil => exact ⟨inv_start, fun before e after split => by simp [run] at split⟩
    | append_singleton events event ih =>
      obtain ⟨inv, follows⟩ := ih
      rw [run_concat]
      generalize run events = now at inv follows
      obtain ⟨deeds, d⟩ := now
      cases event with
      | subscribe sub => exact ⟨⟨inv.done, inv.raised, inv.store.add sub⟩, follows⟩
      | tick t =>
        obtain ⟨last, next⟩ := tick_follows inv t
        refine ⟨next, fun before e after split => ?_⟩
        rcases List.eq_nil_or_concat after with rfl | ⟨rest, y, rfl⟩
        · obtain ⟨rfl, same⟩ := List.append_inj' (split : deeds ++ [(tick d t).1] = before ++ [e]) rfl
          obtain rfl := List.singleton_inj.mp same
          exact last
        · have split : deeds ++ [(tick d t).1] = before ++ e :: rest ++ [y] := by simpa using split
          exact follows before e rest (List.append_inj_left' split rfl)
  have follows := (all events).2 before e after ran
  refine ⟨follows, fun early x between split saved day slot again => ?_⟩
  by_contra none'
  have same : ∀ y ∈ between, y.today = e.today := fun y member => by_contra fun apart => none' ⟨y, member, apart⟩
  have captured : e.captured.isSome = true := by
    unfold Deed.saved at again
    split at again
    · rename_i held
      rw [held]
      rfl
    · cases again
  refine (follows.captures.mp captured).2 x ?_ saved slot
  have since : ∀ y ∈ between.reverse, (y.today == e.today) = true := fun y member =>
    beq_iff_eq.mpr (same y (List.mem_reverse.mp member))
  rw [split, Deed.sameDay, List.rtakeWhile, List.reverse_append, List.reverse_cons, List.append_assoc,
    List.takeWhile_append_of_pos since]
  simp [day]

/-! ### A night -/

/-- 2026-09-27, 13:00, at its `n`-th half minute. -/
def afternoon (second : List Char) (widths : second.length = 2) (digits : ∀ c ∈ second, c.isDigit = true) : Stamp where
  year := "2026".toList
  month := "09".toList
  day := "27".toList
  hour := "13".toList
  minute := "00".toList
  second
  ms := none
  widths := ⟨rfl, rfl, rfl, rfl, rfl, widths⟩
  digits c member := by
    rcases List.mem_append.mp member with date | late
    · have all : ("2026".toList ++ "09".toList ++ "27".toList ++ "13".toList ++ "00".toList).all Char.isDigit = true := by
        decide
      exact List.all_eq_true.mp all c date
    · exact digits c late

def phone : PushSubscription := ⟨"https://push/201", "key", "secret"⟩

def atOne (capture : Except String String) : Tick where
  now := afternoon "30".toList rfl (List.all_eq_true.mp (by decide))
  schedule := ["13:00".toList, "21:00".toList]
  capture := capture

/-- The phone is subscribed, and the capture refused twice and then saved. -/
def phoneEvents : List Event :=
  [.subscribe phone, .tick (atOne (.error "not synced")), .tick (atOne (.error "not synced")),
    .tick (atOne (.ok "20260927_130000.json"))]

/-- The second refusal of a slot is tried and tells nobody again. -/
theorem scheduled_backups_refused : ∃ first second last, (run phoneEvents).1 = [first, second, last] ∧
    first.alarm.isSome ∧ second.captured.isSome ∧ second.alarm.isSome = false ∧ last.prunes = true := by
  have deeds : ∃ first second last, (run phoneEvents).1 = [first] ++ second :: [last] ∧ first.alarm.isSome ∧
      first.saved = false ∧ first.captured = some (.error "not synced") ∧ second.captured = some (.error "not synced") ∧
      second.hhmm ∈ second.tick.schedule ∧ (∃ alarm devices, first.alarm = some (alarm, devices) ∧ 0 < devices) ∧
      last.prunes = true := ⟨_, _, _, rfl, rfl, rfl, rfl, rfl, by decide, ⟨_, _, rfl, by decide⟩, rfl⟩
  obtain ⟨first, second, last, ran, alarmed, unsaved, refused, again, listed, told, prunes⟩ := deeds
  obtain ⟨follows, -⟩ := scheduled_backups phoneEvents ran
  refine ⟨first, second, last, ran, alarmed, by rw [again]; rfl, ?_, prunes⟩
  refine Bool.eq_false_iff.mpr fun alarm => ?_
  obtain ⟨error, same, untold⟩ := follows.alarms.mp alarm
  obtain rfl : error = "not synced" := by simpa [again] using same.symm
  refine untold first ?_ ⟨refused, told⟩
  simp [Deed.unsaved, List.rtakeWhile, unsaved]

end BackupDaemon

end IemMixer.Server
