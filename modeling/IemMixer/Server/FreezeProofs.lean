import Mathlib.Logic.Relation
import IemMixer.Server.Freeze
import IemMixer.TopologyProofs

/-! Persons' pages around a freeze: what they drop is announced, and what they hear while the
pages are frozen or their band is gone. -/
namespace IemMixer.Server.House
open Lib Proto

/-! ### A page about to close -/

/-- The pages are frozen, or the playing lineup no longer gives the page as it is. -/
def Shuts (s : App) (engine : Client) (page : Page) : Prop :=
  s.frozen = true ∨ s.page engine.mirror page.id ≠ some page

/-- A `State` with channels, or an update of a channel, a strip or the solo. -/
def values : ServerMsg → Bool
  | .state channels .. => !channels.isEmpty
  | .channelUpdate .. | .globalVolumeUpdate .. | .stemsVolumeUpdate .. | .soloUpdate _ => true
  | _ => false

/-- The engine connects and the page has channels, or the session's engine events lagged. -/
def Leaks (s : App) (engine : Client) (page : Page) (viewer : Viewer) : Occasion → Prop
  | .lagged => True
  | .event .connected => ∃ site, s.site engine.mirror = some site ∧ channels site engine.mirror page viewer ≠ []
  | _ => False

section
variable {s : App} {engine : Client} {page : Page} {viewer : Viewer}

theorem closing_iff (person : page.isPerson = true) : (closing s engine page).1 = true ↔ Shuts s engine page := by
  simp [closing, person, App.frozenForPage, Shuts]

theorem values_fullState : values (fullState s engine page viewer) = true ↔
    ∃ site, s.site engine.mirror = some site ∧ channels site engine.mirror page viewer ≠ [] := by
  unfold fullState
  cases s.site engine.mirror with
  | none => simp [values]
  | some site => simp [values, stateMsg]

theorem values_lineup {msg : ServerMsg} (member : msg ∈ (lineupMsg s).toList) : values msg = false := by
  obtain ⟨l, -, rfl⟩ := Option.map_eq_some_iff.mp (Option.mem_toList.mp member)
  rfl

/-- A person's page that shuts is sent values exactly when the engine connects or its events lag. -/
theorem shut_says (person : page.isPerson = true) (shut : Shuts s engine page) (session : ℕ) {o : Occasion}
    (isOpen : o ≠ .opening) :
    (∀ msg ∈ o.msgs s engine page viewer session, values msg = false) ↔ ¬ Leaks s engine page viewer o := by
  have quiet : (closing s engine page).1 = true := (closing_iff person).mpr shut
  cases o with
  | opening => exact absurd rfl isOpen
  | lagged =>
    have solo : values (soloSeenMsg s engine page viewer) = true := by
      unfold soloSeenMsg
      split <;> rfl
    simp [Occasion.msgs, lagged, Leaks, solo]
  | lineup =>
    have told : ∀ msg ∈ Occasion.lineup.msgs s engine page viewer session, values msg = false := by
      simp only [Occasion.msgs, onLineup, person, if_true]
      exact fun msg => values_lineup
    exact iff_of_true told not_false
  | meters merged =>
    have plain : ∀ msg ∈ (metersMsg s engine page viewer merged).toList, values msg = false := by
      intro msg member
      obtain ⟨site, -, rest⟩ := Option.bind_eq_some_iff.mp (Option.mem_toList.mp member)
      obtain ⟨topo, -, rest⟩ := Option.bind_eq_some_iff.mp rest
      cases rest
      rfl
    exact iff_of_true plain not_false
  | eqParams target =>
    have plain : ∀ msg ∈ (getEqParams s engine page viewer target).toList, values msg = false := by
      intro msg member
      obtain ⟨site, -, rest⟩ := Option.bind_eq_some_iff.mp (Option.mem_toList.mp member)
      cases answered : eqParamsMsg site engine.mirror page viewer target with
      | ok answer =>
        rw [answered] at rest
        cases rest
        obtain ⟨⟨t, name⟩, -, said⟩ := bind_ok_iff.mp answered
        cases said
        rfl
      | error e =>
        rw [answered] at rest
        cases rest
    exact iff_of_true plain not_false
  | event ev =>
    cases ev with
    | connected =>
      have full := @values_fullState s engine page viewer
      rw [Leaks, ← full]
      simp [Occasion.msgs, engineEvent, values]
    | reset => simp [Occasion.msgs, engineEvent, quiet, Leaks]
    | changed origin changes => simp [Occasion.msgs, engineEvent, quiet, Leaks]
    | disconnected => simp [Occasion.msgs, engineEvent, values, Leaks]
    | other => simp [Occasion.msgs, engineEvent, Leaks]

end

/-! ### Runs -/

/-- A run, with the house before each move and what was said at it. -/
inductive Runs : House → List (House × Move × List ServerMsg) → House → Prop where
  | nil (h : House) : Runs h [] h
  | cons {h h' last : House} {m : Move} {out : List ServerMsg} {rest : List (House × Move × List ServerMsg)}
      (step : h.move m = some (h', out)) (later : Runs h' rest last) : Runs h ((h, m, out) :: rest) last

theorem Runs.step {h last : House} {trace : List (House × Move × List ServerMsg)} (runs : Runs h trace last)
    {e : House × Move × List ServerMsg} (member : e ∈ trace) : ∃ h', e.1.move e.2.1 = some (h', e.2.2) := by
  induction runs with
  | nil h => cases member
  | cons step later ih =>
    rcases List.mem_cons.mp member with rfl | inside
    · exact ⟨_, step⟩
    · exact ih inside

/-- A session on a person's page that shuts speaks. -/
def ShutSpeaks (h : House) (m : Move) (n : ℕ) (x : Session) (o : Occasion) : Prop :=
  m = .session n o ∧ h.sessions[n]? = some x ∧ x.page.isPerson = true ∧ Shuts h.app h.engine x.page

/-- In a run, sessions on persons' pages that shut are sent no values exactly when none of them
handles a connecting engine with channels or a lag then. -/
theorem shut_pages_quiet (h last : House) (trace : List (House × Move × List ServerMsg)) (runs : Runs h trace last) :
    (∀ e ∈ trace, ∀ n x o, ShutSpeaks e.1 e.2.1 n x o → ∀ msg ∈ e.2.2, values msg = false) ↔
      ∀ e ∈ trace, ∀ n x o, ShutSpeaks e.1 e.2.1 n x o → ¬ Leaks e.1.app e.1.engine x.page x.viewer o := by
  have each : ∀ e ∈ trace, ∀ n x o, ShutSpeaks e.1 e.2.1 n x o →
      ((∀ msg ∈ e.2.2, values msg = false) ↔ ¬ Leaks e.1.app e.1.engine x.page x.viewer o) := by
    rintro ⟨before, m, out⟩ member n x o ⟨rfl, found, person, shut⟩
    obtain ⟨after, moved⟩ := runs.step member
    simp only [move, found, Option.bind_some, Option.map_eq_some_iff, Prod.mk.injEq] at moved
    obtain ⟨spoke, does, -, rfl⟩ := moved
    apply shut_says person shut n
    rintro rfl
    cases does
  constructor
  · exact fun quiet e member n x o speaks => (each e member n x o speaks).mp (quiet e member n x o speaks)
  · exact fun none e member n x o speaks => (each e member n x o speaks).mpr (none e member n x o speaks)

/-- Move after move, kept with what was said. -/
def run (h : House) : List Move → Option (List (House × Move × List ServerMsg) × House)
  | [] => some ([], h)
  | m :: rest => do
    let (h', out) ← h.move m
    let (trace, last) ← h'.run rest
    return ((h, m, out) :: trace, last)

theorem runs_run {h last : House} {moves : List Move} {trace : List (House × Move × List ServerMsg)}
    (ran : h.run moves = some (trace, last)) : Runs h trace last := by
  induction moves generalizing h trace with
  | nil =>
    cases ran
    exact .nil last
  | cons m rest ih =>
    obtain ⟨⟨h', out⟩, step, ran⟩ := Option.bind_eq_some_iff.mp ran
    obtain ⟨⟨later, end_⟩, ran, same⟩ := Option.bind_eq_some_iff.mp ran
    cases same
    exact .cons step (ih ran)

/-- The server of `duet`: the choir plays, Ben in it; the youth band plays without him. -/
def duetHouse : House where
  app := {
    siteConfig := {}
    roster := some {
      roster := {
        lineups := [{ id := "choir", main := true, sets := .ofList [("ben", "ben")] }, { id := "youth" }]
        people := [{ id := "ben", name := "Ben" }] }
      sha256 := ""
      active := "choir" } }
  engine := { mirror := { Mirror.start with topology := some TopologyProofs.duetCompiled.topo.info }, connected := true }

/-- Ben's page is open when a switch freezes the pages and the engine reconnects. -/
theorem connected_while_frozen :
    ¬ ∀ trace last, Runs duetHouse trace last →
      ∀ e ∈ trace, ∀ n x o, ShutSpeaks e.1 e.2.1 n x o → ∀ msg ∈ e.2.2, values msg = false := by
  intro quiet
  have ran : (duetHouse.run [.lookUp 1 "ben" { sub := "ben", engineer := false }, .subscribe 1, .freeze,
      .session 1 (.event .connected)]).any (fun r => r.1.any fun e => match e with
        | (h, .session 1 (.event .connected), out) =>
          h.app.frozen && (h.sessions[1]?).any (·.page.isPerson) && out.any values
        | _ => false) = true := by decide +kernel
  obtain ⟨⟨trace, last⟩, reached, facts⟩ := (Option.any_eq_true _ _).mp ran
  obtain ⟨e, member, fact⟩ := List.any_eq_true.mp facts
  split at fact
  · rename_i h out
    simp only [Bool.and_eq_true, Option.any_eq_true, List.any_eq_true] at fact
    obtain ⟨⟨frozen, x, found, person⟩, msg, said, shows⟩ := fact
    have silent := quiet trace last (runs_run reached) _ member 1 x (.event .connected) ⟨rfl, found, person, .inl frozen⟩
    rw [silent msg said] at shows
    cases shows
  · cases fact

/-- Ben's page hears nothing of an import while the pages are frozen. -/
theorem shut_pages_quiet_ben : ∃ trace last, Runs duetHouse trace last ∧ trace ≠ [] ∧
    ∀ e ∈ trace, ∀ n x o, ShutSpeaks e.1 e.2.1 n x o → ∀ msg ∈ e.2.2, values msg = false := by
  have ran : (duetHouse.run [.lookUp 1 "ben" { sub := "ben", engineer := false }, .subscribe 1, .freeze,
      .session 1 (.event .reset)]).any (fun r => !r.1.isEmpty && r.1.all fun e => match e.2.1 with
        | .session _ .lagged | .session _ (.event .connected) => false
        | _ => true) = true := by decide +kernel
  obtain ⟨⟨trace, last⟩, reached, facts⟩ := (Option.any_eq_true _ _).mp ran
  simp only [Bool.and_eq_true, Bool.not_eq_true', List.isEmpty_eq_false_iff, List.all_eq_true] at facts
  have runs := runs_run reached
  refine ⟨trace, last, runs, facts.1, (shut_pages_quiet _ _ _ runs).mpr ?_⟩
  intro e member n x o speaks leaks
  have plain := facts.2 e member
  rw [speaks.1] at plain
  cases o with
  | lagged => cases plain
  | event ev =>
    cases ev with
    | connected => cases plain
    | _ => exact leaks
  | _ => exact leaks

/-! ### What a freeze makes a page drop -/

/-- The server started: no socket, and frozen at most by a switch a restart cut short. -/
structure Starts (h : House) : Prop where
  arriving : h.arriving = ∅
  sessions : h.sessions = ∅
  holder : h.holder = .rest
  owed : h.owed = false
  missed : h.app.missed = false
  cut : h.app.frozen = true → h.app.roster.isSome = true

/-- The topology stays. -/
def Still (h : House) : Move → Prop
  | .engine engine => engine.mirror.topology = h.engine.mirror.topology
  | _ => True

/-- The topology stays, and a person's socket subscribes on the page the site gives it then, or before
the band is announced. -/
def Fair (h : House) : Move → Prop
  | .engine engine => engine.mirror.topology = h.engine.mirror.topology
  | .subscribe n => ∀ page viewer, h.arriving[n]? = some (page, viewer) → page.isPerson = true →
    h.app.page h.engine.mirror page.id = some page ∨ h.owed = true
  | _ => True

/-- The house from its start, each move meeting `ok`. -/
def Reaches (ok : House → Move → Prop) : House → House → Prop :=
  Relation.ReflTransGen fun h h' => ∃ m out, ok h m ∧ h.move m = some (h', out)

/-- What an open session of a person's page lacks is on its way. -/
structure Awaits (s : App) (engine : Client) (owed : Bool) (x : Session) : Prop where
  dropped : x.dropped = true → x.unread = true ∨ s.frozen = true ∧ s.missed = true ∨ owed = true
  stale : s.page engine.mirror x.page.id ≠ some x.page → x.unread = true ∨ owed = true

/-- Every session of a person's page that dropped an event has an announcement of the band
before it, and closes at it. -/
def Announced (h : House) : Prop := ∀ (n : ℕ) (x : Session), h.sessions[n]? = some x → x.page.isPerson = true →
  x.dropped = true → x.unread = true

structure Inv (h : House) : Prop where
  sessions : ∀ (n : ℕ) (x : Session), h.sessions[n]? = some x → x.page.isPerson = true →
    Awaits h.app h.engine h.owed x
  missed : h.app.missed = true → h.app.frozen = true
  roster : h.app.frozen = true ∨ h.owed = true → h.app.roster.isSome = true
  fresh : h.holder = .freezing false → h.owed = false

section
variable {h h' : House} {x : Session}

theorem Awaits.mono {s s' : App} {engine engine' : Client} {owed owed' : Bool} (awaits : Awaits s engine owed x)
    (page : s'.page engine'.mirror = s.page engine.mirror)
    (noted : s.frozen = true ∧ s.missed = true → s'.frozen = true ∧ s'.missed = true)
    (stays : owed = true → owed' = true) : Awaits s' engine' owed' x where
  dropped drop := by
    rcases awaits.dropped drop with unread | missed | waits
    · exact .inl unread
    · exact .inr (.inl (noted missed))
    · exact .inr (.inr (stays waits))
  stale gone := by
    rw [page] at gone
    exact (awaits.stale gone).imp_right stays

theorem page_topology (s : App) {m m' : Mirror} (same : m'.topology = m.topology) : s.page m' = s.page m := by
  funext id
  simp only [App.page, App.site, same]

/-- The band was announced: every session has it to read. -/
theorem announce_unread (roster : h.app.roster.isSome = true) (n : ℕ) (found : h.announce.sessions[n]? = some x) :
    x.unread = true := by
  rw [announce, if_pos roster] at found
  simp only [Std.ExtTreeMap.getElem?_map, Option.map_eq_some_iff] at found
  obtain ⟨before, -, rfl⟩ := found
  rfl

theorem unread_awaits {s : App} {engine : Client} {owed : Bool} (unread : x.unread = true) : Awaits s engine owed x := ⟨fun _ => .inl unread, fun _ => .inl unread⟩

theorem announce_rest (h : House) : h.announce.app = h.app ∧ h.announce.holder = h.holder ∧
    (h.announce.owed = true → h.owed = true) := by
  unfold announce
  split
  · exact ⟨rfl, rfl, nofun⟩
  · exact ⟨rfl, rfl, fun owed => owed⟩

theorem Inv.announce (inv : h.Inv) : h.announce.Inv := by
  obtain ⟨app, holder, owed⟩ := announce_rest h
  refine ⟨fun n x found person => ?_, app ▸ inv.missed, fun some => ?_, fun fresh => ?_⟩
  · by_cases roster : h.app.roster.isSome = true
    · exact unread_awaits (announce_unread roster n found)
    · have same : h.announce = h := if_neg roster
      rw [same] at found ⊢
      exact inv.sessions n x found person
  · rw [app]
    exact inv.roster (some.imp (app ▸ ·) owed)
  · have before := inv.fresh (holder ▸ fresh)
    cases held : h.announce.owed with
    | true => rw [owed held] at before; cases before
    | false => rfl

/-- A thaw leaves no session waiting for the next one. -/
theorem Inv.thawAfter (inv : h.Inv) {changed : Bool} (settled : h.owed = true → h.app.frozen = true ∧ changed = true) :
    (h.thawAfter changed).Inv ∧ (h.thawAfter changed).Announced := by
  let thawed : House := { h with app := (h.app.thawAfter changed).2, holder := .rest }
  cases tells : (h.app.thawAfter changed).1 with
  | true =>
    have same : h.thawAfter changed = thawed.announce := by simp [House.thawAfter, tells, thawed]
    have frozen : h.app.frozen = true := by
      simp only [App.thawAfter, Bool.and_eq_true] at tells
      exact tells.1
    have roster : thawed.app.roster.isSome = true := inv.roster (.inl frozen)
    obtain ⟨app, holder, -⟩ := announce_rest thawed
    rw [same]
    constructor
    · refine ⟨fun n x found _ => unread_awaits (announce_unread roster n found), ?_, fun _ => app ▸ roster, ?_⟩
      · rw [app]
        exact nofun
      · rw [holder]
        exact nofun
    · exact fun n x found _ _ => announce_unread roster n found
  | false =>
    have same : h.thawAfter changed = thawed := by simp [House.thawAfter, tells, thawed]
    have unowed : h.owed = false := by
      cases held : h.owed with
      | false => rfl
      | true =>
        obtain ⟨frozen, yes⟩ := settled held
        simp [App.thawAfter, frozen, yes] at tells
    have heard : h.Announced := by
      intro n x found person drop
      rcases (inv.sessions n x found person).dropped drop with unread | ⟨frozen, missed⟩ | owed
      · exact unread
      · simp [App.thawAfter, frozen, missed] at tells
      · rw [unowed] at owed
        cases owed
    rw [same]
    constructor
    · refine ⟨fun n x found person => ?_, nofun, ?_, nofun⟩
      · exact ⟨fun drop => .inl (heard n x found person drop), (inv.sessions n x found person).stale⟩
      · rintro (frozen | owed)
        · cases frozen
        · exact inv.roster (.inr owed)
    · exact heard

/-- What an engine event leaves of what the sessions share: at most a note that a person's page
dropped it while frozen. -/
theorem engineEvent_app (s : App) (engine : Client) (page : Page) (viewer : Viewer) (n : ℕ) (ev : EngineEvent) :
    ((engineEvent s engine page viewer n ev).2 = s ∨
      s.frozen = true ∧ (engineEvent s engine page viewer n ev).2 = { s with missed := true }) := by
  have noted : (closing s engine page).2 = s ∨ s.frozen = true ∧ (closing s engine page).2 = { s with missed := true } := by
    unfold closing App.frozenForPage
    cases frozen : s.frozen with
    | true =>
      split
      · exact .inr ⟨rfl, rfl⟩
      · exact .inl rfl
    | false => split <;> exact .inl rfl
  cases ev with
  | reset => exact noted
  | changed origin changes => exact noted
  | _ => exact .inl rfl

/-- A drop while frozen is noted. -/
theorem closing_notes {s : App} {engine : Client} {page : Page} (person : page.isPerson = true)
    (frozen : s.frozen = true) : (closing s engine page).2.missed = true := by
  simp [closing, person, App.frozenForPage, frozen]

/-- One session hears an engine event. -/
theorem Inv.hear (inv : h.Inv) {n : ℕ} (found : h.sessions[n]? = some x) (ev : EngineEvent)
    (does : h.speak n x (.event ev) = some h') : h'.Inv := by
  cases does
  have frozen : (engineEvent h.app h.engine x.page x.viewer n ev).2.frozen = h.app.frozen := by
    rcases engineEvent_app h.app h.engine x.page x.viewer n ev with same | ⟨-, same⟩
    · rw [same]
    · rw [same]
  have roster : (engineEvent h.app h.engine x.page x.viewer n ev).2.roster = h.app.roster := by
    rcases engineEvent_app h.app h.engine x.page x.viewer n ev with same | ⟨-, same⟩
    · rw [same]
    · rw [same]
  have missed : h.app.frozen = true ∧ h.app.missed = true →
      (engineEvent h.app h.engine x.page x.viewer n ev).2.frozen = true ∧
        (engineEvent h.app h.engine x.page x.viewer n ev).2.missed = true := by
    rintro ⟨isFrozen, isMissed⟩
    rcases engineEvent_app h.app h.engine x.page x.viewer n ev with same | ⟨-, same⟩
    · rw [same]
      exact ⟨isFrozen, isMissed⟩
    · rw [same]
      exact ⟨isFrozen, rfl⟩
  have page : (engineEvent h.app h.engine x.page x.viewer n ev).2.page h.engine.mirror = h.app.page h.engine.mirror := by
    rcases engineEvent_app h.app h.engine x.page x.viewer n ev with same | ⟨-, same⟩
    · rw [same]
    · rw [same]
      rfl
  constructor
  case sessions =>
    intro k y held person
    rw [BTreeMap.getElem?_insert_eq] at held
    split at held
    · cases held
      have before := inv.sessions n x found person
      constructor
      case stale =>
        intro gone
        rw [page] at gone
        exact before.stale gone
      case dropped =>
        intro drop
        rcases Bool.or_eq_true_iff.mp drop with old | new
        · rcases before.dropped old with unread | waits | owed
          · exact .inl unread
          · exact .inr (.inl (missed waits))
          · exact .inr (.inr owed)
        · have quiet : (closing h.app h.engine x.page).1 = true ∧
              (engineEvent h.app h.engine x.page x.viewer n ev).2 = (closing h.app h.engine x.page).2 := by
            cases ev with
            | reset => exact ⟨new, rfl⟩
            | changed origin changes => exact ⟨new, rfl⟩
            | _ => cases new
          rcases (closing_iff person).mp quiet.1 with isFrozen | gone
          · refine .inr (.inl ⟨frozen.trans isFrozen, ?_⟩)
            rw [quiet.2]
            exact closing_notes person isFrozen
          · exact (before.stale gone).imp_right .inr
    · exact (inv.sessions k y held person).mono page missed id
  case missed =>
    intro isMissed
    rw [frozen]
    rcases engineEvent_app h.app h.engine x.page x.viewer n ev with same | ⟨isFrozen, -⟩
    · exact inv.missed (same ▸ isMissed)
    · exact isFrozen
  case roster =>
    intro some
    rw [roster]
    exact inv.roster (some.imp_left (frozen ▸ ·))
  case fresh => exact inv.fresh

theorem Inv.move (inv : h.Inv) {m : Move} {out : List ServerMsg} (fair : h.Fair m) (moved : h.move m = some (h', out)) :
    h'.Inv := by
  cases m with
  | engine engine =>
    cases moved
    exact ⟨fun n x found person => (inv.sessions n x found person).mono (page_topology h.app fair) id id,
      inv.missed, inv.roster, inv.fresh⟩
  | lookUp n id viewer =>
    obtain ⟨page, -, opened⟩ := Option.bind_eq_some_iff.mp moved
    split at opened
    · cases opened
      exact ⟨inv.sessions, inv.missed, inv.roster, inv.fresh⟩
    · cases opened
  | subscribe n =>
    obtain ⟨⟨page, viewer⟩, waits, same⟩ := Option.map_eq_some_iff.mp moved
    cases same
    refine ⟨fun k x found person => ?_, inv.missed, inv.roster, inv.fresh⟩
    rw [BTreeMap.getElem?_insert_eq] at found
    split at found
    · cases found
      exact ⟨nofun, fun gone => .inr ((fair page viewer waits person).resolve_left gone)⟩
    · exact inv.sessions k x found person
  | session n o =>
    obtain ⟨x, found, spoke⟩ := Option.bind_eq_some_iff.mp moved
    obtain ⟨after, does, same⟩ := Option.map_eq_some_iff.mp spoke
    cases same
    cases o with
    | opening => cases does
    | event ev => exact inv.hear found ev does
    | lineup =>
      simp only [speak] at does
      split at does
      · cases does
        refine ⟨fun k y held person => ?_, inv.missed, inv.roster, inv.fresh⟩
        cases mine : x.page.isPerson with
        | true =>
          simp only [mine, if_true, BTreeMap.getElem?_erase_eq] at held
          split at held
          · cases held
          · exact inv.sessions k y held person
        | false =>
          simp only [mine, Bool.false_eq_true, if_false, BTreeMap.getElem?_insert_eq] at held
          split at held
          · cases held
            rw [mine] at person
            cases person
          · exact inv.sessions k y held person
      · cases does
    | _ =>
      cases does
      exact inv
  | leave n =>
    cases moved
    refine ⟨fun k x found person => ?_, inv.missed, inv.roster, inv.fresh⟩
    rw [BTreeMap.getElem?_erase_eq] at found
    split at found
    · cases found
    · exact inv.sessions k x found person
  | freeze =>
    simp only [House.move] at moved
    split at moved
    · rename_i may
      cases moved
      refine ⟨fun n x found person => ?_, fun _ => rfl, fun _ => may.2.1, fun fresh => ?_⟩
      · exact (inv.sessions n x found person).mono rfl (fun waits => ⟨rfl, waits.2⟩) id
      · have thawed : h.app.frozen = false := Holder.freezing.inj fresh
        cases owed : h.owed with
        | false => rfl
        | true =>
          rw [may.2.2 owed] at thawed
          cases thawed
    · cases moved
  | barrier ok =>
    simp only [House.move] at moved
    split at moved
    · rename_i was phase
      split at moved
      · cases moved
        exact ⟨inv.sessions, inv.missed, inv.roster, nofun⟩
      split at moved
      · cases moved
        exact ⟨inv.sessions, inv.missed, inv.roster, nofun⟩
      · rename_i fresh
        cases moved
        have unowed := inv.fresh (by rw [phase, Bool.eq_false_iff.mpr fresh])
        exact (inv.thawAfter (by rw [unowed]; exact nofun)).1
    · cases moved
  | thaw =>
    simp only [House.move] at moved
    split at moved
    · cases moved
    split at moved
    · rename_i settled
      cases moved
      exact (inv.thawAfter fun owed => ⟨settled owed, rfl⟩).1
    · cases moved
  | thawUnchanged =>
    simp only [House.move] at moved
    split at moved
    · rename_i may
      cases moved
      exact (inv.thawAfter (by simp [by simpa using may.2])).1
    · cases moved
  | stay =>
    simp only [House.move] at moved
    split at moved
    · cases moved
      exact ⟨inv.sessions, inv.missed, inv.roster, nofun⟩
    · cases moved
  | setRoster r =>
    simp only [House.move] at moved
    split at moved
    · cases moved
    · rename_i phase
      cases moved
      refine ⟨fun n x _ _ => ⟨fun _ => .inr (.inr rfl), fun _ => .inr rfl⟩, inv.missed, fun _ => rfl, fun fresh => ?_⟩
      exact absurd fresh (phase false)
  | setSettling settling =>
    cases moved
    exact ⟨fun n x found person => (inv.sessions n x found person).mono rfl id id, inv.missed, inv.roster, inv.fresh⟩
  | announce =>
    simp only [House.move] at moved
    split at moved
    · cases moved
    · cases moved
      exact inv.announce

/-- The move frees the pages: a thaw of either kind, or a freeze of free pages that failed. -/
def Frees (h : House) : Move → Prop
  | .thaw | .thawUnchanged => True
  | .barrier ok => ok = false ∧ h.holder = .freezing false
  | _ => False

theorem Inv.frees (inv : h.Inv) {m : Move} {out : List ServerMsg} (frees : h.Frees m)
    (moved : h.move m = some (h', out)) : h'.Announced := by
  cases m with
  | barrier ok =>
    obtain ⟨rfl, phase⟩ := frees
    simp only [House.move, phase] at moved
    cases moved
    have unowed := inv.fresh phase
    exact (inv.thawAfter (by rw [unowed]; exact nofun)).2
  | thaw =>
    simp only [House.move] at moved
    split at moved
    · cases moved
    split at moved
    · rename_i settled
      cases moved
      exact (inv.thawAfter fun owed => ⟨settled owed, rfl⟩).2
    · cases moved
  | thawUnchanged =>
    simp only [House.move] at moved
    split at moved
    · rename_i may
      cases moved
      exact (inv.thawAfter (by simp [by simpa using may.2])).2
    · cases moved
  | _ => cases frees

theorem Starts.inv (starts : h.Starts) : h.Inv where
  sessions n x found := by
    rw [starts.sessions] at found
    cases found
  missed missed := by
    rw [starts.missed] at missed
    cases missed
  roster some := by
    rcases some with frozen | owed
    · exact starts.cut frozen
    · rw [starts.owed] at owed
      cases owed
  fresh phase := by
    rw [starts.holder] at phase
    cases phase

theorem reaches_inv (starts : h.Starts) (run : Reaches Fair h h') : h'.Inv := by
  induction run with
  | refl => exact starts.inv
  | tail _ last ih =>
    obtain ⟨m, out, fair, moved⟩ := last
    exact ih.move fair moved

/-- After every thaw each session of a person's page that dropped an event has an announcement
to read, at which it closes; before one it may wait for it, as the drop was noted while frozen,
or as whoever put a roster in use has not announced it yet. -/
theorem drops_are_announced (start : House) (starts : start.Starts) (h : House) (run : Reaches Fair start h) :
    (∀ (n : ℕ) (x : Session), h.sessions[n]? = some x → x.page.isPerson = true → x.dropped = true →
      x.unread = true ∨ (h.app.frozen = true ∧ h.app.missed = true) ∨ h.owed = true) ∧
    (∀ m h' out, h.Frees m → h.move m = some (h', out) → h'.Announced) ∧
    ∀ (n : ℕ) (x : Session), h.sessions[n]? = some x → x.page.isPerson = true → x.unread = true →
      ∃ h' out, h.move (.session n .lineup) = some (h', out) ∧ h'.sessions[n]? = none := by
  have inv := reaches_inv starts run
  refine ⟨fun n x found person => (inv.sessions n x found person).dropped, fun m h' out => inv.frees, ?_⟩
  intro n x found person unread
  refine ⟨{ h with sessions := h.sessions.erase n }, Occasion.lineup.msgs h.app h.engine x.page x.viewer n, ?_, by simp⟩
  simp only [House.move, found, Option.bind_some, speak, unread, if_true, person, Option.map_some]

end

theorem Runs.reaches {ok : House → Move → Prop} {h last : House} {trace : List (House × Move × List ServerMsg)}
    (runs : Runs h trace last) (each : ∀ e ∈ trace, ok e.1 e.2.1) : Reaches ok h last := by
  induction runs with
  | nil h => exact .refl
  | cons step later ih =>
    have first := each _ List.mem_cons_self
    exact .head ⟨_, _, first, step⟩ (ih fun e inside => each e (List.mem_cons_of_mem _ inside))

/-- The moves of a trace are fair. -/
def fairly (e : House × Move × List ServerMsg) : Bool := match e.2.1 with
  | .engine _ => false
  | .subscribe n => (e.1.arriving[n]?).all fun p => decide (e.1.app.page e.1.engine.mirror p.1.id = some p.1) || e.1.owed
  | _ => true

theorem fair_of_fairly {e : House × Move × List ServerMsg} (fine : fairly e = true) : e.1.Fair e.2.1 := by
  obtain ⟨h, m, out⟩ := e
  cases m with
  | engine engine => cases fine
  | subscribe n =>
    intro page viewer waits _
    simpa [fairly, waits] using fine
  | _ => exact trivial

theorem duet_starts : duetHouse.Starts := ⟨rfl, rfl, rfl, rfl, rfl, nofun⟩

/-- Ben's page misses a reset in a freeze that changes nothing, and closes after it. -/
theorem drops_are_announced_ben : ∃ h h' x out, Reaches Fair duetHouse h ∧ h.move .thawUnchanged = some (h', out) ∧
    h'.sessions[1]? = some x ∧ x.dropped = true ∧ x.unread = true := by
  have ran : (duetHouse.run [.lookUp 1 "ben" { sub := "ben", engineer := false }, .subscribe 1, .freeze,
      .session 1 (.event .reset), .barrier true]).any (fun r => r.1.all fairly &&
        (r.2.move .thawUnchanged).any fun p => (p.1.sessions[1]?).any fun x => x.page.isPerson && x.dropped) = true := by
    decide +kernel
  obtain ⟨⟨trace, h⟩, reached, facts⟩ := (Option.any_eq_true _ _).mp ran
  simp only [Bool.and_eq_true, List.all_eq_true, Option.any_eq_true] at facts
  obtain ⟨fine, ⟨h', out⟩, moved, x, found, person, dropped⟩ := facts
  have run : Reaches Fair duetHouse h := (runs_run reached).reaches fun e member => fair_of_fairly (fine e member)
  have told := (drops_are_announced duetHouse duet_starts h run).2.1 .thawUnchanged h' out trivial moved
  exact ⟨h, h', x, out, run, moved, found, dropped, told 1 x found person dropped⟩

/-- Ben's page is looked up, the band is switched to one without him and announced, and only
then his socket subscribes: it drops an event, and no thaw ever tells it. -/
theorem late_socket_hears_nothing :
    ¬ ∀ h, Reaches Still duetHouse h →
      ∀ m h' out, h.Frees m → h.move m = some (h', out) → h'.Announced := by
  intro announced
  have ran : (duetHouse.run [.lookUp 1 "ben" { sub := "ben", engineer := false }, .freeze, .barrier true,
      .setRoster { roster := (duetHouse.app.roster.map (·.roster)).getD { lineups := [] }, sha256 := "", active := "youth" },
      .thaw, .subscribe 1, .session 1 (.event (.changed none [])), .freeze, .barrier true]).any
      (fun r => r.1.all (fun e => match e.2.1 with | .engine _ => false | _ => true) &&
        (r.2.move .thawUnchanged).any fun p => (p.1.sessions[1]?).any fun x =>
          x.page.isPerson && x.dropped && !x.unread) = true := by decide +kernel
  obtain ⟨⟨trace, h⟩, reached, facts⟩ := (Option.any_eq_true _ _).mp ran
  simp only [Bool.and_eq_true, List.all_eq_true, Option.any_eq_true, Bool.not_eq_true'] at facts
  obtain ⟨still, ⟨h', out⟩, moved, x, found, ⟨person, dropped⟩, unheard⟩ := facts
  have run : Reaches Still duetHouse h := by
    apply (runs_run reached).reaches
    rintro ⟨before, m, said⟩ member
    have fine := still _ member
    cases m with
    | engine engine => cases fine
    | _ => exact trivial
  have told := announced h run .thawUnchanged h' out trivial moved 1 x found person dropped
  rw [unheard] at told
  cases told

end IemMixer.Server.House
