import IemMixer.Server.FollowPeopleProofs
import IemMixer.Server.RosterInUse
import IemMixer.Server.RosterWatch

/-! What a start, a poll of the roster file and a turn of the task that settles leave of the roster in
use, the status file and the people's data, wherever they end or stop. -/
namespace IemMixer.Server.RosterWatch
open Lib Lib.Process Proto

section
variable {β ε ε' α : Type}

/-- What is done to the file meanwhile is of the kind `fine`. -/
def Fine (fine : Edit → Prop) (o : Oracle WatchStep (WatchFate β)) : Prop := ∀ t op, ∀ e ∈ (o t op).edits, fine e

/-- Unchanged by edits, and by what becomes of the states and of the records of what they follow. -/
structure Deaf (fine : Edit → Prop) (P : Assertion (Host β)) : Prop where
  edit : ∀ h e, fine e → P h → P (h.edit e)
  states : ∀ h w, w.inUse = h.world.inUse → P h → P (h.withWorld w)
  unsettled : ∀ h u, P h → P { h with unsettled := u }
  unrecorded : ∀ h n, P h → P { h with unrecorded := n }

/-- A halt of a step within `P`: caught, or the last, where `C` is enough. -/
def Cut (P C : Assertion (Host β)) (e : Halt ε) : Assertion (Host β) := match e with
  | .stopped => C
  | .error _ => P

variable {fine : Edit → Prop} {o : Oracle WatchStep (WatchFate β)} {P C : Assertion (Host β)}

theorem cut_same (e : Halt ε) (h : Host β) (cut : Cut C C e h) : C h := by cases e <;> exact cut

/-- An error caught is a value: what holds at it is told of that. -/
theorem triple_caught {m : WatchM β ε' α} {F E : Assertion (Host β)} {Q : α → Assertion (Host β)}
    {R : Except ε' α → Assertion (Host β)} (runs : Triple o P m Q (Cut F C)) (ok : ∀ a h, Q a h → R (.ok a) h)
    (error : ∀ e h, F h → R (.error e) h) : Triple o P (attempt m : WatchM β ε (Except ε' α)) R (Cut E C) := by
  have caught : Triple o P (attempt m : WatchM β ε (Except ε' α)) _ (Cut E C) := triple_attempt runs fun _ => id
  refine triple_conseq caught (fun _ => id) (fun r h held => ?_) fun _ _ => id
  cases r with
  | ok a => exact ok a h held
  | error e => exact error e h held

theorem Deaf.edits (deaf : Deaf fine P) {es : List Edit} (all : ∀ e ∈ es, fine e) {h : Host β} (held : P h) :
    P (h.edits es) := by
  induction es generalizing h with
  | nil => exact held
  | cons e rest ih =>
    exact ih (fun e member => all e (List.mem_cons_of_mem _ member)) (deaf.edit h e (all e List.mem_cons_self) held)

theorem Deaf.settle (deaf : Deaf fine P) {h : Host β} (held : P h) (u : Option Unsettled) : P (h.settle u) :=
  deaf.states { h with unsettled := u } _ rfl (deaf.unsettled h u held)

section
variable (edits : Fine fine o) (deaf : Deaf fine P)
include edits deaf

theorem triple_fileStep {op : WatchStep} {act : Host β → α × Host β} {R : α → Assertion (Host β)}
    (acts : ∀ h, P h → R (act h).1 (act h).2) (cut : ∀ h, P h → C h ∧ C (act h).2) :
    Triple o P (fileStep op act) R (Cut P C) := by
  refine triple_step fun t h held => ?_
  have held := deaf.edits (edits t op) held
  simp only
  cases (o t op).file with
  | done => exact acts _ held
  | failed text => exact held
  | stopped happened => cases happened with
    | true => exact (cut _ held).2
    | false => exact (cut _ held).1

theorem keeps_fileStep {op : WatchStep} {act : Host β → α × Host β} (acts : ∀ h, P h → P (act h).2) :
    Keeps o P (fileStep op act) :=
  triple_conseq (triple_fileStep edits deaf acts fun h held => ⟨held, acts h held⟩) (fun _ => id) (fun _ _ => id)
    fun e _ held => by cases e <;> exact held

omit edits in
theorem triple_inStates {m : RosterProc ε α} {fact : α → Prop}
    (runs : ∀ J, Triple (fun t op => (o t (.lineups op)).engine) (InUse J) m (fun a w => InUse J w ∧ fact a)
      fun _ => InUse J) :
    Triple o P (inStates m) (fun a h => P h ∧ fact a) fun _ => P :=
  triple_focus fun h held => triple_among (triple_conseq (runs (· = h.world.inUse)) (fun _ same => same ▸ rfl)
    (fun _ w done => ⟨deaf.states h w done.1 held, done.2⟩) fun _ w same => deaf.states h w same held)

omit edits in
theorem keeps_inStates {m : RosterProc ε α}
    (runs : ∀ J, Keeps (fun t op => (o t (.lineups op)).engine) (InUse J) m) : Keeps o P (inStates m) :=
  have stays : Triple o P (inStates m) (fun _ h => P h ∧ True) fun _ => P := triple_inStates deaf fun J =>
    triple_conseq (runs J) (fun _ => id) (fun _ _ kept => ⟨kept, trivial⟩) fun _ _ => id
  triple_conseq stays (fun _ => id) (fun _ _ => And.left) fun _ _ => id

end

/-- The roster in use, the status file, whether the roster applied last stands in, and the roster
the people's data was made to follow. -/
structure Known where
  use : Option RosterState := none
  status : Option Status := none
  fallback : Bool := false
  lost : Option Roster := none

/-- Of the roster file, the file system's clock, the roster recorded, a migration and the people's
data; by the roster these were made to follow. -/
abbrev Guard (β : Type) := Option RosterFile → ℕ → Option String → Bool → Removal.Site β → Prop

def Guard.at' (G : Guard β) (h : Host β) : Prop := G h.file h.clock h.recorded h.legacy h.site

structure Holds (G : Option Roster → Guard β) (k : Known) (h : Host β) : Prop where
  use : h.world.inUse = k.use
  status : h.status = k.status
  fallback : h.fallback = k.fallback
  guard : (G k.lost).at' h

/-- What the status file holds once `status` is to be written: that, or what it held before a write
that failed. -/
def Written (o : Oracle WatchStep (WatchFate β)) (old : Option Status) (status : Status) (st : Option Status) : Prop :=
  st = some status ∨ (∃ t text, (o t .writeStatus).file = .failed text) ∧ st = old

/-- What lasts through the steps of the server, and leaves `C` where the process stops: the files
that came, and the rosters whose lack the people's data may follow. -/
structure Guards (fine : Edit → Prop) (came : ByteArray → Prop) (may : Roster → Prop)
    (o : Oracle WatchStep (WatchFate β)) (G : Option Roster → Guard β) (C : Guard β) : Prop where
  edit : ∀ lost h e, fine e → (G lost).at' h → (G lost).at' (Host.edit h e)
  file : ∀ lost h f, (G lost).at' h → h.file = some f → came f.bytes
  recorded : ∀ lost h text, (G lost).at' h → h.recorded = some text → came text.toUTF8
  record : ∀ lost h text, came text.toUTF8 → (G lost).at' h → (G lost).at' { h with recorded := some text }
  cut : ∀ lost h, (G lost).at' h → C.at' h
  follow : ∀ roster removed h, may roster → (G none).at' h → Triple (fun t op => (o t (.people op)).file) (· = h.site)
    (Removal.followPeople (ε := Empty) roster removed) (fun _ s => (G (some roster)).at' (h.withSite s))
    fun _ s => C.at' (h.withSite s)
  migrated : ∀ h m main, h.legacy = true → (G none).at' h →
    C.at' (h.migrated m main) ∧ ∀ legacy, (G none).at' { h.migrated m main with legacy }
  finished : ∀ h, (G none).at' h → (G none).at' { h with legacy := false }

variable {came : ByteArray → Prop} {may : Roster → Prop} {G : Option Roster → Guard β} {D : Guard β} {k : Known}

section
variable (edits : Fine fine o) (guards : Guards fine came may o G D)
include guards

theorem Guards.deaf (k : Known) : Deaf fine (Holds G k) where
  edit h e is held := by
    refine ⟨?_, ?_, ?_, guards.edit _ h e is held.guard⟩
    · cases e <;> exact held.use
    · cases e <;> exact held.status
    · cases e <;> exact held.fallback
  states h w same held := ⟨same.trans held.use, held.status, held.fallback, held.guard⟩
  unsettled h u held := ⟨held.use, held.status, held.fallback, held.guard⟩
  unrecorded h n held := ⟨held.use, held.status, held.fallback, held.guard⟩

/-- The people's data follows a roster. -/
theorem triple_followPeople {ε : Type} {E : Assertion (Host β)} (fresh : k.lost = none) {roster : Roster}
    (allowed : may roster) (removed : List String) : Triple o (Holds G k) (followPeople (ε := ε) roster removed)
      (fun _ => Holds G { k with lost := some roster }) (Cut E D.at') := by
  have follows : Triple o (Holds G k) (inSite (ε := Empty) (Removal.followPeople roster removed))
      (fun _ => Holds G { k with lost := some roster }) fun _ => D.at' := triple_focus fun h held => by
    have guard : (G none).at' h := fresh ▸ held.guard
    refine triple_among (triple_conseq (guards.follow roster removed h allowed guard) (fun _ => id)
      (fun _ s post => ?_) fun _ _ => id)
    exact ⟨held.use, held.status, held.fallback, post⟩
  exact triple_mapErr _ follows (fun _ => id) fun e => e.elim

/-- Steps that leave what is known, with the cut of a stop. -/
theorem Guards.quiet {m : WatchM β ε α} (keeps : Keeps o (Holds G k) m) :
    Triple o (Holds G k) m (fun _ => Holds G k) (Cut (Holds G k) D.at') :=
  triple_conseq keeps (fun _ => id) (fun _ _ => id) fun e h held => by
    cases e with
    | stopped => exact guards.cut _ h held.guard
    | error _ => exact held

theorem Guards.caught {E : Assertion (Host β)} {m : WatchM β ε' α} (keeps : Keeps o (Holds G k) m) :
    Triple o (Holds G k) (attempt m : WatchM β ε (Except ε' α)) (fun _ => Holds G k) (Cut E D.at') :=
  triple_caught (guards.quiet keeps) (fun _ _ => id) fun _ _ => id

theorem triple_thaw {E : Halt ε → Assertion (Host β)} :
    Triple o (Holds G k) (inStates (lineups thaw)) (fun _ => Holds G k) E :=
  triple_focus fun h held => triple_among (triple_relabel (triple_change fun w same =>
    (guards.deaf k).states h _ (by rw [same]) held))

include edits

theorem triple_keep {E : Assertion (Host β)} (sha256 : String) (roster : Roster) :
    Triple o (Holds G k) (keep (ε := ε) sha256 roster) (fun _ => Holds G k) (Cut E D.at') :=
  triple_bind (guards.caught (keeps_fileStep edits (guards.deaf k) fun h held => (guards.deaf k).states h _ rfl held))
    fun _ => triple_pure fun _ => id

theorem triple_record {E : Assertion (Host β)} {text : String} (known : came text.toUTF8) :
    Triple o (Holds G k) (record (ε := ε) text) (fun _ => Holds G k) (Cut E D.at') :=
  triple_bind (guards.caught (keeps_fileStep edits (guards.deaf k) fun h held =>
    ⟨held.use, held.status, held.fallback, guards.record _ h text known held.guard⟩)) fun _ => triple_pure fun _ => id

/-- The status file is written, or it is as it was. -/
theorem triple_note {ε : Type} {E : Assertion (Host β)} (status : Status) : Triple o (Holds G k) (note (ε := ε) status)
    (fun _ h => ∃ st, Written o k.status status st ∧ Holds G { k with status := st } h) (Cut E D.at') := by
  refine triple_bind (Q := fun _ h => ∃ st, Written o k.status status st ∧ Holds G { k with status := st } h) ?_
    fun _ => triple_pure fun _ => id
  refine triple_caught (Q := fun _ => Holds G { k with status := some status })
    (F := fun h => (∃ t text, (o t .writeStatus).file = .failed text) ∧ Holds G k h) ?_
    (fun _ h held => ⟨_, .inl rfl, held⟩) fun _ h held => ⟨_, .inr ⟨held.1, rfl⟩, held.2⟩
  refine triple_step fun t h held => ?_
  have held := (guards.deaf k).edits (edits t .writeStatus) held
  have written : Holds G { k with status := some status }
    { h.edits (o t .writeStatus).edits with status := some status } :=
    ⟨held.use, rfl, held.fallback, held.guard⟩
  simp only
  cases fate : (o t .writeStatus).file with
  | done => exact written
  | failed text => exact ⟨⟨t, text, fate⟩, held⟩
  | stopped happened => cases happened with
    | true => exact guards.cut _ _ written.guard
    | false => exact guards.cut _ _ held.guard

/-- A migration leaves the roster in use and the status file alone. -/
theorem triple_migrateLegacy (fresh : k.lost = none) (roster : Roster) :
    Triple o (Holds G k) (migrateLegacy roster) (fun _ => Holds G k) (Cut (Holds G k) D.at') := by
  refine triple_step fun t h held => ?_
  have held := (guards.deaf k).edits (edits t .migrate) held
  generalize h.edits (o t .migrate).edits = h at held
  have guard : (G none).at' h := fresh ▸ held.guard
  have still : ∀ {h' : Host β}, (G none).at' h' → h'.world.inUse = h.world.inUse → h'.status = h.status →
      h'.fallback = h.fallback → Holds G k h' := fun guard use status fallback =>
    ⟨use.trans held.use, status.trans held.status, fallback.trans held.fallback, fresh.symm ▸ guard⟩
  simp only
  cases (o t .migrate).file with
  | failed text => exact held
  | done => cases legacy : h.legacy with
    | false => exact held
    | true => cases (o t .migrate).migrated with
      | none => exact still (guards.finished h guard) rfl rfl rfl
      | some m =>
        have after := (guards.migrated h m ((roster.main.map (·.id)).getD "") legacy guard).2
        obtain ⟨report, site, committed⟩ := m
        cases report with
        | ok removed => exact still (after _) rfl rfl rfl
        | error e => exact still (after _) rfl rfl rfl
  | stopped happened => cases legacy : h.legacy with
    | false => exact guards.cut _ h guard
    | true => cases (o t .migrate).migrated with
      | none => exact guards.cut _ h guard
      | some m => exact (guards.migrated h m _ legacy guard).1

end

variable [RosterText]

theorem validate_ok {text : String} {facts : Option TopologyFacts} {roster : Roster}
    (valid : validate text facts = .ok roster) : RosterText.parse text = .ok roster ∧ roster.problems = [] := by
  unfold validate at valid
  cases read : RosterText.parse text with
  | error e =>
    rw [read] at valid
    cases valid
  | ok r =>
    simp only [read] at valid
    split at valid
    · rename_i clean
      cases valid
      exact ⟨rfl, (List.append_eq_nil_iff.mp (List.isEmpty_iff.mp clean)).1⟩
    · cases valid

variable [Libm]

/-- The people's data follows the roster, where it is to. -/
def Known.follows (k : Known) (follow : Bool) (roster : Roster) : Known :=
  if follow then { k with lost := some roster } else k

/-- A roster adopted: it holds the lineup that plays. -/
structure Adopted (roster : Roster) (sha256 : String) (r : RosterState) : Prop where
  roster : r.roster = roster
  sha256 : r.sha256 = sha256
  plays : (r.roster.lineup r.active).isSome

section
variable (edits : Fine fine o) (guards : Guards fine came may o G D) (fresh : k.lost = none)
include edits guards fresh

omit [RosterText] in
theorem triple_adopt {roster : Roster} {sha256 : String} (remove : Bool)
    (allowed : ∀ r, Adopted roster sha256 r → remove = true → may roster) :
    Triple o (Holds G k) (adopt roster sha256 remove)
      (fun r h => Adopted roster sha256 r.1 ∧ Holds G (k.follows remove roster) h) (Cut (Holds G k) D.at') := by
  unfold adopt
  refine triple_bind (triple_mapErr _ (triple_migrateLegacy edits guards fresh roster) (fun _ => id) fun _ _ => id)
    fun migrated => ?_
  refine triple_bind (guards.quiet (keeps_mapErr _ (keeps_inStates (guards.deaf k) fun J =>
    keeps_lineups (keeps_file fun _ => rfl)))) fun recorded => ?_
  refine triple_unless (fun _ _ => id) fun plays => ?_
  have plays : (roster.lineup (recorded.getD ((roster.main.map (·.id)).getD ""))).isSome := by
    simpa [Option.isSome_iff_ne_none] using plays
  cases remove with
  | true =>
    exact triple_bind (triple_followPeople guards fresh
      (allowed ⟨roster, sha256, recorded.getD ((roster.main.map (·.id)).getD "")⟩ ⟨rfl, rfl, plays⟩ rfl) [])
        fun people =>
      triple_pure fun h held => ⟨⟨rfl, rfl, plays⟩, held⟩
  | false =>
    exact triple_bind (triple_pure fun h held => held) fun people => triple_pure fun h held => ⟨⟨rfl, rfl, plays⟩, held⟩

variable [FileSha256]

/-- A roster of a file's bytes, without problems, that keeps someone of the one before. -/
structure Taken (bytes : ByteArray) (base : Option Roster) (r : RosterState) : Prop where
  read : ∃ text, String.fromUTF8? bytes = some text ∧ RosterText.parse text = .ok r.roster
  sound : r.roster.problems = []
  sha256 : r.sha256 = sha256Hex bytes
  plays : (r.roster.lineup r.active).isSome
  keeps : ∀ old, base = some old → removesEveryone old r.roster = false

theorem triple_take {bytes : ByteArray} (facts : Option TopologyFacts) (start : Start)
    (allowed : ∀ r, Taken bytes start.base r → start.removes = true → may r.roster) :
    Triple o (Holds G k) (take bytes facts start)
      (fun r h => Taken bytes start.base r.1 ∧ Holds G (k.follows start.removes r.1.roster) h)
        (Cut (Holds G k) D.at') := by
  unfold take
  cases utf8 : String.fromUTF8? bytes with
  | none => exact triple_fail fun _ => id
  | some text =>
    simp only
    cases valid : validate text facts with
    | error problems => exact triple_fail fun _ => id
    | ok roster =>
      obtain ⟨read, sound⟩ := validate_ok valid
      refine triple_unless (fun _ _ => id) fun keeps => ?_
      have taken : ∀ r, Adopted roster (sha256Hex bytes) r → Taken bytes start.base r := fun r adopted => by
        refine ⟨⟨text, utf8, adopted.roster ▸ read⟩, adopted.roster ▸ sound, adopted.sha256, adopted.plays, ?_⟩
        intro old is
        rw [adopted.roster]
        simpa [is] using keeps
      refine triple_conseq (triple_adopt edits guards fresh _ fun r adopted remove =>
        adopted.roster ▸ allowed r (taken r adopted) remove) (fun _ => id) ?_ fun _ _ => id
      rintro ⟨r, people⟩ h ⟨adopted, held⟩
      refine ⟨taken r adopted, ?_⟩
      rw [adopted.roster]
      exact held

end

variable [FileSha256] [Sha256] (tries : ℕ)

omit [RosterText] [Libm] [FileSha256] [Sha256] in
theorem toUTF8_of_fromUTF8 {bytes : ByteArray} {text : String} (utf8 : String.fromUTF8? bytes = some text) :
    text.toUTF8 = bytes := by
  unfold String.fromUTF8? at utf8
  split at utf8
  · cases utf8
    rfl
  · cases utf8

/-- What a roster file does to the server, from what is known before. -/
inductive Goes (bytes : ByteArray) (k : Known) : Applied → Known → Prop where
  | unchanged {r : RosterState} (use : k.use = some r) (same : r.sha256 = sha256Hex bytes) : Goes bytes k .unchanged k
  | refused (why : List Why) : Goes bytes k (.refused why) k
  | deferred (why : Reason) : Goes bytes k (.deferred why) k
  | applied {r : RosterState} (taken : Taken bytes (k.use.map (·.roster)) r) (added removed problems : List String) :
    Goes bytes k (.applied added removed problems) { k with use := some r, lost := some r.roster }

section
variable (edits : Fine fine o) (guards : Guards fine came may o G D) (fresh : k.lost = none) {bytes : ByteArray}
  {text : String} {E : Assertion (Host β)} (utf8 : String.fromUTF8? bytes = some text)
  (allowed : ∀ r, Taken bytes (k.use.map (·.roster)) r → may r.roster)
include edits guards fresh utf8 allowed

omit [Sha256] in
theorem triple_adoptLive
    (before : k.use = none) {roster : Roster} (read : RosterText.parse text = .ok roster)
      (sound : roster.problems = []) :
    Triple o (Holds G k) (adoptLive (ε := ε) roster (sha256Hex bytes))
      (fun a h => ∃ k', Goes bytes k a k' ∧ Holds G k' h) (Cut E D.at') := by
  unfold adoptLive
  have taken : ∀ r, Adopted roster (sha256Hex bytes) r → Taken bytes (k.use.map (·.roster)) r := fun r adopted =>
    ⟨⟨text, utf8, adopted.roster ▸ read⟩, adopted.roster ▸ sound, adopted.sha256, adopted.plays, by simp [before]⟩
  refine triple_bind (triple_attempt (triple_adopt edits guards fresh true fun r adopted _ =>
    adopted.roster ▸ allowed r (taken r adopted)) fun _ => id) fun adopted => ?_
  cases adopted with
  | error problems => exact triple_pure fun h held => ⟨k, .refused _, held⟩
  | ok pair =>
    obtain ⟨r, people⟩ := pair
    refine triple_fact fun adopted => ?_
    refine triple_bind (triple_keep edits guards _ _) fun _ => ?_
    refine triple_bind (Q := fun _ => Holds G { k with use := some r, lost := some roster })
      (triple_change fun h held => ⟨rfl, held.status, held.fallback, held.guard⟩) fun _ => triple_pure fun h held => ?_
    exact ⟨_, .applied (taken r adopted) _ _ _, adopted.roster ▸ held⟩

theorem triple_reload (known : came bytes) {old : RosterState} (before : k.use = some old) {roster : Roster}
    (read : RosterText.parse text = .ok roster) (sound : roster.problems = []) :
    Triple o (Holds G k) (reload (ε := ε) tries old roster text (sha256Hex bytes))
      (fun a h => ∃ k', Goes bytes k a k' ∧ Holds G k' h) (Cut E D.at') := by
  unfold reload
  refine triple_ite (fun _ => triple_pure fun h held => ⟨k, .refused _, held⟩) fun keeps => ?_
  refine triple_bind (triple_keep edits guards _ _) fun _ => ?_
  refine triple_bind (Q := fun _ => Holds G k) (triple_look fun _ => id) fun unsettled => ?_
  have moves : ∀ follows, Triple o (Holds G k)
      (inStates (transition tries follows roster (sha256Hex bytes) ((old.lineup.map (·.id)).getD "")))
      (fun _ h => Holds G k h ∧ (roster.lineup ((old.lineup.map (·.id)).getD "")).isSome) fun _ => Holds G k :=
    fun follows => triple_inStates (guards.deaf k) fun J => keeps_transition tries follows _ _ _
  refine triple_bind (triple_attempt (E := Cut (Holds G k) D.at')
    (triple_conseq (moves _) (fun _ => id) (fun _ _ => id) ?_)
    fun _ => id) fun done => ?_
  · intro e h held
    cases e with
    | stopped => exact guards.cut _ h held.guard
    | error _ => exact held
  cases done with
  | error why =>
    have counts : Triple o (Holds G k) (countUnrecorded (ε := ε) why) (fun _ => Holds G k) (Cut E D.at') :=
      triple_ite (fun _ => triple_change fun h held => (guards.deaf k).unrecorded h _ held)
        fun _ => triple_pure fun _ => id
    refine triple_bind counts fun _ => triple_pure fun h held => ?_
    cases why with
    | refused why => exact ⟨k, .refused _, held⟩
    | deferred why => exact ⟨k, .deferred _, held⟩
  | ok done =>
    refine triple_pre (P := fun h => (roster.lineup ((old.lineup.map (·.id)).getD "")).isSome ∧ Holds G k h)
      (triple_fact fun plays => ?_) fun h held => ⟨held.2, held.1⟩
    have taken : Taken bytes (k.use.map (·.roster))
        { roster, sha256 := sha256Hex bytes, active := (old.lineup.map (·.id)).getD "" } :=
      ⟨⟨text, utf8, read⟩, sound, rfl, plays, fun base is => by
        obtain rfl : old.roster = base := by simpa [before] using is
        simpa using keeps⟩
    refine triple_bind (Q := fun _ => Holds G k)
      (triple_change fun h held => (guards.deaf k).unrecorded h 0 held) fun _ => ?_
    obtain ⟨r, same, rfl⟩ : ∃ r : RosterState, r = ⟨roster, sha256Hex bytes, (old.lineup.map (·.id)).getD ""⟩ ∧
        r.roster = roster := ⟨_, rfl, rfl⟩
    rw [← same] at taken ⊢
    refine triple_bind (Q := fun _ => Holds G { k with use := some r }) (triple_change fun h held =>
      (guards.deaf { k with use := some r }).settle (h := h.use _) ⟨rfl, held.status, held.fallback, held.guard⟩ none)
      fun _ => ?_
    refine triple_bind (triple_record edits guards (toUTF8_of_fromUTF8 utf8 ▸ known)) fun _ => ?_
    refine triple_rejoin (triple_thaw guards) ?_
    refine triple_bind (triple_followPeople (k := { k with use := some r }) guards fresh (allowed r taken) _)
      fun people =>
      triple_pure fun h held => ⟨_, .applied taken _ _ _, held⟩

theorem triple_applyText (known : came bytes) :
    Triple o (Holds G k) (applyText (ε := ε) tries text (sha256Hex bytes))
      (fun a h => ∃ k', Goes bytes k a k' ∧ Holds G k' h) (Cut E D.at') := by
  unfold applyText
  refine triple_bind (Q := fun use h => use = k.use ∧ Holds G k h) (triple_look fun h held => ⟨held.use, held⟩)
    fun use => triple_fact fun same => ?_
  subst same
  refine triple_ite (fun unchanged => triple_pure fun h held => ?_) fun _ => ?_
  · obtain ⟨r, use, same⟩ := Option.any_eq_true _ _ |>.mp unchanged
    exact ⟨k, .unchanged use (beq_iff_eq.mp same), held⟩
  refine triple_bind (Q := fun _ => Holds G k) (triple_look fun _ => id) fun facts => ?_
  cases valid : validate text facts with
  | error problems => exact triple_pure fun h held => ⟨k, .refused _, held⟩
  | ok roster =>
    obtain ⟨read, sound⟩ := validate_ok valid
    cases before : k.use with
    | none => exact triple_adoptLive edits guards fresh utf8 allowed before read sound
    | some old => exact triple_reload tries edits guards fresh utf8 allowed known before read sound

end

/-- What a file comes to with its status written: the fall-back ends with a file in use. -/
inductive Concludes (o : Oracle WatchStep (WatchFate β)) (bytes : ByteArray) (k : Known) : Applied → Known → Prop where
  | unchanged {r : RosterState} (use : k.use = some r) (same : r.sha256 = sha256Hex bytes) (own : k.fallback = false) :
    Concludes o bytes k .unchanged k
  | back {r : RosterState} (use : k.use = some r) (same : r.sha256 = sha256Hex bytes) (stands : k.fallback = true)
    {removed problems : List String} {st : Option Status}
    (written : Written o k.status (.used (sha256Hex bytes) [] removed problems) st) :
    Concludes o bytes k .unchanged { k with status := st, fallback := false, lost := some r.roster }
  | refused {why : List Why} {st : Option Status}
    (written : Written o k.status
      (.refused (sha256Hex bytes) (if k.fallback then why ++ [.text standsIn] else why)) st) :
    Concludes o bytes k (.refused why) { k with status := st }
  | deferred (why : Reason) : Concludes o bytes k (.deferred why) k
  | applied {r : RosterState} (taken : Taken bytes (k.use.map (·.roster)) r) {added removed problems : List String}
    {st : Option Status} (written : Written o k.status (.used (sha256Hex bytes) added removed problems) st) :
    Concludes o bytes k (.applied added removed problems)
      { use := some r, status := st, fallback := false, lost := some r.roster }

section
variable (edits : Fine fine o) (guards : Guards fine came may o G D) (fresh : k.lost = none)
  (own : ∀ r, k.use = some r → may r.roster)
include edits guards fresh own

omit [Libm] [Sha256] in
theorem triple_conclude {bytes : ByteArray} {a : Applied} {k' : Known} {E : Assertion (Host β)}
    (goes : Goes bytes k a k') :
    Triple o (Holds G k') (conclude (ε := ε) (sha256Hex bytes) a)
      (fun _ h => ∃ k'', Concludes o bytes k a k'' ∧ Holds G k'' h) (Cut E D.at') := by
  have primary : ∀ {k : Known} h, Holds G k h → Holds G { k with fallback := false } { h with fallback := false } :=
    fun h held => ⟨held.use, held.status, rfl, held.guard⟩
  cases goes with
  | @unchanged r use same =>
    refine triple_bind (Q := fun stands h => stands = k.fallback ∧ Holds G k h)
      (triple_look fun h held => ⟨held.fallback, held⟩) fun stands => triple_fact fun is => ?_
    subst is
    cases stands : k.fallback with
    | false => exact triple_pure fun h held => ⟨k, .unchanged use same stands, held⟩
    | true =>
      refine triple_bind (Q := fun _ => Holds G { k with fallback := false }) (triple_change primary) fun _ => ?_
      have removals : Triple o (Holds G { k with fallback := false }) (heldBack (ε := ε))
          (fun _ => Holds G { k with fallback := false, lost := some r.roster }) (Cut E D.at') := by
        unfold heldBack
        refine triple_bind (Q := fun now h => now = some r ∧ Holds G { k with fallback := false } h)
          (triple_look fun h held => ⟨held.use.trans use, held⟩) fun now => triple_fact fun is => ?_
        subst is
        exact triple_followPeople (k := { k with fallback := false }) guards fresh (own r use) []
      refine triple_bind removals fun people => triple_conseq (triple_note edits guards _) (fun _ => id) ?_
        fun _ _ => id
      rintro _ h ⟨st, written, held⟩
      exact ⟨_, .back use same stands written, held⟩
  | refused why =>
    refine triple_bind (Q := fun stands h => stands = k.fallback ∧ Holds G k h)
      (triple_look fun h held => ⟨held.fallback, held⟩) fun stands => triple_fact fun is => ?_
    subst is
    refine triple_conseq (triple_note edits guards _) (fun _ => id) ?_ fun _ _ => id
    rintro _ h ⟨st, written, held⟩
    exact ⟨_, .refused written, held⟩
  | deferred why => exact triple_pure fun h held => ⟨k, .deferred why, held⟩
  | @applied r taken added removed problems =>
    refine triple_bind (Q := fun _ => Holds G { k with use := some r, fallback := false, lost := some r.roster })
      (triple_change primary) fun _ => ?_
    refine triple_conseq (triple_note edits guards _) (fun _ => id) ?_ fun _ _ => id
    rintro _ h ⟨st, written, held⟩
    exact ⟨_, .applied taken written, held⟩

end

/-- Where a read of the file leaves: by what was read, or as before when it could not be. -/
def Checked (came : ByteArray → Prop) (o : Oracle WatchStep (WatchFate β)) (G : Option Roster → Guard β)
    (F : Option ByteArray → Option Roster → Guard β) (k : Known) : Option Applied → Assertion (Host β)
  | none => fun h => Holds (F none) k h ∨ ((∃ t text, (o t .readRoster).file = .failed text) ∧ Holds G k h)
  | some a => fun h => ∃ bytes k', came bytes ∧ Concludes o bytes k a k' ∧ Holds (F (some bytes)) k' h

omit [RosterText] [Libm] [FileSha256] [Sha256] in
theorem edits_recorded (h : Host β) (es : List Edit) : (h.edits es).recorded = h.recorded := by
  induction es generalizing h with
  | nil => rfl
  | cons e rest ih =>
    refine (ih (h.edit e)).trans ?_
    cases e <;> rfl

section
variable (edits : Fine fine o) (guards : Guards fine came may o G D) {F : Option ByteArray → Option Roster → Guard β}
  (reads : ∀ lost (h : Host β), (G lost).at' h → (F (h.file.map (·.bytes)) lost).at' h)
include edits guards reads

omit [RosterText] [Libm] [FileSha256] [Sha256] in
/-- What the file gives came. -/
theorem triple_readRoster (recorded : Option String) :
    Triple o (fun h => Holds G k h ∧ h.recorded = recorded) readRoster
    (fun read h => (∀ bytes, read = some bytes → came bytes) ∧ Holds (F read) k h ∧ h.recorded = recorded)
    (Cut (fun h => (∃ t text, (o t .readRoster).file = .failed text) ∧ Holds G k h) D.at') := by
  unfold readRoster fileStep
  refine triple_step fun t h ⟨held, same⟩ => ?_
  have held := (guards.deaf k).edits (edits t .readRoster) held
  have same := (edits_recorded h (o t .readRoster).edits).trans same
  simp only
  cases fate : (o t .readRoster).file with
  | done =>
    refine ⟨fun bytes read => ?_, ⟨held.use, held.status, held.fallback, reads _ _ held.guard⟩, same⟩
    obtain ⟨f, there, rfl⟩ := Option.map_eq_some_iff.mp read
    exact guards.file _ _ f held.guard there
  | failed text => exact ⟨⟨t, text, fate⟩, held⟩
  | stopped happened => cases happened <;> exact guards.cut _ _ held.guard

end

section
variable (edits : Fine fine o) {F : Option ByteArray → Option Roster → Guard β}
  (guards : Guards fine came may o G D) (later : ∀ read, Guards fine came may o (F read) D)
  (reads : ∀ lost (h : Host β), (G lost).at' h → (F (h.file.map (·.bytes)) lost).at' h) (fresh : k.lost = none)
  (own : ∀ r, k.use = some r → may r.roster)
  (allowed : ∀ bytes r, came bytes → Taken bytes (k.use.map (·.roster)) r → may r.roster)
include edits guards later reads fresh own allowed

/-- The roster file is read and applied, or could not be read. -/
theorem triple_checkFile {E : Assertion (Host β)} :
    Triple o (Holds G k) (checkFile (ε := ε) tries) (Checked came o G F k) (Cut E D.at') := by
  unfold checkFile
  have reading : Triple o (Holds G k) (attempt readRoster : WatchM β ε (Except String (Option ByteArray)))
      (fun r h => (∃ read, (r = .ok read ∧ ∀ bytes, read = some bytes → came bytes) ∧ Holds (F read) k h) ∨
        ((∃ text, r = .error text) ∧ (∃ t text, (o t .readRoster).file = .failed text) ∧ Holds G k h))
      (Cut E D.at') := by
    refine triple_caught (Q := fun read h => (∀ bytes, read = some bytes → came bytes) ∧ Holds (F read) k h)
      (F := fun h => (∃ t text, (o t .readRoster).file = .failed text) ∧ Holds G k h) ?_
      (fun read h held => .inl ⟨read, ⟨rfl, held.1⟩, held.2⟩) fun text h held => .inr ⟨⟨text, rfl⟩, held⟩
    exact triple_pre (triple_exists fun recorded => triple_conseq (triple_readRoster edits guards reads recorded)
      (fun _ => id) (fun read h ⟨known, held, _⟩ => ⟨known, held⟩) fun _ _ => id) fun h held => ⟨h.recorded, held, rfl⟩
  refine triple_bind reading fun r => triple_or (triple_exists fun read => triple_fact fun ⟨is, known⟩ => ?_)
    (triple_fact fun ⟨text, is⟩ => ?_)
  · subst is
    cases read with
    | none => exact triple_pure fun h held => .inl held
    | some bytes =>
      have concludes : ∀ a, Triple o (fun h => ∃ k', Goes bytes k a k' ∧ Holds (F (some bytes)) k' h)
          (do conclude (sha256Hex bytes) a; return some a : WatchM β ε (Option Applied)) (Checked came o G F k)
          (Cut E D.at') := by
        refine fun a => triple_exists fun k' => triple_fact fun goes => ?_
        refine triple_bind (triple_conclude edits (later _) fresh own goes) fun _ => triple_pure ?_
        rintro h ⟨k'', concludes, held⟩
        exact ⟨bytes, k'', known bytes rfl, concludes, held⟩
      dsimp only
      cases utf8 : String.fromUTF8? bytes with
      | none => exact triple_bind (triple_pure fun h held => ⟨k, .refused _, held⟩) concludes
      | some text => exact triple_bind (triple_applyText tries edits (later _) fresh utf8
          (fun r => allowed bytes r (known bytes rfl)) (known bytes rfl)) concludes
  · subst is
    exact triple_pure fun h held => .inr held

end

/-- How a poll ended that saw the stamp `seen` before: with the stamp it goes on with, what was read
since it took that stamp, and what is known. -/
inductive Polled (came : ByteArray → Prop) (o : Oracle WatchStep (WatchFate β)) (S : Stamp → Option Roster → Guard β)
    (F : Stamp → Option ByteArray → Option Roster → Guard β) (k : Known) (seen : Stamp) :
    Stamp → Known → Host β → Prop where
  | idle {h : Host β} (held : Holds (S seen) k h) : Polled came o S F k seen seen k h
  | gone {now : Stamp} {h : Host β} (held : Holds (F now none) k h) : Polled came o S F k seen now k h
  | unread {now : Stamp} {h : Host β} (failed : ∃ t text, (o t .readRoster).file = .failed text)
    (held : Holds (S now) k h) : Polled came o S F k seen now k h
  | waits {now : Stamp} {bytes : ByteArray} {why : Reason} {k' : Known} {h : Host β}
    (known : came bytes) (concludes : Concludes o bytes k (.deferred why) k') (held : Holds (F now (some bytes)) k' h) :
    Polled came o S F k seen none k' h
  | judged {now : Stamp} {bytes : ByteArray} {a : Applied} {k' : Known} {h : Host β} (known : came bytes)
    (concludes : Concludes o bytes k a k') (settled : ∀ why, a ≠ .deferred why)
      (held : Holds (F now (some bytes)) k' h) :
    Polled came o S F k seen now k' h

section
variable (edits : Fine fine o) {S : Stamp → Option Roster → Guard β}
  {F : Stamp → Option ByteArray → Option Roster → Guard β}
  (guards : Guards fine came may o G D) (seeing : ∀ now, Guards fine came may o (S now) D)
    (later : ∀ now read, Guards fine came may o (F now read) D)
  (sees : ∀ lost (h : Host β), (G lost).at' h → (S (h.file.map (·.stamp)) lost).at' h ∧ (S none lost).at' h)
  (reads : ∀ now lost (h : Host β), (S now lost).at' h → (F now (h.file.map (·.bytes)) lost).at' h)
    (fresh : k.lost = none)
  (own : ∀ r, k.use = some r → may r.roster)
  (allowed : ∀ bytes r, came bytes → Taken bytes (k.use.map (·.roster)) r → may r.roster)
include edits guards seeing later sees reads fresh own allowed

omit [RosterText] [Libm] [FileSha256] [Sha256] later reads fresh seeing own allowed in
theorem triple_stamp {E : Assertion (Host β)} :
    Triple o (Holds G k) (stamp (ε := ε)) (fun now => Holds (S now) k) (Cut E D.at') := by
  refine triple_bind (Q := fun r h => Holds (S r.toOption.join) k h) ?_ fun r => triple_pure fun _ => id
  refine triple_caught (Q := fun now => Holds (S now) k) (F := Holds (S none) k) ?_ (fun _ _ => id) fun _ _ => id
  refine triple_step fun t h held => ?_
  have held := (guards.deaf k).edits (edits t .stamp) held
  have both := sees _ _ held.guard
  simp only
  cases (o t .stamp).file with
  | done => exact ⟨held.use, held.status, held.fallback, both.1⟩
  | failed text => exact ⟨held.use, held.status, held.fallback, both.2⟩
  | stopped happened => cases happened <;> exact guards.cut _ _ held.guard

theorem triple_poll (seen : Stamp) {E : Assertion (Host β)} : Triple o (Holds G k) (poll (ε := ε) tries seen)
    (fun seen' h => ∃ k', Polled came o S F k seen seen' k' h) (Cut E D.at') := by
  unfold poll
  refine triple_bind (triple_stamp edits guards sees) fun now => ?_
  refine triple_ite (fun same => triple_pure fun h held => ?_) fun _ => ?_
  · subst same
    exact ⟨k, .idle held⟩
  refine triple_bind (triple_checkFile tries edits (seeing now) (later now) (reads now) fresh own allowed) fun r => ?_
  cases r with
  | none =>
    refine triple_pure fun h held => ?_
    rcases held with held | ⟨failed, held⟩
    · exact ⟨k, .gone held⟩
    · exact ⟨k, .unread failed held⟩
  | some a =>
    have judges : (∀ why, a ≠ .deferred why) → Triple o
        (Checked came o (S now) (F now) k (some a)) (pure now : WatchM β ε Stamp)
        (fun seen' h => ∃ k', Polled came o S F k seen seen' k' h) (Cut E D.at') := fun settled =>
      triple_pure fun h ⟨bytes, k', known, concludes, held⟩ => ⟨k', .judged known concludes settled held⟩
    cases a with
    | deferred why => exact triple_pure fun h ⟨bytes, k', known, concludes, held⟩ => ⟨k', .waits known concludes held⟩
    | unchanged => exact judges nofun
    | applied added removed problems => exact judges nofun
    | refused why => exact judges nofun

end

/-- The roster applied last, as a start reads it. -/
def Based (o : Oracle WatchStep (WatchFate β)) (recorded : Option String) (base : Option Roster) : Prop :=
  base = (recorded.bind fun text => (RosterText.parse text).toOption) ∨
    (∃ t text, (o t .readRecorded).file = .failed text) ∧ base = none

/-- How a start ended, by the file read and the roster recorded. -/
inductive Loads (came : ByteArray → Prop) (o : Oracle WatchStep (WatchFate β)) (recorded : Option String) (k : Known) :
    Option ByteArray → Option Loaded → Known → Prop where
  | legacy (read : Option ByteArray) : Loads came o recorded k read none k
  | file {bytes : ByteArray} {base : Option Roster} {r : RosterState} (known : came bytes)
    (based : Based o recorded base) (taken : Taken bytes base r) {removed problems : List String} {st : Option Status}
    (written : Written o k.status (.used r.sha256 [] removed problems) st) :
    Loads came o recorded k (some bytes) (some { roster := r, fallback := false })
      { k with status := st, lost := some r.roster }
  | stands {read : Option ByteArray} {text : String} {r : RosterState} (known : came text.toUTF8)
    (taken : Taken text.toUTF8 none r) {sha256 : String} {problems : List String} {st : Option Status}
    (written : Written o k.status (.refused sha256 ((problems ++ [standsIn]).map .text)) st) :
    Loads came o recorded k read (some { roster := r, fallback := true }) { k with status := st }

/-- A start with what it loaded in use. -/
def Known.starts (k : Known) (loaded : Option Loaded) : Known :=
  { k with use := loaded.map (·.roster), fallback := (loaded.map (·.fallback)).getD k.fallback }

section
variable (edits : Fine fine o) (guards : Guards fine came may o G D) (fresh : k.lost = none) {recorded : Option String}
include edits guards

omit [RosterText] [Libm] [FileSha256] [Sha256] in
theorem triple_appliedRoster : Triple o (fun h => Holds G k h ∧ h.recorded = recorded)
    (attempt appliedRoster : WatchM β ε (Except String (Option String)))
    (fun r h => (r.toOption.join = recorded ∨ (∃ t text, (o t .readRecorded).file = .failed text) ∧
      r.toOption.join = none) ∧
      Holds G k h) fun _ => D.at' := by
  refine triple_conseq (triple_caught (E := D.at') (Q := fun r h => r = recorded ∧ Holds G k h)
    (F := fun h => (∃ t text, (o t .readRecorded).file = .failed text) ∧ Holds G k h) ?_
    (fun r h held => ⟨.inl held.1, held.2⟩) fun e h held => ⟨.inr ⟨held.1, rfl⟩, held.2⟩) (fun _ => id) (fun _ _ => id)
    cut_same
  unfold appliedRoster fileStep
  refine triple_step fun t h ⟨held, same⟩ => ?_
  have held := (guards.deaf k).edits (edits t .readRecorded) held
  simp only
  cases fate : (o t .readRecorded).file with
  | done => exact ⟨(edits_recorded ..).trans same, held⟩
  | failed text => exact ⟨⟨t, text, fate⟩, held⟩
  | stopped happened => cases happened <;> exact guards.cut _ _ held.guard

omit [RosterText] [Libm] [FileSha256] [Sha256] in
theorem triple_refuse (file : Option ByteArray) (sha256 : String) (problems : List String) :
    Triple o (Holds G k) (refuse file sha256 problems) (fun r h => r = none ∧ Holds G k h) fun _ => D.at' := by
  unfold refuse
  refine triple_ite (fun _ => triple_pure fun h held => ⟨rfl, held⟩) fun _ => ?_
  refine triple_bind (triple_conseq (triple_note (E := D.at') edits guards _) (fun _ => id) (fun _ _ => id) cut_same)
    fun _ => triple_fail fun h ⟨st, written, held⟩ => guards.cut _ h held.guard

include fresh

omit [Sha256] in
/-- The roster applied last stands in, or none. -/
theorem triple_standIn (file : Option ByteArray) {last : Option String}
    (known : ∀ text, last = some text → came text.toUTF8)
    (facts : Option TopologyFacts) (sha256 : String) (problems : List String) :
    Triple o (Holds G k) (standIn file last facts sha256 problems)
      (fun r h => ∃ k', Loads came o recorded k file r k' ∧ Holds G k' h) fun _ => D.at' := by
  unfold standIn
  have refuses : Triple o (Holds G k) (refuse file sha256 problems)
      (fun r h => ∃ k', Loads came o recorded k file r k' ∧ Holds G k' h) fun _ => D.at' :=
    triple_conseq (triple_refuse edits guards file sha256 problems) (fun _ => id)
      (fun r h ⟨same, held⟩ => ⟨k, same ▸ .legacy file, held⟩) fun _ _ => id
  cases last with
  | none => exact refuses
  | some text =>
    refine triple_bind (triple_attempt (triple_take edits guards fresh facts .fallback nofun) fun _ => id)
      fun taken => ?_
    cases taken with
    | error _ => exact refuses
    | ok pair =>
      obtain ⟨r, people⟩ := pair
      refine triple_fact fun taken => ?_
      refine triple_bind (triple_conseq (triple_keep edits guards _ _) (fun _ => id) (fun _ _ => id) cut_same)
        fun _ => ?_
      refine triple_bind (triple_conseq (triple_note edits guards _) (fun _ => id) (fun _ _ => id) cut_same) fun _ => ?_
      exact triple_pure fun h ⟨st, written, held⟩ => ⟨_, .stands (known text rfl) taken written, held⟩

variable {F : Option ByteArray → Option Roster → Guard β} (later : ∀ read, Guards fine came may o (F read) D)
  (reads : ∀ lost (h : Host β), (G lost).at' h → (F (h.file.map (·.bytes)) lost).at' h)
  (allowed : ∀ bytes base r, came bytes → Based o recorded base → Taken bytes base r → may r.roster)
include later reads allowed

omit [Sha256] in
theorem triple_load (facts : Option TopologyFacts) : Triple o (fun h => Holds G k h ∧ h.recorded = recorded)
    (load facts)
    (fun r h => ∃ read k', Loads came o recorded k read r k' ∧ Holds (F read) k' h) fun _ => D.at' := by
  unfold load
  refine triple_bind (Q := fun read h => ((∀ bytes, read = some bytes → came bytes) ∧
    ∀ text, recorded = some text → came text.toUTF8) ∧ Holds (F read) k h ∧ h.recorded = recorded)
    (triple_conseq (triple_readRoster edits guards reads recorded) (fun _ => id) ?_ ?_) fun read =>
    triple_fact fun ⟨known, recalled⟩ => ?_
  · rintro read h ⟨known, held, same⟩
    exact ⟨⟨known, fun text is => (later read).recorded _ _ text held.guard (same.trans is)⟩, held, same⟩
  · intro e h cut
    cases e with
    | stopped => exact cut
    | error _ => exact guards.cut _ h cut.2.guard
  refine triple_bind (triple_appliedRoster edits (later read)) fun last => triple_fact fun told => ?_
  have based : Based o recorded (last.toOption.join.bind fun text => (RosterText.parse text).toOption) := by
    rcases told with same | ⟨failed, none⟩
    · exact .inl (by rw [same])
    · exact .inr ⟨failed, by rw [none]; rfl⟩
  have told : ∀ text, last.toOption.join = some text → came text.toUTF8 := fun text is => by
    rcases told with same | ⟨failed, none⟩
    · exact recalled text (same.symm.trans is)
    · cases none.symm.trans is
  generalize last.toOption.join = text at based told
  have stands : ∀ sha256 problems, Triple o (Holds (F read) k) (standIn read text facts sha256 problems)
      (fun r h => ∃ read k', Loads came o recorded k read r k' ∧ Holds (F read) k' h) fun _ => D.at' :=
        fun sha256 problems =>
    triple_conseq (triple_standIn edits (later read) fresh read told facts sha256 problems) (fun _ => id)
      (fun r h ⟨k', loads, held⟩ => ⟨read, k', loads, held⟩) fun _ _ => id
  cases read with
  | none => exact stands _ _
  | some bytes =>
    refine triple_bind (triple_attempt (triple_take edits (later _) fresh facts (.file _) fun r taken _ =>
      allowed bytes _ r (known bytes rfl) based taken) fun _ => id) fun taken => ?_
    cases taken with
    | error problems => exact stands _ _
    | ok pair =>
      obtain ⟨r, people⟩ := pair
      refine triple_fact fun taken => ?_
      refine triple_bind (triple_conseq (triple_keep edits (later _) _ _) (fun _ => id) (fun _ _ => id) cut_same)
        fun _ => ?_
      refine triple_bind (triple_conseq (triple_note edits (later _) _) (fun _ => id) (fun _ _ => id) cut_same)
        fun _ => ?_
      exact triple_pure fun h ⟨st, written, held⟩ => ⟨_, _, .file (known bytes rfl) based taken written, held⟩

omit [Sha256] in
/-- A start ends with a roster in use, or none, or refused. -/
theorem triple_start (facts : Option TopologyFacts) :
    Triple o (fun h => Holds G k h ∧ h.recorded = recorded) (start facts)
      (fun _ h => ∃ loaded read k', Loads came o recorded k read loaded k' ∧ Holds (F read) (k'.starts loaded) h)
      fun _ => D.at' := by
  unfold start
  refine triple_bind (triple_load edits guards fresh later reads allowed facts) fun loaded =>
    triple_exists fun read => triple_exists fun k' => triple_fact fun loads => ?_
  cases loaded with
  | none =>
    refine triple_change fun h held => ⟨none, read, k', loads, ?_⟩
    exact ⟨rfl, held.status, held.fallback, held.guard⟩
  | some loaded =>
    refine triple_bind (triple_conseq (keeps_inStates ((later read).deaf k') fun J => keeps_lineups
      (keeps_file fun _ => rfl))
      (fun _ => id) (fun _ _ => id) fun e h held => (later read).cut _ h held.guard) fun cutShort => ?_
    refine triple_bind (Q := fun _ => Holds (F read) k') ?_ fun base => ?_
    · refine triple_bind (triple_conseq ((later read).caught (E := D.at') (keeps_fileStep edits ((later read).deaf k')
        fun h held => held)) (fun _ => id) (fun _ _ => id) cut_same) fun last => ?_
      cases last.toOption.join <;> exact triple_pure fun _ => id
    refine triple_bind (Q := fun _ => Holds (F read) (k'.starts (some loaded)))
      (triple_change fun h held => ⟨rfl, held.status, rfl, held.guard⟩) fun _ => ?_
    exact triple_change fun h held => ⟨some loaded, read, k', loads, held.use, held.status, held.fallback, held.guard⟩

end

section
variable (edits : Fine fine o) (guards : Guards fine came may o G D)
include edits guards

omit [RosterText] [Libm] [Sha256] in
theorem triple_recordInUse {E : Assertion (Host β)} (sha256 : String) :
    Triple o (Holds G k) (recordInUse (ε := ε) sha256) (fun _ => Holds G k) (Cut E D.at') := by
  unfold recordInUse
  have reading : Triple o (Holds G k) (attempt readRoster : WatchM β ε (Except String (Option ByteArray)))
      (fun r h => (∀ bytes, r = .ok (some bytes) → came bytes) ∧ Holds G k h) (Cut E D.at') := by
    refine triple_caught (Q := fun read h => (∀ bytes, read = some bytes → came bytes) ∧ Holds G k h)
      (F := Holds G k) ?_
      (fun read h held => ⟨fun bytes is => held.1 bytes (Except.ok.inj is), held.2⟩) fun text h held => ⟨nofun, held⟩
    refine triple_fileStep edits (guards.deaf k) (fun h held => ⟨fun bytes read => ?_, held⟩)
      fun h held => ⟨guards.cut _ h held.guard, guards.cut _ h held.guard⟩
    obtain ⟨f, there, rfl⟩ := Option.map_eq_some_iff.mp read
    exact guards.file _ h f held.guard there
  refine triple_bind reading fun r => triple_fact fun known => ?_
  match r with
  | .error _ => exact triple_pure fun _ => id
  | .ok none => exact triple_pure fun _ => id
  | .ok (some bytes) =>
    refine triple_ite (fun _ => ?_) fun _ => triple_pure fun _ => id
    cases utf8 : String.fromUTF8? bytes with
    | none => exact triple_pure fun _ => id
    | some text => exact triple_record edits guards (toUTF8_of_fromUTF8 utf8 ▸ known bytes rfl)

omit [RosterText] in
/-- Whatever becomes of the roster on its way into the states, it stays in use. -/
theorem triple_settle : Triple o (Holds G k) (settle tries) (fun _ => Holds G k) (Cut (Holds G k) D.at') := by
  have free : Triple o (Holds G k) (change (·.settle none) : WatchM β Untaken Unit) (fun _ => Holds G k)
      (Cut (Holds G k) D.at') := triple_change fun h held => (guards.deaf k).settle held none
  unfold settle
  refine triple_bind (Q := fun _ => Holds G k) (triple_look fun _ => id) fun unsettled => ?_
  cases unsettled with
  | none => exact triple_pure fun _ => id
  | some unsettled =>
    refine triple_bind (Q := fun _ => Holds G k) (triple_look fun _ => id) fun use => ?_
    cases use with
    | none => exact free
    | some r =>
      refine triple_bind (guards.quiet (keeps_inStates (guards.deaf k) fun J => triple_conseq
        (keeps_transition tries _ _ _ _)
        (fun _ => id) (fun _ _ => And.left) fun _ _ => id)) fun done => triple_bind free fun _ => ?_
      refine triple_bind (triple_recordInUse edits guards r.sha256) fun _ => ?_
      exact triple_ite (fun _ => triple_thaw guards) fun _ => triple_pure fun _ => id

omit [RosterText] in
theorem triple_settleTurn (refusals : ℕ) :
    Triple o (Holds G k) (settleTurn (ε := ε) tries refusals) (fun _ => Holds G k) (Cut (Holds G k) D.at') := by
  unfold settleTurn
  refine triple_bind (Q := fun _ => Holds G k) (triple_look fun _ => id) fun settling => ?_
  refine triple_ite (fun _ => triple_pure fun _ => id) fun _ => ?_
  refine triple_bind (guards.quiet (keeps_inStates (guards.deaf k) fun J => keeps_lineups keeps_waitSynced)) fun _ => ?_
  refine triple_bind (triple_attempt (triple_settle tries edits guards) fun _ => id) fun settled => ?_
  cases settled with
  | ok _ => exact triple_pure fun _ => id
  | error why =>
    refine triple_ite (fun _ => triple_pure fun _ => id) fun _ => ?_
    refine triple_ite (fun _ => ?_) fun _ => triple_pure fun _ => id
    exact triple_bind (triple_change fun h held => (guards.deaf k).settle held _) fun _ => triple_pure fun _ => id

end

end

end IemMixer.Server.RosterWatch
