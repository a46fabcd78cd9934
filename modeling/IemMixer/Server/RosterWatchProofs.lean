import IemMixer.Server.CrashProofs
import IemMixer.Server.RosterWatchSteps

/-! The roster file over every run of the server: the roster in use, the status file and the watcher
fit together, and the people's data follows rosters that came, not one by one but with their people. -/
namespace IemMixer.Server.RosterWatch
open Lib Lib.Process Proto

section
variable {β : Type}

/-! ### How a move ends -/

/-- What becomes of the steps of a move that has some. -/
def Move.oracle : Move β → Option (Oracle WatchStep (WatchFate β))
  | .edit _ => none
  | .drift _ => none
  | .stop => none
  | .start o => some o
  | .poll o => some o
  | .settle _ o => some o
  | .switch _ _ o => some o
  | .replay o => some o

def Machine.known (s : Machine β) : Known where
  use := s.host.world.inUse
  status := s.host.status
  fallback := s.host.fallback

variable {ε α : Type} {o : Oracle WatchStep (WatchFate β)} {m : WatchM β ε α} {P C E : Assertion (Host β)}
  {Q : α → Assertion (Host β)} {seen : α → Stamp} {s s' : Machine β} [Libm]

/-- A program leaves the server up, or the process stopped in it. -/
theorem after_cases (runs : Triple o P m Q (Cut E C)) (held : P s.host) (is : s.after o m seen = s') :
    (∃ a h, s' = { host := h, up := true, seen := seen a } ∧ Q a h) ∨ (∃ h, s' = { s with host := h } ∧ E h) ∨
      ∃ h, s' = .down h ∧ C h := by
  have ended := runs ⟨s.host, 0⟩ held
  subst is
  unfold Machine.after
  split at ended
  · rename_i a cut run
    rw [run]
    exact .inl ⟨a, cut.world, rfl, ended⟩
  · rename_i e cut run
    rw [run]
    cases e with
    | stopped => exact .inr (.inr ⟨cut.world, rfl, ended⟩)
    | error e => exact .inr (.inl ⟨cut.world, rfl, ended⟩)

variable {fine : Edit → Prop} {came : ByteArray → Prop} {may : Roster → Prop} {G : Option Roster → Guard β}
  {S : Stamp → Option Roster → Guard β} {F : Stamp → Option ByteArray → Option Roster → Guard β} {D : Guard β}
  {k : Known}

omit [Libm] in
/-- A switch, or its replay, goes to a lineup of the roster in use. -/
theorem triple_band {m : Proc ε α} {u : Option (Roster × String)} (guards : Guards fine came may o G D)
    (runs : Keeps (fun t op => (o t (.lineups (.op op))).engine) (InUse (RunsOn u)) m) (plays : RunsOn u k.use) :
    Triple o (Holds G k) (inStates (lineups m)) (fun _ h => ∃ use, RunsOn u use ∧ Holds G { k with use } h)
      (Cut (fun h => ∃ use, RunsOn u use ∧ Holds G { k with use } h) D.at') := by
  refine triple_focus fun h held => triple_among (triple_relabel (triple_conseq runs ?_ ?_ ?_))
  · intro w same
    exact same ▸ (show RunsOn u h.world.inUse from held.use ▸ plays)
  · exact fun _ w after => ⟨_, after, rfl, held.status, held.fallback, held.guard⟩
  · intro e w after
    cases e with
    | stopped => exact guards.cut _ (h.withWorld w) held.guard
    | error _ => exact ⟨_, after, rfl, held.status, held.fallback, held.guard⟩

variable [RosterText] [FileSha256]

/-- The rosters a move may make the people's data follow: one that came as a file, without problems
and with someone of those before, or the one in use once the file has it again. -/
inductive MayFollow (came : ByteArray → Prop) (s : Machine β) : Move β → Roster → Prop where
  | file {o : Oracle WatchStep (WatchFate β)} {bytes : ByteArray} {r : RosterState} (known : came bytes)
    (taken : Taken bytes (s.host.world.inUse.map (·.roster)) r) : MayFollow came s (.poll o) r.roster
  | back {o : Oracle WatchStep (WatchFate β)} {r : RosterState} (use : s.host.world.inUse = some r) :
    MayFollow came s (.poll o) r.roster
  | start {o : Oracle WatchStep (WatchFate β)} {bytes : ByteArray} {base : Option Roster} {r : RosterState}
    (known : came bytes) (based : Based o s.host.recorded base) (taken : Taken bytes base r) :
    MayFollow came s (.start o) r.roster

/-- What is guarded through a move: by the stamp a poll took, and by what it read since. -/
structure Watches (fine : Edit → Prop) (came : ByteArray → Prop) (s : Machine β) (m : Move β)
    (o : Oracle WatchStep (WatchFate β)) (G : Option Roster → Guard β) (S : Stamp → Option Roster → Guard β)
    (F : Stamp → Option ByteArray → Option Roster → Guard β) (D : Guard β) : Prop where
  edits : Fine fine o
  guards : Guards fine came (MayFollow came s m) o G D
  seeing : ∀ now, Guards fine came (MayFollow came s m) o (S now) D
  later : ∀ now read, Guards fine came (MayFollow came s m) o (F now read) D
  sees : ∀ lost (h : Host β), (G lost).at' h → (S (h.file.map (·.stamp)) lost).at' h ∧ (S none lost).at' h
  reads : ∀ now lost (h : Host β), (S now lost).at' h → (F now (h.file.map (·.bytes)) lost).at' h

/-- Everything a move can do. -/
inductive Ends (came : ByteArray → Prop) (G : Option Roster → Guard β) (S : Stamp → Option Roster → Guard β)
    (F : Stamp → Option ByteArray → Option Roster → Guard β) (D : Guard β) (s : Machine β) :
    Move β → Machine β → Prop where
  | edit (e : Edit) : Ends came G S F D s (.edit e) { s with host := s.host.edit e }
  | drift (d : Drift) : Ends came G S F D s (.drift d) { s with host := s.host.withWorld (s.host.world.drift d) }
  | stop : Ends came G S F D s .stop (.down s.host)
  | halted {m : Move β} {o : Oracle WatchStep (WatchFate β)} {h : Host β} (asks : m.oracle = some o) (cut : D.at' h) :
    Ends came G S F D s m (.down h)
  | started {o : Oracle WatchStep (WatchFate β)} {h : Host β} {loaded : Option Loaded} {read : Option ByteArray}
    {k' : Known} (off : s.up = false) (loads : Loads came o s.host.recorded s.known read loaded k')
    (held : Holds G (k'.starts loaded) h) :
    Ends came G S F D s (.start o) { host := h, up := true }
  | polled {o : Oracle WatchStep (WatchFate β)} {h : Host β} {seen : Stamp} {k' : Known} (running : s.up = true)
    (polled : Polled came o S F s.known s.seen seen k' h) :
    Ends came G S F D s (.poll o) { host := h, up := true, seen }
  | went {m : Move β} {o : Oracle WatchStep (WatchFate β)} {h : Host β} {use : Option RosterState}
    (asks : m.oracle = some o)
    (running : s.up = true) (runs : RunsOn (s.known.use.map fun r => (r.roster, r.sha256)) use)
    (held : Holds G { s.known with use } h) : Ends came G S F D s m { s with host := h }

variable [Sha256] {facts : Option TopologyFacts} {tries : ℕ}

omit [Libm] [RosterText] [FileSha256] [Sha256] in
theorem known_holds (held : (G none).at' s.host) : Holds G s.known s.host := ⟨rfl, rfl, rfl, held⟩

omit [Libm] [RosterText] [FileSha256] [Sha256] in
theorem still_up (up : s.up = true) (h : Host β) :
    ({ host := h, up := true, seen := s.seen } : Machine β) = { s with host := h } := by
  rw [← up]

section
variable (held : (G none).at' s.host)
include held

theorem start_ends {o : Oracle WatchStep (WatchFate β)} (watches : Watches fine came s (.start o) o G S F D)
    (moved : s.move facts tries (.start o) = some s') : Ends came G S F D s (.start o) s' := by
  obtain ⟨edits, guards, -⟩ := watches
  simp only [Machine.move] at moved
  split at moved
  · cases moved
  rename_i off
  have ended := triple_start edits guards rfl (fun _ => guards) (fun _ _ => id)
    (fun bytes base r known (based : Based o s.host.recorded base) taken => .start known based taken) facts
    ⟨s.host, 0⟩ ⟨known_holds held, rfl⟩
  split at ended
  · rename_i _ cut run
    rw [run] at moved
    cases moved
    obtain ⟨loaded, read, k', loads, held⟩ := ended
    exact .started (by simpa using off) loads held
  · rename_i e cut run
    rw [run] at moved
    cases moved
    exact .halted rfl ended

theorem poll_ends {o : Oracle WatchStep (WatchFate β)} (watches : Watches fine came s (.poll o) o G S F D)
    (moved : s.move facts tries (.poll o) = some s') : Ends came G S F D s (.poll o) s' := by
  obtain ⟨edits, guards, seeing, later, sees, reads⟩ := watches
  obtain ⟨up, rfl⟩ : s.up = true ∧ s.after o (poll (ε := Empty) tries s.seen) id = s' := by
    simpa [Machine.move] using moved
  have polls := triple_poll (ε := Empty) (E := fun _ => False) tries edits guards seeing later sees reads
    (k := s.known) rfl (fun r use => .back use) (fun bytes r known taken => .file known taken) s.seen
  obtain ⟨seen, h, is, k', polled⟩ | ⟨h, is, ⟨⟩⟩ | ⟨h, is, cut⟩ := after_cases polls (known_holds held) rfl
  · rw [is]
    exact .polled up polled
  · rw [is]
    exact .halted rfl cut

variable (plays : ∀ r, s.host.world.inUse = some r → (r.roster.lineup r.active).isSome)
include plays

theorem settle_ends {refusals : ℕ} {o : Oracle WatchStep (WatchFate β)}
    (watches : Watches fine came s (.settle refusals o) o G S F D)
    (moved : s.move facts tries (.settle refusals o) = some s') : Ends came G S F D s (.settle refusals o) s' := by
  obtain ⟨edits, guards, -⟩ := watches
  obtain ⟨up, rfl⟩ : s.up = true ∧ s.after o (settleTurn (ε := Empty) tries refusals) (fun _ => s.seen) = s' := by
    simpa [Machine.move] using moved
  obtain ⟨_, h, is, held⟩ | ⟨h, is, held⟩ | ⟨h, is, cut⟩ :=
    after_cases (triple_settleTurn (ε := Empty) tries edits guards refusals) (known_holds held) rfl
  · rw [is, still_up up h]
    exact .went rfl up ⟨rfl, plays⟩ held
  · rw [is]
    exact .went rfl up ⟨rfl, plays⟩ held
  · rw [is]
    exact .halted rfl cut

omit [Sha256] in
/-- A switch, or its replay. -/
theorem band_ends {m : Move β} {o : Oracle WatchStep (WatchFate β)} {p : Proc ε α} (up : s.up = true)
    (asks : m.oracle = some o) (guards : Guards fine came (MayFollow came s m) o G D)
    (runs : ∀ u, Keeps (fun t op => (o t (.lineups (.op op))).engine) (InUse (RunsOn u)) p)
    (moved : s.after o (inStates (lineups p)) (fun _ => s.seen) = s') : Ends came G S F D s m s' := by
  obtain ⟨_, h, rfl, use, runs, held⟩ | ⟨h, rfl, use, runs, held⟩ | ⟨h, rfl, cut⟩ :=
    after_cases (triple_band (k := s.known) guards (runs _) ⟨rfl, plays⟩) (known_holds held) moved
  · rw [still_up up h]
    exact .went asks up runs held
  · exact .went asks up runs held
  · exact .halted asks cut

end

theorem move_ends {m : Move β} (watches : ∀ o, m.oracle = some o → Watches fine came s m o G S F D)
    (held : (G none).at' s.host) (plays : ∀ r, s.host.world.inUse = some r → (r.roster.lineup r.active).isSome)
    (moved : s.move facts tries m = some s') : Ends came G S F D s m s' := by
  cases m with
  | edit e =>
    cases moved
    exact .edit e
  | drift d =>
    cases moved
    exact .drift d
  | stop =>
    cases moved
    exact .stop
  | start o => exact start_ends held (watches o rfl) moved
  | poll o => exact poll_ends held (watches o rfl) moved
  | settle refusals o => exact settle_ends held plays (watches o rfl) moved
  | switch dst who o =>
    obtain ⟨up, moved⟩ : s.up = true ∧ s.after o (inStates (lineups (switchLineup dst who)))
      (fun _ => s.seen) = s' := by
      simpa [Machine.move] using moved
    exact band_ends held plays up rfl (watches o rfl).guards (fun u => keeps_switchLineup dst who) moved
  | replay o =>
    obtain ⟨up, moved⟩ : s.up = true ∧ s.after o (inStates (lineups replayWhenSynced)) (fun _ => s.seen) = s' := by
      simpa [Machine.move] using moved
    exact band_ends held plays up rfl (watches o rfl).guards (fun u => keeps_replayWhenSynced) moved

/-! ### What a move leaves known -/

omit [Libm] [Sha256] in
theorem Taken.alone {bytes : ByteArray} {base : Option Roster} {r : RosterState} (taken : Taken bytes base r) :
    Taken bytes none r := ⟨taken.read, taken.sound, taken.sha256, taken.plays, nofun⟩

/-- The roster in use is one that came. -/
def Known.Sound (came : ByteArray → Prop) (k : Known) : Prop :=
  ∀ r, k.use = some r → ∃ bytes, came bytes ∧ Taken bytes none r

/-- The people's data was made to follow the roster in use only. -/
def Known.Own (k : Known) : Prop :=
  ∀ roster, k.lost = some roster → ∃ r, k.use = some r ∧ r.roster = roster ∧ k.fallback = false

variable {bytes : ByteArray} {a : Applied} {k' : Known}

omit [Libm] [Sha256] in
theorem Concludes.sound (concludes : Concludes o bytes k a k') (known : came bytes) (sound : k.Sound came) :
    k'.Sound came := by
  cases concludes with
  | applied taken _ =>
    rintro r ⟨⟩
    exact ⟨bytes, known, taken.alone⟩
  | _ => exact sound

omit [Libm] [Sha256] in
theorem Concludes.own (concludes : Concludes o bytes k a k') (fresh : k.lost = none) : k'.Own := by
  have none : k.Own := fun roster is => by simp [fresh] at is
  cases concludes with
  | unchanged => exact none
  | refused => exact none
  | deferred => exact none
  | back use _ _ _ =>
    rintro _ ⟨⟩
    exact ⟨_, use, rfl, rfl⟩
  | applied _ _ =>
    rintro _ ⟨⟩
    exact ⟨_, rfl, rfl, rfl⟩

omit [Libm] [Sha256] in
theorem Loads.sound {recorded : Option String} {read : Option ByteArray} {loaded : Option Loaded}
    (loads : Loads came o recorded k read loaded k') : (k'.starts loaded).Sound came := by
  cases loads with
  | legacy => exact nofun
  | file known _ taken _ =>
    rintro r ⟨⟩
    exact ⟨_, known, taken.alone⟩
  | stands known taken _ =>
    rintro r ⟨⟩
    exact ⟨_, known, taken⟩

omit [Libm] [Sha256] in
theorem Loads.own {recorded : Option String} {read : Option ByteArray} {loaded : Option Loaded}
    (loads : Loads came o recorded k read loaded k') (fresh : k.lost = none) : (k'.starts loaded).Own := by
  have none : ∀ loaded, (k.starts loaded).Own := fun loaded roster is => by simp [Known.starts, fresh] at is
  cases loads with
  | legacy => exact none _
  | file _ _ _ _ =>
    rintro _ ⟨⟩
    exact ⟨_, rfl, rfl, rfl⟩
  | stands _ _ _ => exact fun roster is => by simp [Known.starts, fresh] at is

omit [Libm] [RosterText] [FileSha256] [Sha256] in
/-- The roster stays, whichever of its lineups plays. -/
theorem RunsOn.same {i use : Option RosterState} (runs : RunsOn (i.map fun r => (r.roster, r.sha256)) use)
    {r : RosterState}
    (is : use = some r) : ∃ r', i = some r' ∧ r'.roster = r.roster ∧ r'.sha256 = r.sha256 := by
  subst is
  obtain ⟨r', there, both⟩ := Option.map_eq_some_iff.mp runs.1.symm
  exact ⟨r', there, congrArg Prod.fst both, congrArg Prod.snd both⟩

omit [Libm] [Sha256] in
theorem RunsOn.sound {use : Option RosterState} (runs : RunsOn (k.use.map fun r => (r.roster, r.sha256)) use)
    (sound : k.Sound came) : ({ k with use } : Known).Sound came := by
  intro r is
  obtain ⟨r', before, roster, sha256⟩ := runs.same is
  obtain ⟨bytes, known, taken⟩ := sound r' before
  exact ⟨bytes, known, roster ▸ taken.read, roster ▸ taken.sound, sha256 ▸ taken.sha256, runs.2 r is, nofun⟩

/-! ### The status file and the watcher -/

/-- An applied status names the roster in use; while the roster applied last stands in, it is said. -/
structure Tells (st : Status) (r : RosterState) (fallback : Bool) : Prop where
  names : st.applied = true → st.sha256 = r.sha256 ∧ fallback = false
  stands : fallback = true → .text standsIn ∈ st.problems

def Known.Told (k : Known) : Prop := ∀ r, k.use = some r → ∃ st, k.status = some st ∧ Tells st r k.fallback

/-- A file is in use, or the status refuses it. -/
def Known.Judged (k : Known) (bytes : ByteArray) : Prop :=
  (∃ r, k.use = some r ∧ r.sha256 = sha256Hex bytes) ∨
    ∃ st, k.status = some st ∧ st.applied = false ∧ st.sha256 = sha256Hex bytes

/-- Nothing fails that the watcher does not try again. -/
def Smooth (o : Oracle WatchStep (WatchFate β)) : Prop :=
  ∀ t text, (o t .readRoster).file ≠ .failed text ∧ (o t .writeStatus).file ≠ .failed text

section
variable (smooth : Smooth o)
include smooth

omit [Libm] [RosterText] [FileSha256] [Sha256] in
theorem Smooth.written {old st : Option Status} {status : Status} (written : Written o old status st) :
    st = some status := by
  rcases written with is | ⟨⟨t, text, failed⟩, -⟩
  · exact is
  · exact absurd failed (smooth t text).2

omit [Libm] [Sha256] in
theorem Concludes.told (concludes : Concludes o bytes k a k') (told : k.Told) : k'.Told := by
  cases concludes with
  | unchanged => exact told
  | deferred => exact told
  | back use same _ written =>
    intro r is
    obtain rfl := Option.some.inj (use.symm.trans is)
    exact ⟨_, smooth.written written, fun _ => ⟨same.symm, rfl⟩, nofun⟩
  | refused written =>
    intro r is
    refine ⟨_, smooth.written written, nofun, fun stands => ?_⟩
    have stands : k.fallback = true := stands
    simp [Status.refused, stands]
  | applied taken written =>
    rintro r ⟨⟩
    exact ⟨_, smooth.written written, fun _ => ⟨taken.sha256.symm, rfl⟩, nofun⟩

omit [Libm] [Sha256] in
theorem Concludes.judged (concludes : Concludes o bytes k a k') (settled : ∀ why, a ≠ .deferred why) :
    k'.Judged bytes := by
  cases concludes with
  | unchanged use same _ => exact .inl ⟨_, use, same⟩
  | back use same _ _ => exact .inl ⟨_, use, same⟩
  | refused written => exact .inr ⟨_, smooth.written written, rfl, rfl⟩
  | deferred why => exact absurd rfl (settled why)
  | applied taken _ => exact .inl ⟨_, rfl, taken.sha256⟩

omit [Libm] [Sha256] in
theorem Loads.told {recorded : Option String} {read : Option ByteArray} {loaded : Option Loaded}
    (loads : Loads came o recorded k read loaded k') : (k'.starts loaded).Told := by
  cases loads with
  | legacy => exact nofun
  | file _ _ _ written =>
    rintro r ⟨⟩
    exact ⟨_, smooth.written written, fun _ => ⟨rfl, rfl⟩, nofun⟩
  | stands _ _ written =>
    rintro r ⟨⟩
    exact ⟨_, smooth.written written, nofun, fun _ => by simp [Status.refused]⟩

end

omit [Libm] [RosterText] [FileSha256] [Sha256] in
theorem RunsOn.told {use : Option RosterState} (runs : RunsOn (k.use.map fun r => (r.roster, r.sha256)) use)
    (told : k.Told) : ({ k with use } : Known).Told := by
  intro r is
  obtain ⟨r', before, -, sha256⟩ := runs.same is
  obtain ⟨st, there, tells⟩ := told r' before
  exact ⟨st, there, fun applied => sha256 ▸ tells.names applied, tells.stands⟩

omit [Libm] [RosterText] [Sha256] in
theorem RunsOn.judged {use : Option RosterState} (runs : RunsOn (k.use.map fun r => (r.roster, r.sha256)) use)
    (judged : k.Judged bytes) : ({ k with use } : Known).Judged bytes := by
  rcases judged with ⟨r, before, same⟩ | refused
  · have there : use.map (fun r => (r.roster, r.sha256)) = some (r.roster, r.sha256) := by rw [runs.1, before]; rfl
    obtain ⟨r', is, both⟩ := Option.map_eq_some_iff.mp there
    exact .inl ⟨r', is, (congrArg Prod.snd both).trans same⟩
  · exact .inr refused

/-- The file was written before now. -/
def Timely (file : Option RosterFile) (clock : ℕ) : Prop := ∀ f, file = some f → f.modified < clock

/-- The stamp was taken before now, and of a file that has it `holds` is true. -/
def Stamped (seen : Stamp) (holds : ByteArray → Prop) (file : Option RosterFile) (clock : ℕ) : Prop :=
  (∀ st, seen = some st → st.2 < clock) ∧ ∀ f, file = some f → seen = some f.stamp → holds f.bytes

section
variable {h : Host β} {holds : ByteArray → Prop}

omit [Libm] [RosterText] [FileSha256] [Sha256] in
theorem timely_edit (h : Host β) (e : Edit) : Timely (h.edit e).file (h.edit e).clock := by
  cases e with
  | write bytes =>
    rintro f ⟨⟩
    exact Nat.lt_succ_self h.clock
  | remove => exact nofun

omit [Libm] [RosterText] [FileSha256] [Sha256] in
/-- A file written later has another stamp. -/
theorem Stamped.edit {seen : Stamp} (stamped : Stamped seen holds h.file h.clock) (e : Edit) :
    Stamped seen holds (h.edit e).file (h.edit e).clock := by
  cases e with
  | write bytes =>
    refine ⟨fun st is => Nat.lt_succ_of_lt (stamped.1 st is), ?_⟩
    rintro f ⟨⟩ is
    exact absurd (stamped.1 _ is) (lt_irrefl h.clock)
  | remove => exact ⟨stamped.1, nofun⟩

/-- Of the stamp the watcher saw, and of the one it takes. -/
def stamps (seen : Stamp) (holds : ByteArray → Prop) (now : Stamp) (reads : ByteArray → Prop) (_ : Option Roster) :
    Guard β := fun file clock _ _ _ => Timely file clock ∧ Stamped seen holds file clock ∧ Stamped now reads file clock

omit [Libm] [RosterText] [FileSha256] [Sha256] in
theorem guards_stamps {seen now : Stamp} {reads : ByteArray → Prop} :
    Guards (fun _ => True) (fun _ => True) may o (stamps (β := β) seen holds now reads)
      fun file clock _ _ _ => Timely file clock where
  edit _ h e _ held := ⟨timely_edit h e, held.2.1.edit e, held.2.2.edit e⟩
  file _ _ _ _ _ := trivial
  recorded _ _ _ _ _ := trivial
  record _ _ _ _ held := held
  cut _ _ held := held.1
  follow _ _ _ _ held := fun w _ => by
    split
    · exact held
    · exact held.1
  migrated _ _ _ _ held := ⟨held.1, fun _ => held⟩
  finished _ held := held

end

/-- The roster in use is sound, the status file fits it, and the watcher passes over no file but one
in use or refused. -/
structure Fits (s : Machine β) : Prop where
  timely : Timely s.host.file s.host.clock
  sound : s.known.Sound fun _ => True
  told : s.known.Told
  judged : Stamped s.seen s.known.Judged s.host.file s.host.clock

omit [Libm] [Sha256] in
theorem fits_of {h : Host β} {up : Bool} {seen : Stamp} (held : Holds G k h) (timely : Timely h.file h.clock)
    (sound : k.Sound fun _ => True) (told : k.Told) (judged : Stamped seen k.Judged h.file h.clock) :
    Fits { host := h, up, seen } := by
  have same : ({ host := h, up, seen } : Machine β).known = { k with lost := none } := by
    unfold Machine.known
    rw [held.use, held.status, held.fallback]
  refine ⟨timely, ?_, ?_, ?_⟩
  · rw [same]
    exact sound
  · rw [same]
    exact told
  · rw [same]
    exact judged

omit [RosterText] [FileSha256] [Sha256] in
theorem down_use {h : Host β} {r : RosterState} : (Machine.down h).known.use ≠ some r := nofun

omit [Sha256] in
theorem fits_down {h : Host β} (timely : Timely h.file h.clock) : Fits (.down h) :=
  ⟨timely, fun _ is => absurd is down_use, fun _ is => absurd is down_use, nofun, nofun⟩

omit [Libm] [Sha256] in
/-- The watcher's stamps. -/
theorem watches_stamps {m : Move β} {o : Oracle WatchStep (WatchFate β)} :
    Watches (fun _ => True) (fun _ => True) s m o (stamps s.seen s.known.Judged none fun _ => True)
      (fun now => stamps s.seen s.known.Judged now fun _ => True)
      (fun now read => stamps s.seen s.known.Judged now fun bytes => read = some bytes)
      fun file clock _ _ _ => Timely file clock := by
  refine ⟨fun _ _ _ _ => trivial, guards_stamps, fun _ => guards_stamps, fun _ _ => guards_stamps, ?_, ?_⟩
  · intro lost h held
    refine ⟨⟨held.1, held.2.1, fun st is => ?_, fun _ _ _ => trivial⟩, held.1, held.2.1, nofun, nofun⟩
    obtain ⟨f, there, rfl⟩ := Option.map_eq_some_iff.mp is
    exact held.1 f there
  · exact fun now lost h held => ⟨held.1, held.2.1, held.2.2.1, fun f there _ => by rw [there]; rfl⟩

theorem fits_move {m : Move β} (fits : Fits s) (smooth : ∀ o, m.oracle = some o → Smooth o)
    (moved : s.move facts tries m = some s') : Fits s' := by
  have plays : ∀ r, s.host.world.inUse = some r → (r.roster.lineup r.active).isSome := fun r is => by
    obtain ⟨bytes, -, taken⟩ := fits.sound r is
    exact taken.plays
  have ends := move_ends (fun o _ => watches_stamps (o := o)) ⟨fits.timely, fits.judged, nofun, nofun⟩ plays moved
  cases ends with
  | edit e =>
    have same : ({ s with host := s.host.edit e } : Machine β).known = s.known := by cases e <;> rfl
    exact ⟨timely_edit s.host e, same ▸ fits.sound, same ▸ fits.told, same ▸ fits.judged.edit e⟩
  | drift d => exact ⟨fits.timely, fits.sound, fits.told, fits.judged⟩
  | stop => exact fits_down fits.timely
  | halted _ cut => exact fits_down cut
  | started _ loads held => exact fits_of held held.guard.1 loads.sound (loads.told (smooth _ rfl)) ⟨nofun, nofun⟩
  | polled _ polled =>
    have smooth := smooth _ rfl
    cases polled with
    | idle held => exact fits_of held held.guard.1 fits.sound fits.told held.guard.2.1
    | gone held =>
      exact fits_of held held.guard.1 fits.sound fits.told ⟨held.guard.2.2.1, fun f there is =>
        nomatch held.guard.2.2.2 f there is⟩
    | unread failed _ =>
      obtain ⟨t, text, failed⟩ := failed
      exact absurd failed (smooth t text).1
    | waits known concludes held =>
      exact fits_of held held.guard.1 (concludes.sound known fits.sound) (concludes.told smooth fits.told)
        ⟨nofun, nofun⟩
    | judged known concludes settled held =>
      refine fits_of held held.guard.1 (concludes.sound known fits.sound) (concludes.told smooth fits.told)
        ⟨held.guard.2.2.1, fun f there is => ?_⟩
      rw [← Option.some.inj (held.guard.2.2.2 f there is)]
      exact concludes.judged smooth settled
  | went _ _ runs held =>
    exact fits_of held held.guard.1 (runs.sound fits.sound) (runs.told fits.told)
      ⟨held.guard.2.1.1, fun f there is => runs.judged (held.guard.2.1.2 f there is)⟩

/-- Whatever is done to the roster file and whenever, with stops, failures and switches: the roster
in use is one a file gave, without problems and with the lineup that plays; the status file names it
when it says applied, and says when it stands in for the file; and the watcher passes over the file
only while that is in use or refused in the status. -/
theorem roster_file_watched {h : Host β} (timely : Timely h.file h.clock)
    (run : Leads (Machine.move facts tries) (fun _ m => ∀ o, m.oracle = some o → Smooth o) (.down h) s) : Fits s :=
  run.invariant (fun _ _ _ fits smooth moved => fits_move fits smooth moved) (fits_down timely)

/-! ### The people's data -/

/-- What is written to the roster file came. -/
def Brings (came : ByteArray → Prop) : Edit → Prop
  | .write bytes => came bytes
  | .remove => True

def Move.Brings (came : ByteArray → Prop) (m : Move β) : Prop :=
  (∀ e, m = .edit e → RosterWatch.Brings came e) ∧ ∀ o, m.oracle = some o → Fine (RosterWatch.Brings came) o

/-- The roster file and the roster recorded came, and nothing is left to migrate. -/
def Came (came : ByteArray → Prop) (file : Option RosterFile) (recorded : Option String) (legacy : Bool) : Prop :=
  (∀ f, file = some f → came f.bytes) ∧ (∀ text, recorded = some text → came text.toUTF8) ∧ legacy = false

/-- What was taken from `w`: nothing, or what those had whom a roster lacks. -/
def Took (may : Roster → Prop) (w : Removal.World β) : Option Roster → Removal.World β → Prop
  | none => fun w' => w' = w
  | some r => fun w' => may r ∧ Removal.Spares (Removal.Leaves r) w w' ∧ w'.Archived

def follows (came : ByteArray → Prop) (may : Roster → Prop) (w : Removal.World β) (lost : Option Roster) : Guard β :=
  fun file _ recorded legacy site => Came came file recorded legacy ∧ Took may w lost site.world

/-- The same with the process stopped. -/
def stopped (came : ByteArray → Prop) (may : Roster → Prop) (w : Removal.World β) : Guard β :=
  fun file _ recorded legacy site => Came came file recorded legacy ∧
    (Removal.Spares (fun _ => False) w site.world.restart ∨
      ∃ r, may r ∧ Removal.Spares (Removal.Leaves r) w site.world.restart)

omit [Libm] [RosterText] [FileSha256] [Sha256] in
theorem Came.edit {h : Host β} (held : Came came h.file h.recorded h.legacy) {e : Edit} (brings : Brings came e) :
    Came came (h.edit e).file (h.edit e).recorded (h.edit e).legacy := by
  cases e with
  | write bytes =>
    refine ⟨?_, held.2⟩
    rintro f ⟨⟩
    exact brings
  | remove => exact ⟨nofun, held.2⟩

omit [Libm] [RosterText] [FileSha256] [Sha256] in
theorem guards_follows {w : Removal.World β} (saved : w.Saved) (archived : w.Archived) :
    Guards (Brings came) came may o (follows came may w) (stopped came may w) where
  edit lost h e brings held := ⟨held.1.edit brings, by cases e <;> exact held.2⟩
  file _ _ f held there := held.1.1 f there
  recorded _ _ text held there := held.1.2.1 text there
  record _ _ text known held := ⟨⟨held.1.1, by rintro _ ⟨⟩; exact known, held.1.2.2⟩, held.2⟩
  cut lost h held := by
    refine ⟨held.1, ?_⟩
    cases lost with
    | none =>
      have same : h.site.world = w := held.2
      refine .inl ?_
      rw [same]
      exact (Removal.Spares.refl saved).restart
    | some r => exact .inr ⟨r, held.2.1, held.2.2.1.restart⟩
  follow roster removed h allowed held := by
    have same : h.site.world = w := held.2
    have follows := Removal.triple_followPeople (o := fun t op => (o t (.people op)).file) (ε := Empty)
      (same ▸ saved) (same ▸ archived) roster removed
    refine triple_conseq follows (fun _ => id) (fun out site after => ?_) fun _ site after => ?_
    · exact ⟨held.1, allowed, same ▸ after.spares, after.archived⟩
    · exact ⟨held.1, .inr ⟨roster, allowed, same ▸ after.2⟩⟩
  migrated h m main legacy held := by
    have none : h.legacy = false := held.1.2.2
    simp [none] at legacy
  finished h held := ⟨⟨held.1.1, held.1.2.1, rfl⟩, held.2⟩

/-- What a move takes: nothing, or from those whom a roster lacks that it may follow, the one in use
afterwards if the server is still up. -/
def Takes (came : ByteArray → Prop) (s : Machine β) (m : Move β) (s' : Machine β) : Prop :=
  Removal.Spares (fun _ => False) s.host.site.world s'.host.site.world ∨
    ∃ roster, MayFollow came s m roster ∧ Removal.Spares (Removal.Leaves roster) s.host.site.world s'.host.site.world ∧
      (s'.up = true → ∃ r, s'.host.world.inUse = some r ∧ r.roster = roster ∧ s'.host.fallback = false)

/-- Whom a roster lacks that came without problems. -/
def Lacked (came : ByteArray → Prop) (id : String) : Prop :=
  ∃ bytes r, came bytes ∧ Taken bytes none r ∧ Removal.Leaves r.roster id

/-- What every run keeps of the people's data in `w`. -/
structure Tracks (came : ByteArray → Prop) (w : Removal.World β) (s : Machine β) : Prop where
  brought : Came came s.host.file s.host.recorded s.host.legacy
  archived : s.host.site.world.Archived
  sound : s.known.Sound came
  spares : Removal.Spares (Lacked came) w s.host.site.world

omit [Libm] [Sha256] in
theorem MayFollow.lacked {m : Move β} {roster : Roster} (sound : s.known.Sound came)
    (follows : MayFollow came s m roster)
    (id : String) (leaves : Removal.Leaves roster id) : Lacked came id := by
  cases follows with
  | file known taken => exact ⟨_, _, known, taken.alone, leaves⟩
  | @back o r use =>
    obtain ⟨bytes, known, taken⟩ := sound r use
    exact ⟨bytes, r, known, taken, leaves⟩
  | start known _ taken => exact ⟨_, _, known, taken.alone, leaves⟩

omit [Libm] [Sha256] in
/-- A program that ended up, by what is known then. -/
theorem takes_of {m : Move β} {h : Host β} {up : Bool} {seen : Stamp} (saved : s.host.site.world.Saved)
    (archived : s.host.site.world.Archived)
    (held : Holds (follows came (MayFollow came s m) s.host.site.world) k h) (own : k.Own) :
    Takes came s m { host := h, up, seen } ∧ h.site.world.Archived := by
  have took := held.guard.2
  cases lost : k.lost with
  | none =>
    rw [lost] at took
    have same : h.site.world = s.host.site.world := took
    refine ⟨.inl ?_, same ▸ archived⟩
    show Removal.Spares _ _ h.site.world
    rw [same]
    exact .refl saved
  | some roster =>
    rw [lost] at took
    obtain ⟨r, use, is, file⟩ := own roster lost
    exact ⟨.inr ⟨roster, took.1, took.2.1, fun _ => ⟨r, held.use.trans use, is, held.fallback.trans file⟩⟩, took.2.2⟩

theorem takes_move {w : Removal.World β} {m : Move β} (tracks : Tracks came w s) (brings : m.Brings came)
    (moved : s.move facts tries m = some s') : Takes came s m s' ∧ Tracks came w s' := by
  have saved := tracks.spares.saved
  suffices now : Takes came s m s' ∧ Came came s'.host.file s'.host.recorded s'.host.legacy ∧
      s'.host.site.world.Archived ∧ s'.known.Sound came by
    obtain ⟨takes, came', archived, sound⟩ := now
    refine ⟨takes, came', archived, sound, ?_⟩
    rcases takes with none | ⟨roster, may, spares, -⟩
    · exact tracks.spares.trans (none.mono fun _ => False.elim)
    · exact tracks.spares.trans (spares.mono (may.lacked tracks.sound))
  have guards : ∀ o, Guards (Brings came) came (MayFollow came s m) o
      (follows came (MayFollow came s m) s.host.site.world) (stopped came (MayFollow came s m) s.host.site.world) :=
    fun _ => guards_follows saved tracks.archived
  have ends := move_ends (S := fun _ => follows came (MayFollow came s m) s.host.site.world)
    (F := fun _ _ => follows came (MayFollow came s m) s.host.site.world)
    (fun o asks => ⟨brings.2 o asks, guards o, fun _ => guards o, fun _ _ => guards o, fun _ _ held => ⟨held, held⟩,
      fun _ _ _ => id⟩) ⟨tracks.brought, rfl⟩
    (fun r is => (tracks.sound r is).elim fun _ held => held.2.plays) moved
  have up : ∀ {k : Known} {h : Host β} {up : Bool} {seen : Stamp},
      Holds (follows came (MayFollow came s m) s.host.site.world) k h → k.Own → k.Sound came →
      Takes came s m { host := h, up, seen } ∧ Came came h.file h.recorded h.legacy ∧ h.site.world.Archived ∧
        ({ host := h, up, seen } : Machine β).known.Sound came := fun held own sound => by
    obtain ⟨takes, archived⟩ := takes_of saved tracks.archived held own
    refine ⟨takes, held.guard.1, archived, fun r is => sound r (held.use.symm.trans is)⟩
  cases ends with
  | edit e =>
    have same : (s.host.edit e).site = s.host.site := by cases e <;> rfl
    have use : ({ s with host := s.host.edit e } : Machine β).known = s.known := by cases e <;> rfl
    refine ⟨.inl ?_, tracks.brought.edit (brings.1 e rfl), ?_, use ▸ tracks.sound⟩
    · show Removal.Spares _ _ (s.host.edit e).site.world
      rw [same]
      exact .refl saved
    · show (s.host.edit e).site.world.Archived
      rw [same]
      exact tracks.archived
  | drift d => exact ⟨.inl (.refl saved), tracks.brought, tracks.archived, tracks.sound⟩
  | stop => exact ⟨.inl (Removal.Spares.refl saved).restart, tracks.brought, .inl rfl, fun _ is => absurd is down_use⟩
  | halted _ cut =>
    refine ⟨?_, cut.1, .inl rfl, fun _ is => absurd is down_use⟩
    rcases cut.2 with none | ⟨roster, may, spares⟩
    · exact .inl none
    · exact .inr ⟨roster, may, spares, nofun⟩
  | started _ loads held => exact up held (loads.own rfl) loads.sound
  | polled _ polled =>
    have fresh : s.known.Own := nofun
    cases polled with
    | idle held => exact up held fresh tracks.sound
    | gone held => exact up held fresh tracks.sound
    | unread _ held => exact up held fresh tracks.sound
    | waits known concludes held => exact up held (concludes.own rfl) (concludes.sound known tracks.sound)
    | judged known concludes _ held => exact up held (concludes.own rfl) (concludes.sound known tracks.sound)
  | went _ _ runs held => exact up held nofun (runs.sound tracks.sound)

/-- On a migrated site, whatever is done to the roster file, fails, stops or switches: the roster in
use is one that came, and whoever every roster holds that came without problems has lost nothing.
The next move takes nothing either but from those whom one roster lacks: a poll or a start follows
one that came, with someone of the roster in use or of the one recorded, or again the one in use,
and it is in use once the move ends. -/
theorem people_follow_files {h : Host β} (settled : Came came h.file h.recorded h.legacy)
    (saved : h.site.world.Saved) {s : Machine β}
    (run : Leads (Machine.move facts tries) (fun _ m => m.Brings came) (.down h) s) :
    Removal.Spares (Lacked came) h.site.world s.host.site.world ∧ s.known.Sound came ∧
      ∀ m s', m.Brings came → s.move facts tries m = some s' → Takes came s m s' := by
  have tracks : Tracks came h.site.world s := run.invariant
    (fun _ _ _ tracks brings moved => (takes_move tracks brings moved).2)
    ⟨settled, .inl rfl, fun _ is => absurd is down_use, (Removal.Spares.refl saved).restart⟩
  exact ⟨tracks.spares, tracks.sound, fun m s' brings moved => (takes_move tracks brings moved).1⟩

end

def undisturbed {β : Type} : Oracle WatchStep (WatchFate β) := fun _ _ => {}

/-! ### Ben plays alone -/

/-- Ben on his set. -/
def bensBand : Roster where
  people := [{ id := "ben", name := "Ben" }]
  lineups := [{ id := "solo", name := "Solo", main := true, sets := .ofList [("ben", "ben")] }]

abbrev bensText : RosterText where
  parse text := if text = "ben" then .ok bensBand else .error "not a roster"

/-- A digest that tells the files of these runs apart. -/
abbrev textDigest : FileSha256 where
  sha256Hex bytes := (String.fromUTF8? bytes).getD ""

section
attribute [local instance] Core.duetLibm mutedDigest bensText textDigest

/-- Ana's data is there still, and the roster without her. -/
def bensHost : Host ℕ where
  world := { concert with store := {}, inUse := none }
  site := Removal.bensSite
  file := some ⟨"ben".toUTF8, 0⟩
  clock := 1

def bensMoves : List (Move ℕ) :=
  [.start undisturbed, .poll undisturbed, .edit (.write "x".toUTF8), .poll undisturbed]

/-- A text that is no roster is refused in the status file, and not read again. -/
theorem roster_file_watched_ben : ∃ s : Machine ℕ, Fits s ∧ s.host.world.inUse.map (·.sha256) = some "ben" ∧
    s.host.status.map (·.sha256) = some "x" ∧ s.seen = s.host.file.map (·.stamp) := by
  have facts : (runThrough (Machine.move none 3) (fun _ _ => true) (.down bensHost) bensMoves).any (fun s => decide
      (s.host.world.inUse.map (·.sha256) = some "ben" ∧ s.host.status.map (·.sha256) = some "x" ∧
        s.seen = s.host.file.map (·.stamp))) = true := by decide +kernel
  obtain ⟨s, ran, ends⟩ := (Option.any_eq_true _ _).mp facts
  have smooth : ∀ m ∈ bensMoves, ∀ o, m.oracle = some o → Smooth o := by
    intro m member o asks
    simp only [bensMoves, List.mem_cons, List.not_mem_nil, or_false] at member
    rcases member with rfl | rfl | rfl | rfl
    · cases asks
      exact fun _ _ => ⟨nofun, nofun⟩
    · cases asks
      exact fun _ _ => ⟨nofun, nofun⟩
    · cases asks
    · cases asks
      exact fun _ _ => ⟨nofun, nofun⟩
  have timely : Timely bensHost.file bensHost.clock := by
    rintro f ⟨⟩
    exact Nat.one_pos
  exact ⟨s, roster_file_watched timely (runThrough_leads_mem (fun _ m member _ => smooth m member) ran),
    of_decide_eq_true ends⟩

/-- The start without her takes Ana's files, and none of Ben's. -/
theorem people_follow_files_ben : ∃ s : Machine ℕ,
    (Machine.down bensHost).move none 3 (.start undisturbed) = some s ∧
      s.host.site.world.disk.content (.file "sunday" .presets "ana.json") = none ∧
      s.host.site.world.disk.content (.file "sunday" .presets "ben.json") = some 3 := by
  have facts : ((Machine.down bensHost).move none 3 (.start undisturbed)).any (fun s => decide
      (s.host.site.world.disk.content (.file "sunday" .presets "ana.json") = none)) = true := by decide +kernel
  obtain ⟨s, moved, gone⟩ := (Option.any_eq_true _ _).mp facts
  have settled : Came (· = "ben".toUTF8) bensHost.file bensHost.recorded bensHost.legacy :=
    ⟨by rintro f ⟨⟩; rfl, nofun, rfl⟩
  have brings : (Move.start undisturbed : Move ℕ).Brings (· = "ben".toUTF8) :=
    ⟨nofun, by rintro o ⟨⟩ t op e member; cases member⟩
  obtain ⟨spares, -⟩ := people_follow_files settled ⟨rfl, rfl⟩ (.single ⟨.start undisturbed, brings, moved⟩)
  refine ⟨s, moved, of_decide_eq_true gone, ?_⟩
  rw [spares.files]
  · rfl
  · rintro id ⟨bytes, r, rfl, taken, leaves⟩ own
    obtain rfl := own.unique (show Removal.Path.IsOf "ben" (.file "sunday" .presets "ben.json") from
      ⟨by decide +kernel, rfl⟩)
    obtain ⟨text, utf8, read⟩ := taken.read
    have own : String.fromUTF8? "ben".toUTF8 = some "ben" := by decide +kernel
    obtain rfl := Option.some.inj (own.symm.trans utf8)
    obtain same : bensBand = r.roster := Except.ok.inj read
    rw [← same] at leaves
    cases leaves.2.2

end

end IemMixer.Server.RosterWatch
