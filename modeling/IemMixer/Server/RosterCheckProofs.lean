import IemMixer.Server.RosterWatchProofs

/-! `iem-server roster check` against the start on the same files. -/
namespace IemMixer.Server.RosterWatch
open Lib Lib.Process Proto

section
variable {β ε α : Type} {h : Host β} {n : ℕ}

/-- Undisturbed, whoever the roster lacks has nothing left. -/
theorem undisturbed_followPeople (saved : h.site.world.Saved) (archived : h.site.world.Archived) (roster : Roster)
    (removed : List String) : ∃ people site c,
      followPeople (ε := ε) roster removed undisturbed ⟨h, n⟩ = .ok people ⟨h.withSite site, c⟩ ∧
        ∀ id, Removal.Leaves roster id → Removal.Nothing id site.world := by
  have calm : Removal.Calm fun t op => (undisturbed (β := β) t (.people op)).file := fun _ _ => rfl
  have run := Removal.triple_followPeople (ε := Empty) (o := fun t op => (undisturbed (β := β) t (.people op)).file)
    saved archived roster removed ⟨h.site, n⟩ rfl
  split at run
  · rename_i people site ended
    obtain ⟨_, -, gone, -⟩ := run.calm calm
    refine ⟨people, site.world, site.clock, ?_, gone⟩
    unfold followPeople inSite mapErr focus among
    simp only
    rw [ended]
  · exact absurd calm run.1

theorem undisturbed_look (get : Host β → α) : (look get : WatchM β ε α) undisturbed ⟨h, n⟩ = .ok (get h) ⟨h, n⟩ := rfl

theorem undisturbed_readIntent [Libm] : inStates (lineups Store.readIntent) undisturbed ⟨h, n⟩ =
    .ok h.world.store.intent ⟨h, n + 1⟩ := rfl

theorem undisturbed_readActive [Libm] : inStates (lineups Store.readActive) undisturbed ⟨h, n⟩ =
    .ok h.world.store.active ⟨h, n + 1⟩ := rfl

theorem undisturbed_readRoster {f : RosterFile} (there : h.file = some f) :
    readRoster undisturbed ⟨h, n⟩ = .ok (some f.bytes) ⟨h, n + 1⟩ := by
  have read : readRoster undisturbed ⟨h, n⟩ = .ok (h.file.map (·.bytes)) ⟨h, n + 1⟩ := rfl
  rw [read, there]
  rfl

theorem undisturbed_appliedRoster : appliedRoster undisturbed ⟨h, n⟩ = .ok h.recorded ⟨h, n + 1⟩ := rfl

variable [RosterText]

/-- What stands in for a file is told from it. -/
theorem triple_stands [Libm] [FileSha256] {o : Oracle WatchStep (WatchFate β)} {file : Option ByteArray}
    {last : Option String} {facts : Option TopologyFacts} {sha256 : String} {problems : List String} :
    Triple o (fun _ => True) (standIn file last facts sha256 problems)
      (fun r _ => ∀ loaded, r = some loaded → loaded.fallback = true) fun _ _ => True := by
  have refuses : Triple o (fun _ => True) (refuse file sha256 problems)
      (fun r _ => ∀ loaded, r = some loaded → loaded.fallback = true) fun _ _ => True := by
    unfold refuse
    refine triple_ite (fun _ => triple_pure fun _ _ => nofun) fun _ => ?_
    exact triple_bind triple_any fun _ => triple_fail fun _ _ => trivial
  unfold standIn
  cases last with
  | none => exact refuses
  | some text =>
    refine triple_bind triple_any fun taken => ?_
    cases taken with
    | error _ => exact refuses
    | ok pair =>
      refine triple_bind triple_any fun _ => triple_bind triple_any fun _ => triple_pure ?_
      rintro _ _ loaded ⟨⟩
      rfl

/-- The roster applied last, where it can be read. -/
def Host.base (h : Host β) : Option Roster := h.recorded.bind fun text => (RosterText.parse text).toOption

/-- A file a start takes on a site where `active` plays and `base` was applied last. -/
structure Usable (facts : TopologyFacts) (base : Option Roster) (active : String) (bytes : ByteArray)
    (roster : Roster) : Prop where
  read : ∃ text, String.fromUTF8? bytes = some text ∧ RosterText.parse text = .ok roster
  sound : roster.problems = []
  fits : roster.problemsAgainst facts = []
  keeps : base.any (removesEveryone · roster) = false
  plays : (roster.lineup active).isSome

theorem validate_usable {text : String} {facts : TopologyFacts} {roster : Roster} :
    validate text (some facts) = .ok roster ↔
      RosterText.parse text = .ok roster ∧ roster.problems = [] ∧ roster.problemsAgainst facts = [] := by
  unfold validate
  cases RosterText.parse text with
  | error e => simp
  | ok r =>
    simp only [Option.map_some, Option.getD_some, List.isEmpty_iff, List.append_eq_nil_iff]
    split
    · rename_i clean
      constructor
      · rintro ⟨⟩
        exact ⟨rfl, clean⟩
      · rintro ⟨⟨⟩, -⟩
        rfl
    · rename_i not
      constructor
      · nofun
      · rintro ⟨⟨⟩, clean⟩
        exact absurd clean not

section
variable {roster : Roster} (settled : h.legacy = false)
include settled

omit [RosterText] in
theorem undisturbed_migrateLegacy : migrateLegacy roster undisturbed ⟨h, n⟩ = .ok [] ⟨h, n + 1⟩ := by
  unfold migrateLegacy step
  simp [undisturbed, settled, Host.edits]

variable [Libm] {active : String} (sha256 : String) (playing : h.world.store.active = some active)
include playing

omit [RosterText] in
theorem undisturbed_adopt (saved : h.site.world.Saved) (archived : h.site.world.Archived)
    (plays : (roster.lineup active).isSome) : ∃ people site c,
      adopt roster sha256 true undisturbed ⟨h, n⟩ = .ok (⟨roster, sha256, active⟩, people) ⟨h.withSite site, c⟩ ∧
        ∀ id, Removal.Leaves roster id → Removal.Nothing id site.world := by
  obtain ⟨people, site, c, ran, gone⟩ := undisturbed_followPeople (n := n + 2) saved archived roster []
  have there : ¬(roster.lineup active).isNone = true := by
    simpa [Option.isSome_iff_ne_none] using plays
  refine ⟨{ people with removed := [] ++ people.removed }, site, c, ?_, gone⟩
  unfold adopt
  rw [run_bind_ok (run_mapErr_ok _ (undisturbed_migrateLegacy settled)),
    run_bind_ok (run_mapErr_ok _ undisturbed_readActive), playing]
  simp only [Option.getD_some, if_neg there, if_true]
  rw [run_bind_ok ran]
  rfl

omit [RosterText] in
theorem undisturbed_missing (absent : ¬(roster.lineup active).isSome) :
    adopt roster sha256 true undisturbed ⟨h, n⟩ = .error (.error [missingActive active]) ⟨h, n + 2⟩ := by
  have missing : (roster.lineup active).isNone = true := by simpa using absent
  unfold adopt
  rw [run_bind_ok (run_mapErr_ok _ (undisturbed_migrateLegacy settled)),
    run_bind_ok (run_mapErr_ok _ undisturbed_readActive), playing]
  simp only [Option.getD_some, if_pos missing]
  rfl

variable [FileSha256] {facts : TopologyFacts} {base : Option Roster} {bytes : ByteArray}

theorem take_usable (saved : h.site.world.Saved) (archived : h.site.world.Archived)
    (usable : Usable facts base active bytes roster) : ∃ r people site c,
      take bytes (some facts) (.file base) undisturbed ⟨h, n⟩ = .ok (r, people) ⟨h.withSite site, c⟩ ∧
        r.roster = roster ∧ ∀ id, Removal.Leaves roster id → Removal.Nothing id site.world := by
  obtain ⟨⟨text, utf8, read⟩, sound, fits, keeps, plays⟩ := usable
  obtain ⟨people, site, c, ran, gone⟩ := undisturbed_adopt (n := n) settled (sha256Hex bytes) playing saved archived
    plays
  have keeps : ¬(Start.file base).base.any (removesEveryone · roster) = true := by
    show ¬base.any (removesEveryone · roster) = true
    simp [keeps]
  refine ⟨⟨roster, sha256Hex bytes, active⟩, people, site, c, ?_, rfl, gone⟩
  unfold take
  rw [utf8]
  simp only [validate_usable.mpr ⟨read, sound, fits⟩, if_neg keeps]
  exact ran

theorem take_unusable (not : ∀ roster, ¬Usable facts base active bytes roster) : ∃ e h' c,
    take bytes (some facts) (.file base) undisturbed ⟨h, n⟩ = .error (.error e) ⟨h', c⟩ := by
  unfold take
  cases utf8 : String.fromUTF8? bytes with
  | none => exact ⟨_, _, _, rfl⟩
  | some text =>
    simp only
    cases valid : validate text (some facts) with
    | error problems => exact ⟨_, _, _, rfl⟩
    | ok roster =>
      obtain ⟨read, sound, fits⟩ := validate_usable.mp valid
      simp only
      by_cases everyone : base.any (removesEveryone · roster) = true
      · refine ⟨[everyoneRemoved], h, n, ?_⟩
        rw [if_pos (show (Start.file base).base.any (removesEveryone · roster) = true from everyone)]
        rfl
      · refine ⟨[missingActive active], h, n + 2, ?_⟩
        rw [if_neg (show ¬(Start.file base).base.any (removesEveryone · roster) = true from everyone)]
        exact undisturbed_missing settled _ playing fun plays =>
          not roster ⟨⟨text, utf8, read⟩, sound, fits, by simpa using everyone, plays⟩

variable {f : RosterFile} (there : h.file = some f)
include there

omit settled playing in
/-- A start ends as its take of the file did. -/
theorem load_took {r : RosterState} {people : People} {h' : Host β} {c : ℕ}
    (ran : take f.bytes (some facts) (.file h.base) undisturbed ⟨h, n + 2⟩ = .ok (r, people) ⟨h', c⟩) :
    ∃ cut, load (some facts) undisturbed ⟨h, n⟩ = .ok (some { roster := r, fallback := false }) cut ∧
      cut.world.site = h'.site := by
  unfold load
  rw [run_bind_ok (undisturbed_readRoster there), run_bind_ok (run_attempt_ok undisturbed_appliedRoster)]
  simp only
  show ∃ cut, (attempt (take f.bytes (some facts) (.file h.base)) >>= _) undisturbed ⟨h, n + 2⟩ = .ok _ cut ∧ _
  rw [run_bind_ok (run_attempt_ok ran)]
  exact ⟨_, rfl, rfl⟩

theorem load_usable (saved : h.site.world.Saved) (archived : h.site.world.Archived)
    (usable : Usable facts h.base active f.bytes roster) :
    ∃ r cut, load (some facts) undisturbed ⟨h, n⟩ = .ok (some { roster := r, fallback := false }) cut ∧
      r.roster = roster ∧ ∀ id, Removal.Leaves roster id → Removal.Nothing id cut.world.site.world := by
  obtain ⟨r, people, site, c, ran, is, gone⟩ := take_usable (n := n + 2) settled playing saved archived usable
  obtain ⟨cut, loaded, same⟩ := load_took there ran
  exact ⟨r, cut, loaded, is, same ▸ gone⟩

theorem load_unusable
    (not : ∀ roster, ¬Usable facts h.base active f.bytes roster)
    (r : RosterState) (cut : Clocked (Host β)) :
    load (some facts) undisturbed ⟨h, n⟩ ≠ .ok (some { roster := r, fallback := false }) cut := by
  obtain ⟨e, h', c, ran⟩ := take_unusable (n := n + 2) settled playing not
  unfold load
  rw [run_bind_ok (undisturbed_readRoster there), run_bind_ok (run_attempt_ok undisturbed_appliedRoster)]
  simp only
  show (attempt (take f.bytes (some facts) (.file h.base)) >>= _) undisturbed ⟨h, n + 2⟩ ≠ _
  rw [run_bind_ok (run_attempt_error ran)]
  intro stood
  have stands := triple_ok triple_stands trivial stood
  cases stands _ rfl

end

variable [Libm] [FileSha256]

/-- A start takes the roster file, which leaves `after`. -/
def Starts (facts : TopologyFacts) (h : Host β) (n : ℕ) (r : RosterState) (after : Host β) : Prop :=
  ∃ c, load (some facts) undisturbed ⟨h, n⟩ = .ok (some { roster := r, fallback := false }) ⟨after, c⟩

section
variable {f : RosterFile} {facts : TopologyFacts} {active : String} (settled : h.legacy = false)
  (playing : h.world.store.active = some active) (saved : h.site.world.Saved) (archived : h.site.world.Archived)
  (there : h.file = some f)
include settled playing saved archived there

theorem usable_starts {roster : Roster} (usable : Usable facts h.base active f.bytes roster) :
    ∃ r after, Starts facts h n r after ∧ r.roster = roster := by
  obtain ⟨r, cut, ran, is, -⟩ := load_usable (n := n) settled playing there saved archived usable
  exact ⟨r, cut.world, ⟨cut.clock, ran⟩, is⟩

theorem starts_usable {r : RosterState} {after : Host β} (starts : Starts facts h n r after) :
    Usable facts h.base active f.bytes r.roster ∧
      ∀ id, Removal.Leaves r.roster id → Removal.Nothing id after.site.world := by
  obtain ⟨c, started⟩ := starts
  by_cases any : ∃ roster, Usable facts h.base active f.bytes roster
  · obtain ⟨roster, usable⟩ := any
    obtain ⟨r', cut, ran, is, gone⟩ := load_usable (n := n) settled playing there saved archived usable
    rw [ran] at started
    cases started
    subst is
    exact ⟨usable, gone⟩
  · exact absurd started (load_unusable settled playing there (not_exists.mp any) r _)

end

section
variable {text : String} {roster : Roster} {bytes : ByteArray} {facts : TopologyFacts} {active : String}

/-- What the check finds wrong with a roster. -/
def foundWrong (facts : TopologyFacts) (h : Host β) (active : String) (roster : Roster) : List String :=
  roster.problems ++ roster.problemsAgainst facts ++
    (if (roster.lineup active).isNone then [missingActive active] else []) ++
    h.world.store.intent.elim [] (fun intent =>
      if (roster.lineup intent.dst).isNone then [noTarget intent.dst] else []) ++
    if h.base.any (removesEveryone · roster) then [everyoneRemoved] else []

omit [FileSha256] in
/-- What is no roster has one problem. -/
theorem checkProblems_unread
    (not : ¬∃ text roster, String.fromUTF8? bytes = some text ∧ RosterText.parse text = .ok roster) :
    ∃ e, checkProblems (ε := ε) bytes (.ok facts) undisturbed ⟨h, n⟩ = .ok ([e], none) ⟨h, n⟩ := by
  unfold checkProblems
  cases utf8 : String.fromUTF8? bytes with
  | none => exact ⟨_, rfl⟩
  | some text =>
    cases read : RosterText.parse text with
    | error e =>
      refine ⟨e, ?_⟩
      simp only [read]
      rfl
    | ok roster => exact absurd ⟨text, roster, utf8, read⟩ not

omit [FileSha256] in
theorem checkProblems_read (playing : h.world.store.active = some active)
    (utf8 : String.fromUTF8? bytes = some text) (read : RosterText.parse text = .ok roster) :
    checkProblems (ε := ε) bytes (.ok facts) undisturbed ⟨h, n⟩ =
      .ok (foundWrong facts h active roster, h.base.map fun base => (peopleDiff base roster).2) ⟨h, n + 3⟩ := by
  unfold checkProblems
  rw [utf8]
  simp only [read]
  rw [run_bind_ok (undisturbed_look _), run_bind_ok (run_attempt_ok undisturbed_readActive),
    run_bind_ok (run_attempt_ok undisturbed_readIntent), run_bind_ok (run_attempt_ok undisturbed_appliedRoster),
    playing]
  unfold foundWrong
  cases h.world.store.intent with
  | none => rfl
  | some intent => rfl

theorem checkCli_ok {site : Except String TopologyFacts} {problems : List String} {removes : Option (List String)}
    {cut : Clocked (Host β)}
    (ran : checkProblems (ε := ε) bytes site undisturbed ⟨h, n⟩ = .ok (problems, removes) cut) :
    checkCli (ε := ε) (.ok bytes) site undisturbed ⟨h, n⟩ =
      .ok { ok := problems.isEmpty, problems, sha256 := sha256Hex bytes, removes } cut := by
  unfold checkCli
  simp only
  rw [run_bind_ok ran]
  rfl

omit [Libm] [FileSha256] in
theorem foundWrong_nil (utf8 : String.fromUTF8? bytes = some text) (read : RosterText.parse text = .ok roster) :
    foundWrong facts h active roster = [] ↔ Usable facts h.base active bytes roster ∧
      ∀ intent, h.world.store.intent = some intent → (roster.lineup intent.dst).isSome := by
  have target : h.world.store.intent.elim [] (fun intent =>
      if (roster.lineup intent.dst).isNone then [noTarget intent.dst] else []) = [] ↔
        ∀ intent, h.world.store.intent = some intent → (roster.lineup intent.dst).isSome := by
    cases h.world.store.intent with
    | none => simp
    | some intent => simp [Option.isSome_iff_ne_none]
  unfold foundWrong
  simp only [List.append_eq_nil_iff, target]
  constructor
  · rintro ⟨⟨⟨⟨sound, fits⟩, plays⟩, goes⟩, keeps⟩
    have plays : (roster.lineup active).isSome := by simpa [Option.isSome_iff_ne_none] using plays
    exact ⟨⟨⟨text, utf8, read⟩, sound, fits, by simpa using keeps, plays⟩, goes⟩
  · rintro ⟨usable, goes⟩
    have plays : ¬(roster.lineup active).isNone = true := by simpa [Option.isSome_iff_ne_none] using usable.plays
    exact ⟨⟨⟨⟨usable.sound, usable.fits⟩, if_neg plays⟩, goes⟩, by simp [usable.keeps]⟩

end

/-- On a migrated site, with the same files and topology and nothing failing: `roster check` says ok
exactly when a start takes the file and it has the lineup a switch that was cut short goes to; whom it
says are removed has nothing left after that start; and the check changes nothing. -/
theorem roster_check_agrees (facts : TopologyFacts) {f : RosterFile} {active : String} (settled : h.legacy = false)
    (playing : h.world.store.active = some active) (saved : h.site.world.Saved) (archived : h.site.world.Archived)
    (there : h.file = some f) : ∃ report cut,
      checkCli (ε := ε) (.ok f.bytes) (.ok facts) undisturbed ⟨h, n⟩ = .ok report cut ∧ cut.world = h ∧
        (report.ok = true ↔ ∃ r after, Starts facts h n r after ∧
          ∀ intent, h.world.store.intent = some intent → (r.roster.lineup intent.dst).isSome) ∧
        ∀ ids, report.removes = some ids → ∀ r after, Starts facts h n r after →
          ∀ id ∈ ids, validPersonId id = true → id ≠ engineerId → Removal.Nothing id after.site.world := by
  have starts : ∀ {r after}, Starts facts h n r after → _ := starts_usable settled playing saved archived there
  by_cases any : ∃ text roster, String.fromUTF8? f.bytes = some text ∧ RosterText.parse text = .ok roster
  · obtain ⟨text, roster, utf8, read⟩ := any
    have own : ∀ {r after}, Starts facts h n r after → r.roster = roster := fun started => by
      obtain ⟨text', is, parsed⟩ := (starts started).1.read
      obtain rfl := Option.some.inj (utf8.symm.trans is)
      exact Except.ok.inj (parsed.symm.trans read)
    refine ⟨_, _, checkCli_ok (checkProblems_read playing utf8 read), rfl, ?_, ?_⟩
    · rw [List.isEmpty_iff, foundWrong_nil utf8 read]
      constructor
      · rintro ⟨usable, goes⟩
        obtain ⟨r, after, started, is⟩ := usable_starts (n := n) settled playing saved archived there usable
        exact ⟨r, after, started, is ▸ goes⟩
      · rintro ⟨r, after, started, goes⟩
        have is := own started
        exact ⟨is ▸ (starts started).1, is ▸ goes⟩
    · intro ids named r after started id member valid human
      obtain ⟨base, -, rfl⟩ := Option.map_eq_some_iff.mp named
      obtain ⟨p, missing, rfl⟩ := List.mem_map.mp member
      refine (starts started).2 p.id ⟨valid, human, ?_⟩
      rw [own started]
      simpa using (List.mem_filter.mp missing).2
  · obtain ⟨e, checked⟩ := checkProblems_unread (ε := ε) any
    refine ⟨_, _, checkCli_ok checked, rfl, ⟨nofun, ?_⟩, nofun⟩
    rintro ⟨r, after, started, -⟩
    obtain ⟨text, utf8, read⟩ := (starts started).1.read
    exact absurd ⟨text, r.roster, utf8, read⟩ any

end

def duoBand : Roster := { bensBand with people := { id := "ana", name := "Ana" } :: bensBand.people }

abbrev duoText : RosterText where
  parse text := if text = "ben" then .ok bensBand else if text = "duo" then .ok duoBand else .error "not a roster"

def duoFacts : TopologyFacts where
  mixes := [{ id := "ben", stereo := true, hears := [] }]

section
attribute [local instance] Core.duetLibm mutedDigest duoText textDigest

/-- The roster applied last has Ana, the file has not. -/
def duoHost : Host ℕ :=
  { bensHost.withWorld { bensHost.world with store := { active := some "solo" } } with recorded := some "duo" }

/-- The check names Ana, and the start that it foretells takes her data. -/
theorem roster_check_agrees_ana : ∃ (r : RosterState) (after : Host ℕ),
    Starts duoFacts duoHost 0 r after ∧ Removal.Nothing "ana" after.site.world := by
  obtain ⟨report, cut, checked, -, agrees, gone⟩ := roster_check_agrees (ε := Empty) (h := duoHost) (n := 0) duoFacts
    (f := ⟨"ben".toUTF8, 0⟩) rfl rfl ⟨rfl, rfl⟩ (.inl rfl) rfl
  have reports : returnsWith (fun report _ => report.ok && decide (report.removes = some ["ana"]))
      (checkCli (ε := Empty) (.ok "ben".toUTF8) (.ok duoFacts) undisturbed ⟨duoHost, 0⟩) = true := by decide +kernel
  rw [checked] at reports
  obtain ⟨fine, named⟩ := Bool.and_eq_true_iff.mp reports
  obtain ⟨r, after, started, -⟩ := agrees.mp fine
  exact ⟨r, after, started,
    gone _ (of_decide_eq_true named) r after started "ana" (.head _) (by decide +kernel) (by decide)⟩

end

end IemMixer.Server.RosterWatch
