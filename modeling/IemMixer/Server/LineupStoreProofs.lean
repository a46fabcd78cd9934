import IemMixer.Server.LineupStore

/-! The files of `lineups/` are the store the switch and the transition work on: a write that
returns is a step of that store, a write that does not is none, and a read returns what is stored. -/
namespace IemMixer.Server
open Lib Lib.Files Proto

namespace LineupFile

/-- The last letter of a file's name. -/
def last : LineupFile → Char
  | .applied | .kept _ => 'l'
  | _ => 'n'

/-- Whether it is in a folder of its own. -/
def deep : LineupFile → Bool
  | .state _ | .kept _ => true
  | _ => false

theorem path_last (f : LineupFile) : f.path.toList.getLast? = some f.last := by
  cases f with
  | state id => simp [path, parts, last, String.toList_append]
  | kept sha256 =>
    simp only [path, parts, String.toList_append, List.getLast?_append]
    rfl
  | _ => decide

theorem path_deep (f : LineupFile) : '/' ∈ f.path.toList ↔ f.deep = true := by
  cases f with
  | state id => simp [path, parts, deep, String.toList_append]
  | kept sha256 => simp [path, parts, deep, String.toList_append]
  | _ => decide

theorem path_inj {f g : LineupFile} (same : f.path = g.path) : f = g := by
  have last : f.last = g.last := by
    have last := f.path_last
    rw [same, g.path_last] at last
    exact (Option.some.inj last).symm
  have deep : f.deep = g.deep := by
    have deep := f.path_deep
    rw [same, g.path_deep] at deep
    exact (Bool.eq_iff_iff.mpr deep).symm
  have cancel : ∀ {a b : String} (c : String), a ++ c = b ++ c → a = b := by
    intro a b c equal
    have lists := congrArg String.toList equal
    rw [String.toList_append, String.toList_append] at lists
    exact String.toList_injective (List.append_cancel_right lists)
  cases f <;> cases g
  case state.state id id' => rw [cancel "/state" (cancel ".json" same)]
  case kept.kept sha sha' =>
    have stems : "rosters.kept/" ++ sha = "rosters.kept/" ++ sha' := cancel ".toml" same
    have lists := congrArg String.toList stems
    rw [String.toList_append, String.toList_append] at lists
    rw [String.toList_injective (List.append_cancel_left lists)]
  all_goals first
    | rfl
    | (cases deep; done)
    | (simp [LineupFile.last] at last; done)
    | exact absurd same (by decide)

theorem tmp_ne (f g : LineupFile) : f.tmp ≠ g.path := by
  intro same
  have last := g.path_last
  have tmp : f.tmp.toList.getLast? = some 'p' := by
    simp only [tmp, String.toList_append, List.getLast?_append]
    rfl
  rw [← same, tmp] at last
  cases g <;> cases last

end LineupFile

section
variable {β : Type} {o : Oracle β} {P : Assertion β Unit}

theorem triple_checkId (name : String) :
    Triple o P (LineupStore.checkId name : LineupM β Unit) (fun _ d s => validLineupId name = true ∧ P d s) fun _ => P := by
  unfold LineupStore.checkId
  split
  · next valid => exact triple_pure fun _ _ pre => ⟨valid, pre⟩
  · exact triple_fail fun _ _ => id

theorem triple_other {α : Type} (x : Except String α) :
    Triple o P (LineupStore.other x : LineupM β α) (fun a d s => x = .ok a ∧ P d s) fun _ => P := by
  cases x with
  | ok a => exact triple_pure fun _ _ pre => ⟨rfl, pre⟩
  | error e => exact triple_fail fun _ _ => id

theorem triple_parsed {α : Type} (store : LineupStore) (f : LineupFile) (x : Except String α) :
    Triple o P (store.parsed f x : LineupM β α) (fun a d s => x = .ok a ∧ P d s) fun _ => P := by
  cases x with
  | ok a => exact triple_pure fun _ _ pre => ⟨rfl, pre⟩
  | error e => exact triple_fail fun _ _ => id

theorem triple_named {α : Type} {Q : α → Assertion β Unit} {m : LineupM β α} (store : LineupStore) (f : LineupFile)
    (h : Triple o P m Q fun _ => P) : Triple o P (store.named f m) Q fun _ => P :=
  triple_mapErr _ h fun _ _ _ => id

end

section
variable {β : Type} [TextFile β]

/-- What is in each file. -/
def Contents (f : LineupFile → Option β) (d : Dir β) : Prop := ∀ x : LineupFile, d[x.path]? = f x

section
variable {o : Oracle β} {f : LineupFile → Option β}

theorem triple_writeDurable (q : LineupFile) (data : String) :
    Triple o (fun d _ => Contents f d) (LineupStore.writeDurable q data)
      (fun _ d _ => Contents (Function.update f q (some (TextFile.bytes data))) d) (fun _ d _ => Contents f d) := by
  have temporary : ∀ (d : Dir β) (b : β), Contents f d → Contents f (d.insert q.tmp b) := by
    intro d b held x
    rw [BTreeMap.getElem?_insert_eq, if_neg (q.tmp_ne x)]
    exact held x
  unfold LineupStore.writeDurable
  refine triple_bind (Q := fun _ d _ => Contents f d ∧ d[q.tmp]? = some (TextFile.bytes data)) ?_ fun _ => ?_
  · refine triple_write (fun d _ held => ⟨temporary d _ held, ?_⟩) (fun _ _ _ => id) fun _ d _ b held => temporary d b held
    rw [BTreeMap.getElem?_insert_eq, if_pos rfl]
  refine triple_bind (Q := fun _ d _ => Contents f d ∧ d[q.tmp]? = some (TextFile.bytes data))
    (triple_syncFile (fun _ _ _ held _ => held) fun _ _ _ held => held.1) fun _ => ?_
  refine triple_rename (fun d _ b held found => ?_) fun _ _ _ held => held.1
  have written : b = TextFile.bytes data := Option.some.inj (found.symm.trans held.2)
  intro x
  rw [getElem?_move, if_neg (q.tmp_ne x), written]
  by_cases same : q = x
  · subst same
    simp
  · have apart : q.path ≠ x.path := fun equal => same (LineupFile.path_inj equal)
    rw [if_neg apart, Function.update_of_ne (Ne.symm same)]
    exact held.1 x

/-- An id is checked, a value encoded, and its file written. -/
theorem triple_encoded {τ : Type} [Serde τ] (q : LineupFile) (a : τ) :
    Triple o (fun d _ => Contents f d) (do LineupStore.writeDurable q (← LineupStore.other (Serde.toText a)))
      (fun _ d _ => ∃ t : String, Serde.toText a = .ok t ∧ Contents (Function.update f q (some (TextFile.bytes t))) d)
      (fun _ d _ => Contents f d) := by
  refine triple_bind (triple_other (Serde.toText a)) fun t => triple_fact fun encoded => ?_
  exact triple_conseq (triple_writeDurable q t) (fun _ _ => id) (fun _ _ _ held => ⟨t, encoded, held⟩) fun _ _ _ => id

end

end

section
variable {β : Type} [TextFile β] [Serde ActiveFile] [Serde SwitchIntent] [Serde Running] [Serde BackupHead] [Serde MixerBackup] [RosterText]

/-- A file's bytes read as `a`. -/
def Decodes {τ : Type} (read : String → Except String τ) (b : β) (a : τ) : Prop :=
  ∃ t, TextFile.text b = .ok t ∧ read t = .ok a

/-- `a` reads back as it was written. -/
def Serde.Back {τ : Type} [Serde τ] (read : String → Except String τ) (a : τ) : Prop :=
  ∀ t : String, Serde.toText a = .ok t → read t = .ok a

/-- The files hold `s`. -/
structure Shows (f : LineupFile → Option β) (s : LineupFiles) : Prop where
  active : Option.Rel (fun b id => ∃ file : ActiveFile, Decodes Serde.ofText b file ∧ file.format = activeFormat ∧ file.lineup = id ∧
    validLineupId id = true) (f .active) s.store.active
  intent : Option.Rel (fun b (i : SwitchIntent) => Decodes Serde.ofText b i ∧ validLineupId i.src = true ∧ validLineupId i.dst = true)
    (f .switch) s.store.intent
  running : Option.Rel (fun b (r : Running) => Decodes Serde.ofText b r ∧ validLineupId r.lineup = true) (f .running) s.store.running
  states : ∀ id, validLineupId id = true → Option.Rel (Decodes MixerBackup.parse) (f (.state id)) s.store.states[id]?
  rosters : ∀ sha256, LineupStore.isSha256 sha256 = true →
    Option.Rel (fun b r => ∃ t, TextFile.text b = .ok t ∧ RosterText.parse t = .ok r) (f (.kept sha256)) s.store.rosters[sha256]?
  applied : Option.Rel (fun b t => TextFile.text b = .ok t) (f .applied) s.applied

/-- What a call writes reads back; a roster that is kept parses. -/
def LineupCall.Back : LineupCall → Prop
  | setActive id since => Serde.Back Serde.ofText { format := activeFormat, lineup := id, since : ActiveFile }
  | setIntent i => Serde.Back Serde.ofText i
  | setRunning r => Serde.Back Serde.ofText r
  | saveState _ b => Serde.Back MixerBackup.parse b
  | keepRoster _ text => ∃ r, RosterText.parse text = .ok r
  | clearIntent | setAppliedRoster _ => True

variable {o : Oracle β} {f : LineupFile → Option β} {s : LineupFiles}

/-- The files hold `s`, written as they are. -/
def Stores (s : LineupFiles) (d : Dir β) : Prop := ∃ f, Contents f d ∧ Shows f s

variable [LawfulText β]

omit [Serde ActiveFile] [Serde SwitchIntent] [Serde Running] [Serde BackupHead] [Serde MixerBackup] [RosterText] in
theorem decodes_back {τ : Type} [Serde τ] {read : String → Except String τ} {a : τ} (back : Serde.Back read a)
    {t : String} (encoded : Serde.toText a = .ok t) : Decodes read (TextFile.bytes t : β) a :=
  ⟨t, LawfulText.text t, back t encoded⟩

theorem call_refines (call : LineupCall) (back : call.Back) (shows : Shows f s) :
    Triple o (fun d _ => Contents f d) call.run (fun _ d _ => Stores (call.does s) d) (fun _ d _ => Contents f d) := by
  cases call with
  | setActive l since =>
    refine triple_bind (triple_checkId l) fun _ => triple_fact fun valid => ?_
    refine triple_conseq (triple_encoded .active _) (fun _ _ => id) ?_ fun _ _ _ => id
    rintro _ d _ ⟨t, encoded, held⟩
    exact ⟨_, held, { shows with active := .some ⟨_, decodes_back back encoded, rfl, rfl, valid⟩ }⟩
  | setIntent i =>
    refine triple_bind (triple_checkId i.src) fun _ => triple_fact fun src => ?_
    refine triple_bind (triple_checkId i.dst) fun _ => triple_fact fun dst => ?_
    refine triple_conseq (triple_encoded .switch i) (fun _ _ => id) ?_ fun _ _ _ => id
    rintro _ d _ ⟨t, encoded, held⟩
    exact ⟨_, held, { shows with intent := .some ⟨decodes_back back encoded, src, dst⟩ }⟩
  | setRunning r =>
    refine triple_bind (triple_checkId r.lineup) fun _ => triple_fact fun valid => ?_
    refine triple_conseq (triple_encoded .running r) (fun _ _ => id) ?_ fun _ _ _ => id
    rintro _ d _ ⟨t, encoded, held⟩
    exact ⟨_, held, { shows with running := .some ⟨decodes_back back encoded, valid⟩ }⟩
  | saveState l b =>
    refine triple_bind (triple_checkId l) fun _ => triple_fact fun valid => ?_
    refine triple_conseq (triple_encoded (.state l) b) (fun _ _ => id) ?_ fun _ _ _ => id
    rintro _ d _ ⟨t, encoded, held⟩
    refine ⟨_, held, { shows with states := fun id valid => ?_ }⟩
    simp only [LineupCall.does, BTreeMap.getElem?_insert_eq]
    by_cases same : l = id
    · subst same
      rw [if_pos rfl, Function.update_self]
      exact .some (decodes_back back encoded)
    · rw [if_neg same, Function.update_of_ne (fun equal => same (LineupFile.state.inj equal).symm)]
      exact shows.states id valid
  | setAppliedRoster text =>
    refine triple_conseq (triple_writeDurable .applied text) (fun _ _ => id) ?_ fun _ _ _ => id
    exact fun _ d _ held => ⟨_, held, { shows with applied := .some (LawfulText.text text) }⟩
  | keepRoster sha256 text =>
    obtain ⟨r, parses⟩ := back
    unfold LineupCall.run LineupStore.keepRoster
    refine triple_ite (fun _ => ?_) fun named => ?_
    · exact triple_bind (Q := fun _ _ _ => False) (triple_fail fun _ _ => id) fun _ _ => False.elim
    have valid : LineupStore.isSha256 sha256 = true := by simpa using named
    refine triple_bind (Q := fun there d _ => there = (f (.kept sha256)).isSome ∧ Contents f d)
      (triple_isThere (fun d _ held => ⟨?_, held⟩) fun _ _ _ => id) fun there => triple_fact fun kept => ?_
    · rw [Std.ExtTreeMap.contains_eq_isSome_getElem?, held (.kept sha256)]
    have known := shows.rosters sha256 valid
    have does : ∀ already, s.store.rosters.contains sha256 = already → (LineupCall.keepRoster sha256 text).does s =
        if already then s else { s with store := { s.store with rosters := s.store.rosters.insert sha256 r } } := by
      rintro _ rfl
      simp only [LineupCall.does, parses]
    rw [Std.ExtTreeMap.contains_eq_isSome_getElem?] at does
    cases before : f (.kept sha256) with
    | some b =>
      rw [before] at kept known
      generalize s.store.rosters[sha256]? = known' at known does
      cases known
      subst kept
      rw [does true rfl]
      exact triple_pure fun d _ held => ⟨f, held, shows⟩
    | none =>
      rw [before] at kept known
      generalize s.store.rosters[sha256]? = known' at known does
      cases known
      subst kept
      rw [does false rfl]
      refine triple_conseq (triple_writeDurable (.kept sha256) text) (fun _ _ => id) ?_ fun _ _ _ => id
      refine fun _ d _ held => ⟨_, held, { shows with rosters := fun sha valid => ?_ }⟩
      simp only [Bool.false_eq_true, if_false, BTreeMap.getElem?_insert_eq]
      by_cases same : sha256 = sha
      · subst same
        rw [if_pos rfl, Function.update_self]
        exact .some ⟨text, LawfulText.text text, parses⟩
      · rw [if_neg same, Function.update_of_ne (fun equal => same (LineupFile.kept.inj equal).symm)]
        exact shows.rosters sha valid
  | clearIntent =>
    have gone : ∀ d : Dir β, Contents f d → Contents (Function.update f .switch none) (d.erase LineupFile.switch.path) := by
      intro d held x
      rw [BTreeMap.getElem?_erase_eq]
      by_cases same : LineupFile.switch = x
      · subst same
        simp
      · rw [if_neg fun equal => same (LineupFile.path_inj equal), Function.update_of_ne (Ne.symm same)]
        exact held x
    have removed : Triple o (fun d _ => Contents f d) (Files.remove LineupFile.switch.path : LineupM β Unit)
        (fun _ d _ => Contents (Function.update f .switch none) d)
        fun e d _ => Contents f d ∧ ∀ k, e = .io k → k.kind = .notFound → f .switch = none := by
      refine triple_perform ?_ ?_ ?_
      · intro d _ _ d' held made
        split at made
        · cases made
          exact gone d held
        · cases made
      · intro d _ e held made
        split at made
        · cases made
        · next absent =>
          refine ⟨held, fun _ _ _ => ?_⟩
          rw [← held .switch]
          rw [Std.ExtTreeMap.contains_eq_isSome_getElem?] at absent
          simpa using absent
      · exact fun e d _ torn held failed => ⟨held, fun k same found => absurd found (failed k same)⟩
    refine triple_bind (triple_conseq (triple_attempt removed) (fun _ _ => id) (fun _ _ _ => id) fun _ _ _ held => held.1)
      fun result => ?_
    cases result with
    | ok _ => exact triple_pure fun d _ held => ⟨_, held, { shows with intent := .none }⟩
    | error e =>
      refine triple_ite (fun _ => triple_fail fun d _ held => held.1) fun found => triple_pure fun d _ held => ⟨f, held.1, ?_⟩
      have none : f .switch = none := held.2 e rfl (by simpa using found)
      exact { shows with intent := by rw [none]; exact .none }

omit [Serde ActiveFile] [Serde SwitchIntent] [Serde Running] [Serde BackupHead] [Serde MixerBackup] [RosterText] [LawfulText β] in
theorem triple_readOptional (store : LineupStore) (x : LineupFile) :
    Triple o (fun d _ => Contents f d) (store.readOptional x)
      (fun r d _ => Option.Rel (fun b t => TextFile.text b = .ok t) (f x) r ∧ Contents f d) (fun _ d _ => Contents f d) := by
  unfold LineupStore.readOptional
  have read : Triple o (fun d _ => Contents f d) (Files.read x.path : LineupM β β) (fun b d _ => f x = some b ∧ Contents f d)
      fun e d _ => Contents f d ∧ ∀ k, e = .io k → k.kind = .notFound → f x = none :=
    triple_read (fun d _ b held found => ⟨(held x).symm.trans found, held⟩)
      (fun d _ held absent => ⟨held, fun _ _ _ => (held x).symm.trans absent⟩)
      fun e d _ held failed => ⟨held, fun k same found => absurd found (failed k same)⟩
  refine triple_bind (triple_conseq (triple_attempt read) (fun _ _ => id) (fun _ _ _ => id) fun _ _ _ held => held.1)
    fun result => ?_
  cases result with
  | ok b =>
    refine triple_fact fun found => ?_
    refine triple_bind (triple_parsed store x (TextFile.text b)) fun t => triple_fact fun decoded => ?_
    exact triple_pure fun d _ held => ⟨by rw [found]; exact .some decoded, held⟩
  | error e =>
    refine triple_ite (fun absent => triple_pure fun d _ held => ?_) fun _ => ?_
    · rw [held.2 e rfl absent]
      exact ⟨.none, held.1⟩
    · exact triple_conseq (triple_named store x (triple_fail fun _ _ => id)) (fun _ _ held => held.1) (fun _ _ _ => id)
        fun _ _ _ => id

omit [Serde ActiveFile] [Serde SwitchIntent] [Serde Running] [Serde BackupHead] [Serde MixerBackup] [RosterText] [LawfulText β] in
/-- What was read of a file, by what it stands for. -/
theorem read_cases {α : Type} {R : β → α → Prop} {file : Option β} {known : Option α} {r : Option String}
    (holds : Option.Rel R file known) (read : Option.Rel (fun b t => TextFile.text b = .ok t) file r) :
    (r = none ∧ known = none) ∨ ∃ b a t, r = some t ∧ known = some a ∧ R b a ∧ TextFile.text b = .ok t := by
  cases holds with
  | none =>
    cases read
    exact .inl ⟨rfl, rfl⟩
  | some decodes =>
    cases read with
    | some text => exact .inr ⟨_, _, _, rfl, rfl, decodes, text⟩

omit [Serde ActiveFile] [Serde SwitchIntent] [Serde Running] [Serde BackupHead] [Serde MixerBackup] [RosterText] [LawfulText β] in
theorem Decodes.parsed {τ : Type} {read : String → Except String τ} {b : β} {a : τ} (decodes : Decodes read b a)
    {t : String} (text : TextFile.text b = .ok t) : read t = .ok a := by
  obtain ⟨t', text', decoded⟩ := decodes
  cases text.symm.trans text'
  exact decoded

/-- A read of `m` returns `a`, and the files stay. -/
def ReadsAs {α : Type} (o : Oracle β) (f : LineupFile → Option β) (m : LineupM β α) (a : α) : Prop :=
  Triple o (fun d _ => Contents f d) m (fun r d _ => r = a ∧ Contents f d) fun _ d _ => Contents f d

section
variable (store : LineupStore)

omit [TextFile β] [Serde ActiveFile] [Serde SwitchIntent] [Serde Running] [Serde BackupHead] [Serde MixerBackup] [RosterText]
  [LawfulText β] in
theorem keeps_named {l : String} (x : LineupFile) :
    Triple o (fun d _ => Contents f d) (store.named x (LineupStore.checkId l)) (fun _ d _ => Contents f d)
      (fun _ d _ => Contents f d) :=
  triple_conseq (triple_named store x (triple_checkId l)) (fun _ _ => id) (fun _ _ _ held => held.2) fun _ _ _ => id

omit [LawfulText β] in
theorem active_reads (shows : Shows f s) : ReadsAs o f store.active s.store.active := by
  refine triple_bind (triple_readOptional store .active) fun r => triple_fact fun read => ?_
  rcases read_cases shows.active read with ⟨rfl, known⟩ | ⟨b, a, t, rfl, known, ⟨file, decodes, format, rfl, -⟩, text⟩
  · exact triple_pure fun _ _ held => ⟨known.symm, held⟩
  refine triple_bind (triple_parsed store .active _) fun file' => triple_fact fun decoded => ?_
  cases (decodes.parsed text).symm.trans decoded
  refine triple_ite (fun other => absurd format other) fun _ => ?_
  exact triple_bind (keeps_named store .active) fun _ => triple_pure fun _ _ held => ⟨known.symm, held⟩

omit [LawfulText β] in
theorem intent_reads (shows : Shows f s) : ReadsAs o f store.intent s.store.intent := by
  refine triple_bind (triple_readOptional store .switch) fun r => triple_fact fun read => ?_
  rcases read_cases shows.intent read with ⟨rfl, known⟩ | ⟨b, a, t, rfl, known, ⟨decodes, -⟩, text⟩
  · exact triple_pure fun _ _ held => ⟨known.symm, held⟩
  refine triple_bind (triple_parsed store .switch _) fun a' => triple_fact fun decoded => ?_
  cases (decodes.parsed text).symm.trans decoded
  refine triple_bind (keeps_named store .switch) fun _ => triple_bind (keeps_named store .switch) fun _ => ?_
  exact triple_pure fun _ _ held => ⟨known.symm, held⟩

omit [LawfulText β] in
theorem running_reads (shows : Shows f s) : ReadsAs o f store.running s.store.running := by
  refine triple_bind (triple_readOptional store .running) fun r => triple_fact fun read => ?_
  rcases read_cases shows.running read with ⟨rfl, known⟩ | ⟨b, a, t, rfl, known, ⟨decodes, -⟩, text⟩
  · exact triple_pure fun _ _ held => ⟨known.symm, held⟩
  refine triple_bind (triple_parsed store .running _) fun a' => triple_fact fun decoded => ?_
  cases (decodes.parsed text).symm.trans decoded
  exact triple_bind (keeps_named store .running) fun _ => triple_pure fun _ _ held => ⟨known.symm, held⟩

omit [LawfulText β] in
theorem state_reads (shows : Shows f s) (l : String) (valid : validLineupId l = true) :
    ReadsAs o f (store.state l) s.store.states[l]? := by
  refine triple_bind (Q := fun _ d _ => Contents f d) (triple_conseq (triple_checkId l) (fun _ _ => id)
    (fun _ _ _ held => held.2) fun _ _ _ => id) fun _ => ?_
  refine triple_bind (triple_readOptional store (.state l)) fun r => triple_fact fun read => ?_
  rcases read_cases (shows.states l valid) read with ⟨rfl, known⟩ | ⟨b, a, t, rfl, known, decodes, text⟩
  · exact triple_pure fun _ _ held => ⟨known.symm, held⟩
  refine triple_bind (triple_parsed store (.state l) _) fun a' => triple_fact fun decoded => ?_
  cases (decodes.parsed text).symm.trans decoded
  exact triple_pure fun _ _ held => ⟨known.symm, held⟩

omit [LawfulText β] in
theorem appliedRoster_reads (shows : Shows f s) : ReadsAs o f store.appliedRoster s.applied := by
  refine triple_conseq (triple_readOptional store .applied) (fun _ _ => id) ?_ fun _ _ _ => id
  rintro r d _ ⟨read, held⟩
  rcases read_cases shows.applied read with ⟨rfl, known⟩ | ⟨b, a, t, rfl, known, holds, text⟩
  · exact ⟨known.symm, held⟩
  · cases holds.symm.trans text
    exact ⟨known.symm, held⟩

omit [LawfulText β] in
/-- A kept roster's text is one that parses to the roster. -/
theorem keptRoster_reads (shows : Shows f s) (sha256 : String) (valid : LineupStore.isSha256 sha256 = true) :
    Triple o (fun d _ => Contents f d) (store.keptRoster sha256)
      (fun r d _ => r.bind (fun t => (RosterText.parse t).toOption) = s.store.rosters[sha256]? ∧ Contents f d)
      fun _ d _ => Contents f d := by
  unfold LineupStore.keptRoster
  rw [if_pos valid]
  refine triple_conseq (triple_readOptional store (.kept sha256)) (fun _ _ => id) ?_ fun _ _ _ => id
  rintro r d _ ⟨read, held⟩
  rcases read_cases (shows.rosters sha256 valid) read with ⟨rfl, known⟩ | ⟨b, a, t, rfl, known, ⟨t', text', parses⟩, text⟩
  · exact ⟨known.symm, held⟩
  · cases text'.symm.trans text
    refine ⟨?_, held⟩
    rw [known, Option.bind_some, parses]
    rfl

end

/-- Calls one after another, each under an oracle of its own; a call that a crash stops is followed
by the next start's. What the files hold then, and the calls that returned. -/
def runCalls : List (Oracle β × LineupCall) → Dir β → Dir β × List LineupCall
  | [], d => (d, [])
  | (o, call) :: rest, d => match call.run o ⟨d, (), 0⟩ with
    | .ok () w => ((runCalls rest w.dir).1, call :: (runCalls rest w.dir).2)
    | .error _ w => runCalls rest w.dir

theorem runCalls_stores (calls : List (Oracle β × LineupCall)) (back : ∀ c ∈ calls, c.2.Back) {d : Dir β}
    (stores : Stores s d) :
    Stores ((runCalls calls d).2.foldl (fun s call => call.does s) s) (runCalls calls d).1 := by
  induction calls generalizing d s with
  | nil => exact stores
  | cons c rest ih =>
    obtain ⟨o, call⟩ := c
    obtain ⟨f, held, shows⟩ := stores
    have one := call_refines (o := o) call (back (o, call) List.mem_cons_self) shows
    have later : ∀ c ∈ rest, c.2.Back := fun c member => back c (List.mem_cons_of_mem _ member)
    unfold runCalls
    cases ran : call.run o ⟨d, (), 0⟩ with
    | ok u w => exact ih later (triple_ok one held ran)
    | error e w => exact ih later ⟨f, triple_error one held ran, shows⟩

/-- Whatever fails or crashes: the files hold what the calls that returned made of the store, and
what a later read returns is that. -/
theorem lineup_files_refine (calls : List (Oracle β × LineupCall)) (back : ∀ c ∈ calls, c.2.Back) (d : Dir β)
    (s : LineupFiles) (stores : Stores s d) :
    let after := runCalls calls d
    let now := after.2.foldl (fun s call => call.does s) s
    Stores now after.1 ∧ ∀ (store : LineupStore) (o : Oracle β) (clock : ℕ) (w : Files.World β Unit),
      (∀ r, store.active o ⟨after.1, (), clock⟩ = .ok r w → r = now.store.active) ∧
      (∀ r, store.intent o ⟨after.1, (), clock⟩ = .ok r w → r = now.store.intent) ∧
      (∀ r, store.running o ⟨after.1, (), clock⟩ = .ok r w → r = now.store.running) ∧
      (∀ id r, validLineupId id = true → store.state id o ⟨after.1, (), clock⟩ = .ok r w → r = now.store.states[id]?) ∧
      (∀ sha256 r, LineupStore.isSha256 sha256 = true → store.keptRoster sha256 o ⟨after.1, (), clock⟩ = .ok r w →
        r.bind (fun t => (RosterText.parse t).toOption) = now.store.rosters[sha256]?) ∧
      ∀ r, store.appliedRoster o ⟨after.1, (), clock⟩ = .ok r w → r = now.applied := by
  have ends := runCalls_stores calls back stores
  obtain ⟨f, held, shows⟩ := ends
  refine ⟨⟨f, held, shows⟩, fun store o clock w => ⟨?_, ?_, ?_, ?_, ?_, ?_⟩⟩
  · exact fun r ran => (triple_ok (active_reads store shows) held ran).1
  · exact fun r ran => (triple_ok (intent_reads store shows) held ran).1
  · exact fun r ran => (triple_ok (running_reads store shows) held ran).1
  · exact fun id r valid ran => (triple_ok (state_reads store shows id valid) held ran).1
  · exact fun sha256 r valid ran => (triple_ok (keptRoster_reads store shows sha256 valid) held ran).1
  · exact fun r ran => (triple_ok (appliedRoster_reads store shows) held ran).1

end

section

/-- A text's own bytes. -/
abbrev plainText : TextFile String where
  bytes t := t
  text t := .ok t

def choirActive : String :=
  "\x7b\"format\":\"iemmixer-active-lineup\",\"lineup\":\"choir\",\"since\":7\x7d"

/-- `serde_json` on the active lineup's file. -/
abbrev activeSerde : Serde ActiveFile where
  toText a := .ok ("\x7b\"format\":\"" ++ a.format ++ "\",\"lineup\":\"" ++ a.lineup ++ "\",\"since\":" ++
    toString a.since ++ "\x7d")
  ofText t := if t = choirActive then .ok ⟨activeFormat, "choir", 7⟩ else .error "expected value at line 1 column 1"

/-- The same on a file that these runs do not read back. -/
abbrev intentSerde : Serde SwitchIntent where
  toText i := .ok ("\x7b\"from\":\"" ++ i.src ++ "\",\"to\":\"" ++ i.dst ++ "\"\x7d")
  ofText t := if t = "\x7b\"from\":\"choir\",\"to\":\"youth\"\x7d" then .ok ⟨"choir", "youth"⟩
    else .error "expected value at line 1 column 1"

abbrev noSerde (τ : Type) : Serde τ where
  toText _ := .error "not written"
  ofText _ := .error "expected value at line 1 column 1"

abbrev noRosterText : RosterText where
  parse _ := .error "not a roster"

attribute [local instance] plainText activeSerde intentSerde noSerde noRosterText

/-- The process is no more at a rename. -/
def renameCrashes : Oracle String := fun _ step => match step with
  | .rename .. => .crash none
  | _ => .done

def allDone : Oracle String := fun _ _ => .done

instance plainText_lawful : LawfulText String where
  text _ := rfl

def choirCalls : List (Oracle String × LineupCall) :=
  [(renameCrashes, .setIntent ⟨"choir", "youth"⟩), (allDone, .setActive "choir" 7)]

/-- A switch's intent that a crash kept from its name is none; the active lineup is recorded. -/
theorem lineup_files_refine_choir : ∃ r i w w',
    (LineupStore.mk "lineups").active allDone ⟨(runCalls choirCalls ∅).1, (), 0⟩ = .ok r w ∧ r = some "choir" ∧
      (LineupStore.mk "lineups").intent allDone ⟨(runCalls choirCalls ∅).1, (), 0⟩ = .ok i w' ∧ i = none := by
  have empty : Stores (β := String) {} ∅ :=
    ⟨fun _ => none, fun _ => rfl, .none, .none, .none, fun _ _ => .none, fun _ _ => .none, .none⟩
  have back : ∀ c ∈ choirCalls, c.2.Back := by
    intro c member
    simp only [choirCalls, List.mem_cons, List.not_mem_nil, or_false] at member
    rcases member with rfl | rfl
    · rintro t ⟨⟩
      rfl
    · rintro t ⟨⟩
      rfl
  have done : (runCalls choirCalls ∅).2 = [.setActive "choir" 7] := rfl
  obtain ⟨-, reads⟩ := lineup_files_refine choirCalls back ∅ {} empty
  rw [done] at reads
  have active := (reads (LineupStore.mk "lineups") allDone 0 ⟨(runCalls choirCalls ∅).1, (), 1⟩).1 _ rfl
  have intent := (reads (LineupStore.mk "lineups") allDone 0 ⟨(runCalls choirCalls ∅).1, (), 1⟩).2.1 _ rfl
  exact ⟨_, _, _, _, rfl, active, rfl, intent⟩

end

end IemMixer.Server
