import IemMixer.Server.FollowPeople
import IemMixer.Server.RemovalProofs

/-! The people's data follows each roster in turn: a roster's own people lose nothing, whoever it
lacks keeps nothing that is not named as a problem, and once no step fails nothing is kept. -/
namespace IemMixer.Server.Removal
open Lib Lib.Process

/-- Whom following `roster` removes. -/
def Leaves (roster : Roster) (id : String) : Prop :=
  validPersonId id = true ∧ id ≠ engineerId ∧ roster.person id = none

/-- The steps of one person's data among the others. -/
def persons (o : Oracle SiteStep Fate) : Oracle Step Fate := fun t op => o t (.person op)

/-- No step fails, and none is the last. -/
def Calm (o : Oracle SiteStep Fate) : Prop := ∀ t op, o t op = .done

theorem Calm.smooth {o : Oracle SiteStep Fate} (calm : Calm o) : Smooth (persons o) := fun t op => calm t (.person op)

section
variable {β : Type}

theorem append_inj_left {a b tail : String} (same : a ++ tail = b ++ tail) : a = b := by
  have lists := congrArg String.toList same
  rw [String.toList_append, String.toList_append] at lists
  exact String.toList_inj.mp (List.append_cancel_right lists)

/-- A file is one person's. -/
theorem Path.IsOf.unique {p : Path} {a b : String} (first : p.IsOf a) (second : p.IsOf b) : a = b := by
  cases p with
  | photo name =>
    have same : a ++ "." ++ photoExt = b ++ "." ++ photoExt := first.symm.trans second
    exact append_inj_left (append_inj_left same)
  | file lineup kind name => exact append_inj_left (first.2.symm.trans second.2)
  | loose name => cases first

/-- Nothing of anybody but those of `who` changed. -/
structure Spares (who : String → Prop) (w w' : World β) : Prop where
  files : ∀ p : Path, (∀ id, who id → ¬p.IsOf id) → w'.disk.content p = w.disk.content p
  hashes : ∀ id, ¬who id → w'.pins.memberHash id = w.pins.memberHash id
  engineer : w'.pins.file.engineer = w.pins.file.engineer
  saved : w'.Saved

variable {who who' : String → Prop} {w w' w'' : World β} {id : String}

theorem Spares.refl (saved : w.Saved) : Spares who w w := ⟨fun _ _ => rfl, fun _ _ => rfl, rfl, saved⟩

theorem Spares.trans (first : Spares who w w') (next : Spares who w' w'') : Spares who w w'' where
  files p nobodys := (next.files p nobodys).trans (first.files p nobodys)
  hashes id spared := (next.hashes id spared).trans (first.hashes id spared)
  engineer := next.engineer.trans first.engineer
  saved := next.saved

theorem Spares.mono (spares : Spares who w w') (more : ∀ id, who id → who' id) : Spares who' w w' where
  files p nobodys := spares.files p fun id is => nobodys id (more id is)
  hashes id spared := spares.hashes id fun is => spared (more id is)
  engineer := spares.engineer
  saved := spares.saved

theorem Kept.spares (kept : Kept id w w') (is : who id) : Spares who w w' where
  files p nobodys := kept.files p (nobodys id is)
  hashes other spared := kept.hashes other fun same => spared (same ▸ is)
  engineer := kept.engineer
  saved := kept.saved

theorem Spares.restart (spares : Spares who w w') : Spares who w w'.restart where
  files := spares.files
  hashes id spared := by
    rw [← spares.hashes id spared]
    exact congrArg (·[id]?) spares.saved.1
  engineer := spares.saved.2.trans spares.engineer
  saved := ⟨rfl, rfl⟩

/-- Nothing of a person there, and nothing after. -/
theorem Nothing.spared (nothing : Nothing id w) (spares : Spares who w w') (spared : ¬who id) : Nothing id w' where
  hash := by
    have hash := (spares.hashes id spared).trans nothing.hash.1
    exact ⟨hash, (congrArg (·[id]?) spares.saved.1).trans hash⟩
  files p own := by
    rw [spares.files p fun other is theirs => spared (theirs.unique own ▸ is)]
    exact nothing.files p own

/-- The file has the archived hashes of the memory, or none. -/
def World.Archived (w : World β) : Prop :=
  w.pins.disk.archived = w.pins.file.archived ∨ w.pins.disk.archived = ∅

section
variable {o : Oracle Step Fate} {α : Type}

/-- The hashes archived in memory are `kept`, and the file has them or none. -/
def Archives (kept : BTreeMap String String) (w : World β) : Prop := w.pins.file.archived = kept ∧ w.Archived

variable {kept : BTreeMap String String}

theorem keeps_see (see : Disk β → α) : Keeps o (Archives kept) (look see) :=
  triple_see (fun _ held => held) fun _ _ _ held => held

theorem keeps_whole {op : Step} {f : World β → World β} (same : ∀ w, Archives kept w → Archives kept (f w)) :
    Keeps o (Archives kept) (whole op f) :=
  triple_whole same (fun _ _ _ held => held) fun _ => same

theorem keeps_delete (p : Path) : Keeps o (Archives kept) (delete (β := β) p) := keeps_whole fun _ held => held

theorem keeps_removeMember : Keeps o (Archives kept) (removeMember (β := β) id) := by
  unfold removeMember
  cases checkMember id with
  | error e => exact keeps_fail
  | ok =>
    refine keeps_bind keeps_look fun pins => ?_
    cases pins.memberHash id with
    | none => exact keeps_pure
    | some old =>
      refine keeps_bind (triple_change fun _ held => held) fun _ => ?_
      refine keeps_bind (keeps_attempt (keeps_whole fun w held => ⟨held.1, .inr rfl⟩)) fun r => ?_
      cases r with
      | ok => exact keeps_pure
      | error e => exact keeps_bind (triple_change fun _ held => held) fun _ => keeps_fail

theorem keeps_removePhoto : Keeps o (Archives kept) (removePhoto (β := β) id) := by
  unfold removePhoto
  cases checkedPath id with
  | error e => exact keeps_fail
  | ok path =>
    refine keeps_bind (keeps_see _) fun there => ?_
    cases there with
    | false => exact keeps_pure
    | true => exact keeps_bind (keeps_delete path) fun _ => keeps_pure

theorem keeps_filesOf : Keeps o (Archives kept) (filesOf (β := β) id) := by
  refine keeps_bind (keeps_see _) fun dirs => ?_
  refine keeps_foldlM _ fun out lineup => keeps_foldlM _ fun out kind => ?_
  exact keeps_bind (keeps_see _) fun there => keeps_pure

theorem keeps_deleteFiles (failed : Option PinError) (files : List (String × Migration.Kind)) :
    Keeps o (Archives kept) (deleteFiles (β := β) id failed files) := by
  refine keeps_foldlM _ fun acc file => ?_
  refine keeps_bind (keeps_attempt (keeps_delete _)) fun r => ?_
  cases r with
  | ok => exact keeps_pure
  | error e => exact keeps_pure

theorem keeps_removePerson : Keeps o (Archives kept) (removePerson (β := β) id) := by
  unfold removePerson
  refine triple_unless (fun _ _ held => held) fun _ => ?_
  refine keeps_bind keeps_removeMember fun pin => keeps_bind (keeps_attempt keeps_removePhoto) fun removed => ?_
  refine keeps_bind keeps_filesOf fun files => keeps_bind (keeps_deleteFiles _ files) fun acc => ?_
  obtain ⟨count, failed⟩ := acc
  cases failed with
  | some e => exact keeps_fail
  | none => exact keeps_pure

/-- Taken out of memory, and the file written; a write that failed leaves all as it was. -/
theorem triple_dropArchived (saved : w.Saved) (archived : w.Archived) : Triple o (· = w) dropArchived
    (fun _ w' => Spares who w w' ∧ Archives ∅ w') fun e w' => ¬Smooth o ∧ match e with
      | .stopped => Spares who w w'.restart
      | .error _ => w' = w := by
  unfold dropArchived
  refine triple_bind (triple_look (Q := fun pins w' => pins = w.pins ∧ w' = w) ?_) fun pins => triple_fact ?_
  · rintro _ rfl
    exact ⟨rfl, rfl⟩
  rintro rfl
  cases none : w.pins.file.archived.isEmpty with
  | true =>
    refine triple_pure ?_
    rintro _ rfl
    exact ⟨.refl saved, Std.ExtTreeMap.isEmpty_iff.mp none, archived⟩
  | false =>
    let taken : World β := { w with pins := { w.pins with file := { w.pins.file with archived := ∅ } } }
    have saves : Triple o (· = taken) savePins (fun _ w' => Spares who w w' ∧ Archives ∅ w')
        fun e w' => ¬Smooth o ∧ match e with
          | .stopped => Spares who w w'.restart
          | .error _ => w' = taken := by
      have written : Spares who w { taken with pins := taken.pins.written } :=
        ⟨fun _ _ => rfl, fun _ _ => rfl, rfl, rfl, rfl⟩
      refine triple_whole ?_ (fun rough e => ?_) fun rough => ?_
      · rintro _ rfl
        exact ⟨written, rfl, .inr rfl⟩
      · rintro _ rfl
        refine ⟨rough, ?_⟩
        cases e with
        | stopped => exact (Spares.refl saved).restart
        | error e => rfl
      · rintro _ rfl
        exact ⟨rough, written.restart⟩
    refine triple_bind (triple_change (Q := fun _ w' => w' = taken) ?_) fun _ => ?_
    · rintro _ rfl
      rfl
    refine triple_bind (triple_attempt saves fun _ cut => cut) fun r => ?_
    cases r with
    | ok => exact triple_pure fun _ post => post
    | error e =>
      refine triple_bind (triple_change (Q := fun _ w' => ¬Smooth o ∧ w' = w) ?_) fun _ => triple_fail fun _ post => post
      rintro _ ⟨rough, rfl⟩
      exact ⟨rough, rfl⟩

end

section
variable {o : Oracle SiteStep Fate} {α ε : Type}

theorem triple_people {m : RemovalM β α} {P : Assertion (Site β)} {Q : Except PinError α → Assertion (Site β)}
    {E : Halt ε → Assertion (Site β)}
    (runs : ∀ s, P s → Triple (persons o) (· = s.world) m (fun a w => Q (.ok a) (s.withWorld w)) fun e w => match e with
      | .stopped => E .stopped (s.withWorld w)
      | .error e => Q (.error e) (s.withWorld w)) : Triple o P (people m) Q E := by
  refine triple_conseq (triple_attempt (E := fun e s => match e with
      | .stopped => E .stopped s
      | .error e => Q (.error e) s) (Q := fun a => Q (.ok a)) (triple_focus fun s pre => ?_) fun _ cut => cut)
    (fun _ pre => pre) (fun r s held => by cases r <;> exact held) fun _ _ cut => cut
  exact triple_conseq (triple_relabel (runs s pre)) (fun _ same => same) (fun _ _ post => post)
    fun e w cut => by cases e <;> exact cut

/-- The people's data of the ids gone through. `base` is where it began, with `problems`. -/
structure Through (roster : Roster) (o : Oracle SiteStep Fate) (kept : BTreeMap String String) (archive : Bool)
    (base : World β) (problems : List String) (done : List String) (out : People) (s : Site β) : Prop where
  spares : Spares (fun id => id ∈ done ∧ Leaves roster id) base s.world
  archives : Archives kept s.world
  archive : s.archive = archive
  gone : ∀ id ∈ done, Leaves roster id → Nothing id s.world ∨ ∃ e, notRemoved id e ∈ out.problems
  odd : ∀ id ∈ done, validPersonId id = false → id ≠ engineerId → roster.person id = none → notAPersonId ∈ out.problems
  before : ∀ p ∈ problems, p ∈ out.problems
  calm : Calm o → (∀ id ∈ done, Leaves roster id → Nothing id s.world) ∧
    ∀ p ∈ out.problems, p ∈ problems ∨ p = notAPersonId

variable {roster : Roster} {kept : BTreeMap String String} {archive : Bool} {base : World β}
  {problems done : List String} {out : People} {s : Site β}

/-- An id that is nobody to remove. -/
theorem Through.stays (through : Through roster o kept archive base problems done out s) (more : List String)
    (stays : ¬Leaves roster id)
    (odd : validPersonId id = false → id ≠ engineerId → roster.person id = none → notAPersonId ∈ more)
    (plain : ∀ p ∈ more, p = notAPersonId) :
    Through roster o kept archive base problems (done ++ [id]) { out with problems := out.problems ++ more } s where
  spares := through.spares.mono fun other ⟨member, leaves⟩ => ⟨List.mem_append_left _ member, leaves⟩
  archives := through.archives
  archive := through.archive
  gone other member leaves := by
    rcases List.mem_append.mp member with earlier | last
    · exact (through.gone other earlier leaves).imp_right fun ⟨e, named⟩ => ⟨e, List.mem_append_left _ named⟩
    · exact absurd (List.mem_singleton.mp last ▸ leaves) stays
  odd other member upper human gone := by
    rcases List.mem_append.mp member with earlier | last
    · exact List.mem_append_left _ (through.odd other earlier upper human gone)
    · rw [List.mem_singleton.mp last] at upper human gone
      exact List.mem_append_right _ (odd upper human gone)
  before p member := List.mem_append_left _ (through.before p member)
  calm calm := by
    obtain ⟨gone, named⟩ := through.calm calm
    refine ⟨fun other member leaves => ?_, fun p member => ?_⟩
    · rcases List.mem_append.mp member with earlier | last
      · exact gone other earlier leaves
      · exact absurd (List.mem_singleton.mp last ▸ leaves) stays
    · rcases List.mem_append.mp member with earlier | new
      · exact named p earlier
      · exact .inr (plain p new)

/-- Their removal, however it ended: nothing is left, or it is named. -/
theorem Through.removed (through : Through roster o kept archive base problems done out s) {w : World β} {out' : People}
    (leaves : Leaves roster id) (keeps : Kept id s.world w) (archives : Archives kept w)
    (more : ∀ p ∈ out.problems, p ∈ out'.problems) (gone : Nothing id w ∨ ∃ e, notRemoved id e ∈ out'.problems)
    (calm : Calm o → Nothing id w ∧ out'.problems = out.problems) :
    Through roster o kept archive base problems (done ++ [id]) out' (s.withWorld w) where
  spares := (through.spares.mono fun other ⟨member, leaves⟩ => ⟨List.mem_append_left _ member, leaves⟩).trans
    (keeps.spares ⟨by simp, leaves⟩)
  archives := archives
  archive := through.archive
  gone other member theirs := by
    by_cases same : other = id
    · rw [same]
      exact gone
    · rcases List.mem_append.mp member with earlier | last
      · refine (through.gone other earlier theirs).imp (fun nothing => ?_) fun ⟨e, named⟩ => ⟨e, more _ named⟩
        have mine : Spares (· = id) s.world w := keeps.spares rfl
        exact nothing.spared mine same
      · exact absurd (List.mem_singleton.mp last) same
  odd other member upper human absent := by
    rcases List.mem_append.mp member with earlier | last
    · exact more _ (through.odd other earlier upper human absent)
    · rw [List.mem_singleton.mp last, leaves.1] at upper
      cases upper
  before p member := more p (through.before p member)
  calm calmly := by
    obtain ⟨all, named⟩ := through.calm calmly
    obtain ⟨nothing, same⟩ := calm calmly
    refine ⟨fun other member theirs => ?_, fun p member => named p (same ▸ member)⟩
    by_cases own : other = id
    · rw [own]
      exact nothing
    · rcases List.mem_append.mp member with earlier | last
      · have mine : Spares (· = id) s.world w := keeps.spares rfl
        exact (all other earlier theirs).spared mine own
      · exact absurd (List.mem_singleton.mp last) own

theorem triple_followPerson (id : String) : Triple o (Through roster o kept archive base problems done out)
    (followPerson roster out id : SiteM β ε People)
    (fun out' => Through roster o kept archive base problems (done ++ [id]) out') fun _ s =>
      ¬Calm o ∧ Spares (Leaves roster) base s.world.restart := by
  unfold followPerson
  refine triple_ite (fun known => triple_pure fun s through => ?_) fun unknown => ?_
  · have stays : ¬Leaves roster id := by
      rintro ⟨-, human, absent⟩
      rcases known with engineer | person
      · exact human engineer
      · simp [absent] at person
    have same := through.stays [] stays (fun upper human absent => ?_) (by simp)
    · rwa [List.append_nil] at same
    · rcases known with engineer | person
      · exact absurd engineer human
      · simp [absent] at person
  obtain ⟨human, absent⟩ := not_or.mp unknown
  have absent : roster.person id = none := by simpa using absent
  refine triple_ite (fun upper => triple_pure fun s through => ?_) fun valid => ?_
  · have upper : validPersonId id = false := by simpa using upper
    refine through.stays [notAPersonId] (fun leaves => ?_) (fun _ _ _ => List.mem_singleton.mpr rfl) (by simp)
    rw [leaves.1] at upper
    cases upper
  have leaves : Leaves roster id := ⟨by simpa using valid, human, absent⟩
  refine triple_bind (Q := fun r s => (∀ any, r = .ok any → Through roster o kept archive base problems (done ++ [id])
        { out with removed := if any then out.removed ++ [id] else out.removed, gone := out.gone ++ [id] } s) ∧
      ∀ e, r = .error e → Through roster o kept archive base problems (done ++ [id])
        { out with problems := out.problems ++ [notRemoved id e] } s) (triple_people fun s through => ?_) fun r => ?_
  · have removal : Triple (persons o) (· = s.world) (removePerson id) _ _ := triple_removePerson through.spares.saved
    have archived : Keeps (persons o) (Archives kept) (removePerson (β := β) id) := keeps_removePerson
    refine triple_conseq (triple_and removal archived) ?_ ?_ ?_
    · rintro _ rfl
      exact ⟨rfl, through.archives⟩
    · rintro any w ⟨⟨kept, nothing⟩, archives⟩
      refine ⟨fun _ same => ?_, nofun⟩
      cases same
      exact through.removed leaves kept archives (fun _ member => member) (.inl nothing) fun _ => ⟨nothing, rfl⟩
    · rintro e w ⟨halted, archives⟩
      cases e with
      | stopped =>
        refine ⟨fun calm => human (halted.rough calm.smooth leaves.1), ?_⟩
        exact (through.spares.mono fun _ => And.right).trans (halted.kept.spares leaves)
      | error e =>
        refine ⟨nofun, fun _ same => ?_⟩
        cases same
        refine through.removed leaves halted.kept archives (fun _ => List.mem_append_left _)
          (.inr ⟨e, List.mem_append_right _ (List.mem_singleton.mpr rfl)⟩) fun calm => ?_
        exact absurd (halted.rough calm.smooth leaves.1) human
  · cases r with
    | ok any => exact triple_pure fun _ post => post.1 any rfl
    | error e => exact triple_pure fun _ post => post.2 e rfl

theorem mem_lookedThrough {removed pinned held : List String} :
    id ∈ lookedThrough removed pinned held ↔ id ∈ removed ∨ id ∈ pinned ∨ id ∈ held := by
  unfold lookedThrough
  rw [← List.mem_append (s := pinned)]
  generalize pinned ++ held = ids
  induction ids generalizing removed with
  | nil => simp
  | cons x rest ih =>
    rw [List.foldl_cons, ih]
    split
    · rename_i before
      rw [List.contains_iff_mem] at before
      simp only [List.mem_cons]
      grind
    · simp only [List.mem_append, List.mem_cons, List.not_mem_nil, or_false]
      tauto

/-- The people's data when the ids to look through are known, from `base` on. -/
structure Ready (o : Oracle SiteStep Fate) (base : World β) (archived : Except PinError (List String))
    (archive : Except PinError Bool) (looked : Except PinError (BTreeSet String)) (s : Site β) : Prop where
  spares : Spares (fun _ => False) base s.world
  archives : Archives s.world.pins.file.archived s.world
  calm : Calm o → s.world.pins.file.archived = ∅ ∧ s.archive = false ∧
    (problemOf archivedKept archived = [] ∧ problemOf archiveKept archive = []) ∧ ∃ held, looked = .ok held
  found : ∀ held, looked = .ok held → ∀ id p, validPersonId id = true → p.IsOf id → s.world.disk.has p = true → id ∈ held

/-- The archive, deleted unless a step failed. -/
theorem triple_dropArchive {P : World β → Prop} : Triple o (fun s => P s.world) (attempt dropArchive : SiteM β ε _)
    (fun r s => P s.world ∧ (Calm o → s.archive = false ∧ problemOf archiveKept r = [])) fun _ s =>
      ¬Calm o ∧ P s.world := by
  have looks : Triple o (fun s => P s.world) (archiveIsDir : SiteM β PinError Bool)
      (fun there s => P s.world ∧ (Calm o → there = s.archive)) fun _ s => ¬Calm o ∧ P s.world := by
    refine triple_step fun t s pre => ?_
    cases fate : o t .seeArchive with
    | done => exact ⟨pre, fun _ => rfl⟩
    | failed text => exact ⟨pre, fun calm => by simp [calm t] at fate⟩
    | stopped happened => exact ⟨fun calm => by simp [calm t] at fate, pre⟩
  have drops : Triple o (fun s => P s.world) (dropArchive : SiteM β PinError Bool)
      (fun _ s => P s.world ∧ (Calm o → s.archive = false)) fun _ s => ¬Calm o ∧ P s.world := by
    unfold dropArchive
    refine triple_bind looks fun there => ?_
    cases there with
    | false => exact triple_pure fun s ⟨pre, same⟩ => ⟨pre, fun calm => (same calm).symm⟩
    | true =>
      simp only [Bool.not_true, Bool.false_eq_true, if_false]
      refine triple_step fun t s pre => ?_
      cases fate : o t .dropArchive with
      | done => exact ⟨pre.1, fun _ => rfl⟩
      | failed text => exact ⟨fun calm => by simp [calm t] at fate, pre.1⟩
      | stopped happened =>
        refine ⟨fun calm => by simp [calm t] at fate, ?_⟩
        cases happened <;> exact pre.1
  refine triple_conseq (triple_attempt drops fun _ cut => cut) (fun _ pre => pre) (fun r s held => ?_) fun _ _ cut => cut
  cases r with
  | ok any => exact ⟨held.1, fun calm => ⟨held.2 calm, rfl⟩⟩
  | error e => exact ⟨held.2, fun calm => absurd calm held.1⟩

/-- What following a roster leaves. `out` is what it returned, `none` of one that stopped. -/
structure After (roster : Roster) (o : Oracle SiteStep Fate) (s : Site β) (out : Option People) (s' : Site β) :
    Prop where
  spares : Spares (Leaves roster) s.world s'.world
  archived : s'.world.Archived
  gone : ∀ people, out = some people → ∀ id, Leaves roster id → Nothing id s'.world ∨
    (∃ e, notRemoved id e ∈ people.problems) ∨
      ((∃ e, notLookedThrough e ∈ people.problems) ∧ s'.world.pins.memberHash id = none)
  hashes : ∀ people, out = some people → ∀ id, (s'.world.pins.memberHash id).isSome → id = engineerId ∨
    (roster.person id).isSome ∨ (∃ e, notRemoved id e ∈ people.problems) ∨
      (validPersonId id = false ∧ notAPersonId ∈ people.problems)
  calm : Calm o → ∃ people, out = some people ∧ (∀ id, Leaves roster id → Nothing id s'.world) ∧
    s'.world.pins.disk.archived = ∅ ∧ s'.archive = false ∧ ∀ p ∈ people.problems, p = notAPersonId

/-- All who were looked through were gone through. -/
theorem Ready.after {base : World β} {archived : Except PinError (List String)} {archive : Except PinError Bool}
    {looked : Except PinError (BTreeSet String)} {s₀ s s' : Site β} {held removed : List String} {out : People}
    (ready : Ready o base archived archive looked s) (start : base = s₀.world)
    (listed : ∀ found, looked = .ok found → held = found.toList)
    (through : Through roster o s.world.pins.file.archived s.archive s.world
      (problemOf archivedKept archived ++ problemOf archiveKept archive ++ problemOf notLookedThrough looked)
      (lookedThrough removed s.world.pins.memberIds held) out s') : After roster o s₀ (some out) s' := by
  subst start
  have pinned : ∀ id, (s.world.pins.memberHash id).isSome →
      id ∈ lookedThrough removed s.world.pins.memberIds held := fun id some =>
    mem_lookedThrough.mpr (.inr (.inl ((BTreeMap.mem_keys_iff _ _).mpr (Option.isSome_iff_exists.mp some))))
  have unlisted : ∀ id, id ∉ lookedThrough removed s.world.pins.memberIds held →
      s'.world.pins.memberHash id = none := fun id out => by
    rw [through.spares.hashes id fun who => out who.1]
    exact Option.not_isSome_iff_eq_none.mp fun some => out (pinned id some)
  have absent : ∀ id, Leaves roster id → id ∉ lookedThrough removed s.world.pins.memberIds held →
      ∀ found, looked = .ok found → Nothing id s'.world := fun id leaves out found ok => by
    have bare : Nothing id s.world := by
      have hash : s.world.pins.memberHash id = none := Option.not_isSome_iff_eq_none.mp fun some => out (pinned id some)
      refine ⟨⟨hash, (congrArg (·[id]?) ready.spares.saved.1).trans hash⟩, fun p own => ?_⟩
      refine Option.not_isSome_iff_eq_none.mp fun there => out (mem_lookedThrough.mpr (.inr (.inr ?_)))
      rw [listed found ok, Std.ExtTreeSet.mem_toList]
      exact ready.found found ok id p leaves.1 own there
    exact bare.spared through.spares fun who => out who.1
  have gone : ∀ id, Leaves roster id → Nothing id s'.world ∨ (∃ e, notRemoved id e ∈ out.problems) ∨
      ((∃ e, notLookedThrough e ∈ out.problems) ∧ s'.world.pins.memberHash id = none) := fun id leaves => by
    by_cases member : id ∈ lookedThrough removed s.world.pins.memberIds held
    · exact (through.gone id member leaves).imp_right .inl
    · cases looks : looked with
      | ok found => exact .inl (absent id leaves member found looks)
      | error e =>
        refine .inr (.inr ⟨⟨e, through.before _ ?_⟩, unlisted id member⟩)
        simp [looks, problemOf]
  constructor
  · exact (ready.spares.mono fun _ => False.elim).trans (through.spares.mono fun _ => And.right)
  · obtain ⟨same, archived⟩ := through.archives
    exact archived
  · rintro _ ⟨⟩
    exact gone
  · rintro _ ⟨⟩ id some
    by_cases human : id = engineerId
    · exact .inl human
    cases person : roster.person id with
    | some p => exact .inr (.inl rfl)
    | none =>
      cases valid : validPersonId id with
      | true =>
        rcases gone id ⟨valid, human, person⟩ with nothing | named | ⟨-, none⟩
        · simp [nothing.hash.1] at some
        · exact .inr (.inr (.inl named))
        · simp [none] at some
      | false =>
        rw [through.spares.hashes id fun who => by simp [who.2.1] at valid] at some
        exact .inr (.inr (.inr ⟨rfl, through.odd id (pinned id some) valid human person⟩))
  · intro calm
    obtain ⟨archived, dropped, ⟨noArchived, noArchive⟩, found, looks⟩ := ready.calm calm
    obtain ⟨all, named⟩ := through.calm calm
    refine ⟨out, rfl, fun id leaves => ?_, ?_, through.archive.trans dropped, fun p member => ?_⟩
    · by_cases member : id ∈ lookedThrough removed s.world.pins.memberIds held
      · exact all id member leaves
      · exact absent id leaves member found looks
    · rcases through.archives.2 with same | none
      · exact same.trans (through.archives.1.trans archived)
      · exact none
    · rcases named p member with before | plain
      · rw [noArchived, noArchive, looks] at before
        cases before
      · exact plain

/-- Wherever following a roster ends or stops. -/
theorem triple_followPeople (saved : s.world.Saved) (archived : s.world.Archived) (roster : Roster)
    (removed : List String) : Triple o (· = s) (followPeople roster removed : SiteM β ε People)
      (fun out s' => After roster o s (some out) s') fun _ s' =>
        ¬Calm o ∧ Spares (Leaves roster) s.world s'.world.restart := by
  have stopped : ∀ {who : String → Prop} {w : World β}, Spares (fun _ => False) s.world w →
      Spares who s.world w.restart := fun spares => (spares.mono fun _ => False.elim).restart
  have drops : Triple (persons o) (· = s.world) dropArchived
      (fun _ w => Spares (fun _ => False) s.world w ∧ Archives ∅ w) _ := triple_dropArchived saved archived
  unfold followPeople
  refine triple_bind (Q := fun r s' => Spares (fun _ => False) s.world s'.world ∧
      Archives s'.world.pins.file.archived s'.world ∧
      (Calm o → s'.world.pins.file.archived = ∅ ∧ problemOf archivedKept r = [])) (triple_people ?_) fun dropped => ?_
  · rintro _ rfl
    refine triple_conseq drops (fun _ same => same) ?_ ?_
    · rintro ids w ⟨spares, archives⟩
      exact ⟨spares, ⟨rfl, archives.2⟩, fun _ => ⟨archives.1, rfl⟩⟩
    · rintro e w ⟨rough, cut⟩
      cases e with
      | stopped => exact ⟨fun calm => rough calm.smooth, Spares.mono cut fun _ => False.elim⟩
      | error e =>
        subst cut
        exact ⟨.refl saved, ⟨rfl, archived⟩, fun calm => absurd calm.smooth rough⟩
  refine triple_bind (triple_conseq (triple_dropArchive (P := fun w => Spares (fun _ => False) s.world w ∧
      Archives w.pins.file.archived w ∧ (Calm o → w.pins.file.archived = ∅ ∧ problemOf archivedKept dropped = [])))
    (fun _ held => held) (fun _ _ held => held) fun e s' cut => ⟨cut.1, stopped cut.2.1⟩) fun archive => ?_
  refine triple_bind (Q := Ready o s.world dropped archive) (triple_people fun s' held => ?_) fun looked => ?_
  · obtain ⟨⟨spares, archives, calmly⟩, dropping⟩ := held
    have looks : Looks (persons o) s'.world heldIds _ := looks_heldIds
    refine triple_conseq looks (fun _ same => same) ?_ ?_
    · rintro found w ⟨finds, rfl⟩
      refine ⟨spares, archives, fun calm => ?_, fun held same => ?_⟩
      · exact ⟨(calmly calm).1, (dropping calm).1, ⟨(calmly calm).2, (dropping calm).2⟩, found, rfl⟩
      · cases same
        exact finds
    · rintro e w ⟨rough, rfl⟩
      cases e with
      | stopped => exact ⟨fun calm => rough calm.smooth, stopped spares⟩
      | error e => exact ⟨spares, archives, fun calm => absurd calm.smooth rough, nofun⟩
  refine triple_bind (Q := fun pins s' => pins = s'.world.pins ∧ Ready o s.world dropped archive looked s')
    (triple_look fun _ ready => ⟨rfl, ready⟩) fun pins => ?_
  refine triple_pre (P := fun s' => ∃ at', (pins = at'.world.pins ∧ Ready o s.world dropped archive looked at') ∧
    s' = at') (triple_exists fun at' => triple_fact ?_) fun s' held => ⟨s', held, rfl⟩
  rintro ⟨rfl, ready⟩
  refine triple_conseq (triple_foldlM (I := fun done out => Through roster o at'.world.pins.file.archived at'.archive
    at'.world (problemOf archivedKept dropped ++ problemOf archiveKept archive ++ problemOf notLookedThrough looked)
    done out) _ fun done id rest _ out => triple_followPerson id) ?_ ?_ ?_
  · rintro _ rfl
    exact ⟨.refl ready.spares.saved, ready.archives, rfl, by simp, by simp, fun _ => id,
      fun _ => ⟨by simp, fun _ => .inl⟩⟩
  · intro out s' through
    refine ready.after rfl (fun found same => ?_) through
    rw [same]
  · rintro e s' ⟨rough, spares⟩
    exact ⟨rough, (ready.spares.mono fun _ => False.elim).trans spares⟩

theorem follow_after (saved : s.world.Saved) (archived : s.world.Archived) (roster : Roster) (removed : List String)
    (o : Oracle SiteStep Fate) : After roster o s (s.follow roster removed o).1 (s.follow roster removed o).2 := by
  have runs : Triple o (· = s) (followPeople roster removed : SiteM β Empty People) _ _ :=
    triple_followPeople saved archived roster removed
  have run := runs ⟨s, 0⟩ rfl
  unfold Site.follow
  split at run
  · rename_i out after ended
    rw [ended]
    exact run
  · rename_i e after ended
    rw [ended]
    exact ⟨run.2, .inl rfl, nofun, nofun, fun calm => absurd calm run.1⟩

theorem Followed.spares {s₀ : Site β} {rs : List Roster} (saved : s₀.world.Saved) (archived : s₀.world.Archived)
    (followed : Followed s₀ rs s) : Spares (fun id => ∃ r ∈ rs, Leaves r id) s₀.world s.world ∧ s.world.Archived := by
  induction followed with
  | start => exact ⟨.refl saved, archived⟩
  | follow before roster removed o ih =>
    obtain ⟨spares, archived⟩ := ih
    have after := follow_after spares.saved archived roster removed o
    refine ⟨(spares.mono ?_).trans (after.spares.mono ?_), after.archived⟩
    · rintro id ⟨r, member, leaves⟩
      exact ⟨r, List.mem_append_left _ member, leaves⟩
    · exact fun id leaves => ⟨roster, by simp, leaves⟩
  | restart before ih => exact ⟨ih.1.restart, .inl rfl⟩

/-- However the rosters of `rs` were followed, with steps that failed and stops at any of them:
whoever all of them hold has lost nothing. The next that is followed takes nothing of its people
either; when it ends, whoever it lacks has nothing left or is named as a problem; and once no step
fails, nobody it lacks has anything, and nothing archived is left. -/
theorem people_follow_rosters (disk : Disk β) (file : PinFile) (archive : Bool) {rs : List Roster} {s : Site β}
    (followed : Followed ⟨⟨disk, .load file⟩, archive⟩ rs s) (roster : Roster) (removed : List String)
    (o : Oracle SiteStep Fate) :
    Spares (fun id => ∃ r ∈ rs, Leaves r id) ⟨disk, .load file⟩ s.world ∧
      After roster o s (s.follow roster removed o).1 (s.follow roster removed o).2 := by
  obtain ⟨spares, archived⟩ := followed.spares ⟨rfl, rfl⟩ (.inl rfl)
  exact ⟨spares, follow_after spares.saved archived roster removed o⟩

end

end

def ben : Roster where
  lineups := []
  people := [{ id := "ben", name := "Ben" }]

def lockedSite : Oracle SiteStep Fate := fun _ op => match op with
  | .person .delete => .failed "permission denied"
  | _ => .done

def calmSite : Oracle SiteStep Fate := fun _ _ => .done

def bensSite : Site ℕ := ⟨begun, true⟩

/-- Her files were locked when the roster without her came, and go with the next look; Ben's stay. -/
theorem people_follow_rosters_ana :
    Nothing "ana" (((bensSite.follow ben ["ana"] lockedSite).2).follow ben [] calmSite).2.world ∧
      (bensSite.follow ben ["ana"] lockedSite).2.world.disk.content (.file "sunday" .presets "ben.json") = some 3 := by
  have before : Followed bensSite [ben] (bensSite.follow ben ["ana"] lockedSite).2 := .follow .start ben ["ana"] lockedSite
  obtain ⟨spares, after⟩ := people_follow_rosters anasFiles anasAndBens true before ben [] calmSite
  obtain ⟨people, -, gone, -⟩ := after.calm fun _ _ => rfl
  refine ⟨gone "ana" ⟨by decide +kernel, by decide, rfl⟩, ?_⟩
  rw [spares.files]
  · rfl
  · rintro id ⟨r, member, leaves⟩ own
    obtain rfl := List.mem_singleton.mp member
    obtain rfl := own.unique (show Path.IsOf "ben" (.file "sunday" .presets "ben.json") from ⟨by decide +kernel, rfl⟩)
    cases leaves.2.2

end IemMixer.Server.Removal
