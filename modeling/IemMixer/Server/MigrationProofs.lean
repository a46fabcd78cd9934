import IemMixer.Server.MigrationFiles

/-! The migration is safe against stops: from what the disk holds alone every further try
goes on, and all of them end at the same files. -/
namespace IemMixer.Server.Migration
open Lib Proto Lib.Process

section
variable {β α : Type} {o : Oracle Step (Fate β)}

/-! ### Steps -/

/-- No step fails, and none is the last. -/
def Smooth (o : Oracle Step (Fate β)) : Prop := ∀ t op, o t op = .done

section
variable {P : Assertion (World β)} {E : Halt Trouble → Assertion (World β)}

theorem triple_see {see : Disk β → α} {Q : α → Assertion (World β)} (post : ∀ w, P w → Q (see w.disk) w)
    (halt : ¬Smooth o → ∀ e w, P w → E e w) : Triple o P (look see) Q E := by
  refine triple_step fun t w pre => ?_
  cases fate : o t .look with
  | done => exact post w pre
  | failed text left => exact halt (fun smooth => by simp [smooth t] at fate) _ w pre
  | stopped happened left => exact halt (fun smooth => by simp [smooth t] at fate) _ w pre

theorem triple_stage {f : Disk β → Option (Tree β)} {Q : Unit → Assertion (World β)}
    (post : ∀ w, P w → Q () (onDisk (fun d => { d with staging := f d }) w))
    (halt : ¬Smooth o → ∀ e left w, P w → E e (onDisk ({ · with staging := left }) w)) :
    Triple o P (stage f) Q E := by
  refine triple_step fun t w pre => ?_
  cases fate : o t .stage with
  | done => exact post w pre
  | failed text left => exact halt (fun smooth => by simp [smooth t] at fate) _ left w pre
  | stopped happened left => exact halt (fun smooth => by simp [smooth t] at fate) _ left w pre

theorem triple_whole {op : Step} {f : World β → World β} {Q : Unit → Assertion (World β)}
    (post : ∀ w, P w → Q () (f w)) (halt : ¬Smooth o → ∀ e w, P w → E e w)
    (late : ¬Smooth o → ∀ w, P w → E .stopped (f w)) : Triple o P (whole op f) Q E := by
  refine triple_step fun t w pre => ?_
  cases fate : o t op with
  | done => exact post w pre
  | failed text left => exact halt (fun smooth => by simp [smooth t] at fate) _ w pre
  | stopped happened left =>
    have rough : ¬Smooth o := fun smooth => by simp [smooth t] at fate
    cases happened with
    | false => exact halt rough _ w pre
    | true => exact late rough w pre

end

theorem file_put (t : Tree β) (l l' : String) (kind : Kind) (id : String) (content : Option β) :
    (t.put l kind id content).file l' = if l' = l then Files.put (t.file l) kind id content else t.file l' := by
  funext k i
  by_cases same : l' = l
  · subst same
    cases held : t.lineups[l']? <;>
      simp [Tree.put, Tree.file, BTreeMap.update, Files.put, held]
  · simp [Tree.put, Tree.file, BTreeMap.update, BTreeMap.getElem?_insert_eq, same, Ne.symm same]

/-! ### Before the commit -/

section
variable (roster : Roster) (members : List String) (d₀ : Disk β)

/-- Nothing but the staging directory is written yet. -/
structure Untouched (w : World β) : Prop where
  legacy : w.disk.legacy = d₀.legacy
  photos : w.disk.photos = d₀.photos
  pins : w.disk.pins = d₀.pins
  live : w.disk.live = none
  held : w.pins = w.disk.pins

/-- The staged lineups hold `files` in the main one and nothing else. -/
structure Copying (main : String) (files : Files β) (w : World β) : Prop extends Untouched d₀ w where
  holds : (w.disk.staging.getD {}).file main = files
  others : ∀ l ≠ main, (w.disk.staging.getD {}).file l = fun _ _ => none

/-- A run that halts before the commit left the disk to the next one. -/
def Rough (o : Oracle Step (Fate β)) (_ : Halt Trouble) (w : World β) : Prop := Untouched d₀ w ∧ ¬Smooth o

variable {roster members d₀} {main : String} {files : Files β}

theorem Untouched.stage {w : World β} (before : Untouched d₀ w) (left : Option (Tree β)) :
    Untouched d₀ (onDisk ({ · with staging := left }) w) :=
  ⟨before.legacy, before.photos, before.pins, before.live, before.held⟩

theorem triple_seeing {see : Disk β → α} {P : Assertion (World β)} {Q : α → Assertion (World β)}
    (before : ∀ w, P w → Untouched d₀ w) (post : ∀ w, P w → Q (see w.disk) w) :
    Triple o P (look see) Q (Rough d₀ o) :=
  triple_see post fun rough _ w pre => ⟨before w pre, rough⟩

theorem triple_staging {f : Disk β → Option (Tree β)} {P : Assertion (World β)} {Q : Unit → Assertion (World β)}
    (before : ∀ w, P w → Untouched d₀ w) (post : ∀ w, P w → Q () (onDisk (fun d => { d with staging := f d }) w)) :
    Triple o P (stage f) Q (Rough d₀ o) :=
  triple_stage post fun rough _ left w pre => ⟨(before w pre).stage left, rough⟩

/-- Work in the staging directory that leaves its files as they are. -/
theorem triple_directories : Triple o (Copying d₀ main files) (stageTree fun _ t => t)
    (fun _ => Copying d₀ main files) (Rough d₀ o) :=
  triple_staging (fun _ pre => pre.toUntouched) fun _ pre => ⟨pre.stage _, pre.holds, pre.others⟩

theorem triple_put (kind : Kind) (src dst : String) : Triple o (Copying d₀ main files)
    (stageTree fun d t => t.put main kind dst (d.legacy kind src))
    (fun _ => Copying d₀ main (files.put kind dst (d₀.legacy kind src))) (Rough d₀ o) := by
  refine triple_staging (fun _ pre => pre.toUntouched) fun w pre => ⟨pre.stage _, ?_, fun l other => ?_⟩
  · simp only [onDisk, Option.getD_some, file_put, if_true, pre.holds, pre.legacy]
  · simp only [onDisk, Option.getD_some, file_put, other, if_false, pre.others l other]

theorem triple_copyDurable (kind : Kind) (src dst : String) :
    Triple o (Copying d₀ main files) (copyDurable main kind src dst)
      (fun copied w => copied = copies d₀.legacy files kind src dst ∧
        Copying d₀ main (copyIn d₀.legacy files kind src dst) w) (Rough d₀ o) := by
  unfold copyDurable
  refine triple_bind (Q := fun there w => there = (d₀.legacy kind src).isSome ∧ Copying d₀ main files w)
    (triple_seeing (fun w pre => pre.toUntouched) fun w pre => ⟨by rw [pre.legacy], pre⟩) fun there => ?_
  refine triple_fact fun source => ?_
  cases there with
  | false =>
    refine triple_pure fun w pre => ?_
    simp only [copyIn, copies, ← source, Bool.false_and]
    exact ⟨trivial, pre⟩
  | true =>
    refine triple_bind (Q := fun there w => there = (files kind dst).isSome ∧ Copying d₀ main files w)
      (triple_seeing (fun w pre => pre.toUntouched) fun w pre => ⟨by rw [pre.holds], pre⟩) fun there => ?_
    refine triple_fact fun held => ?_
    cases there with
    | true =>
      refine triple_pure fun w pre => ?_
      have taken : (files kind dst).isNone = false := by simp [← held]
      simp only [copyIn, copies, taken, Bool.and_false]
      exact ⟨trivial, pre⟩
    | false =>
      have free : (files kind dst).isNone = true := by simpa using held.symm
      refine triple_bind triple_directories fun _ => triple_bind (triple_put kind src dst) fun _ =>
        triple_bind triple_directories fun _ => triple_pure fun w pre => ?_
      simp only [copyIn, copies, ← source, free, Bool.and_self, if_true]
      exact ⟨trivial, pre⟩

theorem triple_copyOwn (moved : List String) (id : String) : Triple o (Copying d₀ main files)
    (copyOwn roster main moved id) (fun _ => Copying d₀ main (ownIn d₀.legacy roster files id)) (Rough d₀ o) := by
  unfold copyOwn ownIn handedOver
  split
  · exact triple_pure fun _ pre => pre
  · refine triple_bind ?_ fun _ => triple_pure fun _ pre => pre
    refine triple_foldlM (I := fun done _ =>
      Copying d₀ main (done.foldl (fun files kind => copyIn d₀.legacy files kind id id) files)) _ fun done kind _ _ c => ?_
    rw [List.foldl_concat]
    exact triple_bind (triple_copyDurable kind id id) fun _ => triple_pure fun _ pre => pre.2

theorem triple_takeOver (taken : List (String × String)) (taker : String × String) :
    Triple o (Copying d₀ main files) (takeOver main taken taker)
      (fun _ => Copying d₀ main (takeIn d₀.legacy files taker)) (Rough d₀ o) := by
  unfold takeOver takeIn
  refine triple_bind ?_ fun _ => triple_pure fun _ pre => pre
  refine triple_foldlM (I := fun done _ => Copying d₀ main (done.foldl _ files)) _ fun done kind _ _ c => ?_
  rw [List.foldl_concat]
  generalize done.foldl _ files = now
  refine triple_bind (triple_copyDurable kind taker.2 taker.1) fun copied => triple_fact fun does => ?_
  rw [← does]
  cases copied with
  | true => exact triple_pure fun _ => id
  | false =>
    have none : copyIn d₀.legacy now kind taker.2 taker.1 = now := by
      rw [copyIn, ← does, if_neg Bool.false_ne_true]
    rw [none]
    exact triple_bind (triple_copyDurable kind taker.2 taker.2) fun _ => triple_pure fun _ pre => pre.2

end

/-! ### After the commit -/

section
variable (roster : Roster) (members : List String) (d₀ : Disk β)

def mainId : String := (roster.main.map (·.id)).getD ""

/-- Whose legacy files are copies once the migration committed. -/
def former : List String := legacyMembers members ++ (takers roster).map (·.2)

def removals : List String := (former roster members).filter (!stays roster ·)

def pendingWork : Pending :=
  { format := pendingFormat, delete := former roster members, remove := removals roster members }

/-- The lineups' files as committed. -/
def stagedFile (lineup : String) : Files β :=
  if lineup = mainId roster then staged d₀.legacy roster members else fun _ _ => none

/-- Every id is one the work after the commit takes. -/
structure Valid : Prop where
  ids : ∀ id ∈ former roster members, validMemberId id = true
  gone : ∀ id ∈ removals roster members, validPersonId id = true

def World.tree (w : World β) : Tree β := w.disk.live.getD {}

/-- Committed: of each thing what there was, or nothing where it is to be deleted. -/
structure Committed (w : World β) : Prop where
  live : w.disk.live.isSome = true
  staging : w.disk.staging = none
  active : ∃ since, w.tree.active = some (mainId roster, since)
  legacy : ∀ kind id, w.disk.legacy kind id = d₀.legacy kind id ∨
    w.disk.legacy kind id = none ∧ id ∈ former roster members
  photos : ∀ id, w.disk.photos id = d₀.photos id ∨ w.disk.photos id = false ∧ id ∈ removals roster members
  pins : ∀ id, w.disk.pins id = d₀.pins id ∨ w.disk.pins id = none ∧ id ∈ removals roster members
  files : ∀ lineup kind id, w.tree.file lineup kind id = stagedFile roster members d₀ lineup kind id ∨
    w.tree.file lineup kind id = none ∧ id ∈ removals roster members

/-- Nothing is left of `id`. -/
structure Gone (id : String) (w : World β) : Prop where
  photo : w.disk.photos id = false
  pin : w.disk.pins id = none
  files : ∀ lineup kind, w.tree.file lineup kind id = none

/-- Committed, the work after it not recorded done. -/
structure Working (w : World β) : Prop extends Committed roster members d₀ w where
  pending : w.tree.pending = some (pendingWork roster members)

/-- The work got through the legacy files of `deleted` and the people of `removed`. -/
structure Doing (deleted removed : List String) (w : World β) : Prop extends Working roster members d₀ w where
  held : w.pins = w.disk.pins
  deletes : ∀ id ∈ deleted, ∀ kind, w.disk.legacy kind id = none
  removes : ∀ id ∈ removed, validPersonId id = true ∧ Gone id w

structure Finished (w : World β) : Prop extends Committed roster members d₀ w where
  valid : Valid roster members
  pending : w.tree.pending = none
  deletes : ∀ id ∈ former roster members, ∀ kind, w.disk.legacy kind id = none
  removes : ∀ id ∈ removals roster members, Gone id w

/-- A run that halts after the commit left the disk to the next one. -/
def Cut (o : Oracle Step (Fate β)) (e : Halt Trouble) (w : World β) : Prop :=
  (Working roster members d₀ w ∨ Finished roster members d₀ w) ∧ (e ≠ .stopped → w.pins = w.disk.pins) ∧
    (¬Smooth o ∨ ¬Valid roster members)

/-- A step that fails leaves `P`, and the last before the process ends leaves the work to go on. -/
def Halts (P : Assertion (World β)) (o : Oracle Step (Fate β)) (e : Halt Trouble) (w : World β) : Prop :=
  ¬Smooth o ∧ match e with
    | .stopped => Working roster members d₀ w
    | .error _ => P w

variable {roster members d₀} {w : World β} {id : String} {kind : Kind} {lineup : String} {P : Assertion (World β)}

theorem Working.dropLegacy (working : Working roster members d₀ w) (inside : id ∈ former roster members) :
    Working roster members d₀ (onDisk (fun d => { d with legacy := Files.put d.legacy kind id none }) w) := by
  refine ⟨⟨working.live, working.staging, working.active, fun k i => ?_, working.photos, working.pins, working.files⟩,
    working.pending⟩
  by_cases here : k = kind ∧ i = id
  · exact .inr ⟨if_pos here, here.2 ▸ inside⟩
  · simpa only [onDisk, Files.put, if_neg here] using working.legacy k i

theorem Working.dropPhoto (working : Working roster members d₀ w) (inside : id ∈ removals roster members) :
    Working roster members d₀ (onDisk (fun d => { d with photos := Function.update d.photos id false }) w) := by
  refine ⟨⟨working.live, working.staging, working.active, working.legacy, fun i => ?_, working.pins, working.files⟩,
    working.pending⟩
  by_cases here : i = id
  · exact .inr ⟨by simp [onDisk, here], here ▸ inside⟩
  · simpa only [onDisk, Function.update_of_ne here] using working.photos i

theorem Working.dropPin (working : Working roster members d₀ w) (inside : id ∈ removals roster members)
    {pins : String → Option String} : Working roster members d₀
      { disk := { w.disk with pins := Function.update w.disk.pins id none }, pins } := by
  refine ⟨⟨working.live, working.staging, working.active, working.legacy, working.photos, fun i => ?_, working.files⟩,
    working.pending⟩
  by_cases here : i = id
  · exact .inr ⟨by simp [here], here ▸ inside⟩
  · simpa only [Function.update_of_ne here] using working.pins i

def dropFile (lineup : String) (kind : Kind) (id : String) : World β → World β :=
  onDisk fun d => { d with live := d.live.map (·.put lineup kind id none) }

theorem tree_dropFile (live : w.disk.live.isSome = true) :
    (dropFile lineup kind id w).tree = w.tree.put lineup kind id none := by
  obtain ⟨t, there⟩ := Option.isSome_iff_exists.mp live
  simp [World.tree, dropFile, onDisk, there]

theorem file_dropFile (live : w.disk.live.isSome = true) (l : String) (k : Kind) (i : String) :
    (dropFile lineup kind id w).tree.file l k i =
      if l = lineup ∧ k = kind ∧ i = id then none else w.tree.file l k i := by
  rw [tree_dropFile live, file_put]
  by_cases same : l = lineup
  · simp [same, Files.put]
  · simp [same]

theorem Working.dropFile (working : Working roster members d₀ w) (inside : id ∈ removals roster members) :
    Working roster members d₀ (dropFile lineup kind id w) := by
  refine ⟨⟨?_, working.staging, ?_, working.legacy, working.photos, working.pins, fun l k i => ?_⟩, ?_⟩
  · simpa [Migration.dropFile, onDisk] using working.live
  · rw [tree_dropFile working.live]
    exact working.active
  · rw [file_dropFile working.live]
    split
    · rename_i here
      exact .inr ⟨rfl, here.2.2 ▸ inside⟩
    · exact working.files l k i
  · rw [tree_dropFile working.live]
    exact working.pending

/-! ### Removing a person -/

theorem triple_reading {see : Disk β → α} {Q : α → Assertion (World β)}
    (working : ∀ w, P w → Working roster members d₀ w) (post : ∀ w, P w → Q (see w.disk) w) :
    Triple o P (look see) Q (Halts roster members d₀ P o) := by
  refine triple_see post fun rough e w pre => ⟨rough, ?_⟩
  cases e with
  | stopped => exact working w pre
  | error e => exact pre

theorem triple_deleting {op : Step} {f : World β → World β} {Q : Unit → Assertion (World β)}
    (working : ∀ w, P w → Working roster members d₀ w) (on : ∀ w, P w → Working roster members d₀ (f w))
    (post : ∀ w, P w → Q () (f w)) : Triple o P (whole op f) Q (Halts roster members d₀ P o) := by
  refine triple_whole post (fun rough e w pre => ⟨rough, ?_⟩) fun rough w pre => ⟨rough, on w pre⟩
  cases e with
  | stopped => exact working w pre
  | error e => exact pre

/-- A caught failure leaves what there was. -/
theorem triple_tried {m : MigM β α} {Q : α → Assertion (World β)}
    (tried : Triple o P m Q (Halts roster members d₀ P o)) :
    Triple o P (attempt m : MigM β (Except Trouble α)) (fun r w => match r with
      | .ok a => Q a w
      | .error _ => P w ∧ ¬Smooth o) (Cut roster members d₀ o) := by
  have stopped : ∀ w, Halts roster members d₀ P o .stopped w → Cut roster members d₀ o .stopped w :=
    fun w halted => ⟨.inl halted.2, fun other => absurd rfl other, .inl halted.1⟩
  refine triple_conseq (triple_attempt tried stopped) (fun _ => id) (fun r w done => ?_) fun _ _ => id
  · cases r with
    | ok a => exact done
    | error e => exact ⟨done.2, done.1⟩

/-- What the rest of a person's removal starts from. -/
theorem triple_at {m : MigM β α} {Q : α → Assertion (World β)} {E : Halt Trouble → Assertion (World β)}
    (every : ∀ w₀, P w₀ → Triple o (· = w₀) m Q E) : Triple o P m Q E :=
  fun w pre => every w.world pre w rfl

variable {deleted removed : List String}

theorem Doing.dropPin (doing : Doing roster members d₀ deleted removed w) (inside : id ∈ removals roster members) :
    Doing roster members d₀ deleted removed
      ⟨{ w.disk with pins := Function.update w.disk.pins id none }, Function.update w.disk.pins id none⟩ := by
  refine ⟨doing.toWorking.dropPin inside, rfl, doing.deletes, fun i before => ?_⟩
  obtain ⟨valid, gone⟩ := doing.removes i before
  refine ⟨valid, gone.photo, ?_, gone.files⟩
  by_cases same : i = id
  · simp [same]
  · simpa only [Function.update_of_ne same] using gone.pin

theorem Doing.dropPhoto (doing : Doing roster members d₀ deleted removed w) (inside : id ∈ removals roster members) :
    Doing roster members d₀ deleted removed
      (onDisk (fun d => { d with photos := Function.update d.photos id false }) w) := by
  refine ⟨doing.toWorking.dropPhoto inside, doing.held, doing.deletes, fun i before => ?_⟩
  obtain ⟨valid, gone⟩ := doing.removes i before
  refine ⟨valid, ?_, gone.pin, gone.files⟩
  by_cases same : i = id
  · simp [onDisk, same]
  · simpa only [onDisk, Function.update_of_ne same] using gone.photo

theorem Doing.dropFile (doing : Doing roster members d₀ deleted removed w) (inside : id ∈ removals roster members) :
    Doing roster members d₀ deleted removed (dropFile lineup kind id w) := by
  refine ⟨doing.toWorking.dropFile inside, doing.held, doing.deletes, fun i before => ?_⟩
  obtain ⟨valid, gone⟩ := doing.removes i before
  refine ⟨valid, gone.photo, gone.pin, fun l k => ?_⟩
  rw [file_dropFile doing.live, gone.files l k, ite_self]

theorem triple_removeMember (inside : id ∈ removals roster members) :
    Triple o (Doing roster members d₀ deleted removed) (removeMember id)
      (fun _ w => Doing roster members d₀ deleted removed w ∧ w.disk.pins id = none) (Cut roster members d₀ o) := by
  refine triple_at fun w₀ doing => ?_
  unfold removeMember
  refine triple_bind (Q := fun held w => held = w₀.disk.pins ∧ w = w₀)
    (triple_look fun w same => ⟨by rw [same, doing.held], same⟩) fun held => triple_fact fun isHeld => ?_
  subst isHeld
  split
  · rename_i none
    refine triple_pure fun w same => ?_
    subst same
    exact ⟨doing, Option.isNone_iff_eq_none.mp none⟩
  · let changed : World β := ⟨w₀.disk, Function.update w₀.disk.pins id none⟩
    refine triple_bind (Q := fun _ w => w = changed)
      (triple_change fun w same => by rw [same, doing.held]) fun _ => ?_
    have save : Triple o (· = changed) (whole .savePins fun w => { w with disk := { w.disk with pins := w.pins } })
        (fun _ w => w = ⟨{ w₀.disk with pins := Function.update w₀.disk.pins id none }, changed.pins⟩)
        (Halts roster members d₀ (· = changed) o) := by
      refine triple_deleting (fun w same => ?_) (fun w same => ?_) fun w same => by rw [same]
      · subst same
        exact ⟨⟨doing.live, doing.staging, doing.active, doing.legacy, doing.photos, doing.pins, doing.files⟩,
          doing.pending⟩
      · subst same
        exact doing.toWorking.dropPin inside
    refine triple_bind (triple_tried save) fun saved => ?_
    cases saved with
    | ok _ =>
      refine triple_pure fun w same => ?_
      subst same
      exact ⟨doing.dropPin inside, by simp⟩
    | error e =>
      refine triple_bind (Q := fun _ w => w = w₀ ∧ ¬Smooth o) (triple_change fun w same => ?_) fun _ =>
        triple_fail fun w same => ?_
      · refine ⟨?_, same.2⟩
        rw [same.1]
        simp only [changed, Function.update_idem, Function.update_eq_self]
        rw [← doing.held]
      · rw [same.1]
        exact ⟨.inl doing.toWorking, fun _ => doing.held, .inl same.2⟩

theorem triple_removePhoto (inside : id ∈ removals roster members) {w₀ : World β}
    (doing : Doing roster members d₀ deleted removed w₀) (pin : w₀.disk.pins id = none) :
    Triple o (· = w₀) (removePhoto id) (fun _ w => Doing roster members d₀ deleted removed w ∧
      w.disk.pins id = none ∧ w.disk.photos id = false) (Halts roster members d₀ (· = w₀) o) := by
  unfold removePhoto
  have working : ∀ w, w = w₀ → Working roster members d₀ w := fun w same => same ▸ doing.toWorking
  refine triple_bind (Q := fun there w => there = w₀.disk.photos id ∧ w = w₀)
    (triple_reading working fun w same => ⟨by rw [same], same⟩) fun there => triple_fact fun seen => ?_
  cases there with
  | false =>
    refine triple_pure fun w same => ?_
    subst same
    exact ⟨doing, pin, seen.symm⟩
  | true =>
    refine triple_bind (Q := fun _ w => Doing roster members d₀ deleted removed w ∧ w.disk.pins id = none ∧
      w.disk.photos id = false) (triple_deleting working (fun w same => ?_) fun w same => ?_) fun _ =>
        triple_pure fun _ pre => pre
    · subst same
      exact doing.toWorking.dropPhoto inside
    · subst same
      exact ⟨doing.dropPhoto inside, pin, by simp [onDisk]⟩

/-- Every lineup with a file of theirs is looked through. -/
theorem triple_filesOf {w₀ : World β} (working : Working roster members d₀ w₀)
    (valid : ∀ l kind, w₀.tree.file l kind id ≠ none → validLineupId l = true) :
    Triple o (· = w₀) (filesOf id) (fun files w => (∀ l kind, w₀.tree.file l kind id ≠ none → (l, kind) ∈ files) ∧ w = w₀)
      (Halts roster members d₀ (· = w₀) o) := by
  unfold filesOf
  have same : ∀ w, w = w₀ → Working roster members d₀ w := fun w same => same ▸ working
  refine triple_bind (Q := fun dirs w => dirs = (w₀.tree.lineups.keys).filter validLineupId ∧ w = w₀)
    (triple_reading same fun w same => ⟨by rw [same]; rfl, same⟩) fun dirs => triple_fact fun listed => ?_
  refine triple_conseq (triple_foldlM
    (I := fun done found w => (∀ l ∈ done, ∀ kind, w₀.tree.file l kind id ≠ none → (l, kind) ∈ found) ∧ w = w₀)
    _ fun done dir rest whole found => ?_) (fun w same => ⟨by simp, same⟩) (fun files w found => ?_) fun _ _ pre => pre
  · refine triple_fact fun before => ?_
    refine triple_conseq (triple_foldlM (I := fun kinds' found' w => (∀ f ∈ found, f ∈ found') ∧
      (∀ kind ∈ kinds', w₀.tree.file dir kind id ≠ none → (dir, kind) ∈ found') ∧ w = w₀)
      _ fun kinds' kind rest' _ found' => ?_) (fun w same => ⟨fun _ member => member, by simp, same⟩) (fun found' w new => ?_)
      fun _ _ pre => pre
    · refine triple_fact fun kept => triple_fact fun seen => ?_
      refine triple_bind (Q := fun there w => there = (w₀.tree.file dir kind id).isSome ∧ w = w₀)
        (triple_reading same fun w same => ⟨by rw [same]; rfl, same⟩) fun there => triple_fact fun isThere =>
          triple_pure fun w same => ⟨fun f member => ?_, fun k member has => ?_, same⟩
      · split
        · exact List.mem_append_left _ (kept f member)
        · exact kept f member
      · rcases List.mem_append.mp member with earlier | last
        · split
          · exact List.mem_append_left _ (seen k earlier has)
          · exact seen k earlier has
        · rw [List.mem_singleton.mp last] at has ⊢
          rw [isThere, if_pos (Option.isSome_iff_ne_none.mpr has)]
          simp
    · obtain ⟨kept, all, same⟩ := new
      refine ⟨fun l member kind has => ?_, same⟩
      rcases List.mem_append.mp member with earlier | last
      · exact kept _ (before l earlier kind has)
      · rw [List.mem_singleton.mp last] at has ⊢
        exact all kind (mem_kinds kind) has
  · refine ⟨fun l kind has => found.1 l ?_ kind has, found.2⟩
    rw [listed, List.mem_filter]
    refine ⟨?_, valid l kind has⟩
    rw [BTreeMap.mem_keys_iff]
    cases there : w₀.tree.lineups[l]? with
    | none => simp [Tree.file, there] at has
    | some files => exact ⟨files, rfl⟩

/-- `id`'s files of `done` are deleted, of all `files` of theirs, but for the `failed`. -/
structure Clearing (o : Oracle Step (Fate β)) (roster : Roster) (members : List String) (d₀ : Disk β)
    (deleted removed : List String) (id : String) (listing done : List (String × Kind)) (failed : Option Trouble)
    (w : World β) : Prop extends Doing roster members d₀ deleted removed w where
  pin : w.disk.pins id = none
  cleared : failed = none → w.disk.photos id = false ∧ ∀ f ∈ done, w.tree.file f.1 f.2 id = none
  rough : failed ≠ none → ¬Smooth o
  listed : ∀ l kind, w.tree.file l kind id ≠ none → (l, kind) ∈ listing

variable {listing done : List (String × Kind)} {failed : Option Trouble}

theorem Clearing.drop (clearing : Clearing o roster members d₀ deleted removed id listing done failed w)
    (inside : id ∈ removals roster members) (lineup : String) (kind : Kind) :
    Clearing o roster members d₀ deleted removed id listing (done ++ [(lineup, kind)]) failed
      (dropFile lineup kind id w) := by
  refine ⟨clearing.toDoing.dropFile inside, clearing.pin, fun fine => ?_, clearing.rough, fun l k has => ?_⟩
  · obtain ⟨photo, before⟩ := clearing.cleared fine
    refine ⟨photo, fun f member => ?_⟩
    rw [file_dropFile clearing.live]
    rcases List.mem_append.mp member with earlier | last
    · rw [before f earlier, ite_self]
    · simp [List.mem_singleton.mp last]
  · rw [file_dropFile clearing.live] at has
    split at has
    · exact absurd rfl has
    · exact clearing.listed l k has

theorem triple_deleteFiles (inside : id ∈ removals roster members) :
    Triple o (Clearing o roster members d₀ deleted removed id listing [] failed) (deleteFiles id failed listing)
      (fun r => Clearing o roster members d₀ deleted removed id listing listing r.2) (Cut roster members d₀ o) := by
  unfold deleteFiles
  refine triple_foldlM (I := fun done acc => Clearing o roster members d₀ deleted removed id listing done acc.2)
    (0, failed) fun done file rest whole acc => ?_
  refine triple_bind (triple_tried (triple_deleting
    (Q := fun _ => Clearing o roster members d₀ deleted removed id listing (done ++ [file]) acc.2)
    (fun w clearing => clearing.toWorking) (fun w clearing => clearing.toWorking.dropFile inside) fun w clearing => clearing.drop inside file.1 file.2))
    fun dropped => ?_
  cases dropped with
  | ok _ => exact triple_pure fun _ pre => pre
  | error e =>
    refine triple_pure fun w kept => ⟨kept.1.toDoing, kept.1.pin, fun fine => ?_, fun _ => kept.2, kept.1.listed⟩
    simp at fine

theorem not_stays (inside : id ∈ removals roster members) : stays roster id = false := by
  simpa using (List.mem_filter.mp inside).2

/-- Every committed file is in a lineup of a valid id, the main one. -/
theorem Committed.validLineup (committed : Committed roster members d₀ w) (fit : Fit roster)
    (has : w.tree.file lineup kind id ≠ none) : validLineupId lineup = true := by
  rcases committed.files lineup kind id with same | gone
  · rw [same, stagedFile] at has
    split at has
    · obtain ⟨l, found, valid⟩ := fit.main
      rename_i main
      simp [main, mainId, found, valid]
    · exact absurd rfl has
  · exact absurd gone.1 has

/-- A removal from its listing on, the photo gone or its failure kept. -/
private theorem triple_removeFiles (fit : Fit roster) (inside : id ∈ removals roster members)
    (valid : validPersonId id = true) {w₁ : World β} (doing : Doing roster members d₀ deleted removed w₁)
    (pin : w₁.disk.pins id = none) (failed : Option Trouble) (photoGone : failed = none → w₁.disk.photos id = false)
    (rough : failed ≠ none → ¬Smooth o) (found : Bool) :
    Triple o (· = w₁) (do
      let (files, failed) ← deleteFiles id failed (← filesOf id)
      match failed with
      | some e => fail e
      | none => return found || 0 < files)
      (fun _ => Doing roster members d₀ deleted (removed ++ [id])) (Cut roster members d₀ o) := by
  have list : Triple o (· = w₁) (filesOf id)
      (fun listing => Clearing o roster members d₀ deleted removed id listing [] failed) (Cut roster members d₀ o) := by
    refine triple_conseq (triple_filesOf doing.toWorking fun l kind => doing.validLineup fit) (fun _ pre => pre)
      (fun listing w found => ?_) fun e w halted => ?_
    · rw [found.2]
      exact ⟨doing, pin, fun fine => ⟨photoGone fine, nofun⟩, rough, found.1⟩
    · cases e with
      | stopped => exact ⟨.inl halted.2, fun other => absurd rfl other, .inl halted.1⟩
      | error e =>
        rw [halted.2]
        exact ⟨.inl doing.toWorking, fun _ => doing.held, .inl halted.1⟩
  refine triple_bind list fun listing => triple_bind (triple_deleteFiles inside) fun after => ?_
  obtain ⟨count, failed'⟩ := after
  cases failed' with
  | some e =>
    exact triple_fail fun w clearing => ⟨.inl clearing.toWorking, fun _ => clearing.held, .inl (clearing.rough nofun)⟩
  | none =>
    refine triple_pure fun w clearing => ⟨clearing.toWorking, clearing.held, clearing.deletes, fun i member => ?_⟩
    rcases List.mem_append.mp member with earlier | last
    · exact clearing.removes i earlier
    · rw [List.mem_singleton.mp last]
      obtain ⟨photo, cleared⟩ := clearing.cleared rfl
      refine ⟨valid, photo, clearing.pin, fun l kind => ?_⟩
      by_contra has
      exact has (cleared (l, kind) (clearing.listed l kind has))

theorem triple_removePerson (fit : Fit roster) (inside : id ∈ removals roster members) :
    Triple o (Doing roster members d₀ deleted removed) (removePerson id)
      (fun _ => Doing roster members d₀ deleted (removed ++ [id])) (Cut roster members d₀ o) := by
  have human : id ≠ engineerId := by
    rintro rfl
    have stay := not_stays inside
    simp [stays] at stay
  unfold removePerson
  refine triple_unless (fun bad w doing => ⟨.inl doing.toWorking, fun _ => doing.held, .inr fun valid => ?_⟩)
    fun good => triple_unless (fun bad => absurd (beq_iff_eq.mp bad) human) fun _ => ?_
  · simp [valid.gone id inside] at bad
  have valid : validPersonId id = true := by simpa using good
  refine triple_bind (triple_removeMember inside) fun pin => triple_at fun w₀ pre => ?_
  refine triple_bind (triple_tried (triple_removePhoto inside pre.1 pre.2)) fun photo => ?_
  -- What the photo's removal came to, whether it failed or not.
  refine triple_at fun w₁ did => ?_
  cases photo with
  | ok found => exact triple_removeFiles fit inside valid did.1 did.2.1 none (fun _ => did.2.2) (absurd rfl) (pin || found)
  | error e =>
    obtain ⟨same, rough⟩ := did
    rw [same]
    exact triple_removeFiles fit inside valid pre.1 pre.2 (some e) (fun none => by cases none) (fun _ => rough)
      (pin || false)

/-! ### The work after the commit -/

theorem triple_deleteLegacy (inside : id ∈ former roster members) :
    Triple o (Doing roster members d₀ deleted removed)
      (each kinds fun kind => delete fun d => { d with legacy := Files.put d.legacy kind id none })
      (fun _ => Doing roster members d₀ (deleted ++ [id]) removed) (Cut roster members d₀ o) := by
  refine triple_conseq (triple_each_done (I := fun done w => Doing roster members d₀ deleted removed w ∧
    ∀ kind ∈ done, w.disk.legacy kind id = none) fun done kind rest _ => ?_) (fun w doing => ⟨doing, nofun⟩)
    (fun _ w all => ?_) fun _ _ pre => pre
  · refine triple_whole (fun w pre => ?_) (fun rough e w pre => ?_) fun rough w pre => ?_
    · obtain ⟨doing, before⟩ := pre
      have shrunk : ∀ k i, w.disk.legacy k i = none → Files.put w.disk.legacy kind id none k i = none := by
        intro k i gone
        simp only [Files.put, gone, ite_self]
      refine ⟨⟨doing.toWorking.dropLegacy inside, doing.held, fun i member k => shrunk k i (doing.deletes i member k),
        fun i member => ?_⟩, fun k member => ?_⟩
      · obtain ⟨valid, gone⟩ := doing.removes i member
        exact ⟨valid, gone.photo, gone.pin, gone.files⟩
      · rcases List.mem_append.mp member with earlier | last
        · exact shrunk k id (before k earlier)
        · rw [List.mem_singleton.mp last]
          exact if_pos ⟨rfl, rfl⟩
    · exact ⟨.inl pre.1.toWorking, fun _ => pre.1.held, .inl rough⟩
    · exact ⟨.inl (pre.1.toWorking.dropLegacy inside), fun other => absurd rfl other, .inl rough⟩
  · refine ⟨all.1.toWorking, all.1.held, fun i member kind => ?_, all.1.removes⟩
    rcases List.mem_append.mp member with earlier | last
    · exact all.1.deletes i earlier kind
    · rw [List.mem_singleton.mp last]
      exact all.2 kind (mem_kinds kind)

theorem triple_removals (fit : Fit roster) : Triple o (Doing roster members d₀ deleted [])
    ((removals roster members).foldlM (fun removed id =>
      if (roster.person id).isNone then do return if ← removePerson id then removed ++ [id] else removed
      else return removed) [])
    (fun _ => Doing roster members d₀ deleted (removals roster members)) (Cut roster members d₀ o) := by
  refine triple_foldlM (I := fun done _ => Doing roster members d₀ deleted done) [] fun done id rest whole c => ?_
  have inside : id ∈ removals roster members := by simp [whole]
  have noone : (roster.person id).isNone = true := by
    have gone := not_stays inside
    simp only [stays, Bool.or_eq_false_iff] at gone
    rw [← Option.not_isSome, gone.2, Bool.not_false]
  rw [if_pos noone]
  exact triple_bind (triple_removePerson fit inside) fun _ => triple_pure fun _ pre => pre

/-- With all of the work done the record of it is deleted. -/
theorem Doing.finished (doing : Doing roster members d₀ (former roster members) (removals roster members) w)
    (ids : ∀ id ∈ former roster members, validMemberId id = true) :
    Finished roster members d₀ (onDisk (fun d => { d with live := d.live.map ({ · with pending := none }) }) w) := by
  obtain ⟨t, there⟩ := Option.isSome_iff_exists.mp doing.live
  have tree : (onDisk (fun d => { d with live := d.live.map ({ · with pending := none }) }) w).tree =
      { w.tree with pending := none } := by simp [World.tree, onDisk, there]
  refine ⟨⟨?_, doing.staging, ?_, doing.legacy, doing.photos, doing.pins, ?_⟩,
    ⟨ids, fun id member => (doing.removes id member).1⟩, ?_, doing.deletes, fun id member => ?_⟩
  · simp [onDisk, there]
  · rw [tree]
    exact doing.active
  · rw [tree]
    exact doing.files
  · rw [tree]
  · obtain ⟨-, gone⟩ := doing.removes id member
    refine ⟨gone.photo, gone.pin, ?_⟩
    rw [tree]
    exact gone.files

theorem triple_finish (fit : Fit roster) : Triple o (Doing roster members d₀ [] []) (finish roster)
    (fun _ w => Finished roster members d₀ w ∧ w.pins = w.disk.pins) (Cut roster members d₀ o) := by
  unfold finish
  refine triple_bind (Q := fun work w => work = some (pendingWork roster members) ∧ Doing roster members d₀ [] [] w)
    (triple_see (fun w doing => ⟨?_, doing⟩) fun rough _ w doing => ⟨.inl doing.toWorking, fun _ => doing.held, .inl rough⟩)
    fun work => triple_fact fun there => ?_
  · rw [← doing.pending]
    cases live : w.disk.live <;> simp [World.tree, live]
  subst there
  refine triple_unless (fun bad => absurd rfl bad) fun _ => triple_unless (fun bad w doing => ?_) fun good => ?_
  · refine ⟨.inl doing.toWorking, fun _ => doing.held, .inr fun valid => ?_⟩
    have all : (former roster members ++ removals roster members).all validMemberId = true := by
      rw [List.all_eq_true]
      intro id member
      rcases List.mem_append.mp member with inside | inside
      · exact valid.ids id inside
      · exact valid.ids id (List.mem_of_mem_filter inside)
    simp [pendingWork, all] at bad
  have ids : ∀ id ∈ former roster members, validMemberId id = true := by
    have all : (former roster members ++ removals roster members).all validMemberId = true := by
      simpa [pendingWork] using good
    exact fun id member => List.all_eq_true.mp all id (List.mem_append_left _ member)
  refine triple_bind (triple_each_done (I := fun done => Doing roster members d₀ done [])
    fun done id rest whole => triple_deleteLegacy ?_) fun _ => triple_bind (triple_removals fit) fun removed => ?_
  · have inside : id ∈ (pendingWork roster members).delete := by simp [whole]
    exact inside
  refine triple_bind (Q := fun _ w => Finished roster members d₀ w ∧ w.pins = w.disk.pins)
    (triple_whole (fun w doing => ⟨doing.finished ids, doing.held⟩)
      (fun rough e w doing => ⟨.inl doing.toWorking, fun _ => doing.held, .inl rough⟩)
      fun rough w doing => ⟨.inr (doing.finished ids), fun other => absurd rfl other, .inl rough⟩)
    fun _ => triple_pure fun _ pre => pre

/-! ### The migration -/

/-- Where an attempt begins: nothing committed, the work after it to go on, or all of it done. -/
inductive Ready (roster : Roster) (members : List String) (d₀ : Disk β) (w : World β) : Prop where
  | untouched (before : Untouched d₀ w)
  | working (working : Working roster members d₀ w) (held : w.pins = w.disk.pins)
  | finished (finished : Finished roster members d₀ w) (held : w.pins = w.disk.pins)

/-- Where an attempt that does not succeed ends. -/
def Ended (roster : Roster) (members : List String) (d₀ : Disk β) (o : Oracle Step (Fate β)) (e : Halt Trouble)
    (w : World β) : Prop := Rough d₀ o e w ∨ Cut roster members d₀ o e w

/-- The committed lineups are the staged ones. -/
theorem Copying.commit (copying : Copying d₀ (mainId roster) (staged d₀.legacy roster members) w)
    {since : ℕ} (t : Tree β) (there : w.disk.staging = some t) (pending : t.pending = some (pendingWork roster members))
    (active : t.active = some (mainId roster, since)) :
    Doing roster members d₀ [] [] (onDisk (fun d => { d with live := d.staging, staging := none }) w) := by
  have tree : (onDisk (fun d => { d with live := d.staging, staging := none }) w).tree = t := by
    simp [World.tree, onDisk, there]
  have holds := copying.holds
  have others := copying.others
  rw [there, Option.getD_some] at holds others
  refine ⟨⟨⟨?_, rfl, ⟨since, by rw [tree, active]⟩, fun kind id => .inl ?_, fun id => .inl ?_, fun id => .inl ?_,
    fun l kind id => .inl ?_⟩, by rw [tree, pending]⟩, copying.held, nofun, nofun⟩
  · simp [onDisk, there]
  · exact congrFun (congrFun copying.legacy kind) id
  · exact congrFun copying.photos id
  · exact congrFun copying.pins id
  · rw [tree, stagedFile]
    split
    · rename_i same
      rw [same, holds]
    · rename_i other
      rw [others l other]

/-- What the migration leaves to do is in the staging directory with its copies. -/
structure Staged (roster : Roster) (members : List String) (d₀ : Disk β) (now : Option ℕ) (w : World β) : Prop
    extends Copying d₀ (mainId roster) (staged d₀.legacy roster members) w where
  tree : ∃ t, w.disk.staging = some t ∧ t.pending = some (pendingWork roster members) ∧
    ∀ since ∈ now, t.active = some (mainId roster, since)

theorem triple_stagePending : Triple o (Copying d₀ (mainId roster) (staged d₀.legacy roster members))
    (stageTree fun _ t => { t with pending := some (pendingWork roster members) })
    (fun _ => Staged roster members d₀ none) (Rough d₀ o) :=
  triple_staging (fun _ pre => pre.toUntouched) fun _ pre =>
    ⟨⟨pre.stage _, pre.holds, pre.others⟩, _, rfl, rfl, nofun⟩

theorem triple_stageActive (now : ℕ) : Triple o (Staged roster members d₀ none)
    (stageTree fun _ t => { t with active := some (mainId roster, now) })
    (fun _ => Staged roster members d₀ (some now)) (Rough d₀ o) := by
  refine triple_staging (fun _ pre => pre.toUntouched) fun w pre => ⟨⟨pre.stage _, pre.holds, pre.others⟩, _, rfl, ?_, ?_⟩
  · obtain ⟨t, there, pending, -⟩ := pre.tree
    simpa [there] using pending
  · rintro since ⟨⟩
    rfl

theorem triple_commit (now : ℕ) : Triple o (Staged roster members d₀ (some now)) commit
    (fun _ => Doing roster members d₀ [] []) (Ended roster members d₀ o) := by
  have committed : ∀ w, Staged roster members d₀ (some now) w → Doing roster members d₀ [] []
      (onDisk (fun d => { d with live := d.staging, staging := none }) w) := by
    intro w pre
    obtain ⟨t, there, pending, active⟩ := pre.tree
    exact pre.toCopying.commit t there pending (active now rfl)
  refine triple_whole committed (fun rough _ w pre => .inl ⟨pre.toUntouched, rough⟩) fun rough w pre => .inr ?_
  exact ⟨.inl (committed w pre).toWorking, fun other => absurd rfl other, .inl rough⟩

/-- Nothing is left to do. -/
theorem triple_finish_done : Triple o (fun w => Finished roster members d₀ w ∧ w.pins = w.disk.pins) (finish roster)
    (fun _ w => Finished roster members d₀ w ∧ w.pins = w.disk.pins) (Cut roster members d₀ o) := by
  unfold finish
  refine triple_bind (Q := fun work w => work = none ∧ Finished roster members d₀ w ∧ w.pins = w.disk.pins)
    (triple_see (fun w all => ⟨?_, all⟩) fun rough _ w all => ⟨.inr all.1, fun _ => all.2, .inl rough⟩)
    fun work => triple_fact fun there => ?_
  · have done := all.1.pending
    cases live : w.disk.live with
    | none => rfl
    | some t =>
      simpa [World.tree, live] using done
  · subst there
    exact triple_pure fun _ pre => pre

theorem Committed.migrated (committed : Committed roster members d₀ w) :
    (w.disk.live.bind (·.active)).isSome = true := by
  obtain ⟨t, there⟩ := Option.isSome_iff_exists.mp committed.live
  obtain ⟨since, active⟩ := committed.active
  have same : t.active = some (mainId roster, since) := by simpa [World.tree, there] using active
  simp [there, same]

/-- From an empty staging directory on. -/
theorem triple_staged (sound : migrationProblems roster = []) (now : ℕ) :
    Triple o (Copying d₀ (mainId roster) fun _ _ => none) (do
      let moved ← (legacyMembers members).foldlM (copyOwn roster (mainId roster)) []
      let takenOver ← (takers roster).foldlM (takeOver (mainId roster)) []
      stageTree fun _ t => { t with pending := some (pendingWork roster members) }
      stageTree fun _ t => { t with active := some (mainId roster, now) }
      commit
      return ({ moved, takenOver, removed := ← finish roster } : Report))
      (fun _ w => Finished roster members d₀ w ∧ w.pins = w.disk.pins) (Ended roster members d₀ o) := by
  have cut : ∀ e w, Cut roster members d₀ o e w → Ended roster members d₀ o e w := fun _ _ => .inr
  have rough : ∀ e w, Rough d₀ o e w → Ended roster members d₀ o e w := fun _ _ => .inl
  refine triple_bind (triple_conseq (triple_foldlM (I := fun done _ =>
      Copying d₀ (mainId roster) (done.foldl (ownIn d₀.legacy roster) fun _ _ => none)) _ fun done id rest _ moved => ?_)
    (fun _ pre => pre) (fun _ _ pre => pre) rough) fun moved => ?_
  · rw [List.foldl_concat]
    exact triple_copyOwn moved id
  refine triple_bind (triple_conseq (triple_foldlM (I := fun done _ => Copying d₀ (mainId roster)
      (done.foldl (takeIn d₀.legacy) ((legacyMembers members).foldl (ownIn d₀.legacy roster) fun _ _ => none)))
      _ fun done taker rest _ taken => ?_)
    (fun _ pre => pre) (fun _ _ pre => pre) rough) fun taken => ?_
  · rw [List.foldl_concat]
    exact triple_takeOver taken taker
  refine triple_bind (triple_conseq triple_stagePending (fun _ pre => pre) (fun _ _ pre => pre) rough) fun _ =>
    triple_bind (triple_conseq (triple_stageActive now) (fun _ pre => pre) (fun _ _ pre => pre) rough) fun _ =>
    triple_bind (triple_commit now) fun _ =>
    triple_bind (triple_conseq (triple_finish (fit sound)) (fun _ pre => pre) (fun _ _ pre => pre) cut) fun _ =>
    triple_pure fun _ pre => pre

theorem triple_migrateLegacy (sound : migrationProblems roster = []) (now : ℕ) :
    Triple o (Ready roster members d₀) (migrateLegacy roster members now)
      (fun _ w => Finished roster members d₀ w ∧ w.pins = w.disk.pins) (Ended roster members d₀ o) := by
  have cut : ∀ e w, Cut roster members d₀ o e w → Ended roster members d₀ o e w := fun _ _ => .inr
  have rough : ∀ e w, Rough d₀ o e w → Ended roster members d₀ o e w := fun _ _ => .inl
  unfold migrateLegacy
  refine triple_bind (Q := fun migrated w => if migrated then
      (Doing roster members d₀ [] [] w ∨ Finished roster members d₀ w ∧ w.pins = w.disk.pins) else Untouched d₀ w)
    (triple_see (fun w ready => ?_) fun failing e w ready => ?_) fun migrated => ?_
  · cases ready with
    | untouched before =>
      rw [before.live]
      exact before
    | working working held =>
      rw [working.migrated]
      exact .inl ⟨working, held, nofun, nofun⟩
    | finished finished held =>
      rw [finished.migrated]
      exact .inr ⟨finished, held⟩
  · cases ready with
    | untouched before => exact .inl ⟨before, failing⟩
    | working working held => exact .inr ⟨.inl working, fun _ => held, .inl failing⟩
    | finished finished held => exact .inr ⟨.inr finished, fun _ => held, .inl failing⟩
  cases migrated with
  | true =>
    refine triple_bind (triple_conseq (triple_or (triple_finish (fit sound)) triple_finish_done) (fun _ pre => pre)
      (fun _ _ pre => pre) cut) fun _ => triple_pure fun _ pre => pre
  | false =>
    rw [if_neg Bool.false_ne_true]
    refine triple_unless (fun bad => ?_) fun _ => ?_
    · simp [sound] at bad
    refine triple_bind (Q := fun there w => there = false ∧ Untouched d₀ w)
      (triple_conseq (triple_seeing (fun _ pre => pre) fun w before => ⟨by rw [before.live]; rfl, before⟩)
        (fun _ pre => pre) (fun _ _ pre => pre) rough) fun there => triple_fact fun absent => ?_
    subst absent
    refine triple_unless (fun bad => absurd bad Bool.false_ne_true) fun _ => ?_
    refine triple_bind (Q := fun there w => (there = false → w.disk.staging = none) ∧ Untouched d₀ w)
      (triple_conseq (triple_seeing (fun _ pre => pre) fun w before =>
        ⟨fun no => by simpa using no, before⟩) (fun _ pre => pre) (fun _ _ pre => pre) rough) fun there => ?_
    cases there with
    | true =>
      refine triple_bind (triple_conseq (triple_staging (Q := fun _ => Copying d₀ (mainId roster) fun _ _ => none)
        (fun _ pre => pre.2) fun w pre => ?_) (fun _ pre => pre) (fun _ _ pre => pre) rough)
        fun _ => triple_staged sound now
      exact ⟨pre.2.stage none, rfl, fun _ _ => rfl⟩
    | false =>
      refine triple_pre (triple_staged sound now) fun w pre => ⟨pre.2, ?_, fun l _ => ?_⟩
      · rw [pre.1 rfl]
        rfl
      · rw [pre.1 rfl]
        rfl

/-! ### All the attempts -/

/-- Where the next attempt may begin: the first one, one after a failure, or one of a
process that started again. -/
inductive Attempts (roster : Roster) (members : List String) (d₀ : Disk β) : World β → Prop where
  | first : Attempts roster members d₀ ⟨d₀, d₀.pins⟩
  | failed {w : World β} (earlier : Attempts roster members d₀ w) {now clock : ℕ} {o : Oracle Step (Fate β)}
    {e : Trouble} {w' : Clocked (World β)}
    (ran : migrateLegacy roster members now o ⟨w, clock⟩ = .error (.error e) w') : Attempts roster members d₀ w'.world
  | restarted {w : World β} (earlier : Attempts roster members d₀ w) {now clock : ℕ} {o : Oracle Step (Fate β)}
    {halt : Halt Trouble} {w' : Clocked (World β)}
    (ran : migrateLegacy roster members now o ⟨w, clock⟩ = .error halt w') :
    Attempts roster members d₀ ⟨w'.world.disk, w'.world.disk.pins⟩

theorem Untouched.reload (before : Untouched d₀ w) : Untouched d₀ ⟨w.disk, w.disk.pins⟩ :=
  ⟨before.legacy, before.photos, before.pins, before.live, rfl⟩

theorem Committed.reload (committed : Committed roster members d₀ w) :
    Committed roster members d₀ ⟨w.disk, w.disk.pins⟩ :=
  ⟨committed.live, committed.staging, committed.active, committed.legacy, committed.photos, committed.pins,
    committed.files⟩

theorem Gone.reload (gone : Gone id w) : Gone id ⟨w.disk, w.disk.pins⟩ := ⟨gone.photo, gone.pin, gone.files⟩

theorem Ended.after_failure {e : Trouble} (ended : Ended roster members d₀ o (.error e) w) : Ready roster members d₀ w := by
  rcases ended with rough | ⟨working | finished, held, -⟩
  · exact .untouched rough.1
  · exact .working working (held nofun)
  · exact .finished finished (held nofun)

theorem Ended.after_restart {halt : Halt Trouble} (ended : Ended roster members d₀ o halt w) :
    Ready roster members d₀ ⟨w.disk, w.disk.pins⟩ := by
  rcases ended with rough | ⟨working | finished, -, -⟩
  · exact .untouched rough.1.reload
  · exact .working ⟨working.toCommitted.reload, working.pending⟩ rfl
  · exact .finished ⟨finished.toCommitted.reload, finished.valid, finished.pending, finished.deletes,
      fun id member => (finished.removes id member).reload⟩ rfl

theorem Attempts.ready (tries : Attempts roster members d₀ w) (legacyLayout : d₀.live = none)
    (sound : migrationProblems roster = []) : Ready roster members d₀ w := by
  induction tries with
  | first => exact .untouched ⟨rfl, rfl, rfl, legacyLayout, rfl⟩
  | failed earlier ran ih => exact Ended.after_failure (triple_error (triple_migrateLegacy sound _) ih ran)
  | restarted earlier ran ih => exact Ended.after_restart (triple_error (triple_migrateLegacy sound _) ih ran)

/-- The same files, but for the time the active lineup is active since. -/
structure SameFiles (d d' : Disk β) : Prop where
  legacy : d.legacy = d'.legacy
  photos : d.photos = d'.photos
  pins : d.pins = d'.pins
  staging : d.staging.isSome = d'.staging.isSome
  pending : d.live.map (·.pending) = d'.live.map (·.pending)
  active : d.live.map (·.active.map Prod.fst) = d'.live.map (·.active.map Prod.fst)
  files : ∀ lineup, (d.live.getD {}).file lineup = (d'.live.getD {}).file lineup

/-- What the work makes of a thing is settled: nothing, or what there was. -/
theorem settled {γ : Type} {gone : Prop} {x y z nothing : γ} (here : x = z ∨ x = nothing ∧ gone)
    (there : y = z ∨ y = nothing ∧ gone) (done : gone → x = nothing ∧ y = nothing) : x = y := by
  rcases here with same | ⟨-, is⟩
  · rcases there with same' | ⟨-, is⟩
    · rw [same, same']
    · rw [(done is).1, (done is).2]
  · rw [(done is).1, (done is).2]

theorem Finished.same {w' : World β} (finished : Finished roster members d₀ w) (finished' : Finished roster members d₀ w') :
    SameFiles w.disk w'.disk := by
  obtain ⟨t, live⟩ := Option.isSome_iff_exists.mp finished.live
  obtain ⟨t', live'⟩ := Option.isSome_iff_exists.mp finished'.live
  obtain ⟨since, active⟩ := finished.active
  obtain ⟨since', active'⟩ := finished'.active
  have pending := finished.pending
  have pending' := finished'.pending
  simp only [World.tree, live, live', Option.getD_some] at active active' pending pending'
  refine ⟨?_, ?_, ?_, by rw [finished.staging, finished'.staging], by simp [live, live', pending, pending'],
    by simp [live, live', active, active'], fun lineup => ?_⟩
  · funext kind id
    exact settled (finished.legacy kind id) (finished'.legacy kind id) fun is =>
      ⟨finished.deletes id is kind, finished'.deletes id is kind⟩
  · funext id
    exact settled (finished.photos id) (finished'.photos id) fun is =>
      ⟨(finished.removes id is).photo, (finished'.removes id is).photo⟩
  · funext id
    exact settled (finished.pins id) (finished'.pins id) fun is =>
      ⟨(finished.removes id is).pin, (finished'.removes id is).pin⟩
  · funext kind id
    exact settled (finished.files lineup kind id) (finished'.files lineup kind id) fun is =>
      ⟨(finished.removes id is).files lineup kind, (finished'.removes id is).files lineup kind⟩

/-- One who stays has their own files and then those of whom they take over. -/
theorem Finished.stays (finished : Finished roster members d₀ w) (fit : Fit roster) (stay : stays roster id = true)
    (kind : Kind) : w.tree.file (mainId roster) kind id = (own d₀.legacy members kind id).or
      (((roster.person id).bind (·.takesOver)).bind (d₀.legacy kind)) := by
  have taken : (takers roster).lookup id = (roster.person id).bind (·.takesOver) := by
    cases found : roster.person id with
    | some p =>
      have named : p.id = id := by simpa using List.find?_some found
      rw [← named]
      exact lookup_takers fit.once (List.mem_of_find?_eq_some found)
    | none =>
      refine lookup_absent fun person => ?_
      obtain ⟨p, member, rfl⟩ := List.mem_map.mp person
      simpa using List.find?_eq_none.mp found p member
  have kept : w.tree.file (mainId roster) kind id = stagedFile roster members d₀ (mainId roster) kind id := by
    rcases finished.files (mainId roster) kind id with same | ⟨-, gone⟩
    · exact same
    · rw [not_stays gone] at stay
      cases stay
  rw [kept, stagedFile, if_pos rfl, staged_stays fit kind stay, taken]

/-- Once done, the migration changes nothing. -/
theorem triple_again (finished : Finished roster members d₀ w) (now : ℕ) : Triple o (· = w)
    (migrateLegacy roster members now) (fun _ => (· = w)) (fun _ => (· = w)) := by
  unfold migrateLegacy finish
  refine triple_bind (Q := fun migrated w' => migrated = true ∧ w' = w)
    (triple_see (fun w' same => ⟨by rw [same]; exact finished.migrated, same⟩) fun _ _ _ same => same)
    fun migrated => triple_fact fun is => ?_
  subst is
  refine triple_bind (triple_bind (Q := fun work w' => work = none ∧ w' = w)
    (triple_see (fun w' same => ⟨?_, same⟩) fun _ _ _ same => same) fun work => triple_fact fun there => ?_)
    fun _ => triple_pure fun _ pre => pre
  · rw [same]
    have done := finished.pending
    cases live : w.disk.live with
    | none => rfl
    | some t => simpa [World.tree, live] using done
  · subst there
    exact triple_pure fun _ pre => pre

/-- Whatever stops or fails, the attempt that succeeds leaves the files that one alone would
have: those who stay have their own and then those of whom they take over, nothing is left
of the former members who are no person, and one more attempt changes nothing. -/
theorem migrateLegacy_crash_safe (legacyLayout : d₀.live = none) (sound : migrationProblems roster = [])
    (tries : Attempts roster members d₀ w) {now clock : ℕ} {report : Report} {after : Clocked (World β)}
    (success : migrateLegacy roster members now o ⟨w, clock⟩ = .ok report after) :
    (∀ now' clock', ∃ report' alone,
      migrateLegacy roster members now' (fun _ _ => .done) ⟨⟨d₀, d₀.pins⟩, clock'⟩ = .ok report' alone ∧
        SameFiles after.world.disk alone.world.disk) ∧
    (∀ id kind, stays roster id = true → after.world.tree.file (mainId roster) kind id =
      (own d₀.legacy members kind id).or (((roster.person id).bind (·.takesOver)).bind (d₀.legacy kind))) ∧
    (∀ id ∈ former roster members, stays roster id = false →
      Gone id after.world ∧ ∀ kind, after.world.disk.legacy kind id = none) ∧
    ∀ (o' : Oracle Step (Fate β)) (now' clock' : ℕ),
      match migrateLegacy roster members now' o' ⟨after.world, clock'⟩ with
      | .ok _ again => again.world = after.world
      | .error _ again => again.world = after.world := by
  have fit := fit sound
  have finished := (triple_ok (triple_migrateLegacy sound now) (tries.ready legacyLayout sound) success).1
  refine ⟨fun now' clock' => ?_, fun id kind stay => finished.stays fit stay kind, fun id inside out => ?_,
    fun o' now' clock' => ?_⟩
  · have smooth : Smooth (β := β) fun _ _ => .done := fun _ _ => rfl
    have alone := triple_migrateLegacy (o := fun _ _ => .done) sound now' ⟨⟨d₀, d₀.pins⟩, clock'⟩
      ((Attempts.first : Attempts roster members d₀ _).ready legacyLayout sound)
    cases ran : migrateLegacy roster members now' (fun _ _ => .done) ⟨⟨d₀, d₀.pins⟩, clock'⟩ with
    | ok report' w' =>
      rw [ran] at alone
      exact ⟨report', w', rfl, finished.same alone.1⟩
    | error e w' =>
      rw [ran] at alone
      rcases alone with rough | ⟨-, -, rough | invalid⟩
      · exact absurd smooth rough.2
      · exact absurd smooth rough
      · exact absurd finished.valid invalid
  · have gone : id ∈ removals roster members := by simp [removals, inside, out]
    exact ⟨finished.removes id gone, finished.deletes id inside⟩
  · have again := triple_again (o := o') finished now' ⟨after.world, clock'⟩ rfl
    cases ran : migrateLegacy roster members now' o' ⟨after.world, clock'⟩ with
    | ok _ w' =>
      rw [ran] at again
      exact again
    | error _ w' =>
      rw [ran] at again
      exact again

end

end

/-! ### Nina for Bob -/

/-- Nina plays for Bob now. -/
def replaced : Roster where
  lineups := [{ id := "main", main := true, name := "Main", sets := .ofList [("left", "anna"), ("right", "nina")] }]
  people := [{ id := "anna", name := "Anna" }, { id := "nina", name := "Nina", takesOver := some "bob" }]

/-- Anna's and Bob's presets and Bob's photo, and presets of Nina's from when she was a member. -/
def oldConfig : Disk String where
  legacy kind id := if kind = .presets then [("anna", "hers"), ("bob", "his"), ("nina", "old")].lookup id else none
  photos id := id == "bob"
  pins _ := none

theorem replaced_sound : migrationProblems replaced = [] := by decide +kernel

/-- The first attempt ends with its commit. -/
def cutAtCommit : Oracle Step (Fate String) := fun _ op => match op with
  | .commit => .stopped true none
  | _ => .done

/-- A second attempt finishes the first. -/
theorem migrateLegacy_crash_safe_nina : ∃ (cut after : Clocked (World String)) (report : Report),
    migrateLegacy replaced ["anna", "bob"] 5 cutAtCommit ⟨⟨oldConfig, oldConfig.pins⟩, 0⟩ = .error .stopped cut ∧
      migrateLegacy replaced ["anna", "bob"] 6 (fun _ _ => .done) ⟨⟨cut.world.disk, cut.world.disk.pins⟩, 0⟩ =
        .ok report after ∧
      after.world.tree.file "main" .presets "anna" = some "hers" ∧ Gone "bob" after.world := by
  have facts : stopsWith (fun cut => returnsWith (fun _ _ => true)
      (migrateLegacy replaced ["anna", "bob"] 6 (fun _ _ => .done) ⟨⟨cut.world.disk, cut.world.disk.pins⟩, 0⟩))
      (migrateLegacy replaced ["anna", "bob"] 5 cutAtCommit ⟨⟨oldConfig, oldConfig.pins⟩, 0⟩) = true := by
    decide +kernel
  obtain ⟨cut, ran, again⟩ := of_stopsWith facts
  obtain ⟨report, after, again, -⟩ := of_returnsWith again
  obtain ⟨-, files, gone, -⟩ := migrateLegacy_crash_safe rfl replaced_sound (.restarted .first ran) again
  refine ⟨cut, after, report, ran, again, ?_, (gone "bob" ?_ ?_).1⟩
  · have main : mainId replaced = "main" := by decide +kernel
    rw [← main, files "anna" .presets (by decide +kernel)]
    decide +kernel
  · decide +kernel
  · decide +kernel

/-- Who is no legacy member any more but still has a file there gets another's in its place. -/
theorem own_file_not_moved : ∃ (report : Report) (after : Clocked (World String)),
    migrateLegacy replaced ["anna", "bob"] 5 (fun _ _ => .done) ⟨⟨oldConfig, oldConfig.pins⟩, 0⟩ = .ok report after ∧
      migrationProblems replaced = [] ∧ stays replaced "nina" = true ∧ oldConfig.live = none ∧
      oldConfig.legacy .presets "nina" = some "old" ∧
      after.world.tree.file (mainId replaced) .presets "nina" = some "his" := by
  have facts : returnsWith (fun _ after => after.world.tree.file (mainId replaced) .presets "nina" == some "his")
      (migrateLegacy replaced ["anna", "bob"] 5 (fun _ _ => .done) ⟨⟨oldConfig, oldConfig.pins⟩, 0⟩) = true := by
    decide +kernel
  obtain ⟨report, after, ran, his⟩ := of_returnsWith facts
  exact ⟨report, after, ran, replaced_sound, by decide +kernel, rfl, by decide +kernel, beq_iff_eq.mp his⟩

end IemMixer.Server.Migration
