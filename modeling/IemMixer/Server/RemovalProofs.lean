import IemMixer.Persist.NamesProofs
import IemMixer.Server.PinProofs
import IemMixer.Server.Removal

/-! A person's removal is complete and can be repeated: what one leaves behind, wherever it
failed or stopped, is found by the looks that start the next. -/
namespace IemMixer.Server.Removal
open Lib Lib.Process
open Migration (Kind kinds)

section
variable {β : Type}

/-- The photo, or a lineup's file. -/
def Path.IsOf (id : String) : Path → Prop
  | .photo name => name = photoOf id
  | .file lineup _ name => validLineupId lineup = true ∧ name = fileOf id
  | .loose _ => False

theorem kinds_all (kind : Kind) : kind ∈ kinds := by
  cases kind <;> simp [kinds]

theorem stemOf_name {id ext : String} (person : validPersonId id = true) : stemOf ext (id ++ "." ++ ext) = some id := by
  have dotted : Persist.stripTail ext.toList (id ++ "." ++ ext).toList = some (id.toList ++ ['.']) := by
    rw [String.toList_append, String.toList_append]
    exact Persist.stripTail_append ..
  unfold stemOf
  rw [dotted]
  simp [person]

theorem fileOf_eq (id : String) : fileOf id = id ++ "." ++ "json" := by
  rw [String.append_assoc]
  rfl

namespace Disk

variable (d : Disk β)

theorem folder_insert (lineup l : String) (entry : Entry β) (kind : Kind) :
    folder { d with lineups := d.lineups.insert lineup entry } l kind =
      if lineup = l then (match entry with
        | .dir files => files kind
        | .file _ => ∅) else d.folder l kind := by
  unfold folder
  simp only [BTreeMap.getElem?_insert_eq]
  by_cases same : lineup = l
  · simp only [if_pos same]
    cases entry <;> rfl
  · simp only [if_neg same]

omit d in
private theorem absent_ite {d : Disk β} {p q : Path} (absent : p = q → d.content q = none) :
    (if p = q then none else d.content q) = d.content q := by
  split
  · rename_i same
    exact (absent same).symm
  · rfl

/-- One file less. -/
theorem content_erase (p q : Path) : (d.erase p).content q = if p = q then none else d.content q := by
  cases p with
  | photo name =>
    cases q with
    | photo other => simp [erase, content, BTreeMap.getElem?_erase_eq]
    | file | loose => simp [erase, content, folder]
  | file lineup kind name =>
    rcases there : d.lineups[lineup]? with _ | c | files
    · simp only [erase, there]
      exact (absent_ite fun at_q => by simp [← at_q, content, folder, there]).symm
    · simp only [erase, there]
      exact (absent_ite fun at_q => by simp [← at_q, content, folder, there]).symm
    · simp only [erase, there]
      cases q with
      | photo other => simp [content]
      | file l k n =>
        simp only [content, folder_insert, Path.file.injEq]
        by_cases dir : lineup = l
        · subst dir
          have now : d.folder lineup k = files k := by simp [folder, there]
          by_cases same : kind = k
          · subst same
            simp [BTreeMap.getElem?_erase_eq, now]
          · simp [Function.update_of_ne (Ne.symm same), same, now]
        · simp [dir]
      | loose other =>
        simp only [content, BTreeMap.getElem?_insert_eq]
        by_cases dir : lineup = other
        · subst dir
          simp [there]
        · simp [dir]
  | loose name =>
    rcases there : d.lineups[name]? with _ | c | files
    · simp only [erase, there]
      exact (absent_ite fun at_q => by simp [← at_q, content, there]).symm
    · simp only [erase, there]
      cases q with
      | photo other => simp [content]
      | file l k n =>
        simp only [content, folder, BTreeMap.getElem?_erase_eq]
        by_cases dir : name = l
        · subst dir
          simp [there]
        · simp [dir]
      | loose other =>
        simp only [content, BTreeMap.getElem?_erase_eq, Path.loose.injEq]
        by_cases dir : name = other
        · simp [dir]
        · simp [dir]
    · simp only [erase, there]
      exact (absent_ite fun at_q => by simp [← at_q, content, there]).symm

omit d in
theorem isDir_of_has {d : Disk β} {l name : String} {kind : Kind} (there : d.has (.file l kind name) = true) :
    d.isDir l = true := by
  rcases found : d.lineups[l]? with _ | c | files
  · simp [has, content, folder, found] at there
  · simp [has, content, folder, found] at there
  · simp [isDir, found]

theorem has_of_erase {p q : Path} (left : (d.erase p).has q = true) : d.has q = true := by
  unfold has at left ⊢
  rw [content_erase] at left
  split at left
  · cases left
  · exact left

theorem lacks_erase {p q : Path} (lacks : d.has q = false) : (d.erase p).has q = false := by
  refine Bool.eq_false_iff.mpr fun left => ?_
  exact Bool.false_ne_true (lacks.symm.trans (d.has_of_erase left))

end Disk

/-- No step fails, and none is the last. -/
def Smooth (o : Oracle Step Fate) : Prop := ∀ t op, o t op = .done

section
variable {α : Type} {o : Oracle Step Fate} {P : Assertion (World β)} {E : Halt PinError → Assertion (World β)}

theorem triple_see {see : Disk β → α} {Q : α → Assertion (World β)} (post : ∀ w, P w → Q (see w.disk) w)
    (halt : ¬Smooth o → ∀ e w, P w → E e w) : Triple o P (look see) Q E := by
  refine triple_step fun t w pre => ?_
  cases fate : o t .look with
  | done => exact post w pre
  | failed text => exact halt (fun smooth => by simp [smooth t] at fate) _ w pre
  | stopped happened => exact halt (fun smooth => by simp [smooth t] at fate) _ w pre

theorem triple_whole {op : Step} {f : World β → World β} {Q : Unit → Assertion (World β)}
    (post : ∀ w, P w → Q () (f w)) (halt : ¬Smooth o → ∀ e w, P w → E e w)
    (late : ¬Smooth o → ∀ w, P w → E .stopped (f w)) : Triple o P (whole op f) Q E := by
  refine triple_step fun t w pre => ?_
  cases fate : o t op with
  | done => exact post w pre
  | failed text => exact halt (fun smooth => by simp [smooth t] at fate) _ w pre
  | stopped happened =>
    have rough : ¬Smooth o := fun smooth => by simp [smooth t] at fate
    cases happened with
    | false => exact halt rough _ w pre
    | true => exact late rough w pre

variable {w : World β}

/-- A run of looks alone. -/
abbrev Looks (o : Oracle Step Fate) (w : World β) (m : RemovalM β α) (Q : α → Prop) : Prop :=
  Triple o (· = w) m (fun a w' => Q a ∧ w' = w) fun _ w' => ¬Smooth o ∧ w' = w

theorem looks_look (see : Disk β → α) {Q : α → Prop} (post : Q (see w.disk)) : Looks o w (look see) Q := by
  refine triple_see ?_ fun rough _ _ same => ⟨rough, same⟩
  rintro _ rfl
  exact ⟨post, rfl⟩

theorem looks_bind {γ : Type} {m : RemovalM β α} {f : α → RemovalM β γ} {Q : α → Prop} {R : γ → Prop}
    (first : Looks o w m Q) (next : ∀ a, Q a → Looks o w (f a) R) : Looks o w (m >>= f) R :=
  triple_bind first fun a => triple_fact fun seen => next a seen

theorem looks_pure {a : α} {Q : α → Prop} (post : Q a) : Looks o w (pure a : RemovalM β α) Q :=
  triple_pure fun _ same => ⟨post, same⟩

/-- A loop of looks, with an invariant of what it went through. -/
theorem looks_foldlM {γ : Type} {xs : List α} {g : γ → α → RemovalM β γ} (I : List α → γ → Prop) {c : γ}
    (start : I [] c) (one : ∀ done x, ∀ c, I done c → Looks o w (g c x) (I (done ++ [x]))) : Looks o w (xs.foldlM g c) (I xs) := by
  refine triple_pre (triple_foldlM (I := fun done c w' => I done c ∧ w' = w) c fun done x rest _ c => ?_)
    fun _ same => ⟨start, same⟩
  exact triple_fact fun before => one done x c before

/-- Looks where all that is known is `P`. -/
theorem triple_looks {m : RemovalM β α} {Q : World β → α → Prop} (looks : ∀ w, Looks o w m (Q w)) :
    Triple o P m (fun a w => Q w a ∧ P w) fun _ w => ¬Smooth o ∧ P w := by
  intro w pre
  have inner := looks w.world w rfl
  cases run : m o w with
  | ok a w' =>
    rw [run] at inner
    exact ⟨inner.2 ▸ inner.1, inner.2 ▸ pre⟩
  | error e w' =>
    rw [run] at inner
    exact ⟨inner.1, inner.2 ▸ pre⟩

theorem looks_lineupDirs : Looks o w lineupDirs
    (fun dirs => ∀ l, l ∈ dirs ↔ validLineupId l = true ∧ w.disk.isDir l = true) := by
  refine looks_look _ fun l => ?_
  rw [List.mem_filter, Bool.and_eq_true, and_iff_right_iff_imp]
  rintro ⟨-, dir⟩
  unfold Disk.isDir at dir
  rw [BTreeMap.mem_keys_iff]
  cases there : w.disk.lineups[l]? with
  | none => simp [there] at dir
  | some entry => exact ⟨entry, rfl⟩

theorem mem_insertAll {ids : List String} {out : BTreeSet String} {id : String} :
    id ∈ ids.foldl (·.insert ·) out ↔ id ∈ ids ∨ id ∈ out := by
  induction ids generalizing out with
  | nil => simp
  | cons x rest ih =>
    rw [List.foldl_cons, ih, Std.ExtTreeSet.mem_insert, Std.compare_eq_iff_eq, List.mem_cons, eq_comm (a := x)]
    tauto

theorem looks_stems (list : Disk β → List String) (ext : String) (out : BTreeSet String) :
    Looks o w (stems list ext out) fun out' =>
      (∀ id ∈ out, id ∈ out') ∧ ∀ name ∈ list w.disk, ∀ id, stemOf ext name = some id → id ∈ out' := by
  refine looks_bind (looks_look list (Q := (· = list w.disk)) rfl) ?_
  rintro _ rfl
  refine looks_pure ⟨fun id before => mem_insertAll.mpr (.inr before), fun name member id stem => ?_⟩
  exact mem_insertAll.mpr (.inl (List.mem_filterMap.mpr ⟨name, member, stem⟩))

/-- Whoever has a photo or a file is found. -/
theorem looks_heldIds : Looks o w heldIds fun out =>
    ∀ id p, validPersonId id = true → p.IsOf id → w.disk.has p = true → id ∈ out := by
  refine looks_bind (looks_stems (·.photos.keys) photoExt ∅) fun photos ⟨_, found⟩ => ?_
  refine looks_bind looks_lineupDirs fun dirs listed => ?_
  refine triple_conseq (looks_foldlM (fun done out => (∀ id ∈ photos, id ∈ out) ∧ ∀ l ∈ done, ∀ kind, ∀ name ∈
      (w.disk.folder l kind).keys, ∀ id, stemOf "json" name = some id → id ∈ out) ⟨fun _ => id, by simp⟩ ?_)
    (fun _ same => same) ?_ fun _ _ cut => cut
  · intro done l out ⟨kept, before⟩
    refine triple_conseq (looks_foldlM (fun kinds out' => (∀ id ∈ out, id ∈ out') ∧ ∀ kind ∈ kinds, ∀ name ∈
      (w.disk.folder l kind).keys, ∀ id, stemOf "json" name = some id → id ∈ out') ⟨fun _ => id, by simp⟩ ?_)
      (fun _ same => same) ?_ fun _ _ cut => cut
    · intro ks kind out' ⟨kept', before'⟩
      refine triple_conseq (looks_stems _ "json" out') (fun _ same => same) ?_ fun _ _ cut => cut
      rintro out'' _ ⟨⟨kept'', new⟩, same⟩
      refine ⟨⟨fun id member => kept'' id (kept' id member), fun k member name there id stem => ?_⟩, same⟩
      rcases List.mem_append.mp member with member | member
      · exact kept'' id (before' k member name there id stem)
      · obtain rfl := List.mem_singleton.mp member
        exact new name there id stem
    · rintro out' _ ⟨⟨kept', all⟩, same⟩
      refine ⟨⟨fun id member => kept' id (kept id member), fun l' member kind name there id stem => ?_⟩, same⟩
      rcases List.mem_append.mp member with member | member
      · exact kept' id (before l' member kind name there id stem)
      · obtain rfl := List.mem_singleton.mp member
        exact all kind (kinds_all kind) name there id stem
  · rintro out _ ⟨⟨kept, all⟩, same⟩
    refine ⟨fun id p person own there => ?_, same⟩
    cases p with
    | photo name =>
      obtain rfl : name = photoOf id := own
      have listed : photoOf id ∈ w.disk.photos.keys := (BTreeMap.mem_keys_iff _ _).mpr (Option.isSome_iff_exists.mp there)
      exact kept id (found _ listed id (stemOf_name person))
    | file l kind name =>
      obtain ⟨lineup, rfl⟩ := own
      have named : stemOf "json" (fileOf id) = some id := by
        rw [fileOf_eq]
        exact stemOf_name person
      refine all l ((listed l).mpr ⟨lineup, Disk.isDir_of_has there⟩) kind (fileOf id) ?_ id named
      exact (BTreeMap.mem_keys_iff _ _).mpr (Option.isSome_iff_exists.mp there)
    | loose name => cases own

/-- Every file of theirs in a lineup. -/
theorem looks_filesOf (id : String) : Looks o w (filesOf id) fun files =>
    ∀ l kind, (l, kind) ∈ files ↔ validLineupId l = true ∧ w.disk.has (.file l kind (fileOf id)) = true := by
  refine looks_bind looks_lineupDirs fun dirs listed => ?_
  refine triple_conseq (looks_foldlM (fun done out => ∀ l kind, (l, kind) ∈ out ↔
      l ∈ done ∧ w.disk.has (.file l kind (fileOf id)) = true) (by simp) ?_)
    (fun _ same => same) ?_ fun _ _ cut => cut
  · intro done l out before
    refine triple_conseq (looks_foldlM (fun ks out' => ∀ l' kind, (l', kind) ∈ out' ↔ (l', kind) ∈ out ∨
      l' = l ∧ kind ∈ ks ∧ w.disk.has (.file l kind (fileOf id)) = true) (by simp) ?_)
      (fun _ same => same) ?_ fun _ _ cut => cut
    · intro ks kind out' before'
      refine looks_bind (looks_look _ (Q := (· = w.disk.has (.file l kind (fileOf id)))) rfl) ?_
      rintro _ rfl
      refine looks_pure fun l' k => ?_
      cases there : w.disk.has (.file l kind (fileOf id)) with
      | true =>
        simp only [if_true, List.mem_append, before', List.mem_singleton, Prod.mk.injEq]
        grind
      | false =>
        simp only [Bool.false_eq_true, if_false, List.mem_append, before', List.mem_singleton]
        grind
    · rintro out' _ ⟨all, same⟩
      refine ⟨fun l' kind => ?_, same⟩
      have every := kinds_all kind
      simp only [all, before, List.mem_append, List.mem_singleton]
      grind
  · rintro out _ ⟨all, same⟩
    refine ⟨fun l kind => ?_, same⟩
    rw [all, listed]
    exact ⟨fun ⟨dir, there⟩ => ⟨dir.1, there⟩, fun ⟨lineup, there⟩ => ⟨⟨lineup, Disk.isDir_of_has there⟩, there⟩⟩

end

/-- Memory and the PIN file have the same hashes in use. -/
def World.Saved (w : World β) : Prop :=
  w.pins.disk.members = w.pins.file.members ∧ w.pins.disk.engineer = w.pins.file.engineer

/-- Nothing of anybody but `id` changed; the archived hashes are as they were in the file, or
none. -/
structure Kept (id : String) (w w' : World β) : Prop where
  files : ∀ p : Path, ¬p.IsOf id → w'.disk.content p = w.disk.content p
  hashes : ∀ other ≠ id, w'.pins.memberHash other = w.pins.memberHash other
  engineer : w'.pins.file.engineer = w.pins.file.engineer
  archived : w'.pins.disk.archived = w.pins.disk.archived ∨ w'.pins.disk.archived = ∅
  saved : w'.Saved

/-- The world the next try finds. -/
def afterHalt (e : Halt PinError) (w : World β) : World β := match e with
  | .stopped => w.restart
  | .error _ => w

/-- Where a removal that halts leaves: nothing of anybody else changed, and a step failed, or
the id is no person's. -/
structure Halted (id : String) (o : Oracle Step Fate) (w : World β) (e : Halt PinError) (w' : World β) : Prop where
  kept : Kept id w (afterHalt e w')
  rough : Smooth o → validPersonId id = true → id = engineerId

section
variable {id : String} {o : Oracle Step Fate} {w w' : World β}

theorem Kept.refl (saved : w.Saved) : Kept id w w :=
  ⟨fun _ _ => rfl, fun _ _ => rfl, rfl, .inl rfl, saved⟩

theorem Kept.restart (kept : Kept id w w') : Kept id w w'.restart where
  files := kept.files
  hashes other apart := by
    rw [← kept.hashes other apart]
    exact congrArg (·[other]?) kept.saved.1
  engineer := kept.saved.2.trans kept.engineer
  archived := kept.archived
  saved := ⟨rfl, rfl⟩

theorem Kept.halted (kept : Kept id w w') (e : Halt PinError) (rough : ¬Smooth o) : Halted id o w e w' := by
  refine ⟨?_, fun smooth => absurd smooth rough⟩
  cases e with
  | stopped => exact kept.restart
  | error e => exact kept

/-- A file of theirs deleted. -/
theorem Kept.erase (kept : Kept id w w') {p : Path} (own : p.IsOf id) :
    Kept id w { w' with disk := w'.disk.erase p } where
  files q other := by
    rw [Disk.content_erase, if_neg fun same => other (by rwa [← same])]
    exact kept.files q other
  hashes := kept.hashes
  engineer := kept.engineer
  archived := kept.archived
  saved := kept.saved

/-- Their hash taken out, and the file written. -/
theorem Kept.written (kept : Kept id w w') : Kept id w { w' with pins := (w'.pins.withMember id none).written } where
  files := kept.files
  hashes other apart := by
    refine Eq.trans ?_ (kept.hashes other apart)
    exact (BTreeMap.getElem?_erase_eq ..).trans (if_neg (Ne.symm apart))
  engineer := kept.engineer
  archived := .inr rfl
  saved := ⟨rfl, rfl⟩

theorem checkMember_ok (person : validPersonId id = true) (human : id ≠ engineerId) : checkMember id = .ok () := by
  have member : validMemberId id = true := by
    unfold validPersonId at person
    exact (Bool.and_eq_true _ _ ▸ person).1
  simp [checkMember, member, human]

theorem triple_removeMember (saved : w.Saved) (person : validPersonId id = true) : Triple o (· = w) (removeMember id)
    (fun _ w' => Kept id w w' ∧ w'.pins.memberHash id = none) (Halted id o w) := by
  unfold removeMember
  cases check : checkMember id with
  | error e =>
    refine triple_fail ?_
    rintro _ rfl
    refine ⟨.refl saved, fun _ _ => ?_⟩
    by_contra human
    rw [checkMember_ok person human] at check
    cases check
  | ok =>
    refine triple_bind (triple_look (Q := fun pins w' => pins = w.pins ∧ w' = w) ?_) fun pins => triple_fact ?_
    · rintro _ rfl
      exact ⟨rfl, rfl⟩
    rintro rfl
    cases held : w.pins.memberHash id with
    | none =>
      refine triple_pure ?_
      rintro _ rfl
      exact ⟨.refl saved, held⟩
    | some old =>
      let taken : World β := { w with pins := w.pins.withMember id none }
      have back : { taken with pins := taken.pins.withMember id (some old) } = w := by
        rw [← held]
        exact congrArg (World.mk w.disk) (PinStore.withMember_back none)
      have saves : Triple o (· = taken) savePins (fun _ w' => w' = { taken with pins := taken.pins.written })
          fun e w' => ¬Smooth o ∧ match e with
            | .stopped => Kept id w w'.restart
            | .error _ => w' = taken := by
        refine triple_whole ?_ (fun rough e => ?_) fun rough => ?_
        · rintro _ rfl
          rfl
        · rintro _ rfl
          refine ⟨rough, ?_⟩
          cases e with
          | stopped => exact (Kept.refl saved).restart
          | error e => rfl
        · rintro _ rfl
          exact ⟨rough, (Kept.refl saved).written.restart⟩
      refine triple_bind (triple_change (Q := fun _ w' => w' = taken) ?_) fun _ => ?_
      · rintro _ rfl
        rfl
      refine triple_bind (triple_attempt saves fun _ cut => ⟨cut.2, fun smooth => absurd smooth cut.1⟩) fun result => ?_
      cases result with
      | ok =>
        refine triple_pure ?_
        rintro _ rfl
        exact ⟨(Kept.refl saved).written, (BTreeMap.getElem?_erase_eq ..).trans (if_pos rfl)⟩
      | error e =>
        refine triple_bind (triple_change (Q := fun _ w' => ¬Smooth o ∧ w' = w) ?_) fun _ => triple_fail ?_
        · rintro _ ⟨rough, rfl⟩
          exact ⟨rough, back⟩
        · rintro _ ⟨rough, rfl⟩
          exact (Kept.refl saved).halted _ rough

/-- Their hash is out. -/
structure Out (id : String) (w w' : World β) : Prop where
  kept : Kept id w w'
  hash : w'.pins.memberHash id = none

theorem Out.erase (out : Out id w w') {p : Path} (own : p.IsOf id) : Out id w { w' with disk := w'.disk.erase p } :=
  ⟨out.kept.erase own, out.hash⟩

/-- A step failed where `P` holds, and left it so, or was the last. -/
def Cut (id : String) (o : Oracle Step Fate) (w : World β) (P : World β → Prop) (e : Halt PinError) (w' : World β) :
    Prop :=
  ¬Smooth o ∧ match e with
    | .stopped => Kept id w w'.restart
    | .error _ => P w'

section
variable {P : World β → Prop} {α : Type}

theorem triple_tried {m : RemovalM β α} {Q : α → World β → Prop} (tries : Triple o P m Q (Cut id o w P)) :
    Triple o P (attempt m : RemovalM β (Except PinError α)) (fun r w' => match r with
      | .ok a => Q a w'
      | .error _ => ¬Smooth o ∧ P w') (Halted id o w) := by
  refine triple_conseq (triple_attempt tries fun _ cut => ⟨cut.2, fun smooth => absurd smooth cut.1⟩)
    (fun _ pre => pre) (fun r w' held => ?_) fun _ _ cut => cut
  cases r with
  | ok a => exact held
  | error e => exact held

variable (out : ∀ w', P w' → Out id w w')
include out

theorem cut_of (rough : ¬Smooth o) (e : Halt PinError) (w' : World β) (pre : P w') : Cut id o w P e w' := by
  refine ⟨rough, ?_⟩
  cases e with
  | stopped => exact (out w' pre).kept.restart
  | error e => exact pre

theorem triple_delete {p : Path} (own : p.IsOf id) {Q : Unit → World β → Prop}
    (post : ∀ w', P w' → Q () { w' with disk := w'.disk.erase p }) : Triple o P (delete p) Q (Cut id o w P) :=
  triple_whole post (fun rough e w' pre => cut_of out rough e w' pre)
    fun rough w' pre => ⟨rough, ((out w' pre).erase own).kept.restart⟩

end

theorem triple_removePhoto (person : validPersonId id = true) : Triple o (Out id w) (removePhoto id)
    (fun _ w' => Out id w w' ∧ w'.disk.has (.photo (photoOf id)) = false) (Cut id o w (Out id w)) := by
  have path : checkedPath id = .ok (.photo (photoOf id)) := by
    unfold validPersonId at person
    exact if_pos (Bool.and_eq_true _ _ ▸ person).1
  unfold removePhoto
  rw [path]
  refine triple_bind (Q := fun there w' => there = w'.disk.has (.photo (photoOf id)) ∧ Out id w w')
    (triple_see (fun _ pre => ⟨rfl, pre⟩) fun rough => cut_of (fun _ pre => pre) rough) fun there => ?_
  cases there with
  | false => exact triple_pure fun w' pre => ⟨pre.2, pre.1.symm⟩
  | true =>
    refine triple_pre (triple_bind (Q := fun _ w' => Out id w w' ∧ w'.disk.has (.photo (photoOf id)) = false)
      (triple_delete (P := Out id w) (p := .photo (photoOf id)) (fun _ pre => pre) rfl fun w' pre =>
        ⟨pre.erase rfl, ?_⟩)
      fun _ => triple_pure fun _ post => post) fun _ pre => pre.2
    simp [Disk.has, Disk.content_erase]

/-- The files of `done` are gone unless one of their deletions, or one before them, failed. -/
structure Deleted (id : String) (o : Oracle Step Fate) (w : World β) (failed : Option PinError) (P : World β → Prop)
    (done : List (String × Kind)) (acc : ℕ × Option PinError) (w' : World β) : Prop where
  out : Out id w w'
  held : P w'
  gone : acc.2 = none → failed = none ∧ ∀ f ∈ done, w'.disk.has (.file f.1 f.2 (fileOf id)) = false
  goes : Smooth o → failed = none → acc.2 = none

theorem triple_deleteFiles {files : List (String × Kind)} (lineups : ∀ f ∈ files, validLineupId f.1 = true)
    (failed : Option PinError) {P : World β → Prop} (less : ∀ {w' p}, P w' → P { w' with disk := w'.disk.erase p }) :
    Triple o (fun w' => Out id w w' ∧ P w') (deleteFiles id failed files) (Deleted id o w failed P files)
      (Halted id o w) := by
  refine triple_pre (triple_foldlM (I := Deleted id o w failed P) _ fun done f rest whole acc => ?_)
    fun w' ⟨out, held⟩ => ⟨out, held, fun none => ⟨none, by simp⟩, fun _ none => none⟩
  have own : (Path.file f.1 f.2 (fileOf id)).IsOf id := ⟨lineups f (by simp [whole]), rfl⟩
  refine triple_bind (triple_tried (Q := fun _ => Deleted id o w failed P (done ++ [f]) acc)
    (triple_delete (fun _ pre => pre.out) own fun w' pre => ?_)) fun result => ?_
  · refine ⟨pre.out.erase own, less pre.held, fun none => ⟨(pre.gone none).1, fun f' member => ?_⟩, pre.goes⟩
    rcases List.mem_append.mp member with earlier | last
    · exact Disk.lacks_erase w'.disk ((pre.gone none).2 f' earlier)
    · obtain rfl := List.mem_singleton.mp last
      simp [Disk.has, Disk.content_erase]
  · cases result with
    | ok => exact triple_pure fun _ post => ⟨post.out, post.held, post.gone, post.goes⟩
    | error e =>
      refine triple_pure fun w' ⟨rough, pre⟩ => ⟨pre.out, pre.held, fun none => ?_, fun smooth => absurd smooth rough⟩
      simp at none

/-- Nothing of theirs is left. -/
structure Nothing (id : String) (w : World β) : Prop where
  hash : w.pins.memberHash id = none ∧ w.pins.disk.members[id]? = none
  files : ∀ p : Path, p.IsOf id → w.disk.content p = none

/-- The photo is gone unless its deletion failed, and `files` are all there are in the lineups. -/
structure Listed (id : String) (o : Oracle Step Fate) (failed : Option PinError) (files : List (String × Kind))
    (w' : World β) : Prop where
  photo : failed = none → w'.disk.has (.photo (photoOf id)) = false
  goes : Smooth o → failed = none
  all : ∀ l kind, validLineupId l = true → w'.disk.has (.file l kind (fileOf id)) = true → (l, kind) ∈ files

theorem Listed.erase {failed : Option PinError} {files : List (String × Kind)} (listed : Listed id o failed files w')
    {p : Path} : Listed id o failed files { w' with disk := w'.disk.erase p } where
  photo none := w'.disk.lacks_erase (listed.photo none)
  goes := listed.goes
  all l kind valid there := listed.all l kind valid (w'.disk.has_of_erase there)

theorem triple_filesOf (failed : Option PinError) : Triple o (fun w' => Out id w w' ∧
      (failed = none → w'.disk.has (.photo (photoOf id)) = false) ∧ (Smooth o → failed = none)) (filesOf id)
    (fun files w' => (∀ f ∈ files, validLineupId f.1 = true) ∧ Out id w w' ∧ Listed id o failed files w')
    (Halted id o w) := by
  refine triple_conseq (triple_looks fun _ => looks_filesOf id) (fun _ pre => pre) ?_
    fun e w' ⟨rough, out, _⟩ => out.kept.halted e rough
  rintro files w' ⟨all, out, photo, goes⟩
  exact ⟨fun f member => ((all f.1 f.2).mp member).1, out, photo, goes,
    fun l kind valid there => (all l kind).mpr ⟨valid, there⟩⟩

/-- Deleted without a failure, nothing is left. -/
theorem Deleted.nothing {failed : Option PinError} {files : List (String × Kind)} {acc : ℕ × Option PinError}
    (deleted : Deleted id o w failed (Listed id o failed files) files acc w') (none : acc.2 = none) :
    Nothing id w' := by
  obtain ⟨before, gone⟩ := deleted.gone none
  refine ⟨⟨deleted.out.hash, ?_⟩, fun p own => ?_⟩
  · rw [deleted.out.kept.saved.1]
    exact deleted.out.hash
  · refine Option.not_isSome_iff_eq_none.mp (Bool.eq_false_iff.mp ?_)
    cases p with
    | photo name =>
      obtain rfl : name = photoOf id := own
      exact deleted.held.photo before
    | file l kind name =>
      obtain ⟨valid, rfl⟩ := own
      refine Bool.eq_false_iff.mpr fun there => ?_
      exact Bool.false_ne_true ((gone (l, kind) (deleted.held.all l kind valid there)).symm.trans there)
    | loose name => cases own

/-- What a removal does after the photo. -/
theorem triple_removeFiles (failed : Option PinError) (found : Bool) : Triple o (fun w' => Out id w w' ∧
      (failed = none → w'.disk.has (.photo (photoOf id)) = false) ∧ (Smooth o → failed = none))
    (do
      let (files, failed) ← deleteFiles id failed (← filesOf id)
      match failed with
      | some e => fail e
      | none => return found || 0 < files)
    (fun _ w' => Kept id w w' ∧ Nothing id w') (Halted id o w) := by
  refine triple_bind (triple_filesOf failed) fun files => triple_fact fun lineups => ?_
  refine triple_bind (triple_deleteFiles lineups failed fun held => held.erase) fun acc => ?_
  obtain ⟨count, failure⟩ := acc
  cases failure with
  | some e =>
    refine triple_fail fun w' deleted => ⟨deleted.out.kept, fun smooth => ?_⟩
    cases deleted.goes smooth (deleted.held.goes smooth)
  | none => exact triple_pure fun w' deleted => ⟨deleted.out.kept, deleted.nothing rfl⟩

theorem triple_removePerson (saved : w.Saved) : Triple o (· = w) (removePerson id)
    (fun _ w' => Kept id w w' ∧ Nothing id w') (Halted id o w) := by
  unfold removePerson
  cases person : validPersonId id with
  | false =>
    refine triple_bind (Q := fun _ _ => False) (triple_fail ?_) fun _ _ => False.elim
    rintro _ rfl
    exact ⟨.refl saved, fun _ valid => by simp [valid] at person⟩
  | true =>
    refine triple_bind (triple_removeMember saved person) fun pin => ?_
    have photo := triple_tried (triple_removePhoto (w := w) (o := o) person)
    refine triple_bind (triple_pre photo fun _ pre => ⟨pre.1, pre.2⟩) fun removed => ?_
    cases removed with
    | ok photo => exact triple_pre (triple_removeFiles none _) fun w' held => ⟨held.1, fun _ => held.2, fun _ => rfl⟩
    | error e =>
      refine triple_pre (triple_removeFiles (some e) _) fun w' held => ⟨held.2, fun none => ?_, fun smooth => ?_⟩
      · cases none
      · exact absurd smooth held.1

/-- A try changes nothing of anybody else; one that ended well left nothing, and one that did
not was refused or had a step that failed or was its last. -/
structure Tried (id : String) (o : Oracle Step Fate) (w : World β) (out : Option (Except PinError Bool))
    (w' : World β) : Prop where
  kept : Kept id w w'
  done : ∀ any, out = some (.ok any) → Nothing id w'
  ends : Smooth o → validPersonId id = true → id ≠ engineerId → ∃ any, out = some (.ok any)

theorem remove_tried (saved : w.Saved) (id : String) (o : Oracle Step Fate) :
    Tried id o w (w.remove id o).1 (w.remove id o).2 := by
  have removal : Triple o (· = w) (removePerson id) _ (Halted id o w) := triple_removePerson saved
  have run := removal ⟨w, 0⟩ rfl
  unfold World.remove
  split at run
  · rename_i any after ended
    rw [ended]
    exact ⟨run.1, fun _ _ => run.2, fun _ _ _ => ⟨any, rfl⟩⟩
  · rename_i e after ended
    rw [ended]
    cases e with
    | stopped =>
      refine ⟨run.kept, fun any ended => ?_, fun smooth person human => absurd (run.rough smooth person) human⟩
      cases ended
    | error e =>
      refine ⟨run.kept, fun any ended => ?_, fun smooth person human => absurd (run.rough smooth person) human⟩
      cases ended

theorem Reached.saved {disk : Disk β} {file : PinFile} (reached : Reached disk file w) : w.Saved := by
  induction reached with
  | start => exact ⟨rfl, rfl⟩
  | remove before id o ih => exact (remove_tried ih id o).kept.saved
  | restart before ih => exact ⟨rfl, rfl⟩

/-- Nobody else's file or hash in use is another, in memory or on the disk; the archived hashes
stay, or all go. -/
structure Untouched (id : String) (w w' : World β) : Prop where
  files : ∀ p : Path, ¬p.IsOf id → w'.disk.content p = w.disk.content p
  hashes : ∀ other ≠ id, w'.pins.memberHash other = w.pins.memberHash other ∧
    w'.pins.disk.members[other]? = w.pins.disk.members[other]?
  engineer : w'.pins.file.engineer = w.pins.file.engineer ∧ w'.pins.disk.engineer = w.pins.disk.engineer
  archived : w'.pins.disk.archived = w.pins.disk.archived ∨ w'.pins.disk.archived = ∅

theorem Kept.untouched (saved : w.Saved) (kept : Kept id w w') : Untouched id w w' where
  files := kept.files
  hashes other apart := by
    rw [kept.saved.1, saved.1]
    exact ⟨kept.hashes other apart, kept.hashes other apart⟩
  engineer := by
    rw [kept.saved.2, saved.2]
    exact ⟨kept.engineer, kept.engineer⟩
  archived := kept.archived

/-- The look through the disk finds `id`, unless a step of it fails. -/
def Finds (o : Oracle Step Fate) (id : String) (w : World β) : Prop :=
  match heldIds o ⟨w, 0⟩ with
  | .ok held _ => id ∈ held
  | .error .. => ¬Smooth o

/-- Whatever there is of theirs is found. -/
structure Found (id : String) (w : World β) : Prop where
  hash : (w.pins.memberHash id).isSome ∨ (w.pins.disk.members[id]?).isSome → id ∈ w.pins.memberIds
  files : ∀ p : Path, p.IsOf id → w.disk.has p = true → ∀ o, Finds o id w

theorem World.Saved.found (saved : w.Saved) (person : validPersonId id = true) : Found id w where
  hash held := by
    rw [saved.1] at held
    exact (BTreeMap.mem_keys_iff _ _).mpr (Option.isSome_iff_exists.mp (held.elim (fun here => here) fun here => here))
  files p own there o := by
    have run := looks_heldIds (o := o) (w := w) ⟨w, 0⟩ rfl
    unfold Finds
    cases ended : heldIds o ⟨w, 0⟩ with
    | ok held after =>
      rw [ended] at run
      exact run.1 id p person own there
    | error e after =>
      rw [ended] at run
      exact run.1

/-- However earlier tries of anybody's removal failed or stopped: a removal touches nobody else's
file or hash in use; returned well, it left nothing of the person; whatever it left otherwise the
looks find; and with no step failing it returns well. -/
theorem removal_complete {disk : Disk β} {file : PinFile} (reached : Reached disk file w) (id : String)
    (o : Oracle Step Fate) :
    Untouched id w (w.remove id o).2 ∧
    (∀ any, (w.remove id o).1 = some (.ok any) → Nothing id (w.remove id o).2) ∧
    (validPersonId id = true → Found id (w.remove id o).2) ∧
    (Smooth o → validPersonId id = true → id ≠ engineerId → ∃ any, (w.remove id o).1 = some (.ok any)) := by
  have tried := remove_tried reached.saved id o
  exact ⟨tried.kept.untouched reached.saved, tried.done, tried.kept.saved.found, tried.ends⟩

end

end

/-- Ana's hash, and one an older server archived of Ben's. -/
def anasAndBens : PinFile :=
  { members := .ofList [("ana", "$argon2id$1")], archived := .ofList [("ben", "$argon2id$2")] }

/-- Ana's photo, and a file of hers and one of Ben's. -/
def anasFiles : Disk ℕ where
  photos := .ofList [("ana.jpg", 1)]
  lineups := .ofList [("sunday", Entry.dir fun _ => .ofList [("ana.json", 2), ("ben.json", 3)])]

def smooth : Oracle Step Fate := fun _ _ => .done

/-- No file can be deleted. -/
def lockedFiles : Oracle Step Fate := fun _ op => match op with
  | .delete => .failed "in use"
  | _ => .done

def begun : World ℕ := ⟨anasFiles, .load anasAndBens⟩

theorem ana_removed_again : Nothing "ana" ((begun.remove "ana" lockedFiles).2.remove "ana" smooth).2 := by
  have opened : Reached anasFiles anasAndBens begun := .start
  have again := removal_complete (opened.remove "ana" lockedFiles) "ana" smooth
  obtain ⟨any, ended⟩ := again.2.2.2 (fun _ _ => rfl) (by decide +kernel) (by decide)
  exact again.2.1 any ended

def ended (out : Option (Except PinError Bool)) : Option Bool := out.bind Except.toOption

/-- Archived hashes are nobody's: Ben's removal leaves his, found by no look, and Ana's takes it
out of the file. -/
theorem archived_hashes_aside :
    begun.pins.disk.archived["ben"]? = some "$argon2id$2" ∧
    ended (begun.remove "ben" smooth).1 = some true ∧
    (begun.remove "ben" smooth).2.pins.disk.archived["ben"]? = some "$argon2id$2" ∧
    "ben" ∉ (begun.remove "ben" smooth).2.pins.memberIds ∧
    (begun.remove "ana" smooth).2.pins.disk.archived["ben"]? = none := by
  decide +kernel

end IemMixer.Server.Removal
