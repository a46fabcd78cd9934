import IemMixer.Server.BandStore
import Mathlib.Data.List.Perm.Subperm

/-! What the band store keeps over any run of calls: the entry it accepted, pinned and
archived entries, and the file when it refuses. -/
namespace IemMixer.Server.BandStore
open Lib Proto Lib.Process
open Migration (Kind Files)

private theorem toInt_succ {t : Int64} (room : t ≠ Int64.maxValue) : (t + 1).toInt = t.toInt + 1 := by
  have below : t.toInt ≠ 2 ^ 63 - 1 := fun top => room (Int64.toInt_inj.mp (by rw [top]; rfl))
  have high := Int64.toInt_lt t
  have low := Int64.le_toInt t
  rw [Int64.toInt_add, show (1 : Int64).toInt = 1 from rfl, Int.bmod_eq_of_le (by omega) (by omega)]

private theorem le_maxValue (x : Int64) : x ≤ Int64.maxValue := by
  have high := Int64.toInt_lt x
  rw [Int64.le_iff_toInt_le, show Int64.maxValue.toInt = 2 ^ 63 - 1 from rfl]
  omega

/-- The walk ends on a second that is free, or there was none left to walk over. -/
theorem walk_free {list : List Int64} {t : Int64} (sorted : list.Pairwise (· < ·)) (since : ∀ x ∈ list, t ≤ x) :
    (walk list t ∉ list ∧ t ≤ walk list t) ∨
      ((∀ x, t ≤ x → x ∈ list) ∧ walk list t = Int64.minValue) := by
  induction list generalizing t with
  | nil => exact .inl ⟨List.not_mem_nil, Int64.le_refl t⟩
  | cons next rest ih =>
    obtain ⟨above, sorted⟩ := List.pairwise_cons.mp sorted
    have first := since next List.mem_cons_self
    unfold walk
    split
    · rename_i gap
      refine .inl ⟨fun taken => ?_, Int64.le_refl t⟩
      rcases List.mem_cons.mp taken with same | later
      · exact gap same.symm
      · have := above t later
        grind [Int64.lt_iff_toInt_lt, Int64.le_iff_toInt_le]
    · rename_i same
      rw [ne_eq, not_not] at same
      subst same
      by_cases top : next = Int64.maxValue
      · -- Nothing is above the last second.
        have none : rest = [] := by
          refine List.eq_nil_iff_forall_not_mem.mpr fun x later => ?_
          have high := above x later
          have most := le_maxValue x
          rw [← top] at most
          grind [Int64.lt_iff_toInt_lt, Int64.le_iff_toInt_le]
        subst none
        refine .inr ⟨fun x high => ?_, by rw [top]; rfl⟩
        have most := le_maxValue x
        rw [← top] at most
        rw [List.mem_singleton]
        exact Int64.le_antisymm most high
      · have up := toInt_succ top
        have later : ∀ x ∈ rest, next + 1 ≤ x := by
          intro x member
          have := above x member
          rw [Int64.lt_iff_toInt_lt] at this
          rw [Int64.le_iff_toInt_le]
          omega
        rcases ih sorted later with ⟨free, high⟩ | ⟨full, ends⟩
        · rw [Int64.le_iff_toInt_le] at high
          refine .inl ⟨fun taken => ?_, Int64.le_iff_toInt_le.mpr (by omega)⟩
          rcases List.mem_cons.mp taken with same | member
          · rw [same] at high
            omega
          · exact free member
        · refine .inr ⟨fun x high => ?_, ends⟩
          by_cases same : x = next
          · rw [same]
            exact List.mem_cons_self
          · refine List.mem_cons_of_mem _ (full x ?_)
            have apart : x.toInt ≠ next.toInt := fun h => same (Int64.toInt_inj.mp h)
            rw [Int64.le_iff_toInt_le] at high ⊢
            omega

/-- A second from `t` on is free, or the one the clock wraps to is. -/
def Room (list : List Snapshot) (t : Int64) : Prop :=
  (∃ x, t ≤ x ∧ x ∉ list.map (·.timestamp)) ∨ Int64.minValue ∉ list.map (·.timestamp)

theorem freeSecond_free {list : List Snapshot} {t : Int64} (room : Room list t) :
    freeSecond list t ∉ list.map (·.timestamp) := by
  let taken : BTreeSet Int64 := .ofList (list.map (·.timestamp))
  have member (x : Int64) : x ∈ taken.toList.filter (t ≤ ·) ↔ x ∈ list.map (·.timestamp) ∧ t ≤ x := by
    rw [List.mem_filter, Std.ExtTreeSet.mem_toList, Std.ExtTreeSet.mem_ofList, List.contains_iff_mem, decide_eq_true_iff]
  have sorted : (taken.toList.filter (t ≤ ·)).Pairwise (· < ·) :=
    (Std.ExtTreeSet.ordered_toList.imp fun h => Std.compare_eq_lt.mp h).filter _
  intro again
  change walk (taken.toList.filter (t ≤ ·)) t ∈ _ at again
  rcases walk_free sorted fun x inside => ((member x).mp inside).2 with ⟨free, high⟩ | ⟨full, ends⟩
  · exact free ((member _).mpr ⟨again, high⟩)
  · rcases room with ⟨x, high, gap⟩ | gap
    · exact gap ((member x).mp (full x high)).1
    · rw [ends] at again
      exact gap again

/-- Those that have to go: of the unpinned ones the oldest, as many as there are too many. -/
def overdue (list : List Snapshot) : List Snapshot :=
  ((list.insertionSort Older).filter (!·.pinned)).take (list.length - maxSnapshots)

variable {list : List Snapshot}

theorem prune_filter (kept : Snapshot → Bool) (spare : ∀ x ∈ overdue list, kept x = false) :
    ((prune list).filter kept).Perm (list.filter kept) := by
  have same := Shed.loop_filter maxSnapshots (!·.pinned) kept (list.insertionSort Older).length (list.insertionSort Older) (by
    rw [List.length_insertionSort]
    exact spare)
  show ((Shed.loop _ _ _ _).filter kept).Perm _
  rw [same]
  exact (List.perm_insertionSort Older list).filter kept

theorem prune_subperm : (prune list).Subperm list :=
  (Shed.loop_sublist _ _ _ _).subperm.trans (List.perm_insertionSort Older list).subperm

/-- At most 50 are left, or pinned ones only. -/
theorem prune_capped : (prune list).length ≤ maxSnapshots ∨ ∀ x ∈ prune list, x.pinned = true := by
  have ends := Shed.loop_length maxSnapshots (fun x : Snapshot => !x.pinned) (list.insertionSort Older).length
    (list.insertionSort Older) (Nat.le_add_left _ _)
  refine ends.imp id fun all x member => ?_
  simpa using all x member

section
variable {β : Type} (s : Store)

section
variable {F : Type} [BandFile F] [Serde β F]

/-- Header and numbers are what a file read has. -/
structure Sound (file : F) : Prop where
  header : BandFile.header file = (BandFile.format F, schema)
  finite : BandFile.finite file = true

/-- `file` took the place of the member's. -/
def Replaced (d : Disk β) (member : String) (file : F) (d' : Disk β) : Prop :=
  ∃ text : β, Serde.toStringPretty file = .ok text ∧
    d'.files = d.files.put (BandFile.kind F) member (some text)

variable {s} {d d' : Disk β} {member : String} {file : F}

theorem held_path (held : s.held d member = .ok file) : validMemberId member = true := by
  unfold Store.held Store.path at held
  split at held
  · assumption
  · cases held

theorem held_sound [LawfulSerde β F] (fresh : ∀ member, Sound (BandFile.newFor member : F))
    (held : s.held d member = .ok file) : Sound file := by
  have valid := held_path held
  unfold Store.held Store.path at held
  rw [if_pos valid] at held
  change accept _ member (d.files (BandFile.kind F) member) = .ok file at held
  unfold accept at held
  split at held
  · cases held
    exact fresh member
  · rename_i text _
    cases read : (Serde.fromStr text : Except String F) with
    | error e => rw [read] at held; cases held
    | ok f =>
      rw [read] at held
      simp only at held
      split at held
      · cases held
      · rename_i good
        cases held
        rw [not_or, not_not, not_not] at good
        exact ⟨Prod.ext good.1 good.2, LawfulSerde.finite text file read⟩

/-- The file reads back. -/
theorem Replaced.held [LawfulSerde β F] (replaced : Replaced d member file d') (sound : Sound file)
    (valid : validMemberId member = true) : s.held d' member = .ok file := by
  obtain ⟨text, printed, files⟩ := replaced
  unfold Store.held Store.path
  rw [if_pos valid]
  show accept _ member (d'.files (BandFile.kind F) member) = .ok file
  rw [files, Files.put, if_pos ⟨rfl, rfl⟩]
  unfold accept
  dsimp only
  rw [LawfulSerde.back file text sound.finite printed]
  simp [sound.header]

/-- The others' files are as they were. -/
theorem Replaced.held_other {G : Type} [BandFile G] [Serde β G] (replaced : Replaced d member file d') {other : String}
    (apart : BandFile.kind G ≠ BandFile.kind F ∨ other ≠ member) : (s.held d' other : Except _ G) = s.held d other := by
  obtain ⟨text, -, files⟩ := replaced
  unfold Store.held
  rw [files, Files.put, if_neg (by tauto)]

theorem held_files {G : Type} [BandFile G] [Serde β G] (files : d'.files = d.files) (other : String) :
    (s.held d' other : Except _ G) = s.held d other := by
  unfold Store.held
  rw [files]

end

/-- Every sync of a directory that ends succeeds. -/
def Syncs (o : Oracle Step (Fate β)) : Prop := ∀ t text torn, o t .syncDir ≠ .failed text torn

/-- The files are as they were, whatever became of those on their way. -/
def Same (d d' : Disk β) : Prop := d'.files = d.files

variable {s} {o : Oracle Step (Fate β)} {d : Disk β} {α : Type}

theorem triple_lift {P : Assertion (Disk β)} (x : Except StoreError α) :
    Triple o P (lift x) (fun a d' => x = .ok a ∧ P d') fun _ => P := by
  cases x with
  | ok a => exact triple_pure fun _ pre => ⟨rfl, pre⟩
  | error e => exact triple_fail fun _ pre => pre

theorem triple_see {path : String} {op : Step} {f : Disk β → α} :
    Triple o (· = d) (see path op f) (fun a d' => a = f d ∧ d' = d) fun _ d' => d' = d := by
  refine triple_step fun t w pre => ?_
  subst pre
  cases o t op with
  | done => exact ⟨rfl, rfl⟩
  | failed text torn => rfl
  | stopped happened torn => rfl

/-- What is on its way is written and flushed; the files stay. -/
private theorem triple_quiet {P : Assertion (Disk β)} {path : String} {op : Step} :
    Triple o P (whole path op id) (fun _ => P) fun _ => P := by
  refine triple_step fun t w pre => ?_
  cases o t op with
  | done => exact pre
  | failed text torn => exact pre
  | stopped happened torn => cases happened <;> exact pre

section
variable {F : Type} [BandFile F] [Serde β F] {member : String} {file : F}

theorem triple_read :
    Triple o (· = d) (s.read member : BandM β F) (fun file d' => s.held d member = .ok file ∧ d' = d)
      fun _ d' => d' = d := by
  unfold Store.read
  refine triple_bind (triple_lift _) fun path => triple_fact fun found => ?_
  refine triple_bind triple_see fun text => triple_fact fun seen => ?_
  refine triple_conseq (triple_lift _) (fun _ => id) ?_ fun _ _ => id
  rintro file d' ⟨accepted, same⟩
  refine ⟨?_, same⟩
  unfold Store.held
  rw [found, ← accepted, seen]
  rfl

/-- Written, the file took the place of the member's; refused, the old one is there; and a
process that ends leaves either. -/
theorem triple_write (syncs : Syncs o) :
    Triple o (· = d) (s.write member file)
      (fun _ d' => Replaced d member file d') fun e d' => Same d d' ∨ e = .stopped ∧ Replaced d member file d' := by
  unfold Store.write atomicWrite
  have still {e : Halt StoreError} (d' : Disk β) (same : d' = d) :
      Same d d' ∨ e = .stopped ∧ Replaced d member file d' := .inl (congrArg Disk.files same)
  refine triple_bind (triple_conseq (triple_lift _) (fun _ => id) (fun _ _ => And.right) fun _ => still) fun path => ?_
  refine triple_bind (triple_conseq triple_quiet (fun _ => id) (fun _ _ => id) fun _ => still) fun _ => ?_
  refine triple_bind (triple_conseq (triple_lift _) (fun _ => id) (fun _ _ => id) fun _ => still)
    fun text => triple_fact fun printed => ?_
  have printed : Serde.toStringPretty file = .ok text := by
    cases made : (Serde.toStringPretty file : Except String β) with
    | error e => rw [made] at printed; cases printed
    | ok b => rw [made] at printed; cases printed; rfl
  -- On its way, but the name is still the old file's.
  let Ready : Assertion (Disk β) := fun d' =>
    Same d d' ∧ d'.tmp (BandFile.kind F) member = some text
  refine triple_bind (Q := fun _ => Ready) ?_ fun _ => ?_
  · refine triple_step fun t w pre => ?_
    subst pre
    cases o t .writeTmp with
    | done => exact ⟨rfl, by simp [Files.put]⟩
    | failed text torn => exact .inl rfl
    | stopped happened torn => exact .inl rfl
  refine triple_bind (triple_conseq triple_quiet (fun _ => id) (fun _ _ => id) fun _ _ ready => .inl ready.1) fun _ => ?_
  have renames {d' : Disk β} (ready : Ready d') : Replaced d member file (d'.renamed (BandFile.kind F) member) := by
    obtain ⟨same, written⟩ := ready
    refine ⟨text, printed, ?_⟩
    show d'.files.put _ _ (d'.tmp _ _) = _
    rw [written, same]
  refine triple_bind (Q := fun _ => Replaced d member file) ?_ fun _ => ?_
  · refine triple_step fun t d' ready => ?_
    cases o t .rename with
    | done => exact renames ready
    | failed text torn => exact .inl ready.1
    | stopped happened torn =>
      cases happened with
      | false => exact .inl ready.1
      | true => exact .inr ⟨rfl, renames ready⟩
  · refine triple_step fun t d' replaced => ?_
    cases fate : o t .syncDir with
    | done => exact replaced
    | failed text torn => exact absurd fate (syncs t text torn)
    | stopped happened torn => cases happened <;> exact .inr ⟨rfl, replaced⟩

/-- The member's file as it was read became one that `new` makes of it. -/
def Edited (s : Store) (d : Disk β) (member : String) (new : F → F → Prop) (d' : Disk β) : Prop :=
  ∃ file file', s.held d member = .ok file ∧ new file file' ∧ Replaced d member file' d'

/-- A file read, changed and written. -/
theorem triple_edit (syncs : Syncs o) (new : F → F → Prop) {file' : F} {a : α}
    (held : s.held d member = .ok file) (change : new file file') :
    Triple o (· = d) (do s.write member file'; return a : BandM β α) (fun b d' => b = a ∧ Edited s d member new d')
      fun e d' => Same d d' ∨ e = .stopped ∧ Edited s d member new d' := by
  have edited {d' : Disk β} (replaced : Replaced d member file' d') : Edited s d member new d' :=
    ⟨file, file', held, change, replaced⟩
  refine triple_bind (Q := fun _ => Edited s d member new)
    (triple_conseq (triple_write syncs) (fun _ => id) (fun _ _ => edited) ?_) fun _ => triple_pure fun _ made => ⟨rfl, made⟩
  rintro e d' (same | ⟨rfl, replaced⟩)
  · exact .inl same
  · exact .inr ⟨rfl, edited replaced⟩

end

theorem position_some {fits : α → Bool} {list : List α} {i : ℕ} {x : α} (found : position fits list = some (i, x)) :
    list[i]? = some x ∧ fits x = true := by
  unfold position at found
  obtain ⟨j, at_, some⟩ := Option.bind_eq_some_iff.mp found
  obtain ⟨y, got, same⟩ := Option.map_eq_some_iff.mp some
  cases same
  obtain ⟨inside, fit, -⟩ := List.findIdx?_eq_some_iff_getElem.mp at_
  rw [List.getElem?_eq_getElem inside] at got
  cases got
  exact ⟨List.getElem?_eq_getElem inside, fit⟩

section
variable [Serde β SnapshotFile] {member : String}

/-- The entry is in the file, pruned, under a second of its own. -/
def Adds (snapshot : Snapshot) (id : Int64) (file file' : SnapshotFile) : Prop :=
  id = freeSecond file.snapshots snapshot.timestamp ∧
    file' = { file with snapshots := prune (file.snapshots ++ [{ snapshot with timestamp := id }]) }

theorem triple_addSnapshot (syncs : Syncs o) {snapshot : Snapshot} :
    Triple o (· = d) (s.addSnapshot member snapshot) (fun id d' => Edited s d member (Adds snapshot id) d')
      fun e d' => Same d d' ∨ e = .stopped ∧ ∃ id, Edited s d member (Adds snapshot id) d' := by
  unfold Store.addSnapshot
  refine triple_bind (triple_conseq triple_read (fun _ => id) (fun _ _ => id)
    fun _ _ same => .inl (congrArg Disk.files same)) fun file => triple_fact fun held => ?_
  refine triple_conseq (triple_edit syncs (Adds snapshot (freeSecond file.snapshots snapshot.timestamp)) held
    ⟨rfl, rfl⟩) (fun _ => id) ?_ ?_
  · rintro id d' ⟨rfl, edited⟩
    exact edited
  · rintro e d' (same | ⟨rfl, edited⟩)
    · exact .inl same
    · exact .inr ⟨rfl, _, edited⟩

/-- One entry of `ts` that is not archived is another, or none, now. -/
def Edits (ts : Int64) (f : List Snapshot → ℕ → List Snapshot) (file file' : SnapshotFile) : Prop :=
  ∃ i x, file.snapshots[i]? = some x ∧ x.timestamp = ts ∧ x.archived = false ∧
    file' = { file with snapshots := f file.snapshots i }

theorem triple_editSnapshot (syncs : Syncs o) {ts : Int64} {f : List Snapshot → ℕ → List Snapshot} :
    Triple o (· = d) (s.editSnapshot member ts f)
      (fun _ d' => Same d d' ∨ Edited s d member (Edits ts f) d')
      fun e d' => Same d d' ∨ e = .stopped ∧ Edited s d member (Edits ts f) d' := by
  unfold Store.editSnapshot
  refine triple_bind (triple_conseq triple_read (fun _ => id) (fun _ _ => id)
    fun _ _ same => .inl (congrArg Disk.files same)) fun file => triple_fact fun held => ?_
  split
  · exact triple_pure fun d' same => .inl (congrArg Disk.files same)
  · rename_i i x found
    obtain ⟨got, fits⟩ := position_some found
    refine triple_unless (fun _ d' same => .inl (congrArg Disk.files same)) fun free => ?_
    refine triple_conseq (triple_edit syncs (Edits ts f) held
      ⟨i, x, got, by simpa using fits, by simpa using free, rfl⟩) (fun _ => id) (fun _ _ post => .inr post.2)
      fun _ _ => id

end

section
variable [Serde β PresetFile] {member : String}

/-- A preset of this content is in the file, in place of one that is not archived or new. -/
def Saves (content : Captured) (file file' : PresetFile) : Prop :=
  ∃ preset : Preset, preset.toCaptured = content ∧
    (file' = { file with presets := file.presets ++ [preset] } ∨
      ∃ i p, file.presets[i]? = some p ∧ p.archived = false ∧ file' = { file with presets := file.presets.set i preset })

theorem triple_savePreset (syncs : Syncs o) {name : String} {content : Captured} {now : Int64} :
    Triple o (· = d) (s.savePreset member name content now) (fun _ d' => Edited s d member (Saves content) d')
      fun e d' => Same d d' ∨ e = .stopped ∧ Edited s d member (Saves content) d' := by
  have still {e : Halt StoreError} (d' : Disk β) (same : d' = d) :
      Same d d' ∨ e = .stopped ∧ Edited s d member (Saves content) d' := .inl (congrArg Disk.files same)
  unfold Store.savePreset
  refine triple_bind (triple_conseq triple_read (fun _ => id) (fun _ _ => id) fun _ => still)
    fun file => triple_fact fun held => ?_
  refine triple_bind (triple_conseq (triple_lift _) (fun _ => id) (fun _ _ => id) fun _ => still)
    fun createdAt => triple_fact fun fine => ?_
  refine triple_conseq (triple_edit syncs (Saves content) held
    ⟨{ toCaptured := content, name, createdAt, updatedAt := now }, rfl, ?_⟩) (fun _ => id) (fun _ _ => And.right)
    fun _ _ => id
  cases existing : position (·.name == name) file.presets with
  | none => exact .inl rfl
  | some found =>
    obtain ⟨i, p⟩ := found
    rw [existing] at fine
    dsimp only at fine
    split at fine
    · cases fine
    · rename_i free
      exact .inr ⟨i, p, (position_some existing).1, by simpa using free, rfl⟩

/-- One preset that is not archived is gone. -/
def Deletes (file file' : PresetFile) : Prop :=
  ∃ i p, file.presets[i]? = some p ∧ p.archived = false ∧ file' = { file with presets := file.presets.eraseIdx i }

theorem triple_deletePreset (syncs : Syncs o) {name : String} :
    Triple o (· = d) (s.deletePreset member name) (fun _ d' => Same d d' ∨ Edited s d member Deletes d')
      fun e d' => Same d d' ∨ e = .stopped ∧ Edited s d member Deletes d' := by
  unfold Store.deletePreset
  refine triple_bind (triple_conseq triple_read (fun _ => id) (fun _ _ => id)
    fun _ _ same => .inl (congrArg Disk.files same)) fun file => triple_fact fun held => ?_
  split
  · exact triple_pure fun d' same => .inl (congrArg Disk.files same)
  · rename_i i p found
    refine triple_unless (fun _ d' same => .inl (congrArg Disk.files same)) fun free => ?_
    exact triple_conseq (triple_edit syncs _ held ⟨i, p, (position_some found).1, by simpa using free, rfl⟩)
      (fun _ => id) (fun _ _ post => .inr post.2) fun _ _ => id

end

/-- Those behind and before one that is not kept are the kept ones. -/
private theorem filter_parts {kept : α → Bool} {list : List α} {i : ℕ} {x : α} (there : list[i]? = some x)
    (free : kept x = false) : list.filter kept = (list.take i ++ list.drop (i + 1)).filter kept := by
  obtain ⟨inside, rfl⟩ := List.getElem?_eq_some_iff.mp there
  conv_lhs => rw [← List.take_append_drop i list, List.drop_eq_getElem_cons inside]
  rw [List.filter_append, List.filter_append, List.filter_cons_of_neg (by simp [free])]

theorem filter_eraseIdx {kept : α → Bool} {list : List α} {i : ℕ} {x : α} (there : list[i]? = some x)
    (free : kept x = false) : (list.filter kept).Subperm (list.eraseIdx i) := by
  rw [filter_parts there free, ← List.eraseIdx_eq_take_drop_succ]
  exact List.filter_sublist.subperm

theorem filter_set {kept : α → Bool} {list : List α} {i : ℕ} {x y : α} (there : list[i]? = some x)
    (free : kept x = false) : (list.filter kept).Subperm (list.set i y) := by
  have inside := (List.getElem?_eq_some_iff.mp there).1
  rw [filter_parts there free, List.set_eq_take_append_cons_drop, if_pos inside]
  exact (List.filter_sublist.trans ((List.sublist_cons_self y _).append_left _)).subperm

theorem filter_modify {kept : α → Bool} {list : List α} {i : ℕ} {x : α} {f : α → α} (there : list[i]? = some x)
    (free : kept x = false) : (list.filter kept).Subperm (list.modify i f) := by
  have inside := (List.getElem?_eq_some_iff.mp there).1
  rw [filter_parts there free, List.modify_eq_take_cons_drop inside]
  exact (List.filter_sublist.trans ((List.sublist_cons_self _ _).append_left _)).subperm

variable [Serde β PresetFile] [Serde β SnapshotFile]

section
variable (s)

/-- The history of `member` as its file holds it. -/
def history (d : Disk β) (member : String) : List Snapshot :=
  match (s.held d member : Except _ SnapshotFile) with
  | .ok file => file.snapshots
  | .error _ => []

def presetsOf (d : Disk β) (member : String) : List Preset :=
  match (s.held d member : Except _ PresetFile) with
  | .ok file => file.presets
  | .error _ => []

/-- It is a request to pin or delete this entry. -/
def Call.asks : Call → String → Snapshot → Bool
  | .deleteSnapshot m ts, member, x | .pinSnapshot m ts _ _, member, x => m == member && ts == x.timestamp
  | _, _, _ => false

/-- Archived, or pinned and not what the call asks about. -/
def Call.spares (call : Call) (member : String) (x : Snapshot) : Bool :=
  x.archived || x.pinned && !call.asks member x

/-- What a call keeps: `answer` is what it answered. -/
structure Kept (call : Call) (d : Disk β) (answer : Except (Halt StoreError) Answer) (d' : Disk β) : Prop where
  /-- The entry is there to be read under its id. -/
  added : ∀ member snapshot id, call = .addSnapshot member snapshot → answer = .ok (.id id) →
    ∀ (o : Oracle Step (Fate β)) (clock : ℕ), (∀ t, o t (.read .snapshots member) = .done) →
      ∃ later, s.snapshot member id o ⟨d', clock⟩ = .ok (some { snapshot with timestamp := id }) ⟨d', later⟩
  fresh : ∀ member snapshot id, call = .addSnapshot member snapshot → answer = .ok (.id id) →
    id ∉ (history s d member).map (·.timestamp) ∧ ((history s d' member).map (·.timestamp)).count id = 1
  capped : ∀ member snapshot id, call = .addSnapshot member snapshot → answer = .ok (.id id) →
    (history s d' member).length ≤ maxSnapshots ∨
      maxSnapshots < ((history s d' member).filter fun x => x.pinned || x.archived).length
  entries : ∀ member, ((history s d member).filter (call.spares member)).Subperm (history s d' member)
  presets : ∀ member, ((presetsOf s d member).filter (·.archived)).Subperm (presetsOf s d' member)
  refused : ∀ e, answer = .error (.error e) → d'.files = d.files

/-- What the call's numbers and the member's history are like when it keeps all of this: an
entry to add finds a second, and of those that have to go for it none is archived or the
entry itself. -/
def Spares (call : Call) (d : Disk β) : Prop :=
  match call with
  | .savePreset _ _ content _ => content.finite = true
  | .addSnapshot member snapshot =>
    let list := history s d member
    let id := freeSecond list snapshot.timestamp
    snapshot.finite = true ∧ Room list snapshot.timestamp ∧
      ∀ x ∈ overdue (list ++ [{ snapshot with timestamp := id }]), x.archived = false ∧ x.timestamp ≠ id
  | _ => True

/-- A call that is refused and leaves the files as they are needs none of that. -/
def Bears (call : Call) (d : Disk β) (answer : Except (Halt StoreError) Answer) (d' : Disk β) : Prop :=
  (d'.files = d.files ∧ ∃ e, answer = .error e) ∨ Spares s call d

/-- In a run of the calls, each where the ones before left the disk. -/
def Each (o : Oracle Step (Fate β)) (holds : Call → Disk β → Except (Halt StoreError) Answer → Disk β → Prop) :
    List Call → Clocked (Disk β) → Prop
  | [], _ => True
  | call :: later, w =>
    let (answer, w') := call.answered s o w
    holds call w.world answer w'.world ∧ Each o holds later w'

theorem each_cons {o : Oracle Step (Fate β)} {call : Call} {later : List Call} {w : Clocked (Disk β)}
    {holds : Call → Disk β → Except (Halt StoreError) Answer → Disk β → Prop} :
    Each s o holds (call :: later) w ↔
      holds call w.world (call.answered s o w).1 (call.answered s o w).2.world ∧
        Each s o holds later (call.answered s o w).2 :=
  Iff.rfl

/-- Calls that ask nothing of the disk. -/
theorem each_plain {o : Oracle Step (Fate β)} {calls : List Call} (plain : ∀ call ∈ calls, ∀ d : Disk β, Spares s call d)
    (w : Clocked (Disk β)) : Each s o (Bears s) calls w := by
  induction calls generalizing w with
  | nil => trivial
  | cons call later ih =>
    exact (each_cons s).mpr ⟨.inr (plain call List.mem_cons_self _), ih (fun c inside => plain c (List.mem_cons_of_mem _ inside)) _⟩

/-- Where a run of the calls leaves the disk. -/
def served (o : Oracle Step (Fate β)) : List Call → Clocked (Disk β) → Clocked (Disk β)
  | [], w => w
  | call :: later, w => served o later (call.answered s o w).2

end

variable {d' : Disk β} {call : Call} {answer : Except (Halt StoreError) Answer}

omit [Serde β PresetFile] in
private theorem history_same (same : Same d d') (member : String) : history s d' member = history s d member := by
  unfold history
  rw [held_files same]

omit [Serde β SnapshotFile] in
private theorem presetsOf_same (same : Same d d') (member : String) : presetsOf s d' member = presetsOf s d member := by
  unfold presetsOf
  rw [held_files same]

/-- A call that adds nothing keeps what is in the files. -/
private theorem Kept.of (adds : ∀ id, answer ≠ .ok (.id id))
    (entries : ∀ member, ((history s d member).filter (call.spares member)).Subperm (history s d' member))
    (presets : ∀ member, ((presetsOf s d member).filter (·.archived)).Subperm (presetsOf s d' member))
    (refused : ∀ e, answer = .error (.error e) → Same d d') : Kept s call d answer d' where
  added _ _ id _ was := absurd was (adds id)
  fresh _ _ id _ was := absurd was (adds id)
  capped _ _ id _ was := absurd was (adds id)
  entries := entries
  presets := presets
  refused := refused

private theorem kept_same (adds : ∀ id, answer ≠ .ok (.id id)) (same : Same d d') : Kept s call d answer d' := by
  refine .of adds (fun member => ?_) (fun member => ?_) fun _ _ => same
  · rw [history_same same]
    exact List.filter_sublist.subperm
  · rw [presetsOf_same same]
    exact List.filter_sublist.subperm

section
variable [LawfulSerde β PresetFile] [LawfulSerde β SnapshotFile] {member : String}

omit [LawfulSerde β PresetFile] in
/-- A history that was edited: before, and after with everything else as it was. -/
private theorem Edited.entries {new : SnapshotFile → SnapshotFile → Prop} (edited : Edited s d member new d')
    (sound : ∀ file file', Sound file → new file file' → Sound file') :
    ∃ file file', new file file' ∧ s.held d' member = .ok file' ∧ history s d member = file.snapshots ∧
      history s d' member = file'.snapshots ∧ (∀ other ≠ member, history s d' other = history s d other) ∧
      ∀ other, presetsOf s d' other = presetsOf s d other := by
  obtain ⟨file, file', held, change, replaced⟩ := edited
  have reads : s.held d' member = .ok file' :=
    replaced.held (sound file file' (held_sound (fun _ => ⟨rfl, rfl⟩) held) change) (held_path held)
  refine ⟨file, file', change, reads, by rw [history, held], by rw [history, reads],
    fun other apart => ?_, fun other => ?_⟩
  · unfold history
    rw [replaced.held_other (.inr apart)]
  · unfold presetsOf
    rw [replaced.held_other (.inl (by simp [BandFile.kind]))]

omit [LawfulSerde β SnapshotFile] in
private theorem Edited.presets {new : PresetFile → PresetFile → Prop} (edited : Edited s d member new d')
    (sound : ∀ file file', Sound file → new file file' → Sound file') :
    ∃ file file', new file file' ∧ presetsOf s d member = file.presets ∧ presetsOf s d' member = file'.presets ∧
      (∀ other ≠ member, presetsOf s d' other = presetsOf s d other) ∧
      ∀ other, history s d' other = history s d other := by
  obtain ⟨file, file', held, change, replaced⟩ := edited
  have reads : s.held d' member = .ok file' :=
    replaced.held (sound file file' (held_sound (fun _ => ⟨rfl, rfl⟩) held) change) (held_path held)
  refine ⟨file, file', change, by rw [presetsOf, held], by rw [presetsOf, reads], fun other apart => ?_,
    fun other => ?_⟩
  · unfold presetsOf
    rw [replaced.held_other (.inr apart)]
  · unfold history
    rw [replaced.held_other (.inl (by simp [BandFile.kind]))]

omit [LawfulSerde β PresetFile] in
/-- A call that makes another history of the member's. -/
private theorem kept_history {new : SnapshotFile → SnapshotFile → Prop} (adds : ∀ id, answer ≠ .ok (.id id))
    (accepted : ∀ e, answer ≠ .error (.error e)) (edited : Edited s d member new d')
    (sound : ∀ file file', Sound file → new file file' → Sound file')
    (keeps : ∀ file file', new file file' → (file.snapshots.filter (call.spares member)).Subperm file'.snapshots) :
    Kept s call d answer d' := by
  obtain ⟨file, file', change, -, before, after, others, presets⟩ := edited.entries sound
  refine .of adds (fun other => ?_) (fun other => ?_) fun e was => absurd was (accepted e)
  · by_cases own : other = member
    · rw [own, before, after]
      exact keeps file file' change
    · rw [others other own]
      exact List.filter_sublist.subperm
  · rw [presets]
    exact List.filter_sublist.subperm

omit [LawfulSerde β SnapshotFile] in
private theorem kept_presets {new : PresetFile → PresetFile → Prop} (adds : ∀ id, answer ≠ .ok (.id id))
    (accepted : ∀ e, answer ≠ .error (.error e)) (edited : Edited s d member new d')
    (sound : ∀ file file', Sound file → new file file' → Sound file')
    (keeps : ∀ file file', new file file' → (file.presets.filter (·.archived)).Subperm file'.presets) :
    Kept s call d answer d' := by
  obtain ⟨file, file', change, before, after, others, histories⟩ := edited.presets sound
  refine .of adds (fun other => ?_) (fun other => ?_) fun e was => absurd was (accepted e)
  · rw [histories]
    exact List.filter_sublist.subperm
  · by_cases own : other = member
    · rw [own, before, after]
      exact keeps file file' change
    · rw [others other own]
      exact List.filter_sublist.subperm

omit [LawfulSerde β PresetFile] [LawfulSerde β SnapshotFile] in
/-- A call that changes the files by an edit, or not at all, whatever stops it. -/
private theorem triple_kept {F γ : Type} [BandFile F] [Serde β F] {m : BandM β γ} {answers : γ → Answer}
    {new : F → F → Prop} (noId : ∀ a id, answers a ≠ .id id)
    (does : Triple o (· = d) m (fun _ d' => Same d d' ∨ Edited s d member new d')
      fun e d' => Same d d' ∨ e = .stopped ∧ Edited s d member new d')
    (keeps : ∀ answer d', (∀ id, answer ≠ .ok (.id id)) → (∀ e, answer ≠ .error (.error e)) →
      Edited s d member new d' → Kept s call d answer d') :
    Triple o (· = d) (do return answers (← m)) (fun a d' => Kept s call d (.ok a) d')
      fun e d' => Kept s call d (.error e) d' := by
  have adds (a : γ) (id : Int64) : (.ok (answers a) : Except (Halt StoreError) Answer) ≠ .ok (.id id) :=
    fun same => noId a id (Except.ok.inj same)
  refine triple_bind (triple_conseq does (fun _ => id) (fun _ _ => id) ?_) fun a => triple_pure ?_
  · rintro e d' (same | ⟨rfl, edited⟩)
    · exact kept_same (by simp) same
    · exact keeps _ _ (by simp) (by simp) edited
  · rintro d' (same | edited)
    · exact kept_same (adds a) same
    · exact keeps _ _ (adds a) (by simp) edited

private theorem all_of_subperm {p : α → Bool} {list list' : List α} (sub : list'.Subperm list) (all : list.all p = true) :
    list'.all p = true :=
  List.all_eq_true.mpr fun x member => List.all_eq_true.mp all x (sub.subset member)

/-- Edits of the list keep the header. -/
private theorem Sound.entries {file : SnapshotFile} {list : List Snapshot} (sound : Sound file)
    (finite : list.all (·.finite) = true) : Sound { file with snapshots := list } :=
  ⟨sound.header, finite⟩

private theorem Sound.presets {file : PresetFile} {list : List Preset} (sound : Sound file)
    (finite : list.all (·.finite) = true) : Sound { file with presets := list } :=
  ⟨sound.header, finite⟩

omit [LawfulSerde β PresetFile] in
theorem kept_edit {ts : Int64} {f : List Snapshot → ℕ → List Snapshot} (syncs : Syncs o)
    (asks : ∀ x, x.timestamp = ts → call.asks member x = true)
    (finite : ∀ list i, list.all (·.finite) = true → (f list i).all (·.finite) = true)
    (keeps : ∀ (list : List Snapshot) i x, list[i]? = some x → call.spares member x = false →
      (list.filter (call.spares member)).Subperm (f list i)) :
    Triple o (· = d) (do return .found (← s.editSnapshot member ts f)) (fun a d' => Kept s call d (.ok a) d')
      fun e d' => Kept s call d (.error e) d' := by
  refine triple_kept (by simp) (triple_editSnapshot syncs) fun answer d' adds accepted edited => ?_
  refine kept_history adds accepted edited ?_ ?_
  · rintro file file' sound ⟨i, x, -, -, -, rfl⟩
    exact sound.entries (finite _ _ sound.finite)
  · rintro file file' ⟨i, x, there, own, free, rfl⟩
    exact keeps _ i x there (by simp [Call.spares, free, asks x own])

omit [LawfulSerde β PresetFile] in
theorem kept_delete {ts : Int64} (syncs : Syncs o) :
    Triple o (· = d) ((Call.deleteSnapshot member ts).run s) (fun a d' => Kept s (.deleteSnapshot member ts) d (.ok a) d')
      fun e d' => Kept s (.deleteSnapshot member ts) d (.error e) d' := by
  refine kept_edit syncs (fun x own => by simp [Call.asks, own]) (fun list i finite => ?_)
    fun list i x there free => filter_eraseIdx there free
  exact all_of_subperm (List.eraseIdx_sublist ..).subperm finite

omit [LawfulSerde β PresetFile] in
theorem kept_pin {ts : Int64} {pinned : Bool} {label : Option String} (syncs : Syncs o) :
    Triple o (· = d) ((Call.pinSnapshot member ts pinned label).run s)
      (fun a d' => Kept s (.pinSnapshot member ts pinned label) d (.ok a) d')
      fun e d' => Kept s (.pinSnapshot member ts pinned label) d (.error e) d' := by
  refine kept_edit syncs (fun x own => by simp [Call.asks, own]) (fun list i finite => ?_)
    fun list i x there free => filter_modify there free
  refine List.all_eq_true.mpr fun x member => ?_
  obtain ⟨j, inside, rfl⟩ := List.mem_iff_getElem.mp member
  rw [List.length_modify] at inside
  have was := List.all_eq_true.mp finite _ (List.getElem_mem inside)
  rw [List.getElem_modify]
  split
  · exact was
  · exact was

omit [LawfulSerde β SnapshotFile] in
theorem kept_savePreset {name : String} {content : Captured} {now : Int64} (syncs : Syncs o)
    (finite : content.finite = true) :
    Triple o (· = d) ((Call.savePreset member name content now).run s)
      (fun a d' => Kept s (.savePreset member name content now) d (.ok a) d')
      fun e d' => Kept s (.savePreset member name content now) d (.error e) d' := by
  refine triple_kept (by simp) (triple_conseq (triple_savePreset syncs) (fun _ => id) (fun _ _ => .inr) fun _ _ => id)
    fun answer d' adds accepted edited => kept_presets adds accepted edited ?_ ?_
  · rintro file file' sound ⟨preset, rfl, rfl | ⟨i, p, there, -, rfl⟩⟩
    · exact sound.presets (by simpa [finite] using List.all_eq_true.mp sound.finite)
    · refine sound.presets (List.all_eq_true.mpr fun x member => ?_)
      rcases List.mem_or_eq_of_mem_set member with old | rfl
      · exact List.all_eq_true.mp sound.finite x old
      · exact finite
  · rintro file file' ⟨preset, -, rfl | ⟨i, p, there, free, rfl⟩⟩
    · exact (List.filter_sublist.trans (List.sublist_append_left _ _)).subperm
    · exact filter_set there free

omit [LawfulSerde β SnapshotFile] in
theorem kept_deletePreset {name : String} (syncs : Syncs o) :
    Triple o (· = d) ((Call.deletePreset member name).run s)
      (fun a d' => Kept s (.deletePreset member name) d (.ok a) d')
      fun e d' => Kept s (.deletePreset member name) d (.error e) d' := by
  refine triple_kept (by simp) (triple_deletePreset syncs)
    fun answer d' adds accepted edited => kept_presets adds accepted edited ?_ ?_
  · rintro file file' sound ⟨i, p, -, -, rfl⟩
    exact sound.presets (all_of_subperm (List.eraseIdx_sublist ..).subperm sound.finite)
  · rintro file file' ⟨i, p, there, free, rfl⟩
    exact filter_eraseIdx there free

omit [Serde β PresetFile] [LawfulSerde β PresetFile] [LawfulSerde β SnapshotFile] in
/-- What the file holds is what a request for an entry is answered from. -/
theorem snapshot_reads {file : SnapshotFile} (held : s.held d member = .ok file) {ts : Int64} (clock : ℕ)
    (reads : ∀ t, o t (.read .snapshots member) = .done) :
    ∃ later, s.snapshot member ts o ⟨d, clock⟩ =
      .ok ((file.snapshots.insertionSort fun a b => Older b a).find? (·.timestamp == ts)) ⟨d, later⟩ := by
  have valid := held_path held
  unfold Store.held Store.path at held
  rw [if_pos valid] at held
  change accept s!"{s.dir}/{kindName .snapshots}/{member}.json" member (d.files .snapshots member) = .ok file at held
  refine ⟨clock + 1, ?_⟩
  have read : (s.read member : BandM β SnapshotFile) o ⟨d, clock⟩ = .ok file ⟨d, clock + 1⟩ := by
    unfold Store.read Store.path
    rw [if_pos valid]
    simp only [lift, see, step, bind, ReaderT.bind, EStateM.bind, pure, ReaderT.pure, EStateM.pure, BandFile.kind, reads, held]
  unfold Store.snapshot Store.snapshots
  simp only [bind, ReaderT.bind, EStateM.bind, read, pure, ReaderT.pure, EStateM.pure]

private theorem find?_only {fits : α → Bool} {list : List α} {x : α} (there : x ∈ list) (fit : fits x = true)
    (only : ∀ y ∈ list, fits y = true → y = x) : list.find? fits = some x := by
  cases found : list.find? fits with
  | none => exact absurd fit (by simpa using List.find?_eq_none.mp found x there)
  | some y => rw [only y (List.mem_of_find?_eq_some found) (List.find?_some found)]

/-- Pruning takes none that a call spares when none that has to go is archived. -/
private theorem prune_spares (call : Call) (member : String) {list : List Snapshot} (goes : ∀ x ∈ overdue list, x.archived = false) :
    ((prune list).filter (call.spares member)).Perm (list.filter (call.spares member)) := by
  refine prune_filter _ fun x out => ?_
  have unpinned := (List.mem_filter.mp (List.mem_of_mem_take out)).2
  simp only [Bool.not_eq_true'] at unpinned
  simp [Call.spares, goes x out, unpinned]

/-- The new entry is the one of its id, pruned or not. -/
private theorem prune_new {list : List Snapshot} {e : Snapshot} (fresh : e.timestamp ∉ list.map (·.timestamp))
    (stays : ∀ x ∈ overdue (list ++ [e]), x.timestamp ≠ e.timestamp) :
    (prune (list ++ [e])).filter (·.timestamp == e.timestamp) = [e] := by
  have none : list.filter (·.timestamp == e.timestamp) = [] := by
    refine List.filter_eq_nil_iff.mpr fun x member same => fresh ?_
    exact List.mem_map.mpr ⟨x, member, by simpa using same⟩
  have all := prune_filter (·.timestamp == e.timestamp) (fun x goes => by simpa using stays x goes)
  rw [List.filter_append, none, List.nil_append, List.filter_cons_of_pos (by simp), List.filter_nil] at all
  exact List.perm_singleton.mp all

omit [LawfulSerde β PresetFile] in
theorem kept_addSnapshot {snapshot : Snapshot} (syncs : Syncs o) (spares : Spares s (.addSnapshot member snapshot) d) :
    Triple o (· = d) ((Call.addSnapshot member snapshot).run s)
      (fun a d' => Kept s (.addSnapshot member snapshot) d (.ok a) d')
      fun e d' => Kept s (.addSnapshot member snapshot) d (.error e) d' := by
  obtain ⟨finite, room, goes⟩ := spares
  have sound (id : Int64) (file file' : SnapshotFile) (sound : Sound file) (adds : Adds snapshot id file file') :
      Sound file' := by
    obtain ⟨-, rfl⟩ := adds
    exact sound.entries (all_of_subperm prune_subperm (by simpa [finite] using List.all_eq_true.mp sound.finite))
  -- Both a call that ended and one the process ended in keep the others.
  have others {id : Int64} {d' : Disk β} (edited : Edited s d member (Adds snapshot id) d') :
      (∀ m, ((history s d m).filter (Call.spares (.addSnapshot member snapshot) m)).Subperm (history s d' m)) ∧
        ∀ m, ((presetsOf s d m).filter (·.archived)).Subperm (presetsOf s d' m) := by
    obtain ⟨file, file', ⟨rfl, rfl⟩, -, before, after, others, presets⟩ := edited.entries (sound id)
    refine ⟨fun m => ?_, fun m => ?_⟩
    · by_cases own : m = member
      · rw [own, after, before]
        rw [before] at goes
        have pruned := (prune_spares (.addSnapshot member snapshot) member fun x out => (goes x out).1).symm.subperm
        exact (((List.sublist_append_left _ _).filter _).subperm.trans pruned).trans List.filter_sublist.subperm
      · rw [others m own]
        exact List.filter_sublist.subperm
    · rw [presets]
      exact List.filter_sublist.subperm
  refine triple_bind (triple_conseq (triple_addSnapshot syncs) (fun _ => id) (fun _ _ => id) ?_)
    fun id => triple_pure fun d' edited => ?_
  · rintro e d' (same | ⟨rfl, id, edited⟩)
    · exact kept_same (by simp) same
    · exact .of (by simp) (others edited).1 (others edited).2 (by simp)
  · obtain ⟨kept, presets⟩ := others edited
    obtain ⟨file, file', ⟨rfl, rfl⟩, reads, before, after, -, -⟩ := edited.entries (sound id)
    rw [before] at goes room
    have fresh := freeSecond_free room
    have only := prune_new fresh fun x out => (goes x out).2
    refine ⟨?_, ?_, ?_, kept, presets, by simp⟩
    · rintro _ _ _ ⟨⟩ ⟨⟩ o clock readable
      obtain ⟨later, run⟩ := snapshot_reads reads clock readable
      refine ⟨later, ?_⟩
      rw [run, find?_only (x := { snapshot with timestamp := freeSecond file.snapshots snapshot.timestamp })]
      · rw [List.mem_insertionSort]
        exact List.mem_of_mem_filter (by rw [only]; exact List.mem_singleton_self _)
      · simp
      · intro y member same
        rw [List.mem_insertionSort] at member
        have kept := List.mem_filter (p := (·.timestamp == freeSecond file.snapshots snapshot.timestamp)).mpr ⟨member, same⟩
        rw [only] at kept
        exact List.mem_singleton.mp kept
    · rintro _ _ _ ⟨⟩ ⟨⟩
      rw [before, after]
      refine ⟨fresh, ?_⟩
      rw [List.count_eq_countP, List.countP_map, List.countP_eq_length_filter]
      exact congrArg List.length only
    · rintro _ _ _ ⟨⟩ ⟨⟩
      rw [after]
      by_cases short : (prune (file.snapshots ++ [{ snapshot with
          timestamp := freeSecond file.snapshots snapshot.timestamp }])).length ≤ maxSnapshots
      · exact .inl short
      · refine .inr ?_
        have pinned := prune_capped.resolve_left short
        rw [List.filter_eq_self.mpr fun x member => by rw [pinned x member]; rfl]
        exact Nat.lt_of_not_le short

theorem kept_call (syncs : Syncs o) (spares : Spares s call d) :
    Triple o (· = d) (call.run s) (fun a d' => Kept s call d (.ok a) d') fun e d' => Kept s call d (.error e) d' := by
  cases call with
  | savePreset member name content now => exact kept_savePreset syncs spares
  | deletePreset member name => exact kept_deletePreset syncs
  | addSnapshot member snapshot => exact kept_addSnapshot syncs spares
  | deleteSnapshot member ts => exact kept_delete syncs
  | pinSnapshot member ts pinned label => exact kept_pin syncs

private theorem kept_answered (syncs : Syncs o) {w : Clocked (Disk β)}
    (bears : Bears s call w.world (call.answered s o w).1 (call.answered s o w).2.world) :
    Kept s call w.world (call.answered s o w).1 (call.answered s o w).2.world := by
  rcases bears with ⟨same, e, failed⟩ | spares
  · exact kept_same (fun id ok => by rw [failed] at ok; cases ok) same
  have kept := kept_call syncs spares w rfl
  unfold Call.answered
  cases run : call.run s o w with
  | ok a w' => rw [run] at kept; exact kept
  | error e w' => rw [run] at kept; exact kept

/-- Archived entries are kept by every call. -/
private theorem archived_kept {list list' : List Snapshot} {member : String}
    (kept : (list.filter (call.spares member)).Subperm list') :
    (list.filter (·.archived)).Subperm (list'.filter (·.archived)) := by
  have same : list.filter (·.archived) = (list.filter (call.spares member)).filter (·.archived) := by
    rw [List.filter_filter]
    refine List.filter_congr fun x _ => ?_
    cases archived : x.archived <;> simp [Call.spares, archived]
  rw [same]
  exact kept.filter _

/-- Every call of a run keeps what the store accepted when no directory's sync fails and each
entry to add, where the call is not refused, finds a second and room without an archived entry's,
or its own; and the archived entries the run began with are there at its end. -/
theorem store_keeps (s : Store) (o : Oracle Step (Fate β)) (calls : List Call) (w : Clocked (Disk β)) (syncs : Syncs o)
    (bears : Each s o (Bears s) calls w) :
    Each s o (Kept s) calls w ∧
      (∀ member, ((history s w.world member).filter (·.archived)).Subperm
        (history s (served s o calls w).world member)) ∧
      ∀ member, ((presetsOf s w.world member).filter (·.archived)).Subperm
        (presetsOf s (served s o calls w).world member) := by
  induction calls generalizing w with
  | nil =>
    exact ⟨trivial, fun _ => List.filter_sublist.subperm, fun _ => List.filter_sublist.subperm⟩
  | cons call later ih =>
    obtain ⟨here, rest⟩ := bears
    have kept := kept_answered (s := s) syncs here
    obtain ⟨each, entries, presets⟩ := ih _ rest
    refine ⟨⟨kept, each⟩, fun member => ?_, fun member => ?_⟩
    · exact (archived_kept (kept.entries member)).trans (entries member)
    · have first := (kept.presets member).filter (·.archived)
      rw [List.filter_filter] at first
      simp only [Bool.and_self] at first
      exact first.trans (presets member)

end

end

def smooth : Oracle Step (Fate PlainText) := fun _ _ => .done

/-- A data directory with this history of Ana's. -/
def band (snapshots : List Snapshot) : Disk PlainText where
  files kind member :=
    if kind = .snapshots ∧ member = "ana" then some (.snapshots ⟨snapshotsFormat, schema, "ana", snapshots⟩) else none

def here : Store := ⟨"/data"⟩

/-- A history with more entries than are kept, one pinned and one archived among them. -/
def crowded : List Snapshot :=
  (List.range 55).map fun i => { timestamp := .ofNat i, archived := i == 50, pinned := i == 3 }

theorem store_keeps_trio : Each here smooth (Kept here)
    [.addSnapshot "ana" { timestamp := 50 }, .pinSnapshot "ana" 40 true (some "gig"), .deleteSnapshot "ana" 50]
    ⟨band crowded, 0⟩ := by
  have spares : Spares here (.addSnapshot "ana" { timestamp := 50 }) (band crowded) := by
    refine ⟨by decide +kernel, .inl ⟨56, by decide, ?_⟩, ?_⟩
    · decide +kernel
    · decide +kernel
  have rest (w : Clocked (Disk PlainText)) : Each here smooth (Bears here)
      [.pinSnapshot "ana" 40 true (some "gig"), .deleteSnapshot "ana" 50] w := each_plain here (by simp [Spares]) w
  have every := (each_cons here (o := smooth) (w := ⟨band crowded, 0⟩)).mpr ⟨.inr spares, rest _⟩
  exact (store_keeps here smooth _ _ (fun _ _ _ => by simp [smooth]) every).1

/-- With as many pinned entries as may be kept, the entry that is accepted is the one that
goes. -/
theorem a_full_set_of_pins_drops_the_new_entry : ¬Each here smooth (Kept here) [.addSnapshot "ana" { timestamp := 100 }]
    ⟨band ((List.range 50).map fun i => { timestamp := .ofNat i, pinned := true }), 0⟩ := by
  intro kept
  obtain ⟨later, read⟩ := kept.1.added "ana" { timestamp := 100 } 100 rfl (by decide +kernel) smooth 0 fun _ => rfl
  have there := congrArg (fun r => match r with | .ok a _ => a.isSome | .error _ _ => false) read
  exact absurd (there.symm.trans (by decide +kernel : _ = false)) (by simp)

end IemMixer.Server.BandStore
