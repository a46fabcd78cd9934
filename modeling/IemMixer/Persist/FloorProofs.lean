import IemMixer.Persist.History

/-! The revision floor: from an empty directory, whatever fails, the marker shows at
least what `current.json` holds and every generation's name at least what it holds. So a
load past a live file it could not read continues above every file in the directory. -/
namespace IemMixer.Persist
open Lib Lib.Files Proto

section
variable {β : Type} [Json β] {o : Oracle β} {s : Store} {topo : Topology} {d : Dir β}

theorem holds_move {src dst name : String} {b : β} {p : Persisted}
    (held : Holds (move d src dst b) name p) :
    (name = dst ∧ decode b = .ok p) ∨ (name ≠ dst ∧ name ≠ src ∧ Holds d name p) := by
  obtain ⟨c, there, decoded⟩ := held
  rw [getElem?_move] at there
  by_cases target : dst = name
  · rw [if_pos target] at there
    cases there
    exact .inl ⟨target.symm, decoded⟩
  · rw [if_neg target] at there
    by_cases source : src = name
    · rw [if_pos source] at there
      cases there
    · rw [if_neg source] at there
      exact .inr ⟨Ne.symm target, Ne.symm source, c, there, decoded⟩

theorem holds_insert {new name : String} {b : β} {p : Persisted} (apart : name ≠ new)
    (held : Holds (d.insert new b) name p) : Holds d name p := by
  obtain ⟨c, there, decoded⟩ := held
  rw [BTreeMap.getElem?_insert_eq, if_neg (Ne.symm apart)] at there
  exact ⟨c, there, decoded⟩

theorem holds_erase {gone name : String} {p : Persisted} (held : Holds (d.erase gone) name p) :
    Holds d name p := by
  obtain ⟨c, there, decoded⟩ := held
  rw [BTreeMap.getElem?_erase_eq] at there
  split at there
  · cases there
  · exact ⟨c, there, decoded⟩

omit [Json β] in
theorem LiveName.kind_eq {name : String} (live : LiveName name) :
    kind name = .current ∨ ∃ seq rev, kind name = .generation seq rev := by
  rcases live with rfl | ⟨p, shown⟩
  · exact .inl (by simp)
  · exact .inr ⟨_, _, kind_generation shown⟩

/-- Some marker shows at least `rev`. -/
def Marked (d : Dir β) (rev : UInt64) : Prop :=
  ∃ name shown, markRev name = some shown ∧ (∃ b, d[name]? = some b) ∧ rev ≤ shown

/-- The names show at least what the live files hold. -/
structure Floored (d : Dir β) : Prop where
  current : ∀ p, Holds d currentJson p → Marked d p.rev
  generations : ∀ name seq rev p, generationParts name = some (seq, rev) → Holds d name p →
    ∃ shown, rev = some shown ∧ p.rev ≤ shown

/-- What `save.tmp` holds is at most `rev`. -/
def TmpBelow (rev : UInt64) (d : Dir β) : Prop := ∀ p, Holds d saveTmp p → p.rev ≤ rev

/-- Steps that put nothing new at a live name and leave the markers there keep the floor. -/
private theorem Floored.frame {d' : Dir β} (floored : Floored d)
    (live : ∀ name p, LiveName name → Holds d' name p → Holds d name p)
    (marks : ∀ name rev, markRev name = some rev → (∃ b, d[name]? = some b) →
      ∃ b, d'[name]? = some b) : Floored d' where
  current p held := by
    obtain ⟨name, shown, marked, there, below⟩ :=
      floored.current p (live _ p (.inl rfl) held)
    exact ⟨name, shown, marked, marks name shown marked there, below⟩
  generations name seq rev p parts held :=
    floored.generations name seq rev p parts (live name p (.inr ⟨_, parts⟩) held)

private theorem Floored.move {src dst : String} {b : β} (floored : Floored d)
    (to_ : ¬LiveName dst) (from_ : ∀ rev, kind src ≠ .mark rev) : Floored (move d src dst b) := by
  refine floored.frame (fun name p live held => ?_) fun name rev marked there => ?_
  · rcases holds_move held with ⟨rfl, -⟩ | ⟨-, -, held⟩
    · exact absurd live to_
    · exact held
  · have apart : src ≠ name := fun same => from_ rev (same ▸ kind_mark marked)
    rw [getElem?_move, if_neg apart]
    split
    · exact ⟨b, rfl⟩
    · exact there

private theorem Floored.insert {name : String} {b : β} (floored : Floored d) (other : ¬LiveName name) :
    Floored (d.insert name b) := by
  refine floored.frame (fun live p named held => ?_) fun mark rev marked there => ?_
  · have apart : live ≠ name := fun same => other (same ▸ named)
    exact holds_insert apart held
  · rw [BTreeMap.getElem?_insert_eq]
    split
    · exact ⟨b, rfl⟩
    · exact there

private theorem Floored.erase {name : String} (floored : Floored d)
    (other : ∀ rev, kind name ≠ .mark rev) : Floored (d.erase name) := by
  refine floored.frame (fun live p named held => holds_erase held) fun mark rev marked there => ?_
  have apart : name ≠ mark := fun same => other rev (same ▸ kind_mark marked)
  rw [BTreeMap.getElem?_erase_eq, if_neg apart]
  exact there

private theorem not_live {name : String} (current : kind name ≠ .current)
    (generation : ∀ seq rev, kind name ≠ .generation seq rev) : ¬LiveName name := by
  intro live
  rcases live.kind_eq with same | ⟨seq, rev, same⟩
  · exact current same
  · exact generation seq rev same

/-- A generation made of `current.json` carries at least the revision it holds. -/
private theorem Floored.rotate {seq : UInt64} {b : β} (floored : Floored d)
    (there : d[currentJson]? = some b) :
    Floored (Files.move d currentJson (generationName seq (lastMark d)) b) where
  current p held := by
    rcases holds_move held with ⟨same, -⟩ | ⟨-, same, -⟩
    · exact absurd same (ne_of_kind (by simp))
    · exact absurd rfl same
  generations name seq' rev p parts held := by
    rcases holds_move held with ⟨rfl, decoded⟩ | ⟨-, -, held⟩
    · rw [generationParts_generationName] at parts
      cases parts
      obtain ⟨name, shown, marked, ⟨c, held⟩, below⟩ := floored.current p ⟨b, there, decoded⟩
      obtain ⟨last, final, above, -⟩ :=
        le_last_mark ((BTreeMap.mem_keys_iff d name).mpr ⟨c, held⟩) marked
      exact ⟨last.1, by rw [lastMark, final]; rfl, UInt64.le_trans below above⟩
    · exact floored.generations name seq' rev p parts held

private theorem tmpBelow_move {rev : UInt64} {src dst : String} {b : β} (below : TmpBelow rev d)
    (to_ : dst ≠ saveTmp) : TmpBelow rev (move d src dst b) := by
  intro p held
  rcases holds_move held with ⟨same, -⟩ | ⟨-, -, held⟩
  · exact absurd same.symm to_
  · exact below p held

/-- With no `current.json`, the marker may go anywhere. -/
private theorem Floored.remark {name : String} {rev : UInt64} {b : β} (floored : Floored d)
    (gone : d[currentJson]? = none) :
    Floored (Files.move d name (markName rev) b) where
  current p held := by
    rcases holds_move held with ⟨same, -⟩ | ⟨-, -, c, there, -⟩
    · exact absurd same (ne_of_kind (by simp))
    · rw [gone] at there
      cases there
  generations other seq shown p parts held := by
    rcases holds_move held with ⟨rfl, -⟩ | ⟨-, -, held⟩
    · have marker := kind_generation parts
      simp at marker
    · exact floored.generations other seq shown p parts held

/-- `save.tmp` becomes `current.json` under a marker that shows its revision. -/
private theorem Floored.commit {rev : UInt64} {b : β} (floored : Floored d) (below : TmpBelow rev d)
    (marker : ∃ c, d[markName rev]? = some c) (there : d[saveTmp]? = some b) :
    Floored (Files.move d saveTmp currentJson b) where
  current p held := by
    obtain ⟨c, marker⟩ := marker
    have current : currentJson ≠ markName rev := ne_of_kind (by simp)
    have tmp : saveTmp ≠ markName rev := ne_of_kind (by simp)
    refine ⟨markName rev, rev, markRev_markName rev, ⟨c, by simpa [current, tmp] using marker⟩, ?_⟩
    rcases holds_move held with ⟨-, decoded⟩ | ⟨same, -⟩
    · exact below p ⟨b, there, decoded⟩
    · exact absurd rfl same
  generations name seq rev p parts held := by
    rcases holds_move held with ⟨rfl, -⟩ | ⟨-, -, held⟩
    · have fixed := kind_generation parts
      simp at fixed
    · exact floored.generations name seq rev p parts held

/-- A commit keeps the floor: the old revision is in a name before the marker moves on,
and the marker shows the new one before `current.json` holds it. -/
private theorem commit_floored (rev : UInt64) :
    Triple o (fun d _ => Floored d ∧ TmpBelow rev d) (s.commitTmp rev : StoreM β _)
      (fun _ d _ => Floored d) fun _ d _ => Floored d := by
  refine triple_commitTmp
    (R := fun d _ => (Floored d ∧ TmpBelow rev d) ∧ d[currentJson]? = none)
    (M := fun d _ => ((Floored d ∧ TmpBelow rev d) ∧ d[currentJson]? = none) ∧
      ∃ b, d[markName rev]? = some b) s rev ?_ ?_ ?_ ?_ ?_ ?_ ?_
    (fun _ _ pre => pre.1) (fun _ _ pre => pre.1.1) (fun _ _ pre => pre.1.1.1) fun _ _ => id
  · rintro d _ b seq ⟨floored, below⟩ there
    refine ⟨⟨floored.rotate there, tmpBelow_move below (ne_of_kind (by simp))⟩, ?_⟩
    have apart : generationName seq (lastMark d) ≠ currentJson := ne_of_kind (by simp)
    simp [apart]
  · rintro d _ ⟨floored, below⟩ gone
    exact ⟨⟨floored, below⟩, gone⟩
  · rintro d _ name r b ⟨⟨floored, below⟩, gone⟩ _ _
    have current : markName rev ≠ currentJson := ne_of_kind (by simp)
    refine ⟨⟨⟨floored.remark gone, tmpBelow_move below (ne_of_kind (by simp))⟩, ?_⟩, b, ?_⟩
    · rw [getElem?_move, if_neg current, gone, ite_self]
    · simp
  · rintro d _ b pre there
    exact ⟨pre, b, there⟩
  · rintro d _ b ⟨⟨floored, below⟩, gone⟩
    have current : markName rev ≠ currentJson := ne_of_kind (by simp)
    have tmp : saveTmp ≠ markName rev := ne_of_kind (by simp)
    refine ⟨⟨⟨floored.insert (not_live (by simp) (by simp)), fun p held => below p (holds_insert tmp held)⟩,
      ?_⟩, b, ?_⟩
    · rw [BTreeMap.getElem?_insert_eq, if_neg current, gone]
    · rw [BTreeMap.getElem?_insert_eq, if_pos rfl]
  · rintro d _ b ⟨⟨⟨floored, below⟩, -⟩, marker⟩ there
    exact floored.commit below marker there
  · rintro d _ name p floored shown
    exact floored.erase (by simp [kind_generation shown])

/-- A save keeps the floor. -/
private theorem save_floored [LawfulJson β] (p : Persisted) :
    Keeps o (fun d _ => Floored d) (s.act topo (.save p) : StoreM β _) := by
  refine keeps_bind (triple_save (R := fun d _ => Floored d ∧ TmpBelow p.rev d) s p ?_
    (commit_floored p.rev)) fun _ => triple_pure fun _ _ => id
  refine triple_place
    (W := fun d _ => Floored d ∧ ∃ b, d[saveNew]? = some b ∧ encode p = .ok b)
    (O := fun d _ => Floored d ∧ ∃ b, d[saveNew]? = some b ∧ encode p = .ok b) s p ?_ ?_
    (fun _ => id) (fun _ pre _ => pre) ?_ ?_ (fun _ _ => id) (fun _ _ pre => pre.1) fun _ _ pre => pre.1
  · rintro d _ b encoded floored
    exact ⟨floored.insert (not_live (by simp) (by simp)), b, by simp, encoded⟩
  · rintro d _ b floored
    exact floored.insert (not_live (by simp) (by simp))
  · rintro d b n - high ⟨floored, c, written, encoded⟩ - -
    have aside := kind_orphan (orphanNumber_asideName (Nat.lt_of_le_of_lt high (by decide)))
    have new : asideName saveTmp "orphan" n ≠ saveNew := ne_of_kind (by simp [aside])
    have tmp : saveTmp ≠ saveNew := by decide
    exact ⟨floored.move (not_live (by simp [aside]) (by simp [aside])) (by simp),
      c, by simpa [new, tmp] using written, encoded⟩
  · rintro d _ b ⟨floored, c, written, encoded⟩ there
    cases written.symm.trans there
    refine ⟨floored.move (not_live (by simp) (by simp)) (by simp), fun q held => ?_⟩
    rcases holds_move held with ⟨-, decoded⟩ | ⟨same, -⟩
    · exact UInt64.le_of_eq (decode_encode_rev encoded decoded)
    · exact absurd rfl same

private theorem satAdd_toNat (a b : UInt64) :
    (satAdd a b).toNat = min (a.toNat + b.toNat) (2 ^ 64 - 1) := by
  rw [satAdd, UInt64.toNat_ofNat_of_lt']
  have : min (a.toNat + b.toNat) (2 ^ 64 - 1) ≤ 2 ^ 64 - 1 := Nat.min_le_right ..
  show _ < 2 ^ 64
  omega

/-- The revision a load past unreadable files continues at. -/
private theorem continueAbove_rev (chained : Loaded) (passedOver : List String)
    (listed : Except IoError Listing) :
    ∃ base, chained.persisted.rev ≤ base ∧
      (∀ names f, listed = .ok names → names.floor = some f → f ≤ base) ∧
      (continueAbove chained passedOver listed).persisted.rev = satAdd base revJump := by
  have top : ∀ a b : UInt64, a ≤ (if a < b then b else a) ∧ b ≤ (if a < b then b else a) := by
    intro a b
    split <;> simp only [UInt64.le_iff_toNat_le, UInt64.lt_iff_toNat_lt] at * <;> omega
  cases listed with
  | error e => exact ⟨_, (top _ _).1, by simp, rfl⟩
  | ok names =>
    refine ⟨_, (top _ (names.floor.getD 0)).1, ?_, rfl⟩
    rintro _ f ⟨⟩ shown
    rw [shown]
    exact (top _ _).2

/-- Continuing never lowers the revision. -/
private theorem le_continued (chained : Loaded) (passedOver : List String)
    (listed : Except IoError Listing) :
    chained.persisted.rev ≤ (continued chained passedOver listed).persisted.rev := by
  unfold continued
  split
  · exact UInt64.le_refl _
  · obtain ⟨base, above, -, same⟩ := continueAbove_rev chained passedOver listed
    have bound := UInt64.le_iff_toNat_le.mp above
    have small := base.toNat_lt
    rw [same, UInt64.le_iff_toNat_le, satAdd_toNat]
    omega

/-- A boot on `save.tmp` loads at least the revision it holds. -/
private theorem load_tmp : Looks o d (s.load topo) fun loaded =>
    loaded.source = .interrupted → TmpBelow loaded.persisted.rev d := by
  refine looks_mono (looks_load s topo) ?_
  rintro _ ⟨live, pick, current, tmp, chained, listed, orphans, picked, chains, -, rfl⟩ interrupted p held
  refine UInt64.le_trans ?_ (le_continued chained pick.passedOver listed)
  rw [show Loaded.source _ = _ from (continued_frame chained pick.passedOver listed).1] at interrupted
  have holdsTmp := picked.readsTmp
  cases chains with
  | baseline _ _ => cases interrupted
  | defaults _ => cases interrupted
  | live l =>
    generalize chosen : some l = choice at picked
    cases picked.choice with
    | superseded _ => cases chosen; rw [held.unique holdsTmp.1]; exact UInt64.le_refl _
    | pending _ => cases chosen; rw [held.unique holdsTmp.1]; exact UInt64.le_refl _
    | leftover _ _ => cases chosen; cases interrupted
    | current _ => cases chosen; cases interrupted
    | generation _ _ _ _ => cases chosen; cases interrupted
    | nothing _ _ => cases chosen

/-- A boot keeps the floor. -/
private theorem boot_floored : Keeps o (fun d _ => Floored d) (s.act topo .boot : StoreM β _) := by
  refine triple_boot (fun _ _ _ => load_tmp) (fun loaded => ?_) fun _ _ => id
  refine triple_recover (R := fun d _ => Floored d ∧
    (loaded.source = .interrupted → TmpBelow loaded.persisted.rev d)) (fun _ _ => id) ?_ ?_
    (fun _ _ pre => pre.1) fun _ _ => id
  · rintro - d _ b n ⟨floored, below⟩ -
    exact ⟨floored.move (not_live (by simp) (by simp)) (by simp),
      fun interrupted => tmpBelow_move (below interrupted) (ne_of_kind (by simp))⟩
  · intro interrupted
    refine triple_bind (triple_syncFile (Q := fun _ d _ => Floored d ∧ TmpBelow loaded.persisted.rev d) ?_
      fun _ _ _ pre => pre.1) fun _ => commit_floored _
    rintro d _ b ⟨floored, below⟩ -
    exact ⟨floored, below interrupted⟩

theorem act_floored [LawfulJson β] (a : Act) :
    Keeps o (fun d _ => Floored d) (s.act topo a : StoreM β _) := by
  cases a with
  | boot => exact boot_floored
  | save p => exact save_floored p
  | load =>
    exact triple_look (A := fun _ _ => True) (fun _ _ _ => looks_mono (looks_load s topo) fun _ _ => trivial)
      (fun _ => triple_pure fun _ _ pre => pre.1) fun _ _ => id

/-- The directory holds a file of this name. -/
def There (d : Dir β) (name : String) : Prop := ∃ b, d[name]? = some b

/-- A load passes over an unreadable `current.json`, or, with no valid `current.json`, an
unreadable generation that no readable valid one is newer than. -/
def PassesOver (o : Oracle β) (d : Dir β) : Prop :=
  (There d currentJson ∧ Unreadable o currentJson) ∨
  ((∀ p, ¬Holds d currentJson p) ∧ ∃ name seq rev, generationParts name = some (seq, rev) ∧
    There d name ∧ Unreadable o name ∧
    ∀ newer seq' rev', generationParts newer = some (seq', rev') → There d newer →
      Before UInt64.toNat (seq, name) (seq', newer) → (∃ p, Holds d newer p) → Unreadable o newer)

/-- Such a generation is passed among those of the listing, newest first. -/
private theorem passed_generation {name : String} {seq : UInt64} {rev : Option UInt64}
    (parts : generationParts name = some (seq, rev)) (there : There d name)
    (unread : Unreadable o name)
    (newest : ∀ newer seq' rev', generationParts newer = some (seq', rev') → There d newer →
      Before UInt64.toNat (seq, name) (seq', newer) → (∃ p, Holds d newer p) → Unreadable o newer) :
    Passed o d (newestFirst d) := by
  have listed : (seq, name) ∈ newestFirst d :=
    List.mem_reverse.mpr (mem_generations.mpr ⟨(BTreeMap.mem_keys_iff d name).mpr there, rev, parts⟩)
  obtain ⟨newer, older, split⟩ := List.append_of_mem listed
  have sorted : (newestFirst d).Pairwise fun a b => Before UInt64.toNat b a :=
    List.pairwise_reverse.mpr (generations_sorted d.keys)
  refine ⟨newer, (seq, name), older, split, unread, fun x held p holds => ?_⟩
  have entry : x ∈ newestFirst d := by rw [split]; simp [held]
  obtain ⟨there', rev', parts'⟩ := mem_generations.mp (List.mem_reverse.mp entry)
  rw [split] at sorted
  refine newest x.2 x.1 rev' parts' ((BTreeMap.mem_keys_iff d x.2).mp there') ?_ ⟨p, holds⟩
  exact (List.pairwise_append.mp sorted).2.2 x held (seq, name) (by simp)

/-- A pick in such a directory passes a file over. -/
private theorem picked_passes {live : Option Live} {pick : Pick} {current tmp : Read}
    (picked : Picked o d live pick current tmp) (listable : Listable o) (passes : PassesOver o d) :
    pick.passedOver ≠ [] := by
  have reads := picked.readsCurrent
  rcases passes with ⟨there, unread⟩ | ⟨invalid, name, seq, rev, parts, there, unread, newest⟩
  · refine picked.passesCurrent ?_
    cases current with
    | unreadable => rfl
    | missing => exact absurd unread reads.2
    | damaged => exact absurd unread reads.2
    | valid p => exact absurd unread reads.2
  · refine picked.passes ?_ listable (passed_generation parts there unread newest)
    rintro p rfl
    exact invalid p reads.1

/-- The floor is at least what a live file holds. -/
private theorem Floored.le_floor (floored : Floored d) {name : String} {q : Persisted}
    (live : LiveName name) (held : Holds d name q) :
    ∃ f, (listing d.keys).floor = some f ∧ q.rev ≤ f := by
  have listed : ∀ {name : String}, There d name → name ∈ d.keys := fun there =>
    (BTreeMap.mem_keys_iff d _).mpr there
  rcases live with rfl | ⟨⟨seq, rev⟩, parts⟩
  · obtain ⟨mark, shown, marked, there, below⟩ := floored.current q held
    have unparted : generationParts mark = none := by
      cases parts : generationParts mark with
      | none => rfl
      | some p =>
        have both := kind_generation parts
        rw [kind_mark marked] at both
        cases both
    obtain ⟨f, floor, above⟩ := Persist.le_floor (listed there)
      (show shownRev mark = some shown by rw [shownRev, unparted]; exact marked)
    exact ⟨f, floor, UInt64.le_trans below above⟩
  · obtain ⟨shown, rfl, below⟩ := floored.generations name seq rev q parts held
    obtain ⟨b, there, -⟩ := held
    obtain ⟨f, floor, above⟩ := Persist.le_floor (listed ⟨b, there⟩)
      (show shownRev name = some shown by rw [shownRev, parts])
    exact ⟨f, floor, UInt64.le_trans below above⟩

/-- A load past an unreadable live file continues above every live file. -/
theorem load_above (listable : Listable o) (floored : Floored d) (passes : PassesOver o d) :
    Looks o d (s.load topo) fun loaded => loaded.persisted.rev.toNat < 2 ^ 64 - 1 →
      ∀ name q, LiveName name → Holds d name q → q.rev < loaded.persisted.rev := by
  refine looks_mono (looks_load s topo) ?_
  rintro _ ⟨live, pick, current, tmp, chained, listed, orphans, picked, chains, shown, rfl⟩ room name q
    named held
  have passing := picked_passes picked listable passes
  cases listed with
  | error e => exact absurd listable shown
  | ok names =>
    cases shown
    obtain ⟨f, floor, below⟩ := floored.le_floor named held
    obtain ⟨base, -, above, same⟩ := continueAbove_rev chained pick.passedOver (.ok (listing d.keys))
    have jumped : (continued chained pick.passedOver (.ok (listing d.keys))).persisted.rev =
        satAdd base revJump := by
      rw [continued, if_neg (by simpa using passing), same]
    dsimp only at room ⊢
    rw [jumped] at room ⊢
    have top := above _ f rfl floor
    simp only [UInt64.le_iff_toNat_le, UInt64.lt_iff_toNat_lt, satAdd_toNat] at below top room ⊢
    have jump : revJump.toNat = 1000000 := by decide
    omega

/-- The revision floor. From an empty directory, by any saves, loads and recoveries, with
any step failing or the last before a crash: a load past an unreadable live file, its
listing succeeding and the revision short of the last, returns a revision above the one
any `current.json` or generation holds, so every state of this session supersedes them. -/
theorem revision_floor [LawfulJson β] (s : Store) (topo : Topology) (o last : Oracle β)
    (lives : List (List Act)) (listable : Listable last) :
    let dir := ((⟨⟨∅, false, 0⟩, none⟩ : Session β).history s topo o lives).world.dir
    PassesOver last dir → ∀ (w w' : World β Bool) (loaded : Loaded), w.dir = dir →
      s.load topo last w = .ok loaded w' → loaded.persisted.rev.toNat < 2 ^ 64 - 1 →
      ∀ name q, LiveName name → Holds dir name q →
        q.rev < loaded.persisted.rev ∧
          ∀ p : Persisted, loaded.persisted.rev ≤ p.rev → supersedes p q ∧ ¬supersedes q p := by
  intro dir passes w w' loaded here run room name q named held
  have empty : Floored (∅ : Dir β) := by
    constructor
    · rintro p ⟨b, there, -⟩
      simp at there
    · rintro name seq rev p - ⟨b, there, -⟩
      simp at there
  have floored : Floored dir := history_keeps (I := Floored) act_floored empty
  have above := (looks_ok (load_above listable floored passes) here run).2 room name q named held
  refine ⟨above, fun p later => ?_⟩
  simp only [supersedes, decide_eq_true_eq, UInt64.le_iff_toNat_le, UInt64.lt_iff_toNat_lt] at *
  omega

end

/-- A directory after one save of revision 5. -/
def savedOnce : Session PlainBytes :=
  (⟨⟨∅, false, 0⟩, none⟩ : Session PlainBytes).history duetStore TopologyProofs.duetCompiled.topo calm
    [[.boot, .save { rev := 5 }]]

/-- Its `current.json` locked, the boot loads the defaults above revision 5. -/
theorem revision_floor_locked :
    ∃ loaded w', duetStore.load TopologyProofs.duetCompiled.topo (locked currentJson)
      savedOnce.world = .ok loaded w' ∧ loaded.source = .defaults ∧ 5 < loaded.persisted.rev := by
  obtain ⟨loaded, w', run, source, rev⟩ :=
    loadsAs_ok (show loadsAs (locked currentJson) savedOnce.world = some (.defaults, 1000005) by
      decide +kernel)
  have held : Holds savedOnce.world.dir currentJson { rev := 5 } :=
    ⟨some ⟨formatName, schemaVersion, "5", { rev := 5 }⟩, by decide +kernel, rfl⟩
  have unread : Unreadable (locked currentJson) currentJson := fun t => by simp [locked]
  have there : There savedOnce.world.dir currentJson := held.imp fun _ => And.left
  refine ⟨loaded, w', run, source, ?_⟩
  exact (revision_floor duetStore TopologyProofs.duetCompiled.topo calm (locked currentJson)
    [[.boot, .save { rev := 5 }]] (fun _ => .inl rfl) (.inl ⟨there, unread⟩) savedOnce.world w' loaded
    rfl run (by rw [rev]; decide) currentJson { rev := 5 } (.inl rfl) held).1

end IemMixer.Persist
