import IemMixer.Persist.ChainProofs

/-! What the steps of a save and of the recovery can do to the directory: one rule for
each, from the assertion before a step to the one after it, with what must hold
wherever the run may stop. Every result about saves is an instance. -/
namespace IemMixer.Persist
open Lib Lib.Files Proto

section
variable {β : Type} [Json β] {o : Oracle β} {P Q R M W O : Assertion β Bool} {E : Assertion β Bool}

omit [Json β] in
private theorem missing_of_not {d : Dir β} {name : String} (absent : ¬d.contains name = true) :
    d[name]? = none := by
  rw [Std.ExtTreeMap.contains_eq_isSome_getElem?] at absent
  simpa using absent

omit [Json β] in
private theorem triple_moveAsideFrom (s : Store) (name tag : String) (left : ℕ)
    (enough : left ≤ quarantineNames)
    (moved : ∀ d m b n, 1 ≤ n → n ≤ quarantineNames → P d m → d[asideName name tag n]? = none →
      d[name]? = some b → Q (move d name (asideName name tag n) b) m)
    (before : ∀ d m, P d m → E d m) (after : ∀ d m, Q d m → E d m) :
    Triple o P (s.moveAsideFrom name tag left : StoreM β _) (fun _ => Q) fun _ => E := by
  induction left with
  | zero => exact triple_fail before
  | succ left ih =>
    unfold Store.moveAsideFrom
    refine triple_bind (Q := fun taken d m => P d m ∧
      (taken = false → d[asideName name tag (quarantineNames - left)]? = none))
      (triple_isThere (fun d m pre => ⟨pre, fun free => missing_of_not (by simp [free])⟩)
        fun _ => before) fun taken => ?_
    refine triple_ite (fun _ => triple_pre (ih (by omega)) fun _ _ pre => pre.1) fun free => ?_
    refine triple_bind (Q := fun _ => Q) (triple_rename ?_ fun _ d m pre => before d m pre.1) fun _ => ?_
    · intro d m b pre held
      exact moved d m b _ (by omega) (by omega) pre.1 (pre.2 (by simpa using free)) held
    · have sync : Keeps o Q (syncDir : StoreM β _) := triple_syncDir (fun _ _ => id) fun _ _ _ => id
      exact triple_bind ((keeps_attempt sync).triple after) fun _ => triple_pure fun _ _ => id

omit [Json β] in
/-- A file moved aside is under a free name; nothing else changes. -/
theorem triple_moveAside (s : Store) (name tag : String)
    (moved : ∀ d m b n, 1 ≤ n → n ≤ quarantineNames → P d m → d[asideName name tag n]? = none →
      d[name]? = some b → Q (move d name (asideName name tag n) b) m)
    (before : ∀ d m, P d m → E d m) (after : ∀ d m, Q d m → E d m) :
    Triple o P (s.moveAside name tag : StoreM β _) (fun _ => Q) fun _ => E :=
  triple_moveAsideFrom s name tag _ (Nat.le_refl _) moved before after

omit [Json β] in
/-- A `save.tmp` that is not the store's own is moved aside, or there is none. -/
theorem triple_orphanTmp (s : Store)
    (owned : ∀ d, P d true → Q d true)
    (absent : ∀ d, P d false → d[saveTmp]? = none → Q d false)
    (orphaned : ∀ d b n, 1 ≤ n → n ≤ quarantineNames → P d false →
      d[asideName saveTmp "orphan" n]? = none → d[saveTmp]? = some b →
      Q (move d saveTmp (asideName saveTmp "orphan" n) b) false)
    (before : ∀ d m, P d m → E d m) (after : ∀ d m, Q d m → E d m) :
    Triple o P (s.orphanTmp : StoreM β _) (fun _ => Q) fun _ => E := by
  unfold Store.orphanTmp
  refine triple_bind (triple_recalled (Q := fun own d m => P d m ∧ m = own) fun _ _ pre => ⟨pre, rfl⟩)
    fun own => triple_ite (fun yes => triple_pure ?_) fun no => ?_
  · rintro d m ⟨pre, rfl⟩
    cases yes
    exact owned d pre
  refine triple_bind (Q := fun there d m => (P d m ∧ m = false) ∧ d.contains saveTmp = there)
    (triple_isThere ?_ fun _ d m pre => before d m pre.1) fun there =>
      triple_ite (fun gone => triple_pure ?_) fun there => ?_
  · rintro d m ⟨pre, rfl⟩
    exact ⟨⟨pre, by simpa using no⟩, rfl⟩
  · rintro d m ⟨⟨pre, rfl⟩, there⟩
    exact absent d pre (missing_of_not (by simpa [there] using gone))
  · refine triple_bind (triple_moveAside (Q := Q) s saveTmp "orphan" ?_
      (fun d m pre => before d m pre.1.1) after) ?_
    · rintro d m b n low high ⟨⟨pre, rfl⟩, -⟩ free held
      exact orphaned d b n low high pre free held
    · rintro ⟨aside, synced⟩
      cases synced with
      | ok _ => exact triple_pure fun _ _ => id
      | error e => exact triple_fail after

/-- The marker after a commit of `rev`: renamed, there already, or made. -/
private theorem triple_mark {old : Option String} {rev : UInt64}
    (renamed : ∀ name d m b, old = some name → R d m → d[name]? = some b →
      M (move d name (markName rev) b) m)
    (same : ∀ d m, old = some (markName rev) → R d m → M d m)
    (made : ∀ d m b, R d m → M (d.insert (markName rev) b) m)
    (before : ∀ d m, R d m → E d m) (after : ∀ d m, M d m → E d m) :
    Triple o R (mark old rev : StoreM β _) (fun _ => M) fun _ => E := by
  unfold mark
  cases old with
  | none =>
    exact triple_write (fun d m pre => made d m _ pre) (fun _ => before)
      fun _ d m b pre => after _ m (made d m b pre)
  | some old =>
    refine triple_ite (fun equal => triple_pure fun d m pre => same d m (by rw [equal]) pre) fun _ => ?_
    exact triple_rename (fun d m b pre held => renamed old d m b rfl pre held) fun _ => before

omit [Json β] in
private theorem triple_store_list (s : Store) (before : ∀ d m, P d m → E d m) :
    Triple o P (s.list : StoreM β _) (fun listed d m => P d m ∧ listed = listing d.keys) fun _ => E :=
  triple_bind (triple_list (Q := fun names d m => P d m ∧ names = d.keys) (fun _ _ pre => ⟨pre, rfl⟩)
    fun _ => before) fun _ => triple_pure fun _ _ pre => ⟨pre.1, by rw [pre.2]⟩

omit [Json β] in
/-- What pruning removes are generations. -/
private theorem keeps_prune (s : Store)
    (pruned : ∀ d m name p, Q d m → generationParts name = some p → Q (d.erase name) m) :
    Keeps o Q (s.prune : StoreM β _) := by
  have each : ∀ names : List String, (∀ name ∈ names, ∃ p, generationParts name = some p) →
      Keeps o Q (removeAll names : StoreM β _) := by
    intro names
    induction names with
    | nil => exact fun _ => triple_pure fun _ _ => id
    | cons name rest ih =>
      intro named
      obtain ⟨p, shown⟩ := named name (by simp)
      exact keeps_bind (triple_remove (fun d m pre => pruned d m name p pre shown) fun _ _ _ => id)
        fun _ => ih fun x held => named x (by simp [held])
  have listed : Triple o Q (s.generations : StoreM β _)
      (fun gens d m => Q d m ∧ gens = (listing d.keys).generations) fun _ => Q :=
    triple_bind (triple_store_list s fun _ _ => id) fun _ => triple_pure fun _ _ pre =>
      ⟨pre.1, by rw [pre.2]⟩
  refine triple_bind listed ?_
  rintro gens w ⟨pre, rfl⟩
  refine each _ (fun name held => ?_) w pre
  obtain ⟨⟨seq, name⟩, taken, rfl⟩ := List.mem_map.mp held
  obtain ⟨-, rev, shown⟩ := mem_generations.mp (List.mem_of_mem_take taken)
  exact ⟨_, shown⟩

/-- The revision the last marker shows. -/
def lastMark (d : Dir β) : Option UInt64 := (listing d.keys).marks.getLast?.map (·.1)

/-- The last marker of a listing is a marker, and there. -/
private def MarkThere (listed : Listing) (d : Dir β) : Prop :=
  ∀ name, listed.marks.getLast?.map (·.2) = some name →
    (∃ rev, markRev name = some rev) ∧ ∃ b, d[name]? = some b

omit [Json β] in
private theorem mark_there (d : Dir β) : MarkThere (listing d.keys) d := by
  intro name shown
  obtain ⟨⟨rev, name⟩, last, rfl⟩ := Option.map_eq_some_iff.mp shown
  obtain ⟨held, shown⟩ := mem_marks.mp (List.mem_of_getLast? last)
  exact ⟨⟨rev, shown⟩, (BTreeMap.mem_keys_iff d name).mp held⟩

omit [Json β] in
/-- A marker stays where it is while `current.json` is rotated. -/
private theorem triple_rotate (listed : Listing)
    (rotated : ∀ d m b seq, P d m → d[currentJson]? = some b →
      R (move d currentJson (generationName seq (lastMark d)) b) m)
    (unrotated : ∀ d m, P d m → d[currentJson]? = none → R d m) (before : ∀ d m, P d m → E d m) :
    Triple o (fun d m => P d m ∧ listed = listing d.keys) (rotate listed : StoreM β _)
      (fun _ d m => R d m ∧ MarkThere listed d) fun _ => E := by
  unfold rotate
  refine triple_bind (Q := fun there d m => (P d m ∧ listed = listing d.keys) ∧
    d.contains currentJson = there) (triple_isThere (fun _ _ pre => ⟨pre, rfl⟩)
      fun _ d m pre => before d m pre.1) fun there => triple_ite (fun yes => ?_) fun no => triple_pure ?_
  · refine triple_bind (Q := fun _ d m => R d m ∧ MarkThere listed d)
      (triple_rename ?_ fun _ d m pre => before d m pre.1.1) fun _ => triple_pure fun _ _ => id
    rintro d m b ⟨⟨pre, rfl⟩, -⟩ held
    refine ⟨rotated d m b _ pre held, fun name last => ?_⟩
    obtain ⟨⟨r, shown⟩, c, there⟩ := mark_there d name last
    have apart : ∀ seq held, generationName seq held ≠ name := fun _ _ =>
      ne_of_kind (by simp [kind_mark shown])
    have apart' : currentJson ≠ name := ne_of_kind (by simp [kind_mark shown])
    exact ⟨⟨r, shown⟩, c, by simpa [apart, apart'] using there⟩
  · rintro d m ⟨⟨pre, rfl⟩, gone⟩
    exact ⟨unrotated d m pre (missing_of_not (by simpa [gone] using no)), mark_there d⟩

/-- The renames that end a save: `current.json`, if there is one, to a generation named
with the last marker's revision; the marker to `rev`; `save.tmp` to `current.json`;
generations removed. -/
theorem triple_commitTmp (s : Store) (rev : UInt64)
    (rotated : ∀ d m b seq, P d m → d[currentJson]? = some b →
      R (move d currentJson (generationName seq (lastMark d)) b) m)
    (unrotated : ∀ d m, P d m → d[currentJson]? = none → R d m)
    (renamed : ∀ d m name r b, R d m → markRev name = some r → d[name]? = some b →
      M (move d name (markName rev) b) m)
    (same : ∀ d m b, R d m → d[markName rev]? = some b → M d m)
    (made : ∀ d m b, R d m → M (d.insert (markName rev) b) m)
    (committed : ∀ d m b, M d m → d[saveTmp]? = some b → Q (move d saveTmp currentJson b) m)
    (pruned : ∀ d m name p, Q d m → generationParts name = some p → Q (d.erase name) m)
    (stopP : ∀ d m, P d m → E d m) (stopR : ∀ d m, R d m → E d m)
    (stopM : ∀ d m, M d m → E d m) (stopQ : ∀ d m, Q d m → E d m) :
    Triple o P (s.commitTmp rev) (fun _ => Q) fun _ => E := by
  unfold Store.commitTmp
  refine triple_bind (triple_store_list s stopP) fun listed => ?_
  refine triple_bind (triple_rotate listed rotated unrotated stopP) fun generation => ?_
  refine triple_bind (Q := fun _ => M) (triple_mark ?_ ?_ ?_ (fun d m pre => stopR d m pre.1) stopM)
    fun _ => ?_
  · rintro name d m b last ⟨pre, marks⟩ held
    obtain ⟨r, shown⟩ := (marks name last).1
    exact renamed d m name r b pre shown held
  · rintro d m last ⟨pre, marks⟩
    obtain ⟨b, there⟩ := (marks _ last).2
    exact same d m b pre there
  · rintro d m b ⟨pre, -⟩
    exact made d m b pre
  refine triple_bind (triple_rename (Q := fun _ => Q) committed fun _ => stopM) fun _ => ?_
  refine triple_bind (triple_syncDir (Q := fun _ => Q) (fun _ _ => id) fun _ => stopQ) fun _ => ?_
  exact triple_bind ((keeps_attempt (keeps_prune s pruned)).triple stopQ) fun _ =>
    triple_pure fun _ _ => id

/-- The steps of a save up to the rename over `save.tmp`. -/
theorem triple_place (s : Store) (p : Persisted)
    (written : ∀ d m b, encode p = .ok b → P d m → W (d.insert saveNew b) m)
    (torn : ∀ d m b, P d m → E (d.insert saveNew b) m)
    (owned : ∀ d, W d true → O d true)
    (absent : ∀ d, W d false → d[saveTmp]? = none → O d false)
    (orphaned : ∀ d b n, 1 ≤ n → n ≤ quarantineNames → W d false →
      d[asideName saveTmp "orphan" n]? = none → d[saveTmp]? = some b →
      O (move d saveTmp (asideName saveTmp "orphan" n) b) false)
    (placed : ∀ d m b, O d m → d[saveNew]? = some b → Q (move d saveNew saveTmp b) true)
    (stopP : ∀ d m, P d m → E d m) (stopW : ∀ d m, W d m → E d m) (stopO : ∀ d m, O d m → E d m) :
    Triple o P (s.place p) (fun _ => Q) fun _ => E := by
  unfold Store.place
  have encoded : Triple o P (lift (encode p) : StoreM β _)
      (fun (b : β) d m => P d m ∧ encode p = .ok b) fun _ => E := by
    cases made : (encode p : Except IoError β) with
    | error e => exact triple_fail stopP
    | ok b => exact triple_pure fun _ _ pre => ⟨pre, rfl⟩
  refine triple_bind encoded fun bytes => ?_
  have flushed : Triple o (fun d m => P d m ∧ encode p = .ok bytes) (writeSynced saveNew bytes)
      (fun _ => W) fun _ => E :=
    triple_bind (triple_write (Q := fun _ => W) (fun d m pre => written d m bytes pre.2 pre.1)
      (fun _ d m pre => stopP d m pre.1) fun _ d m b pre => torn d m b pre.1) fun _ =>
      triple_syncFile (fun _ _ _ pre _ => pre) fun _ => stopW
  refine triple_bind flushed fun _ => ?_
  refine triple_bind (triple_orphanTmp s owned absent orphaned stopW stopO) fun aside => ?_
  refine triple_bind (Q := fun _ d _ => Q d true) (triple_mapErr _ (triple_rename placed fun _ => stopO)
    fun _ _ _ => id) fun _ => ?_
  exact triple_bind (triple_remember fun _ _ => id) fun _ => triple_pure fun _ _ => id

/-- A save is its placing and its commit. -/
theorem triple_save (s : Store) (p : Persisted)
    (placed : Triple o P (s.place p) (fun _ => R) fun _ => E)
    (committed : Triple o R (s.commitTmp p.rev) (fun _ => Q) fun _ => E) :
    Triple o P (s.save p) (fun _ => Q) fun _ => E :=
  triple_bind placed fun _ => triple_bind (triple_mapErr _ committed fun _ _ _ => id) fun _ =>
    triple_pure fun _ _ => id

end

end IemMixer.Persist
