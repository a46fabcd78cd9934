import IemMixer.Persist.History

/-! Nothing is destroyed and no rollback is silent: a `save.tmp` the boot did not load
stays, or its bytes stay under an orphan's name, whatever fails; and a load that
raises no alarm and falls back on nothing loads the newest valid state among
`current.json` and `save.tmp`. -/
namespace IemMixer.Persist
open Lib Lib.Files Proto

section
variable {β : Type} [Json β] {o : Oracle β} {s : Store} {topo : Topology}

/-! ### Bytes under an orphan's name -/

/-- Some orphan holds these bytes. -/
def Orphaned (b : β) (d : Dir β) : Prop := ∃ name n, orphanNumber name = some n ∧ d[name]? = some b

/-- The bytes are in a `save.tmp` that is not the store's own, or in an orphan. -/
def Kept (b : β) (d : Dir β) (own : Bool) : Prop :=
  (d[saveTmp]? = some b ∧ own = false) ∨ Orphaned b d

variable {b : β} {d : Dir β}

omit [Json β] in
private theorem Orphaned.move (held : Orphaned b d) {src dst : String} {c : β}
    (from_ : ∀ n, kind src ≠ .orphan n) (to_ : (∀ n, kind dst ≠ .orphan n) ∨ d[dst]? = none) :
    Orphaned b (move d src dst c) := by
  obtain ⟨name, n, shown, there⟩ := held
  have apart : src ≠ name := fun same => from_ n (same ▸ kind_orphan shown)
  have free : dst ≠ name := by
    rintro rfl
    rcases to_ with other | absent
    · exact other n (kind_orphan shown)
    · rw [absent] at there
      cases there
  exact ⟨name, n, shown, by simpa [apart, free] using there⟩

omit [Json β] in
private theorem Orphaned.insert (held : Orphaned b d) {name : String} {c : β}
    (other : ∀ n, kind name ≠ .orphan n) : Orphaned b (d.insert name c) := by
  obtain ⟨orphan, n, shown, there⟩ := held
  have apart : name ≠ orphan := fun same => other n (same ▸ kind_orphan shown)
  exact ⟨orphan, n, shown, by rw [BTreeMap.getElem?_insert_eq, if_neg apart, there]⟩

omit [Json β] in
private theorem Orphaned.erase (held : Orphaned b d) {name : String}
    (other : ∀ n, kind name ≠ .orphan n) : Orphaned b (d.erase name) := by
  obtain ⟨orphan, n, shown, there⟩ := held
  have apart : name ≠ orphan := fun same => other n (same ▸ kind_orphan shown)
  exact ⟨orphan, n, shown, by rw [BTreeMap.getElem?_erase_eq, if_neg apart, there]⟩

/-- No step of a commit touches an orphan. -/
private theorem keeps_commit (rev : UInt64) :
    Keeps o (fun d _ => Orphaned b d) (s.commitTmp rev : StoreM β _) :=
  triple_commitTmp (R := fun d _ => Orphaned b d) (M := fun d _ => Orphaned b d) s rev
    (fun _ _ _ _ held _ => held.move (by simp) (.inl (by simp)))
    (fun _ _ held _ => held)
    (fun _ _ _ _ _ held shown _ => held.move (by simp [kind_mark shown]) (.inl (by simp)))
    (fun _ _ _ held _ => held)
    (fun _ _ _ held => held.insert (by simp))
    (fun _ _ _ held _ => held.move (by simp) (.inl (by simp)))
    (fun _ _ _ _ held shown => held.erase (by simp [kind_generation shown]))
    (fun _ _ => id) (fun _ _ => id) (fun _ _ => id) fun _ _ => id

omit [Json β] in
private theorem Kept.insert {own : Bool} (kept : Kept b d own) (c : β) :
    Kept b (d.insert saveNew c) own := by
  rcases kept with ⟨there, mine⟩ | held
  · exact .inl ⟨by simpa [BTreeMap.getElem?_insert_eq, saveNew, saveTmp] using there, mine⟩
  · exact .inr (held.insert (by simp))

/-- A save keeps the bytes: it moves a `save.tmp` not its own aside before it
replaces it. -/
theorem save_kept (p : Persisted) : Keeps o (Kept b) (s.act topo (.save p)) := by
  refine keeps_bind (triple_conseq (triple_save (P := Kept b) (R := fun d _ => Orphaned b d)
    (Q := fun d _ => Orphaned b d) (E := Kept b) s p ?_ ?_) (fun _ _ => id) (fun _ _ _ => .inr)
    fun _ _ _ => id) fun _ => triple_pure fun _ _ => id
  · refine triple_place (W := Kept b) (O := fun d _ => Orphaned b d) s p ?_ ?_ ?_ ?_ ?_ ?_
      (fun _ _ => id) (fun _ _ => id) fun _ _ => .inr
    · intro d own c _ kept
      exact kept.insert c
    · intro d own c kept
      exact kept.insert c
    · rintro d (⟨-, ⟨⟩⟩ | held)
      exact held
    · rintro d (⟨there, -⟩ | held) absent
      · rw [absent] at there
        cases there
      · exact held
    · rintro d c n - high (⟨there, -⟩ | held) free present
      · cases there.symm.trans present
        exact ⟨_, _, orphanNumber_asideName (Nat.lt_of_le_of_lt high (by decide)), by simp⟩
      · exact held.move (by simp) (.inr free)
    · intro d _ c held _
      exact held.move (by simp) (.inl (by simp))
  · exact (keeps_commit p.rev).triple fun _ _ => .inr

/-- The recovery to a state that is not in `save.tmp` keeps it, as not its own. -/
private theorem recover_kept {loaded : Loaded} (other : loaded.source ≠ .interrupted)
    (seen : loaded.saveTmp ≠ .missing) :
    Triple o (fun d _ => d[saveTmp]? = some b) (s.recover loaded) (fun _ => Kept b)
      fun _ => Kept b := by
  refine triple_recover (R := Kept b) ?_ ?_ (fun interrupted => absurd interrupted other)
    (fun _ _ => id) fun _ _ => id
  · intro d own there
    exact .inl ⟨there, by simp [other, seen]⟩
  · rintro - d own c n (⟨there, mine⟩ | held) -
    · have aside : asideName currentJson "damaged" n ≠ saveTmp := ne_of_kind (by simp)
      have current : currentJson ≠ saveTmp := by decide
      exact .inl ⟨by simpa [aside, current] using there, mine⟩
    · exact .inr (held.move (by simp) (.inl (by simp)))

/-- A load that finds bytes in `save.tmp` never says it is missing. -/
private theorem load_sees_tmp (there : d[saveTmp]? = some b) :
    Looks o d (s.load topo) fun loaded => loaded.saveTmp ≠ .missing := by
  refine looks_mono (looks_load s topo) ?_
  rintro _ ⟨live, pick, current, tmp, chained, listed, orphans, picked, chains, -, rfl⟩ missing
  have state : tmp.state = .missing := by
    rw [← picked.tmpState, ← chains.findings.2,
      ← (continued_frame chained pick.passedOver listed).2.2]
    exact missing
  have reads := picked.readsTmp
  cases tmp with
  | missing =>
    rw [reads.1] at there
    cases there
  | _ => cases state

/-- A boot that does not load the `save.tmp` it finds is cut before it changes
anything, or keeps its bytes. -/
private theorem boot_kept {w : World β Bool} (there : w.dir[saveTmp]? = some b)
    (other : ∀ loaded w', s.load topo o w = .ok loaded w' → loaded.source ≠ .interrupted) :
    let r := s.act topo .boot o w
    (crashed r = true ∧ (Files.world r).dir[saveTmp]? = some b) ∨
      Kept b (Files.world r).dir (Files.world r).mem := by
  cases run : s.load topo o w with
  | error e w' =>
    obtain ⟨⟨same, -⟩, rfl⟩ := triple_error (looks_load s topo w.mem) ⟨rfl, rfl⟩ run
    rw [boot_cut run]
    exact .inl ⟨rfl, by rw [← there, ← same]; rfl⟩
  | ok loaded w' =>
    obtain ⟨same, seen⟩ := looks_ok (load_sees_tmp there) rfl run
    dsimp only
    rw [boot_loaded run]
    exact .inr (triple_world (recover_kept (other loaded w' run) seen) (by rw [same.1]; exact there))

/-! ### Reports -/

/-- A source that is neither `current.json` nor `save.tmp`. -/
def Source.fallback : Source → Bool
  | .current | .interrupted => false
  | .generation _ | .baseline | .defaults => true

/-- What is read as no state holds none. -/
private theorem reads_none {name : String} {found : Read} (reads : Reads o d name found)
    (readable : found ≠ .unreadable) (invalid : ∀ p, found ≠ .valid p) {p : Persisted} :
    ¬Holds d name p := by
  rintro ⟨b, held, decoded⟩
  cases found with
  | missing =>
    rw [reads.1] at held
    cases held
  | damaged =>
    obtain ⟨⟨c, there, undecoded⟩, -⟩ := reads
    cases there.symm.trans held
    exact undecoded p decoded
  | valid q => exact invalid q rfl
  | unreadable => exact readable rfl

/-- A pick without alarms that is no fallback takes the newest valid state. -/
private theorem picked_newest {live : Live} {pick : Pick} {current tmp : Read}
    (picked : Picked o d (some live) pick current tmp) (quiet : pick.alarms = [])
    (direct : live.source.fallback = false) :
    Holds d live.file live.persisted ∧ (live.file = currentJson ∨ live.file = saveTmp) ∧
      ∀ name p, name = currentJson ∨ name = saveTmp → Holds d name p → p.rev ≤ live.persisted.rev := by
  have readable : current ≠ .unreadable ∧ tmp ≠ .unreadable :=
    ⟨fun unread => picked.loud (.inl unread) quiet, fun unread => picked.loud (.inr unread) quiet⟩
  have none_ : ∀ {name : String} {found : Read}, Reads o d name found → found ≠ .unreadable →
      (∀ p, found ≠ .valid p) → ∀ p q, Holds d name p → p.rev ≤ q := fun reads read invalid p _ held =>
    absurd held (reads_none reads read invalid)
  obtain ⟨first, second⟩ := readable
  have holdsCurrent := picked.readsCurrent
  have holdsTmp := picked.readsTmp
  generalize chosen : some live = choice at picked
  cases picked.choice with
  | superseded newer =>
    cases chosen
    refine ⟨holdsTmp.1, .inr rfl, ?_⟩
    rintro _ p (rfl | rfl) held
    · rw [held.unique holdsCurrent.1]; exact newer
    · rw [held.unique holdsTmp.1]; exact UInt64.le_refl _
  | leftover _ loud => exact absurd quiet loud
  | current invalid =>
    cases chosen
    refine ⟨holdsCurrent.1, .inl rfl, ?_⟩
    rintro _ p (rfl | rfl) held
    · rw [held.unique holdsCurrent.1]; exact UInt64.le_refl _
    · exact none_ holdsTmp second invalid p _ held
  | pending fallen =>
    cases chosen
    refine ⟨holdsTmp.1, .inr rfl, ?_⟩
    rintro _ p (rfl | rfl) held
    · exact none_ holdsCurrent first fallen p _ held
    · rw [held.unique holdsTmp.1]; exact UInt64.le_refl _
  | generation _ _ _ _ => cases chosen; cases direct
  | nothing _ _ => cases chosen

/-- A load without alarms that is no fallback returns the state of `current.json` or
`save.tmp`, whichever is valid and newest, reconciled. -/
theorem load_newest : Looks o d (s.load topo) fun loaded =>
    loaded.alarms ≠ [] ∨ loaded.source.fallback = true ∨
      ∃ name p, (name = currentJson ∨ name = saveTmp) ∧ Holds d name p ∧
        loaded.persisted = { p with state := toState topo (reconcile topo p.state).1 } ∧
        ∀ other q, other = currentJson ∨ other = saveTmp → Holds d other q → q.rev ≤ p.rev := by
  refine looks_mono (looks_load s topo) ?_
  rintro _ ⟨live, pick, current, tmp, chained, listed, orphans, picked, chains, -, rfl⟩
  by_cases loud : (continued chained pick.passedOver listed).alarms ++ orphans = []
  swap
  · exact .inl loud
  obtain ⟨quiet, -⟩ := List.append_eq_nil_iff.mp loud
  obtain ⟨-, plain⟩ := continued_loud quiet
  rw [plain] at quiet ⊢
  cases chains with
  | baseline _ _ => exact .inr (.inl rfl)
  | defaults _ => exact .inr (.inl rfl)
  | live l =>
    cases direct : l.source.fallback with
    | true => exact .inr (.inl direct)
    | false =>
      obtain ⟨held, file, newest⟩ := picked_newest picked quiet direct
      exact .inr (.inr ⟨l.file, l.persisted, file, held, rfl, newest⟩)

/-- No silent rollback and nothing destroyed, from every directory and whatever fails:
after a boot that did not load the `save.tmp` it found, and any saves, its bytes are
still in `save.tmp` or under an orphan's name; and a load reports through an alarm or a
fallback source, or returns a state at least as new as every valid one among
`current.json` and `save.tmp`. -/
theorem nothing_lost (s : Store) (topo : Topology) (o : Oracle β) (x : Session β) :
    (∀ (b : β) (saves : List Persisted), x.world.dir[saveTmp]? = some b →
      (∀ loaded w, s.load topo o x.world = .ok loaded w → loaded.source ≠ .interrupted) →
      let dir := (x.life s topo o (.boot :: saves.map .save)).world.dir
      dir[saveTmp]? = some b ∨ Orphaned b dir) ∧
    (∀ loaded w, s.load topo o x.world = .ok loaded w →
      loaded.alarms ≠ [] ∨ loaded.source.fallback = true ∨
        ∃ name p, (name = currentJson ∨ name = saveTmp) ∧ Holds x.world.dir name p ∧
          loaded.persisted = { p with state := toState topo (reconcile topo p.state).1 } ∧
          ∀ other q, other = currentJson ∨ other = saveTmp → Holds x.world.dir other q →
            q.rev ≤ p.rev) := by
  refine ⟨fun b saves there other => ?_, fun loaded w run => (looks_ok load_newest rfl run).2⟩
  have kept : ∀ {d own}, Kept b d own → d[saveTmp]? = some b ∨ Orphaned b d := fun held =>
    held.imp_left And.left
  rcases boot_kept there other with ⟨cut, same⟩ | held
  · simp only [Session.life, cut, if_true]
    exact .inl same
  · unfold Session.life
    split
    · exact kept held
    · refine kept (life_keeps (I := Kept b) ?_ held)
      intro a member
      obtain ⟨p, -, rfl⟩ := List.mem_map.mp member
      exact save_kept p

end

/-- A directory whose `save.tmp` is older than its `current.json`. -/
def staleTmp : Session PlainBytes where
  world := { dir := .collect [(currentJson, plainBytes 7), (saveTmp, plainBytes 3)], mem := false }
  accepted := none

/-- The boot loads `current.json`; after a save the older bytes are still there. -/
theorem nothing_lost_stale :
    loadsAs calm staleTmp.world = some (.current, 7) ∧
      let dir := (staleTmp.life duetStore TopologyProofs.duetCompiled.topo calm
        [.boot, .save { rev := 8 }]).world.dir
      dir[saveTmp]? = some (plainBytes 3) ∨ Orphaned (plainBytes 3) dir := by
  have loaded : loadsAs calm staleTmp.world = some (.current, 7) := by decide +kernel
  refine ⟨loaded, (nothing_lost duetStore _ calm staleTmp).1 (plainBytes 3) [{ rev := 8 }]
    (by decide +kernel) fun found w run interrupted => ?_⟩
  obtain ⟨other, w', run', source, -⟩ := loadsAs_ok loaded
  cases run.symm.trans run'
  rw [source] at interrupted
  cases interrupted

end IemMixer.Persist
