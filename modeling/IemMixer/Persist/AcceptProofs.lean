import IemMixer.Persist.FloorProofs

/-! No accepted state is lost: wherever a save, a load or a recovery stops, the last state
that reached `save.tmp` is in `save.tmp`, at least as new as every live file, or in
`current.json` with no `save.tmp`; so the next load returns it. A process must boot (load
and recover) before its first save: until then a `save.tmp` is not its own to replace. -/
namespace IemMixer.Persist
open Lib Lib.Files Proto

section
variable {β : Type} [Json β] {o : Oracle β} {s : Store} {topo : Topology} {d : Dir β}
  {p : Persisted}

/-! ### Where the accepted state is -/

/-- No live file holds a revision above `rev`. -/
def LiveBelow (rev : UInt64) (d : Dir β) : Prop :=
  ∀ name q, LiveName name → Holds d name q → q.rev ≤ rev

/-- The state is in `save.tmp`, its renames to come. -/
structure InTmp (p : Persisted) (d : Dir β) : Prop where
  tmp : Holds d saveTmp p
  below : LiveBelow p.rev d

/-- The state is in `current.json`. -/
structure InCurrent (p : Persisted) (d : Dir β) : Prop where
  none_ : d[saveTmp]? = none
  current : Holds d currentJson p
  below : LiveBelow p.rev d

/-- The last accepted state is where the next load finds it; without one there is no
state file. -/
def Safe : Option Persisted → Dir β → Prop
  | some p, d => InTmp p d ∨ InCurrent p d
  | none, d => d[saveTmp]? = none ∧ ∀ name, LiveName name → d[name]? = none

/-! ### Loading it -/

/-- A state as a load returns it. -/
def reconciled (topo : Topology) (p : Persisted) : Persisted :=
  { p with state := toState topo (reconcile topo p.state).1 }

private theorem reads_valid {name : String} {found : Read} (reads : Reads o d name found)
    (readable : Readable o name) (held : Holds d name p) : found = .valid p := by
  obtain ⟨b, there, decoded⟩ := held
  cases found with
  | missing =>
    rw [reads.1] at there
    cases there
  | damaged =>
    obtain ⟨⟨c, here, undecoded⟩, -⟩ := reads
    cases here.symm.trans there
    exact absurd decoded (undecoded p)
  | valid q => rw [reads.1.unique ⟨b, there, decoded⟩]
  | unreadable => exact absurd readable reads

private theorem reads_missing {name : String} {found : Read} (reads : Reads o d name found)
    (readable : Readable o name) (gone : d[name]? = none) : found = .missing := by
  cases found with
  | missing => rfl
  | damaged =>
    obtain ⟨⟨c, there, -⟩, -⟩ := reads
    rw [gone] at there
    cases there
  | valid q =>
    obtain ⟨⟨c, there, -⟩, -⟩ := reads
    rw [gone] at there
    cases there
  | unreadable => exact absurd readable reads

/-- What a load returns, by what was accepted. -/
def Returns (topo : Topology) (d : Dir β) (loaded : Loaded) : Option Persisted → Prop
  | some p =>
    loaded.persisted = reconciled topo p ∧
      (loaded.source = .current ∨ loaded.source = .interrupted)
  | none =>
    (∃ p, Holds d baselineJson p ∧ loaded.source = .baseline ∧
      loaded.persisted = reconciled topo p) ∨
    (loaded.source = .defaults ∧
      loaded.persisted = { topologyHash := topo.hash, state := defaultsMuted topo })

/-- A pick where the last accepted state is safe takes it. -/
private theorem picked_accepted {accepted : Option Persisted} {live : Option Live} {pick : Pick}
    {current tmp : Read} (picked : Picked o d live pick current tmp)
    (readable : ∀ name, name = saveTmp ∨ LiveName name → Readable o name) (safe : Safe accepted d) :
    match accepted with
    | none => live = none ∧ tmp = .missing ∧ current = .missing
    | some p => ∃ source file, live = some ⟨p, source, file⟩ ∧
      (source = .interrupted ∧ Holds d saveTmp p ∨
        source = .current ∧ tmp = .missing ∧ current = .valid p) := by
  have first := readable currentJson (.inr (.inl rfl))
  have second := readable saveTmp (.inl rfl)
  have choice := picked.choice
  cases accepted with
  | none =>
    obtain ⟨none_, bare⟩ := safe
    have gone := reads_missing picked.readsTmp second none_
    have gone' := reads_missing picked.readsCurrent first (bare _ (.inl rfl))
    subst gone gone'
    refine ⟨?_, rfl, rfl⟩
    cases choice with
    | nothing _ _ => rfl
    | generation _ named holds _ =>
      obtain ⟨b, there, -⟩ := holds
      rw [bare _ (.inr ⟨_, named⟩)] at there
      cases there
  | some p =>
    rcases safe with pending | held
    · have valid := reads_valid picked.readsTmp second pending.tmp
      subst valid
      have newest : ∀ name q, LiveName name → Holds d name q → ¬p.rev < q.rev := by
        intro name q live holds above
        exact absurd above (UInt64.not_lt.mpr (pending.below name q live holds))
      cases choice with
      | superseded _ => exact ⟨_, _, rfl, .inl ⟨rfl, pending.tmp⟩⟩
      | pending _ => exact ⟨_, _, rfl, .inl ⟨rfl, pending.tmp⟩⟩
      | leftover older _ => exact absurd older (newest _ _ (.inl rfl) picked.readsCurrent.1)
      | current invalid => exact absurd rfl (invalid p)
      | generation _ named holds above =>
        exact absurd (above p rfl) (newest _ _ (.inr ⟨_, named⟩) holds)
      | nothing _ invalid => exact absurd rfl (invalid p)
    · have gone := reads_missing picked.readsTmp second held.none_
      have valid := reads_valid picked.readsCurrent first held.current
      subst gone valid
      cases choice with
      | current _ => exact ⟨_, _, rfl, .inr ⟨rfl, rfl, rfl⟩⟩
      | generation fallen _ _ _ => exact absurd rfl (fallen p)
      | nothing fallen _ => exact absurd rfl (fallen p)

variable (topo) in
/-- Reads of the state files succeeding, a load returns the last accepted state, and
knows `save.tmp` as the store's own to replace. -/
theorem load_accepted {accepted : Option Persisted}
    (readable : ∀ name, name = saveTmp ∨ LiveName name → Readable o name) (safe : Safe accepted d) :
    Looks o d (s.load topo) fun loaded => Returns topo d loaded accepted ∧
      (loaded.saveTmp = .missing ∨ loaded.source = .interrupted) ∧
      (d[saveTmp]? = none → loaded.currentJson ≠ .damaged) := by
  refine looks_mono (looks_load s topo) ?_
  rintro _ ⟨live, pick, current, tmp, chained, listed, orphans, picked, chains, -, rfl⟩
  have none_ : pick.passedOver = [] := by
    refine List.eq_nil_iff_forall_not_mem.mpr fun name passed => ?_
    obtain ⟨live, unread⟩ := picked.unread name passed
    exact unread (readable name (.inr live))
  have plain : continued chained pick.passedOver listed = chained := by rw [continued, none_]; rfl
  rw [plain]
  have found := picked_accepted picked readable safe
  have findings := chains.findings
  rw [picked.currentState, picked.tmpState] at findings
  cases accepted with
  | none =>
    obtain ⟨rfl, rfl, rfl⟩ := found
    refine ⟨?_, .inl findings.2, fun _ damaged => ?_⟩
    · cases chains with
      | baseline _ holds => exact .inl ⟨_, holds, rfl, rfl⟩
      | defaults _ => exact .inr ⟨rfl, rfl⟩
    · rw [findings.1] at damaged
      cases damaged
  | some p =>
    obtain ⟨source, file, rfl, ⟨rfl, b, there, -⟩ | ⟨rfl, rfl, rfl⟩⟩ := found
    · cases chains with
      | live _ =>
        refine ⟨⟨rfl, .inr rfl⟩, .inr rfl, fun gone => ?_⟩
        rw [gone] at there
        cases there
    · cases chains with
      | live _ =>
        refine ⟨⟨rfl, .inl rfl⟩, .inl findings.2, fun _ damaged => ?_⟩
        rw [findings.1] at damaged
        cases damaged

/-! ### Keeping it -/

omit [Json β] in
private theorem LiveName.not_tmp {name : String} (live : LiveName name) : name ≠ saveTmp := by
  rcases live.kind_eq with same | ⟨seq, rev, same⟩ <;> exact ne_of_kind (by simp [same])

/-- A file moved to a name that is not live, or to a live one holding a revision low
enough, keeps the live files below. -/
private theorem LiveBelow.move {rev : UInt64} {src dst : String} {b : β} (below : LiveBelow rev d)
    (low : LiveName dst → ∀ q, decode b = .ok q → q.rev ≤ rev) : LiveBelow rev (move d src dst b) := by
  intro name q live held
  rcases holds_move held with ⟨rfl, decoded⟩ | ⟨-, -, held⟩
  · exact low live q decoded
  · exact below name q live held

omit [Json β] in
private theorem held_move {src dst name : String} {b c : β} (there : d[name]? = some c)
    (from_ : src ≠ name) (to_ : dst ≠ name) : (move d src dst b)[name]? = some c := by
  rw [getElem?_move, if_neg to_, if_neg from_, there]

private theorem Holds.move {src dst name : String} {b : β} (held : Holds d name p)
    (from_ : src ≠ name) (to_ : dst ≠ name) : Holds (Files.move d src dst b) name p := by
  obtain ⟨c, there, decoded⟩ := held
  exact ⟨c, held_move there from_ to_, decoded⟩

/-- A commit takes the state from `save.tmp` to `current.json`; wherever it stops, it is
in one of them. -/
private theorem commit_accepted (rev : UInt64) (own : Bool) :
    Triple o (fun d m => InTmp p d ∧ m = own) (s.commitTmp rev : StoreM β _)
      (fun _ d m => InCurrent p d ∧ m = own) fun _ d m => Safe (some p) d ∧ m = own := by
  refine triple_commitTmp (R := fun d m => InTmp p d ∧ m = own) (M := fun d m => InTmp p d ∧ m = own)
    s rev ?_ (fun _ _ pre _ => pre) ?_ (fun _ _ _ pre _ => pre) ?_ ?_ ?_
    (fun _ _ pre => ⟨.inl pre.1, pre.2⟩) (fun _ _ pre => ⟨.inl pre.1, pre.2⟩)
    (fun _ _ pre => ⟨.inl pre.1, pre.2⟩) fun _ _ pre => ⟨.inr pre.1, pre.2⟩
  · rintro d m b seq ⟨pending, mine⟩ there
    refine ⟨⟨pending.tmp.move (by decide) (ne_of_kind (by simp)), pending.below.move ?_⟩, mine⟩
    exact fun _ q decoded => pending.below currentJson q (.inl rfl) ⟨b, there, decoded⟩
  · rintro d m name r b ⟨pending, mine⟩ marked -
    refine ⟨⟨pending.tmp.move (ne_of_kind (by simp [kind_mark marked])) (ne_of_kind (by simp)),
      pending.below.move fun live => ?_⟩, mine⟩
    rcases live.kind_eq with same | ⟨seq, rev, same⟩ <;> simp at same
  · rintro d m b ⟨⟨⟨c, there, decoded⟩, below⟩, mine⟩
    have tmp : markName rev ≠ saveTmp := ne_of_kind (by simp)
    refine ⟨⟨⟨c, by rw [BTreeMap.getElem?_insert_eq, if_neg tmp, there], decoded⟩, ?_⟩, mine⟩
    intro name q live held
    refine below name q live (holds_insert ?_ held)
    rcases live.kind_eq with same | ⟨seq, rev, same⟩ <;> exact ne_of_kind (by simp [same])
  · rintro d m b ⟨⟨⟨c, there, decoded⟩, below⟩, mine⟩ there'
    cases there.symm.trans there'
    refine ⟨⟨by simp [currentJson, saveTmp], ⟨b, by simp, decoded⟩, below.move fun _ q decoded' => ?_⟩, mine⟩
    cases decoded.symm.trans decoded'
    exact UInt64.le_refl _
  · rintro d m name q ⟨⟨none_, ⟨c, there, decoded⟩, below⟩, mine⟩ shown
    have current : name ≠ currentJson := ne_of_kind (by simp [kind_generation shown])
    refine ⟨⟨?_, ⟨c, by rw [BTreeMap.getElem?_erase_eq, if_neg current, there], decoded⟩,
      fun name q live held => below name q live (holds_erase held)⟩, mine⟩
    rw [BTreeMap.getElem?_erase_eq, none_, ite_self]

/-- The state of a save that is to come is above the accepted one. -/
def Above (accepted : Option Persisted) (p : Persisted) : Prop := ∀ q, accepted = some q → q.rev ≤ p.rev

/-- What a live file holds is below a state to come. -/
private theorem Safe.liveBelow {accepted : Option Persisted} (safe : Safe accepted d)
    (above : Above accepted p) : LiveBelow p.rev d := by
  intro name q live held
  cases accepted with
  | none =>
    obtain ⟨b, there, -⟩ := held
    rw [safe.2 name live] at there
    cases there
  | some r =>
    refine UInt64.le_trans ?_ (above r rfl)
    rcases safe with pending | current
    · exact pending.below name q live held
    · exact current.below name q live held

/-- Writing `save.new` leaves everything where it was. -/
private theorem Safe.insert {accepted : Option Persisted} (safe : Safe accepted d) (b : β) :
    Safe accepted (d.insert saveNew b) := by
  have tmp : saveNew ≠ saveTmp := by decide
  have current : saveNew ≠ currentJson := by decide
  have other : ∀ name, LiveName name → saveNew ≠ name := fun name live => by
    rcases live.kind_eq with same | ⟨seq, rev, same⟩ <;> exact ne_of_kind (by simp [same])
  cases accepted with
  | none =>
    refine ⟨by rw [BTreeMap.getElem?_insert_eq, if_neg tmp, safe.1], fun name live => ?_⟩
    rw [BTreeMap.getElem?_insert_eq, if_neg (other name live), safe.2 name live]
  | some p =>
    have below : LiveBelow p.rev d → LiveBelow p.rev (d.insert saveNew b) := fun below name q live held =>
      below name q live (holds_insert (other name live).symm held)
    rcases safe with ⟨⟨c, there, decoded⟩, low⟩ | ⟨none_, ⟨c, there, decoded⟩, low⟩
    · exact .inl ⟨⟨c, by rw [BTreeMap.getElem?_insert_eq, if_neg tmp, there], decoded⟩, below low⟩
    · exact .inr ⟨by rw [BTreeMap.getElem?_insert_eq, if_neg tmp, none_],
        ⟨c, by rw [BTreeMap.getElem?_insert_eq, if_neg current, there], decoded⟩, below low⟩

/-- Placing a state takes it to `save.tmp`, or leaves the accepted one where it was. -/
private theorem place_accepted [LawfulJson β] {accepted : Option Persisted} (finite : p.state.Finite)
    (above : Above accepted p) :
    Triple o (fun d m => Safe accepted d ∧ m = true) (s.place p : StoreM β _)
      (fun _ d m => InTmp p d ∧ m = true) fun _ d m => Safe accepted d ∧ m = true := by
  refine triple_place
    (W := fun d m => (Safe accepted d ∧ m = true) ∧ ∃ b, d[saveNew]? = some b ∧ encode p = .ok b)
    (O := fun d m => (Safe accepted d ∧ m = true) ∧ ∃ b, d[saveNew]? = some b ∧ encode p = .ok b)
    s p ?_ ?_ (fun _ => id) ?_ ?_ ?_ (fun _ _ => id) (fun _ _ pre => pre.1) fun _ _ pre => pre.1
  · rintro d m b encoded ⟨safe, mine⟩
    exact ⟨⟨safe.insert b, mine⟩, b, by simp, encoded⟩
  · rintro d m b ⟨safe, mine⟩
    exact ⟨safe.insert b, mine⟩
  · rintro d ⟨⟨-, ⟨⟩⟩, -⟩
  · rintro d b n - - ⟨⟨-, ⟨⟩⟩, -⟩
  · rintro d m b ⟨⟨safe, -⟩, c, written, encoded⟩ there
    cases written.symm.trans there
    refine ⟨⟨⟨b, by simp, decode_encode finite encoded⟩, ?_⟩, rfl⟩
    exact (safe.liveBelow above).move fun live => absurd rfl live.not_tmp

/-- With a `save.tmp` there, a state was accepted and is in it. -/
private theorem Safe.inTmp {accepted : Option Persisted} {b : β} (safe : Safe accepted d)
    (there : d[saveTmp]? = some b) : ∃ p, accepted = some p ∧ InTmp p d := by
  cases accepted with
  | none =>
    rw [safe.1] at there
    cases there
  | some p =>
    rcases safe with pending | current
    · exact ⟨p, rfl, pending⟩
    · rw [current.none_] at there
      cases there

variable (topo) in
/-- A boot keeps the accepted state safe, and `save.tmp` is then its own. -/
private theorem boot_accepted {accepted : Option Persisted}
    (readable : ∀ name, name = saveTmp ∨ LiveName name → Readable o name) :
    Triple o (fun d _ => Safe accepted d) (s.act topo .boot : StoreM β _)
      (fun _ d m => Safe accepted d ∧ m = true)
      fun e d m => Safe accepted d ∧ (e ≠ .crash → m = true) := by
  refine triple_boot (fun d _ safe => load_accepted topo readable safe) (fun loaded => ?_)
    fun _ _ safe => ⟨safe, fun other => absurd rfl other⟩
  refine triple_conseq (triple_recover (Q := fun d m => Safe accepted d ∧ m = true)
    (E := fun d m => Safe accepted d ∧ m = true)
    (R := fun d m => (Safe accepted d ∧ m = true) ∧ (d[saveTmp]? = none → loaded.currentJson ≠ .damaged))
    ?_ ?_ ?_ (fun _ _ pre => pre.1) fun _ _ => id) (fun _ _ => id) (fun _ _ _ => id)
    fun _ _ _ pre => ⟨pre.1, fun _ => pre.2⟩
  · rintro d m ⟨safe, -, own, whole⟩
    exact ⟨⟨safe, by simpa using own⟩, whole⟩
  · rintro damaged d m b n ⟨⟨safe, mine⟩, whole⟩ -
    have aside : asideName currentJson "damaged" n ≠ saveTmp := ne_of_kind (by simp)
    cases there : d[saveTmp]? with
    | none => exact absurd damaged (whole there)
    | some c =>
      obtain ⟨p, rfl, pending⟩ := safe.inTmp there
      refine ⟨⟨.inl ⟨pending.tmp.move (by decide) aside, pending.below.move fun live => ?_⟩, mine⟩, ?_⟩
      · rcases live.kind_eq with same | ⟨seq, rev, same⟩ <;> simp at same
      · rw [held_move there (by decide) aside]
        simp
  · intro interrupted
    cases accepted with
    | none =>
      refine triple_bind (triple_syncFile (Q := fun _ _ _ => False) ?_ fun _ _ _ pre => pre.1)
        fun _ w impossible => impossible.elim
      rintro d m b ⟨⟨safe, -⟩, -⟩ there
      rw [safe.1] at there
      cases there
    | some p =>
      refine triple_bind (triple_syncFile (Q := fun _ d m => InTmp p d ∧ m = true) ?_
        fun _ _ _ pre => pre.1) fun _ => triple_conseq (commit_accepted loaded.persisted.rev true)
          (fun _ _ => id) (fun _ _ _ post => ⟨.inr post.1, post.2⟩) fun _ _ _ => id
      rintro d m b ⟨⟨safe, mine⟩, -⟩ there
      obtain ⟨_, ⟨⟩, pending⟩ := safe.inTmp there
      exact ⟨pending, mine⟩

/-! ### Runs -/

/-- The states a process saves. -/
def saves (acts : List Act) : List Persisted :=
  acts.filterMap fun a => match a with
    | .save p => some p
    | .boot | .load => none

variable (topo) in
/-- A load leaves everything as it is. -/
theorem load_keeps (I : Assertion β Bool) : Keeps o I (s.act topo .load : StoreM β _) :=
  triple_look (A := fun _ _ => True) (fun _ _ _ => looks_mono (looks_load s topo) fun _ _ => trivial)
    (fun _ => triple_pure fun _ _ pre => pre.1) fun _ _ => id

variable (topo) in
/-- A save leaves the accepted state safe: its own once it is placed, else the one before. -/
private theorem save_accepted [LawfulJson β] {x : Session β} (safe : Safe x.accepted x.world.dir)
    (mine : x.world.mem = true) (finite : p.state.Finite) (above : Above x.accepted p) :
    Safe (x.after s topo o (.save p)).accepted (x.after s topo o (.save p)).world.dir ∧
      (x.after s topo o (.save p)).world.mem = true := by
  have placed := place_accepted (o := o) (s := s) finite above
  cases run : s.place p o x.world with
  | error e w' =>
    have kept := triple_error placed ⟨safe, mine⟩ run
    simp only [Session.after, Store.accepts, run, save_unplaced run, Bool.false_eq_true, if_false]
    exact kept
  | ok aside w' =>
    have pending := triple_ok placed ⟨safe, mine⟩ run
    have committed : Triple o (fun d m => InTmp p d ∧ m = true) (s.commitTmp p.rev)
        (fun _ d m => Safe (some p) d ∧ m = true) fun _ d m => Safe (some p) d ∧ m = true :=
      triple_conseq (commit_accepted p.rev true) (fun _ _ => id)
        (fun _ _ _ post => ⟨.inr post.1, post.2⟩) fun _ _ _ => id
    simp only [Session.after, Store.accepts, run, save_placed run, if_true]
    exact triple_world committed pending

variable (topo) in
/-- One act keeps the accepted state safe, and `save.tmp` the process's own unless it
crashes. -/
private theorem after_safe [LawfulJson β]
    (readable : ∀ name, name = saveTmp ∨ LiveName name → Readable o name) {x : Session β} {a : Act}
    (safe : Safe x.accepted x.world.dir) (mine : a ≠ .boot → x.world.mem = true)
    (finite : ∀ p ∈ saves [a], p.state.Finite) (above : ∀ p ∈ saves [a], Above x.accepted p) :
    Safe (x.after s topo o a).accepted (x.after s topo o a).world.dir ∧
      (crashed (s.act topo a o x.world) = false → (x.after s topo o a).world.mem = true) := by
  cases a with
  | boot =>
    have booted := boot_accepted topo (s := s) readable x.world safe
    simp only [Session.after]
    cases run : s.act topo .boot o x.world with
    | ok u w' =>
      rw [run] at booted
      exact ⟨booted.1, fun _ => booted.2⟩
    | error e w' =>
      rw [run] at booted
      refine ⟨booted.1, fun alive => booted.2 ?_⟩
      rintro rfl
      cases alive
  | load =>
    have kept := triple_world (load_keeps topo (o := o) (s := s)
      fun d m => Safe x.accepted d ∧ m = true) ⟨safe, mine (by simp)⟩
    exact ⟨kept.1, fun _ => kept.2⟩
  | save p =>
    have kept := save_accepted topo (o := o) (s := s) safe (mine (by simp))
      (finite p (by simp [saves])) (above p (by simp [saves]))
    exact ⟨kept.1, fun _ => kept.2⟩

/-- States to come grow, and are above the accepted one. -/
def Growing (accepted : Option Persisted) (coming : List Persisted) : Prop :=
  (coming.map (·.rev)).Pairwise (· < ·) ∧ ∀ q, accepted = some q → ∀ p ∈ coming, q.rev < p.rev

omit [Json β] in
private theorem Growing.rest {accepted : Option Persisted} {first rest : List Persisted}
    (growing : Growing accepted (first ++ rest)) : Growing accepted rest := by
  obtain ⟨sorted, above⟩ := growing
  rw [List.map_append] at sorted
  exact ⟨(List.pairwise_append.mp sorted).2.1, fun q same p held => above q same p (by simp [held])⟩

omit [Json β] in
private theorem Growing.accept {accepted : Option Persisted} {rest : List Persisted}
    (growing : Growing accepted (p :: rest)) : Growing (some p) rest := by
  refine ⟨(List.pairwise_cons.mp growing.1).2, ?_⟩
  rintro _ ⟨⟩ r held
  exact (List.pairwise_cons.mp growing.1).1 _ (List.mem_map.mpr ⟨r, held, rfl⟩)

variable (topo) in
/-- After an act, what is still to come grows above what is accepted then. -/
private theorem after_growing {x : Session β} {a : Act} {rest : List Persisted}
    (growing : Growing x.accepted (saves [a] ++ rest)) :
    Growing (x.after s topo o a).accepted rest := by
  cases a with
  | boot => exact growing.rest
  | load => exact growing.rest
  | save p =>
    simp only [Session.after]
    split
    · exact growing.accept
    · exact growing.rest

variable (topo) in
/-- A booted process keeps the accepted state safe. -/
private theorem life_safe [LawfulJson β]
    (readable : ∀ name, name = saveTmp ∨ LiveName name → Readable o name) (acts : List Act)
    {x : Session β} {rest : List Persisted} (safe : Safe x.accepted x.world.dir)
    (mine : acts.head? ≠ some .boot → x.world.mem = true) (finite : ∀ p ∈ saves acts, p.state.Finite)
    (growing : Growing x.accepted (saves acts ++ rest)) :
    Safe (x.life s topo o acts).accepted (x.life s topo o acts).world.dir ∧
      Growing (x.life s topo o acts).accepted rest := by
  induction acts generalizing x with
  | nil => exact ⟨safe, growing⟩
  | cons a later ih =>
    have split : saves (a :: later) = saves [a] ++ saves later := by
      rw [← List.singleton_append, saves, List.filterMap_append]
      rfl
    rw [split] at finite growing
    rw [List.append_assoc] at growing
    have above : ∀ p ∈ saves [a], Above x.accepted p := fun p held q same =>
      UInt64.le_of_lt (growing.2 q same p (by simp [held]))
    obtain ⟨kept, own⟩ := after_safe topo (s := s) readable safe (a := a)
      (fun other => mine (by simpa using other)) (fun p held => finite p (by simp [held])) above
    have later_ := after_growing topo (s := s) (o := o) growing
    unfold Session.life
    split
    · exact ⟨kept, later_.rest⟩
    · rename_i alive
      exact ih kept (fun _ => own (by simpa using alive)) (fun p held => finite p (by simp [held])) later_

/-- Booted processes one after another keep the accepted state safe. -/
private theorem history_safe [LawfulJson β]
    (readable : ∀ name, name = saveTmp ∨ LiveName name → Readable o name) {lives : List (List Act)}
    {x : Session β} (safe : Safe x.accepted x.world.dir)
    (finite : ∀ p ∈ lives.flatMap saves, p.state.Finite)
    (growing : Growing x.accepted (lives.flatMap saves)) :
    let y := x.history s topo o (lives.map (Act.boot :: ·))
    Safe y.accepted y.world.dir := by
  induction lives generalizing x with
  | nil => exact safe
  | cons acts rest ih =>
    obtain ⟨kept, later⟩ := life_safe topo (s := s) (x := x.restart) readable (.boot :: acts) safe (by simp) (fun p held => finite p (by simpa using .inl held)) growing
    exact ih kept (fun p held => finite p (by simp only [List.flatMap_cons, List.mem_append]; exact .inr held)) later

/-- No accepted state is lost. In a directory without live files, whatever processes do
that boot before they save, with any step failing or the last before a crash but reads of
the state files succeeding, and the revisions growing: the next load returns the last state
whose rename over `save.tmp` succeeded, reconciled with the topology, and the baseline or
the defaults only when there is none. -/
theorem load_returns_accepted [LawfulJson β] (s : Store) (topo : Topology) (o : Oracle β)
    (start : Dir β) (bare : start[saveTmp]? = none ∧ ∀ name, LiveName name → start[name]? = none)
    (readable : ∀ name, name = saveTmp ∨ LiveName name → Readable o name)
    (lives : List (List Act)) (finite : ∀ p ∈ lives.flatMap saves, p.state.Finite)
    (growing : ((lives.flatMap saves).map (·.rev)).Pairwise (· < ·)) :
    let x := (⟨⟨start, false, 0⟩, none⟩ : Session β).history s topo o (lives.map (Act.boot :: ·))
    (∀ e w, s.load topo o x.world = .error e w → e = .crash) ∧
      ∀ loaded w, s.load topo o x.world = .ok loaded w →
        Returns topo x.world.dir loaded x.accepted := by
  intro x
  have safe : Safe x.accepted x.world.dir :=
    history_safe readable (x := ⟨⟨start, false, 0⟩, none⟩) bare finite ⟨growing, by simp⟩
  have looks := load_accepted topo (s := s) readable safe
  exact ⟨fun e w run => (triple_error (looks x.world.mem) ⟨rfl, rfl⟩ run).2,
    fun loaded w run => (looks_ok looks rfl run).2.1⟩

end

/-- The first process is cut after its save's rename over `save.tmp`. -/
def cutOnce : Oracle PlainBytes := fun t _ => if t = 8 then .crash none else .done

def cutSave : Session PlainBytes :=
  (⟨⟨∅, false, 0⟩, none⟩ : Session PlainBytes).history duetStore TopologyProofs.duetCompiled.topo cutOnce
    ([[.save { rev := 1 }], []].map (Act.boot :: ·))

/-- Its state is returned once the next process has booted. -/
theorem load_returns_accepted_cut :
    cutSave.accepted = some { rev := 1 } ∧ ∃ loaded w,
      duetStore.load TopologyProofs.duetCompiled.topo cutOnce cutSave.world = .ok loaded w ∧
        loaded.persisted = reconciled TopologyProofs.duetCompiled.topo { rev := 1 } := by
  have accepted : cutSave.accepted = some { rev := 1 } := by decide +kernel
  obtain ⟨loaded, w, run, -⟩ :=
    loadsAs_ok (show loadsAs cutOnce cutSave.world = some (.current, 1) by decide +kernel)
  have returned : Returns TopologyProofs.duetCompiled.topo cutSave.world.dir loaded cutSave.accepted :=
    (load_returns_accepted duetStore TopologyProofs.duetCompiled.topo cutOnce ∅ (by simp)
    (fun name _ t => by by_cases cut : t = 8 <;> simp [cutOnce, cut]) [[.save { rev := 1 }], []]
    (by
      intro p held
      obtain rfl : p = { rev := 1 } := by simpa [saves] using held
      exact ⟨by simp, by simp⟩)
    (by simp [saves])).2 loaded w run
  rw [accepted] at returned
  exact ⟨accepted, loaded, w, run, returned.1⟩

/-- Two processes that save without a boot: the first is cut after its rename over
`save.tmp`, the second after it moved that aside. -/
def cutTwice : Oracle PlainBytes := fun t _ => if t = 4 ∨ t = 11 then .crash none else .done

def unbooted : Session PlainBytes :=
  (⟨⟨∅, false, 0⟩, none⟩ : Session PlainBytes).history duetStore TopologyProofs.duetCompiled.topo cutTwice
    [[.save { rev := 1 }], [.save { rev := 2 }]]

/-- Without the boots the accepted state is in an orphan, and the defaults load. -/
theorem unbooted_save_loses :
    unbooted.accepted = some { rev := 1 } ∧ loadsAs cutTwice unbooted.world = some (.defaults, 0) ∧
      unbooted.world.dir[asideName saveTmp "orphan" 1]? = some (plainBytes 1) := by
  decide +kernel

end IemMixer.Persist
