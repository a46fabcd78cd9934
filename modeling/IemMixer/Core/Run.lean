import IemMixer.Core.StateProofs
import IemMixer.Core.BatchProofs

/-! Runs of the core: requests, cleared solos and test signals that ran out, in any
order. Each step is refused, an import, or a path of edits under at most one new
revision; the canonical state holds along every run. -/
namespace IemMixer.Core
open Lib Proto TopologyProofs

/-- What the control loop asks of the core. -/
inductive Event where
  | request (cmd : Cmd)
  | clearSolos
  | endTestSignal

section
variable [Libm]

/-- One event: what it said (nothing when refused) and the core after it. -/
def handle (c : Core) : Event → Option Outcome × Core
  | .request cmd =>
    match apply cmd c with
    | .ok out c' => (some out, c')
    | .error _ c' => (none, c')
  | .clearSolos => let (out, c') := c.clearSolos; (some out, c')
  | .endTestSignal => let (out, c') := c.endTestSignal; (some out, c')

def run (c : Core) (events : List Event) : Core := events.foldl (fun c e => (c.handle e).2) c

/-- The RT commands of a run, in order. -/
def emitted (c : Core) : List Event → List RtOp
  | [] => []
  | event :: rest => ((c.handle event).1.map (·.rt)).getD [] ++ emitted (c.handle event).2 rest

theorem run_append (c : Core) (events later : List Event) :
    c.run (events ++ later) = (c.run events).run later := List.foldl_append

theorem emitted_append (c : Core) (events later : List Event) :
    c.emitted (events ++ later) = c.emitted events ++ (c.run events).emitted later := by
  induction events generalizing c with
  | nil => rfl
  | cons event rest ih =>
    rw [List.cons_append, emitted, emitted, ih, List.append_assoc]
    rfl

/-- Edits one after another, with the changes said and the RT commands emitted. -/
inductive Path : Core → List Change → List RtOp → Core → Prop where
  | nil (c : Core) : Path c [] [] c
  | cons (edit : Edit c p mid) (rest : Path mid changes rt c') :
    Path c (p.changes ++ changes) (p.rt ++ rt) c'

theorem Edit.path {c c' : Core} {p : Partial} (edit : Edit c p c') : Path c p.changes p.rt c' := by
  simpa using Path.cons edit (.nil c')

theorem Path.trans {c mid c' : Core} {changes changes' : List Change} {rt rt' : List RtOp}
    (first : Path c changes rt mid) (second : Path mid changes' rt' c') :
    Path c (changes ++ changes') (rt ++ rt') c' := by
  induction first with
  | nil c => exact second
  | cons edit _ ih =>
    rw [List.append_assoc, List.append_assoc]
    exact .cons edit (ih second)

/-- What holds of a core and is kept by every edit is kept along a path. -/
theorem Path.invariant {P : Core → Prop} (step : ∀ c p c', P c → Edit c p c' → P c')
    {c c' : Core} {changes : List Change} {rt : List RtOp} (path : Path c changes rt c') (start : P c) :
    P c' := by
  induction path with
  | nil c => exact start
  | cons edit _ ih => exact ih (step _ _ _ start edit)

/-! ### The canonical core -/

/-- The state is shaped; every solo is a set of slots its mix has, and not empty;
taps are on mixes; a running test signal is within its caps. -/
structure Canonical (c : Core) : Prop where
  shaped : Shaped c.topo c.s
  solo : ∀ (m : ℕ) (set : BTreeSet ℕ), c.solo[m]? = some set →
    m < c.topo.mixes.length ∧ set.isEmpty = false ∧ ∀ k ∈ set, k < c.topo.levels m
  listen : ∀ (slot : Fin 2) (m : ℕ), c.listen.get slot = some m → m < c.topo.mixes.length
  test : ∀ signal, c.test = some signal → TestOk signal

/-- Everything but the edited parts stays. -/
theorem Edit.frame {c c' : Core} {p : Partial} (edit : Edit c p c') :
    c'.topo = c.topo ∧ c'.rev = c.rev ∧ c'.hil = c.hil ∧ c'.flags = c.flags := by
  cases edit with
  | input i new _ =>
    rcases setInput_cases i new c with same | ⟨old, node, -, -, same⟩
    · simp [same]
    · simp [same]
  | out m new _ =>
    rcases setOut_cases m new c with same | ⟨rec, node, -, -, same⟩
    · simp [same]
    · simp [same, modifyMix]
  | level m k new _ =>
    rcases setLevel_cases m k new c with same | ⟨rec, old, node, source, -, -, -, -, same⟩
    · simp [same]
    · simp [same, withLevel, modifyMix]
  | group m g new _ =>
    rcases setGroup_cases m g new c with same | ⟨rec, old, node, group, -, -, -, -, same⟩
    · simp [same]
    · simp [same, modifyMix]
  | limiterReset mix m => simp
  | solo m mix new _ _ =>
    rcases replaceSolo_cases m mix new c with same | same
    · simp [same]
    · simp [same, withSolo]
  | tap m mix _ _ => simp [tapped]
  | untap m => simp [dropListen_eq, untapped]
  | test signal hil op _ _ => simp
  | testEnded rt _ =>
    rcases takeTest_cases rt c with ⟨-, same⟩ | same
    · simp [same]
    · simp [same]
  | nothing rt effect _ _ => simp
  | fault _ => simp

omit [Libm] in
theorem Canonical.inputState_ok {c : Core} (canonical : Canonical c) (i : ℕ) : (c.inputState i).Ok := by
  unfold inputState
  cases held : c.s.inputs[i]? with
  | none => exact input_default_ok
  | some x => exact canonical.shaped.inputsOk x (List.mem_of_getElem? held)

omit [Libm] in
theorem Canonical.rec_ok {c : Core} (canonical : Canonical c) {m : ℕ} {rec : MixRec}
    (held : c.s.mixes[m]? = some rec) : Fits rec rec := by
  have member := List.mem_of_getElem? held
  exact ⟨rfl, rfl, canonical.shaped.outsOk rec member, canonical.shaped.levelsOk rec member,
    canonical.shaped.groupsOk rec member⟩

/-- Every edit keeps the core canonical. -/
theorem Edit.canonical {c c' : Core} {p : Partial} (wf : WellFormed c.topo) (canonical : Canonical c)
    (edit : Edit c p c') : Canonical c' := by
  cases edit with
  | input i new capped =>
    rcases setInput_cases i new c with same | ⟨old, node, -, -, same⟩
    · rwa [same]
    · rw [same]
      have ok := capped (canonical.inputState_ok i)
      exact ⟨canonical.shaped.set_input i ok, canonical.solo, canonical.listen, canonical.test⟩
  | out m new capped =>
    rcases setOut_cases m new c with same | ⟨rec, node, held, -, same⟩
    · rwa [same]
    · rw [same]
      refine ⟨canonical.shaped.modify_mix m fun other there => ?_, canonical.solo, canonical.listen,
        canonical.test⟩
      cases held.symm.trans there
      have old := canonical.rec_ok held
      have ok : new.Ok := capped (by simpa [Core.out, held] using old.outOk)
      exact ⟨rfl, rfl, ok, old.levelsOk, old.groupsOk⟩
  | level m k new capped =>
    rcases setLevel_cases m k new c with same | ⟨rec, slot, node, source, held, there, -, -, same⟩
    · rwa [same]
    · rw [same]
      refine ⟨canonical.shaped.modify_mix m fun other found => ?_, canonical.solo, canonical.listen,
        canonical.test⟩
      cases held.symm.trans found
      have old := canonical.rec_ok held
      have ok : new.Ok := capped (by
        simpa [Core.level, held, there] using old.levelsOk slot (List.mem_of_getElem? there))
      refine ⟨by simp, rfl, old.outOk, fun l member => ?_, old.groupsOk⟩
      rcases List.mem_or_eq_of_mem_set member with kept | rfl
      · exact old.levelsOk l kept
      · exact ok
  | group m g new capped =>
    rcases setGroup_cases m g new c with same | ⟨rec, strip, node, group, held, there, -, -, same⟩
    · rwa [same]
    · rw [same]
      refine ⟨canonical.shaped.modify_mix m fun other found => ?_, canonical.solo, canonical.listen,
        canonical.test⟩
      cases held.symm.trans found
      have old := canonical.rec_ok held
      have ok : new.Ok := capped (by
        simpa [Core.strip, held, there] using old.groupsOk strip (List.mem_of_getElem? there))
      refine ⟨rfl, by simp, old.outOk, old.levelsOk, fun s member => ?_⟩
      rcases List.mem_or_eq_of_mem_set member with kept | rfl
      · exact old.groupsOk s kept
      · exact ok
  | limiterReset mix m => exact canonical
  | solo m mix new named heard =>
    rcases replaceSolo_cases m mix new c with same | same
    · rwa [same]
    · rw [same]
      refine ⟨canonical.shaped, fun k set held => ?_, canonical.listen, canonical.test⟩
      simp only [withSolo] at held
      cases empty : new.isEmpty with
      | true =>
        rw [empty, if_pos rfl, BTreeMap.getElem?_erase_eq] at held
        split at held
        · cases held
        · exact canonical.solo k set held
      | false =>
        rw [empty, if_neg (by simp), BTreeMap.getElem?_insert_eq] at held
        split at held
        · rename_i here
          cases held
          subst here
          obtain ⟨node, found, -⟩ := Option.map_eq_some_iff.mp ((mixIndex_iff wf mix m).mp named)
          refine ⟨(List.getElem?_eq_some_iff.mp found).1, empty, fun j member => ?_⟩
          obtain ⟨source, slot⟩ := heard j member
          exact slot_bound wf found slot
        · exact canonical.solo k set held
  | tap m mix named _ =>
    obtain ⟨node, found, -⟩ := Option.map_eq_some_iff.mp ((mixIndex_iff wf mix m).mp named)
    refine ⟨canonical.shaped, canonical.solo, fun slot other held => ?_, canonical.test⟩
    simp only [tapped, get_slot, Vector.getElem_set] at held
    split at held
    · cases held
      exact (List.getElem?_eq_some_iff.mp found).1
    · exact canonical.listen slot other held
  | untap m =>
    refine ⟨canonical.shaped, canonical.solo, fun slot other held => ?_, canonical.test⟩
    simp only [dropListen_eq, untapped, get_slot, Vector.getElem_map] at held
    split at held
    · cases held
    · exact canonical.listen slot other held
  | test signal hil op capped _ =>
    refine ⟨canonical.shaped, canonical.solo, canonical.listen, fun other held => ?_⟩
    cases held
    exact capped
  | testEnded rt _ =>
    rcases takeTest_cases rt c with ⟨-, same⟩ | same
    · rwa [same]
    · rw [same]
      exact ⟨canonical.shaped, canonical.solo, canonical.listen, fun other held => by cases held⟩
  | nothing rt effect _ _ => exact canonical
  | fault _ => exact canonical

/-! ### What one event can do -/

/-- The revision after `changes` were said: one more when there are any. -/
def revAfter (c : Core) (changes : List Change) : ℕ := c.rev + if changes.isEmpty then 0 else 1

/-- What handling one event of `c` can say and leave. -/
inductive Handled (c : Core) : Option Outcome → Core → Prop where
  | refused : Handled c none c
  | edited (effect : Effect) (quiet : effect ≠ .imported) (path : Path c changes rt next) :
    Handled c (some ⟨c.revAfter changes, changes, rt, effect⟩) (next.withRev (c.revAfter changes))
  | imported (state : MixState) :
    Handled c (some ⟨c.rev + 1, [], (importState state c).1.rt, .imported⟩)
      ((importState state c).2.withRev (c.rev + 1))

private theorem finish_edited {c next : Core} {p : Partial} (path : Path c p.changes p.rt next)
    (rev : next.rev = c.rev) (fair : Fair p) :
    Handled c (some (finish p next).1) (finish p next).2 := by
  have bumped : (if p.bump then { next with rev := next.rev + 1 } else next) =
      next.withRev (c.revAfter p.changes) := by
    rw [fair.1, revAfter, ← rev]
    cases p.changes with
    | nil => rfl
    | cons change rest => rfl
  have plain : p.effect.getD .none ≠ .imported := by
    cases said : p.effect with
    | none => simp
    | some effect => simpa [said] using fair.2
  have same : finish p next = (⟨c.revAfter p.changes, p.changes, p.rt, p.effect.getD .none⟩,
      next.withRev (c.revAfter p.changes)) := by
    simp only [finish, bumped]
    rfl
  rw [same]
  exact .edited _ plain path

private theorem batchLoop_path (ops : List Cmd) (c next : Core) (all result : Partial)
    (ran : batchLoop ops all c = .ok result next) :
    ∃ changes rt, Path c changes rt next ∧ next.rev = c.rev ∧
      result.changes = all.changes ++ changes ∧ result.rt = all.rt ++ rt ∧
      result.effect = all.effect ∧ result.bump = (all.bump || !changes.isEmpty) := by
  induction ops generalizing c all with
  | nil =>
    cases ran
    exact ⟨[], [], .nil next, rfl, by simp⟩
  | cons op rest ih =>
    rw [batchLoop] at ran
    by_cases plain : batchable op = true
    · simp only [plain, Bool.not_true, Bool.false_eq_true, if_false, then_ok_iff] at ran
      obtain ⟨p, mid, first, later⟩ := ran
      have edit := batchable_edit plain first
      obtain ⟨changes, rt, path, rev, said, emitted, effect, bump⟩ := ih mid _ later
      have fair := edit.fair
      refine ⟨p.changes ++ changes, p.rt ++ rt, .cons edit path, rev.trans edit.frame.2.1,
        ?_, ?_, effect, ?_⟩
      · rw [said, Partial.extend, List.append_assoc]
      · rw [emitted, Partial.extend, List.append_assoc]
      · rw [bump, Partial.extend, fair.1]
        cases p.changes <;> simp
    · simp only [plain, Bool.not_false, if_true] at ran
      cases ran

/-- One solo cleared is that mix's solo replaced by none. -/
private theorem clearSolo_edit {c : Core} (wf : WellFormed c.topo) (canonical : Canonical c) {m : ℕ}
    {set : BTreeSet ℕ} (held : c.solo[m]? = some set) (acc : Partial) :
    ∃ p next, Edit c p next ∧ next.solo = c.solo.erase m ∧
      clearSolo (acc, c) m =
        ({ acc with changes := acc.changes ++ p.changes, rt := acc.rt ++ p.rt }, next) := by
  obtain ⟨bound, filled, -⟩ := canonical.solo m set held
  have found := List.getElem?_eq_getElem bound
  have named : c.topo.mixIndex c.topo.mixes[m].id = some m :=
    (mixIndex_iff wf _ m).mpr (by simp [found])
  have other : c.solo[m]?.getD ∅ ≠ ∅ := by
    rw [held, Option.getD_some]
    rintro rfl
    simp at filled
  have replaced : replaceSolo m c.topo.mixes[m].id ∅ c =
      (.changed [.solo c.topo.mixes[m].id []] ((c.withSolo m ∅).levelOps m), c.withSolo m ∅) := by
    rw [replaceSolo, if_neg other]
    rfl
  have erased : c.withSolo m ∅ = { c with solo := c.solo.erase m } := by simp [withSolo]
  refine ⟨_, _, .solo m c.topo.mixes[m].id ∅ named (by simp), ?_, ?_⟩
  · rw [replaced, erased]
  · rw [replaced, erased]
    simp [clearSolo, mixId, found, Partial.changed]

private theorem clearSolo_path (keys : List ℕ) (c : Core) (acc : Partial) (wf : WellFormed c.topo)
    (canonical : Canonical c) (distinct : keys.Nodup)
    (held : ∀ m ∈ keys, ∃ set, c.solo[m]? = some set) :
    ∃ changes rt next, Path c changes rt next ∧ next.rev = c.rev ∧
      keys.foldl clearSolo (acc, c) =
        ({ acc with changes := acc.changes ++ changes, rt := acc.rt ++ rt }, next) := by
  induction keys generalizing c acc with
  | nil => exact ⟨[], [], c, .nil c, rfl, by simp⟩
  | cons m rest ih =>
    obtain ⟨fresh, distinct⟩ := List.nodup_cons.mp distinct
    obtain ⟨set, here⟩ := held m (by simp)
    obtain ⟨p, mid, edit, erased, step⟩ := clearSolo_edit wf canonical here acc
    obtain ⟨topo, rev, -⟩ := edit.frame
    have left : ∀ k ∈ rest, ∃ set, mid.solo[k]? = some set := by
      intro k member
      have apart : m ≠ k := fun same => fresh (same ▸ member)
      rw [erased, BTreeMap.getElem?_erase_eq, if_neg apart]
      exact held k (by simp [member])
    obtain ⟨changes, rt, next, path, kept, fold⟩ := ih mid
      { acc with changes := acc.changes ++ p.changes, rt := acc.rt ++ p.rt }
      (topo.symm ▸ wf) (edit.canonical wf canonical) distinct left
    refine ⟨p.changes ++ changes, p.rt ++ rt, next, .cons edit path, kept.trans rev, ?_⟩
    rw [List.foldl_cons, step, fold]
    simp only [List.append_assoc]

/-- Everything one event can do: nothing, one import, or a path of edits under at
most one new revision. -/
theorem handle_spec (c : Core) (wf : WellFormed c.topo) (canonical : Canonical c) (event : Event) :
    Handled c (c.handle event).1 (c.handle event).2 := by
  cases event with
  | request cmd =>
    simp only [handle]
    cases ran : apply cmd c with
    | error e c' =>
      rw [apply_keepsOnError cmd c e c' ran]
      exact .refused
    | ok out c' =>
      unfold apply at ran
      obtain ⟨p, next, accepted, finished⟩ := then_ok_iff.mp ran
      cases finished
      rcases dispatch_cases cmd with ⟨ops, rfl⟩ | single
      · obtain ⟨changes, rt, path, rev, said, emitted, effect, bump⟩ :=
          batchLoop_path ops c next {} p (batch_ok accepted)
        simp only [List.nil_append] at said emitted
        rw [← said, ← emitted] at path
        refine finish_edited path rev ⟨?_, by simp [effect]⟩
        rw [bump, said]
        rfl
      · rw [single] at accepted
        rcases one_spec cmd c next p accepted with ⟨state, -, same⟩ | edit
        · cases same
          exact .imported state
        · exact finish_edited edit.path edit.frame.2.1 edit.fair
  | clearSolos =>
    obtain ⟨changes, rt, next, path, rev, fold⟩ := clearSolo_path c.solo.keys c {} wf canonical
      (Std.ExtTreeMap.nodup_keys) fun m member => (BTreeMap.mem_keys_iff c.solo m).mp member
    simp only [handle, Core.clearSolos, fold, List.nil_append]
    exact finish_edited path rev ⟨rfl, by simp⟩
  | endTestSignal =>
    have edit : Edit c (takeTest [] c).1 (takeTest [] c).2 := .testEnded [] (by simp)
    exact finish_edited edit.path edit.frame.2.1 edit.fair

/-- Only an import has an import's effect. -/
theorem effect_imported {c : Core} {cmd : Cmd} {out : Outcome} (handled : (c.handle (.request cmd)).1 = some out)
    (effect : out.effect = .imported) : ∃ state, cmd = .importState state := by
  simp only [handle] at handled
  cases ran : apply cmd c with
  | error e c' =>
    rw [ran] at handled
    cases handled
  | ok out' c' =>
    rw [ran] at handled
    cases handled
    unfold apply at ran
    obtain ⟨p, next, accepted, finished⟩ := then_ok_iff.mp ran
    cases finished
    have said : p.effect.getD .none = .imported := effect
    rcases dispatch_cases cmd with ⟨ops, rfl⟩ | single
    · obtain ⟨-, -, -, -, -, -, none, -⟩ := batchLoop_path ops c next {} p (batch_ok accepted)
      rw [none] at said
      cases said
    · rw [single] at accepted
      rcases one_spec cmd c next p accepted with ⟨state, same, -⟩ | edit
      · exact ⟨state, same⟩
      · have other := edit.fair.2
        cases given : p.effect with
        | none =>
          rw [given] at said
          cases said
        | some e =>
          rw [given] at said other
          exact absurd (congrArg some said) other

/-! ### Runs -/

omit [Libm] in
theorem new_canonical (topo : Topology) (state : MixState) (rev : ℕ) (flags : Flags)
    (hil : List UInt16) : Canonical ((new topo state rev flags).withHil hil) where
  shaped := reconcile_shaped topo state
  solo := by
    intro m set held
    simp [new, withHil] at held
  listen := by
    intro slot m held
    have empty : ∀ slot : Fin 2, (#v[none, none] : Vector (Option ℕ) 2).get slot = none := by decide
    exact absurd ((empty slot).symm.trans held) (by simp)
  test := by
    intro signal held
    cases held

/-- One event keeps the topology and the canonical core. -/
theorem Handled.canonical {c c' : Core} {out : Option Outcome} (wf : WellFormed c.topo)
    (canonical : Canonical c) (handled : Handled c out c') : c'.topo = c.topo ∧ Canonical c' := by
  cases handled with
  | refused => exact ⟨rfl, canonical⟩
  | edited effect quiet path =>
    have kept := path.invariant (P := fun next : Core => next.topo = c.topo ∧ Canonical next)
      (fun mid p next held edit =>
        ⟨edit.frame.1.trans held.1, edit.canonical (held.1.symm ▸ wf) held.2⟩) ⟨rfl, canonical⟩
    exact ⟨kept.1, kept.2.shaped, kept.2.solo, kept.2.listen, kept.2.test⟩
  | imported state =>
    exact ⟨rfl, reconcile_shaped c.topo state, canonical.solo, canonical.listen, canonical.test⟩

theorem run_canonical (c : Core) (events : List Event) (wf : WellFormed c.topo)
    (canonical : Canonical c) : (c.run events).topo = c.topo ∧ Canonical (c.run events) := by
  induction events generalizing c with
  | nil => exact ⟨rfl, canonical⟩
  | cons event rest ih =>
    obtain ⟨topo, kept⟩ := (handle_spec c wf canonical event).canonical wf canonical
    obtain ⟨later, final⟩ := ih (c.handle event).2 (topo.symm ▸ wf) kept
    exact ⟨later.trans topo, final⟩

omit [Libm] in
/-- Every value of a canonical core's state lies in its range. -/
theorem Canonical.state_ok {c : Core} (wf : WellFormed c.topo) (canonical : Canonical c) :
    c.state.Ok := by
  have shaped := canonical.shaped
  constructor
  case inputs =>
    intro id x held
    obtain ⟨i, -, inside⟩ := (toState_input_iff wf c.s id x).mp held
    exact shaped.inputsOk x (List.mem_of_getElem? inside)
  case outs =>
    intro id x held
    obtain ⟨m, rec, -, inside, rfl⟩ := (toState_mix_iff wf c.s id x).mp held
    rw [toMix_out]
    exact shaped.outsOk rec (List.mem_of_getElem? inside)
  case levels =>
    intro id x held source l found
    obtain ⟨m, rec, named, inside, rfl⟩ := (toState_mix_iff wf c.s id x).mp held
    obtain ⟨node, there, -⟩ := Option.map_eq_some_iff.mp named
    obtain ⟨k, -, slot⟩ := (toMix_level_iff wf there rec source l).mp found
    exact shaped.levelsOk rec (List.mem_of_getElem? inside) l (List.mem_of_getElem? slot)
  case groups =>
    intro id x held g strip found
    obtain ⟨m, rec, -, inside, rfl⟩ := (toState_mix_iff wf c.s id x).mp held
    obtain ⟨k, -, slot⟩ := (toMix_group_iff wf m rec g strip).mp found
    exact shaped.groupsOk rec (List.mem_of_getElem? inside) strip (List.mem_of_getElem? slot)

/-- The canonical state. Along every run of a compiled site's core, from whatever
state it loaded: the protocol's shaper returns the core's state as it is and drops
nothing; every value lies in its range; every solo is a set of slots of its mix,
not empty and without repeats; a running test signal is within its caps. -/
theorem canonical_state {digest : TopologyInfo → String} (site : Compiled digest) (state : MixState)
    (rev : ℕ) (flags : Flags) (hil : List UInt16) (events : List Event) :
    let c := ((new site.topo state rev flags).withHil hil).run events
    Proto.reconcile site.topo.info c.state = (c.state, []) ∧ c.state.Ok ∧
      (∀ (m : ℕ) (set : BTreeSet ℕ), c.solo[m]? = some set → m < site.topo.mixes.length ∧
        set.toList ≠ [] ∧ set.toList.Nodup ∧ ∀ k ∈ set.toList, k < site.topo.levels m) ∧
      ∀ signal, c.test = some signal → TestOk signal := by
  intro c
  obtain ⟨wf, -⟩ := compile_spec digest site
  obtain ⟨topo, canonical⟩ : c.topo = site.topo ∧ Canonical c :=
    run_canonical _ events wf (new_canonical site.topo state rev flags hil)
  have wf' : WellFormed c.topo := topo.symm ▸ wf
  refine ⟨?_, canonical.state_ok wf', fun m set held => ?_, canonical.test⟩
  · rw [← topo]
    exact shaper_fixed wf' canonical.shaped
  · obtain ⟨bound, filled, slots⟩ := canonical.solo m set held
    rw [← topo]
    have distinct : set.toList.Nodup :=
      Std.ExtTreeSet.distinct_toList.imp fun apart same => apart (Std.compare_eq_iff_eq.mpr same)
    refine ⟨bound, ?_, distinct, fun k member => slots k ?_⟩
    · intro empty
      rw [← Std.ExtTreeSet.isEmpty_toList, empty] at filled
      cases filled
    · exact Std.ExtTreeSet.mem_toList.mp member

/-- The two shapings agree: a state laid out by the engine and put back in the protocol's form
is what the protocol's shaper makes of it, and a layout the engine holds, along any run from
whatever it loaded, is laid out again as it is, with nothing dropped. -/
theorem layout_agrees {digest : TopologyInfo → String} (site : Compiled digest) (state : MixState) :
    toState site.topo (IemMixer.reconcile site.topo state).1 = (Proto.reconcile site.topo.info state).1 ∧
      ∀ (rev : ℕ) (flags : Flags) (hil : List UInt16) (events : List Event),
        let c := ((new site.topo state rev flags).withHil hil).run events
        IemMixer.reconcile site.topo (toState site.topo c.s) = (c.s, []) := by
  obtain ⟨wf, -⟩ := compile_spec digest site
  constructor
  · exact toState_reconcile wf state
  · intro rev flags hil events c
    obtain ⟨topo, canonical⟩ : c.topo = site.topo ∧ Canonical c :=
      run_canonical _ events wf (new_canonical site.topo state rev flags hil)
    have shaped : Shaped site.topo c.s := topo ▸ canonical.shaped
    apply Prod.ext
    · exact reconcile_toState wf shaped
    · have fixed := congrArg Prod.snd (shaper_fixed wf shaped)
      exact fixed

end

/-- A solo, a refused NaN and a capped test signal at `duet`. -/
theorem canonical_state_duet :
    let c := @run duetLibm ((new duetCompiled.topo {} 7 { testSignal := true }).withHil [])
      [.request (.setSolo "eng" [.input "voice", .mix "anna"]),
        .request (.setInput "voice" (some .nan) none none),
        .request (.startTestSignal "voice" (.fin 5) (.fin 0) (.fin 1))]
    c.solo[2]?.map (·.toList) = some [0, 1] ∧ c.test = some ⟨"voice", .fin 20, .fin (-20), .fin 1⟩ ∧
      Proto.reconcile duetCompiled.topo.info c.state = (c.state, []) ∧
      (∀ signal, c.test = some signal → TestOk signal) := by
  intro c
  have all := @canonical_state duetLibm _ duetCompiled {} 7 { testSignal := true } []
    [.request (.setSolo "eng" [.input "voice", .mix "anna"]),
      .request (.setInput "voice" (some .nan) none none),
      .request (.startTestSignal "voice" (.fin 5) (.fin 0) (.fin 1))]
  exact ⟨by decide +kernel, by decide +kernel, all.1, all.2.2.2⟩

end IemMixer.Core
