import IemMixer.Core.BatchProofs
import IemMixer.Rt.SyncProofs
import IemMixer.Server.Ramp
import IemMixer.Server.SiteProofs

/-! A person's page writes its own mix only: whatever its commands and its ramps ask for, no
other mix of the engine changes, and in its own mix nothing of a source the page does not
show. -/
namespace IemMixer.Server
open Lib Proto TopologyProofs IemMixer.Core Rt

/-! ### What a page may ask for -/

section
variable (view : SiteView) (page : Page) (viewer : Viewer)

/-- An input the viewer sees and owns. -/
def Owns (id : InputId) : Prop := showsInput view viewer id = true ∧
  ∃ i, view.input id = some i ∧ i.owner = some viewer.sub

/-- One edit of the page's own mix, or of an EQ the viewer owns. -/
def OwnEdit : Cmd → Prop
  | .setLevel mix source _ _ _ => mix = page.mix ∧ shown view page viewer source = true
  | .setMix mix _ _ | .setGroup mix _ _ _ | .setLimiter mix _ _ | .resetLimiterStats mix => mix = page.mix
  | .setEq (.mix mix) _ | .setEq (.group mix _) _ => mix = page.mix
  | .setEq (.input id) _ => Owns view viewer id
  | .setSolo mix sources => mix = page.mix ∧ ∀ s ∈ sources, shown view page viewer s = true
  | _ => False

def OwnCmd : Cmd → Prop
  | .batch ops => ∀ op ∈ ops, OwnEdit view page viewer op
  | cmd => OwnEdit view page viewer cmd

variable {view page viewer}

/-- What a page may move it shows. -/
theorem movable_shown {id : String} {s : Source} (ok : movable view page viewer id = .ok s) :
    shown view page viewer s = true := by
  unfold movable at ok
  split at ok
  · cases ok
  · rename_i m found
    rw [apply_ite (· = Except.ok s)] at ok
    split at ok
    · rename_i leads
      cases ok
      unfold source at found
      split at found
      · cases found
      · obtain ⟨x, known, inside⟩ := Option.bind_eq_some_iff.mp found
        obtain ⟨h, hears, same⟩ := Option.map_eq_some_iff.mp inside
        cases same
        have free := List.find?_some hears
        simp only [Bool.and_eq_true] at free
        simp only [shown, heard, leads, if_true, known, Option.map_some, Option.getD_some, List.contains_eq_mem,
          List.mem_filter, decide_eq_true_eq]
        exact ⟨List.mem_of_find?_eq_some hears, by simpa using free.2⟩
    · cases ok
  · rename_i s' notMix found
    cases ok
    unfold source at found
    split at found
    · rename_i shows
      cases found
      exact shows
    · obtain ⟨x, -, inside⟩ := Option.bind_eq_some_iff.mp found
      obtain ⟨h, -, rfl⟩ := Option.map_eq_some_iff.mp inside
      exact absurd rfl (notMix h)

theorem eqTarget_own {text name : String} {target : EqTarget} (person : viewer.engineer = false)
    (ok : eqTarget view page viewer text = .ok (target, name)) (eq : EqState) :
    OwnEdit view page viewer (.setEq target eq) := by
  unfold eqTarget at ok
  split at ok
  · cases ok
    rfl
  split at ok
  · cases ok
    rfl
  split at ok
  · rename_i i found
    obtain ⟨known, shows⟩ := Option.filter_eq_some_iff.mp found
    simp only [person, Bool.false_or] at ok
    split at ok
    · rename_i mine
      cases ok
      have named : i.id = text := by simpa using List.find?_some known
      rw [← named] at known shows
      exact ⟨shows, i, known, by simpa using mine⟩
    · cases ok
  · split at ok <;> simp [person] at ok

theorem sources_shown {ids : List String} {sources : List Source}
    (ok : ids.mapM (movable view page viewer) = .ok sources) :
    ∀ s ∈ sources, shown view page viewer s = true := by
  induction ids generalizing sources with
  | nil =>
    cases ok
    simp
  | cons id rest ih =>
    rw [List.mapM_cons] at ok
    obtain ⟨first, movable, ok⟩ := bind_ok_iff.mp ok
    obtain ⟨later, all, ok⟩ := bind_ok_iff.mp ok
    cases ok
    intro s member
    rcases List.mem_cons.mp member with rfl | inside
    · exact movable_shown movable
    · exact ih all s inside

/-- Every command a person's page asks for is of its own mix or their own input's EQ. -/
theorem command_own {mirror : Mirror} {msg : Ui.ClientMsg} {cmds : List Cmd} (person : viewer.engineer = false)
    (ok : command view mirror page viewer msg = .ok cmds) : ∀ cmd ∈ cmds, OwnCmd view page viewer cmd := by
  cases msg with
  | setLevel id levelDb =>
    obtain ⟨src, may, ok⟩ := bind_ok_iff.mp ok
    obtain ⟨db, -, ok⟩ := bind_ok_iff.mp ok
    cases ok
    simpa [OwnCmd, OwnEdit] using movable_shown may
  | setMute id muted =>
    obtain ⟨src, may, ok⟩ := bind_ok_iff.mp ok
    cases ok
    simpa [OwnCmd, OwnEdit] using movable_shown may
  | setPan id pan =>
    obtain ⟨src, may, ok⟩ := bind_ok_iff.mp ok
    split at ok
    · cases ok
      simpa [OwnCmd, OwnEdit] using movable_shown may
    · cases ok
  | setGlobalLevel levelDb =>
    obtain ⟨db, -, ok⟩ := bind_ok_iff.mp ok
    cases ok
    simp [OwnCmd, OwnEdit]
  | setGlobalMute muted =>
    cases ok
    simp [OwnCmd, OwnEdit]
  | setStemsLevel levelDb =>
    obtain ⟨group, -, ok⟩ := bind_ok_iff.mp ok
    obtain ⟨db, -, ok⟩ := bind_ok_iff.mp ok
    cases ok
    simp [OwnCmd, OwnEdit]
  | setStemsMute muted =>
    obtain ⟨group, -, ok⟩ := bind_ok_iff.mp ok
    cases ok
    simp [OwnCmd, OwnEdit]
  | setSolo soloed =>
    obtain ⟨sources, may, ok⟩ := bind_ok_iff.mp ok
    cases ok
    simpa [OwnCmd, OwnEdit] using sources_shown may
  | setEqBand target band param value =>
    obtain ⟨⟨t, name⟩, may, ok⟩ := bind_ok_iff.mp ok
    obtain ⟨eq, -, ok⟩ := bind_ok_iff.mp ok
    cases ok
    simpa [OwnCmd] using eqTarget_own person may eq
  | setLimiterParam param value =>
    simp only [command] at ok
    split at ok
    · cases ok
    split at ok
    · cases ok
    · cases ok
      simp [OwnCmd, OwnEdit]
  | setLimiterEnabled enabled =>
    cases ok
    simp [OwnCmd, OwnEdit]
  | resetLimiterActivity =>
    cases ok
    simp [OwnCmd, OwnEdit]
  | setInput input trimDb muted processing => simp [command, person] at ok
  | resetLimiterStats mix => simp [command, person] at ok
  | _ => cases ok

/-- So is every command of a ramp. -/
theorem ramp_own [Libm] {mirror : Mirror} {sends : List MixSend} {groups : BTreeMap GroupId F64} {step : List Cmd}
    (member : step ∈ (ramp view mirror page sends groups).1) :
    ∀ op ∈ step, OwnEdit view page (Viewer.ofPage page) op := by
  have shows : ∀ s ∈ moving view mirror page sends, shown view page (Viewer.ofPage page) s.src = true :=
    fun s inside => (List.mem_filter.mp (List.mem_of_mem_filter inside)).2
  have listed := List.mem_of_mem_filter member
  intro op inside
  rcases List.mem_append.mp listed with steps | settle
  · obtain ⟨i, -, rfl⟩ := List.mem_map.mp steps
    rcases List.mem_append.mp inside with level | group
    · obtain ⟨s, moved, rfl⟩ := List.mem_map.mp level
      exact ⟨rfl, shows s moved⟩
    · obtain ⟨g, -, rfl⟩ := List.mem_map.mp group
      rfl
  · rw [List.mem_singleton.mp settle] at inside
    obtain ⟨s, muted, rfl⟩ := List.mem_map.mp inside
    exact ⟨rfl, shows s (List.mem_of_mem_filter muted)⟩

end

/-! ### What the engine makes of it -/

section
variable [Libm] (view : SiteView) (page : Page) (viewer : Viewer)

/-- Mix `m` is another than the page's. -/
def Elsewhere (topo : Topology) (m : ℕ) : Prop := topo.mixIndex page.mix ≠ some m

/-- No source the page shows is read by slot `k` of mix `m`. -/
def Hidden (topo : Topology) (m k : ℕ) : Prop :=
  ∀ s, topo.source m k = some s → shown view page viewer s = false

/-- The core changed in the page's own mix, at what the page shows, and in EQs of inputs the
viewer owns. -/
structure Confined (c c' : Core) : Prop where
  topo : c'.topo = c.topo
  listen : c'.listen = c.listen
  test : c'.test = c.test ∧ c'.hilTest = c.hilTest
  launch : c'.hil = c.hil ∧ c'.flags = c.flags
  inputs : ∀ i : ℕ, c'.s.inputs[i]? = c.s.inputs[i]? ∨
    (∃ node : InputNode, c.topo.inputs[i]? = some node ∧ Owns view viewer node.id) ∧
      ∃ (old : InputState) (eq : EqState), c.s.inputs[i]? = some old ∧ c'.s.inputs[i]? = some { old with eq }
  mixes : ∀ m, Elsewhere page c.topo m → c'.s.mixes[m]? = c.s.mixes[m]? ∧ c'.solo[m]? = c.solo[m]?
  levels : ∀ m k, Hidden view page viewer c.topo m k →
    (c'.s.mixes[m]?.bind (·.levels[k]?)) = c.s.mixes[m]?.bind (·.levels[k]?)
  solo : ∀ m k, Hidden view page viewer c.topo m k → k ∈ c'.solo[m]?.getD ∅ → k ∈ c.solo[m]?.getD ∅

/-- A change said of the page's own mix, or of an input the viewer owns. -/
def OwnChange : Change → Prop
  | .input id _ => Owns view viewer id
  | .level mix source _ => mix = page.mix ∧ shown view page viewer source = true
  | .mixOut mix _ | .group mix _ _ | .limiterStatsReset mix => mix = page.mix
  | .solo mix sources => mix = page.mix ∧ ∀ s ∈ sources, shown view page viewer s = true
  | .listen _ | .testSignal _ => False

/-- An RT command to the page's own mix, or to an input the viewer owns. -/
def OwnOp (topo : Topology) (op : RtOp) : Prop :=
  (∃ m, topo.mixIndex page.mix = some m ∧ (mixAt op = some (ix m) ∨ op = .resetLimiter (ix m))) ∨
    ∃ (i : ℕ) (node : InputNode), topo.inputs[i]? = some node ∧ Owns view viewer node.id ∧ inputAt op = some (ix i)

/-- What one or more edits of the page do, say and send to the RT thread. -/
structure OwnStep (c c' : Core) (changes : List Change) (rt : List RtOp) : Prop where
  core : Confined view page viewer c c'
  said : ∀ change ∈ changes, OwnChange view page viewer change
  sent : ∀ op ∈ rt, OwnOp view page viewer c.topo op

variable {view page viewer} {c c' : Core} {m : ℕ}

omit [Libm] in
theorem Confined.refl (c : Core) : Confined view page viewer c c :=
  ⟨rfl, rfl, ⟨rfl, rfl⟩, ⟨rfl, rfl⟩, fun _ => .inl rfl, fun _ _ => ⟨rfl, rfl⟩, fun _ _ _ => rfl, fun _ _ _ => id⟩

omit [Libm] in
theorem Confined.trans {c'' : Core} (first : Confined view page viewer c c')
    (next : Confined view page viewer c' c'') : Confined view page viewer c c'' where
  topo := next.topo.trans first.topo
  listen := next.listen.trans first.listen
  test := ⟨next.test.1.trans first.test.1, next.test.2.trans first.test.2⟩
  launch := ⟨next.launch.1.trans first.launch.1, next.launch.2.trans first.launch.2⟩
  inputs i := by
    have later := next.inputs i
    rw [first.topo] at later
    rcases first.inputs i with same | ⟨own, old, eq, held, set⟩
    · rwa [same] at later
    · rcases later with same | ⟨-, old', eq', held', set'⟩
      · exact .inr ⟨own, old, eq, held, same.trans set⟩
      · have replaced : old' = { old with eq } := Option.some.inj (held'.symm.trans set)
        exact .inr ⟨own, old, eq', held, by rw [set', replaced]⟩
  mixes m aside := by
    obtain ⟨mix, solo⟩ := first.mixes m aside
    obtain ⟨mix', solo'⟩ := next.mixes m (by rwa [first.topo])
    exact ⟨mix'.trans mix, solo'.trans solo⟩
  levels m k hidden := (next.levels m k (by rwa [first.topo])).trans (first.levels m k hidden)
  solo m k hidden member := first.solo m k hidden (next.solo m k (by rwa [first.topo]) member)

omit [Libm] in
theorem input_found {id : InputId} {i : ℕ} (ok : c.input id = .ok i) : c.topo.inputIndex id = some i := by
  unfold input at ok
  split at ok
  · cases ok
    assumption
  · cases ok

omit [Libm] in
/-- The page's own mix written, its hidden levels kept. -/
theorem confined_modifyMix (here : c.topo.mixIndex page.mix = some m) (f : MixRec → MixRec)
    (levels : ∀ rec k, Hidden view page viewer c.topo m k → (f rec).levels[k]? = rec.levels[k]?) :
    Confined view page viewer c (c.modifyMix m f) := by
  have other : ∀ m', m' ≠ m → (c.s.mixes.modify m f)[m']? = c.s.mixes[m']? := by
    intro m' apart
    simp [Ne.symm apart]
  refine ⟨rfl, rfl, ⟨rfl, rfl⟩, ⟨rfl, rfl⟩, fun _ => .inl rfl, fun m' aside => ⟨?_, rfl⟩, fun m' k hidden => ?_,
    fun _ _ _ => id⟩
  · apply other
    rintro rfl
    exact aside here
  · by_cases same : m' = m
    · subst same
      simp only [modifyMix, List.getElem?_modify, if_true, Option.map_eq_map]
      cases c.s.mixes[m']? with
      | none => rfl
      | some rec => exact levels rec k hidden
    · simp only [modifyMix, other m' same]

omit [Libm] in
theorem OwnStep.trans {c'' : Core} {changes later : List Change} {rt after : List RtOp}
    (first : OwnStep view page viewer c c' changes rt) (next : OwnStep view page viewer c' c'' later after) :
    OwnStep view page viewer c c'' (changes ++ later) (rt ++ after) where
  core := first.core.trans next.core
  said change member := (List.mem_append.mp member).elim (first.said change) (next.said change)
  sent op member := (List.mem_append.mp member).elim (first.sent op) fun inside =>
    first.core.topo ▸ next.sent op inside

omit [Libm] in
theorem nothing_own (c : Core) : OwnStep view page viewer c c [] [] := 
  ⟨Confined.refl c, List.forall_mem_nil _, List.forall_mem_nil _⟩

theorem setOut_own (wf : WellFormed c.topo) (here : c.topo.mixIndex page.mix = some m) (new : MixOut) :
    OwnStep view page viewer c (setOut m new c).2 (setOut m new c).1.changes (setOut m new c).1.rt := by
  rcases setOut_cases m new c with same | ⟨rec, node, -, found, same⟩
  · rw [same]
    exact nothing_own c
  · rw [same]
    have named := (mixIndex_iff wf page.mix m).mp here
    rw [found] at named
    constructor
    case core => exact confined_modifyMix here _ fun _ _ _ => rfl
    case said =>
      intro change said
      rw [List.mem_singleton.mp said]
      exact Option.some.inj named
    case sent => exact fun op sent => .inl ⟨m, here, .inl (outOps_at sent).1⟩

theorem setGroup_own (wf : WellFormed c.topo) (here : c.topo.mixIndex page.mix = some m) (g : ℕ) (new : MixGroup) :
    OwnStep view page viewer c (setGroup m g new c).2 (setGroup m g new c).1.changes (setGroup m g new c).1.rt := by
  rcases setGroup_cases m g new c with same | ⟨rec, old, node, group, -, -, found, -, same⟩
  · rw [same]
    exact nothing_own c
  · rw [same]
    have named := (mixIndex_iff wf page.mix m).mp here
    rw [found] at named
    constructor
    case core => exact confined_modifyMix here _ fun _ _ _ => rfl
    case said =>
      intro change said
      rw [List.mem_singleton.mp said]
      exact Option.some.inj named
    case sent => exact fun op sent => .inl ⟨m, here, .inl (groupOps_mixAt sent)⟩

theorem setLevel_own (wf : WellFormed c.topo) (here : c.topo.mixIndex page.mix = some m) {k : ℕ} {source : Source}
    (heard : c.topo.slot m source = some k) (shows : shown view page viewer source = true) (new : Level) :
    OwnStep view page viewer c (setLevel m k new c).2 (setLevel m k new c).1.changes (setLevel m k new c).1.rt := by
  rcases setLevel_cases m k new c with same | ⟨rec, old, node, read, -, -, found, there, same⟩
  · rw [same]
    exact nothing_own c
  · rw [same]
    have named := (mixIndex_iff wf page.mix m).mp here
    rw [found] at named
    have mine : read = source :=
      Option.some.inj (there.symm.trans ((source_slot_iff wf found k source).mpr heard))
    subst mine
    constructor
    case core =>
      apply confined_modifyMix here
      intro rec k' hidden
      apply List.getElem?_set_ne
      rintro rfl
      rw [hidden read there] at shows
      cases shows
    case said =>
      intro change said
      rw [List.mem_singleton.mp said]
      exact ⟨Option.some.inj named, shows⟩
    case sent =>
      intro op sent
      rw [List.mem_singleton.mp sent]
      exact .inl ⟨m, here, .inl rfl⟩

theorem setInput_own (wf : WellFormed c.topo) {id : InputId} {i : ℕ} (here : c.topo.inputIndex id = some i)
    (mine : Owns view viewer id) (eq : EqState) :
    OwnStep view page viewer c (setInput i { c.inputState i with eq } c).2
      (setInput i { c.inputState i with eq } c).1.changes (setInput i { c.inputState i with eq } c).1.rt := by
  rcases setInput_cases i { c.inputState i with eq } c with same | ⟨old, node, held, found, same⟩
  · rw [same]
    exact nothing_own c
  · rw [same]
    have named := (inputIndex_iff wf id i).mp here
    rw [found] at named
    have same : node.id = id := Option.some.inj named
    have own : Owns view viewer node.id := same ▸ mine
    constructor
    case core =>
      refine ⟨rfl, rfl, ⟨rfl, rfl⟩, ⟨rfl, rfl⟩, fun j => ?_, fun _ _ => ⟨rfl, rfl⟩, fun _ _ _ => rfl,
        fun _ _ _ member => member⟩
      by_cases there : i = j
      · subst there
        obtain ⟨bound, -⟩ := List.getElem?_eq_some_iff.mp held
        refine .inr ⟨⟨node, found, own⟩, old, eq, held, ?_⟩
        rw [List.getElem?_set_self bound, inputState, held, Option.getD_some]
      · exact .inl (List.getElem?_set_ne there)
    case said =>
      intro change said
      rw [List.mem_singleton.mp said]
      exact own
    case sent => exact fun op sent => .inr ⟨i, node, found, own, inputOps_at sent⟩

omit [Libm] in
/-- The slots of a solo are those of the sources it names. -/
theorem soloSlots_named {topo : Topology} {mix : MixId} {sources : List Source} {slots new : BTreeSet ℕ}
    (ok : soloSlots topo m mix sources slots = .ok new) :
    ∀ k ∈ new, k ∈ slots ∨ ∃ s ∈ sources, topo.slot m s = some k := by
  induction sources generalizing slots with
  | nil =>
    cases ok
    exact fun _ => .inl
  | cons source rest ih =>
    simp only [soloSlots] at ok
    split at ok
    · cases ok
    · rename_i k found
      intro other member
      rcases ih ok other member with before | ⟨s, inside, slot⟩
      · rw [Std.ExtTreeSet.mem_insert, Std.compare_eq_iff_eq] at before
        rcases before with rfl | before
        · exact .inr ⟨source, List.mem_cons_self, found⟩
        · exact .inl before
      · exact .inr ⟨s, List.mem_cons_of_mem _ inside, slot⟩

theorem replaceSolo_own (wf : WellFormed c.topo) (here : c.topo.mixIndex page.mix = some m) {new : BTreeSet ℕ}
    (named : ∀ k ∈ new, ∃ s, shown view page viewer s = true ∧ c.topo.slot m s = some k) :
    OwnStep view page viewer c (replaceSolo m page.mix new c).2 (replaceSolo m page.mix new c).1.changes (replaceSolo m page.mix new c).1.rt := by
  obtain ⟨node, found, -⟩ := Option.map_eq_some_iff.mp ((mixIndex_iff wf page.mix m).mp here)
  rcases replaceSolo_cases m page.mix new c with same | same
  · rw [same]
    exact nothing_own c
  · rw [same]
    constructor
    case core =>
      refine ⟨rfl, rfl, ⟨rfl, rfl⟩, ⟨rfl, rfl⟩, fun _ => .inl rfl, fun m' aside => ⟨rfl, ?_⟩, fun _ _ _ => rfl,
        fun m' k hidden member => ?_⟩
      · rw [withSolo_solo, if_neg]
        rintro rfl
        exact aside here
      · rw [withSolo_solo] at member
        by_cases mine : m = m'
        · subst mine
          rw [if_pos rfl] at member
          have inside : k ∈ new := by
            cases empty : new.isEmpty with
            | true => simp [empty] at member
            | false => simpa [empty] using member
          obtain ⟨s, shows, slot⟩ := named k inside
          rw [hidden s ((source_slot_iff wf found k s).mpr slot)] at shows
          cases shows
        · rwa [if_neg mine] at member
    case said =>
      intro change said
      rw [List.mem_singleton.mp said]
      refine ⟨rfl, fun s listed => ?_⟩
      obtain ⟨k, member, read⟩ := List.mem_filterMap.mp listed
      obtain ⟨s', shows, slot⟩ := named k (Std.ExtTreeSet.mem_toList.mp member)
      rw [← source_slot_iff wf found] at slot
      rwa [Option.some.inj (read.symm.trans slot)]
    case sent => exact fun op sent => .inl ⟨m, here, .inl (levelOps_at sent)⟩

/-! ### A request, a batch, a run -/

theorem one_own (wf : WellFormed c.topo) {cmd : Cmd} (own : OwnEdit view page viewer cmd) {c' : Core} {p : Partial}
    (ran : one cmd c = .ok p c') : OwnStep view page viewer c c' p.changes p.rt := by
  unfold one at ran
  rw [get_then] at ran
  cases cmd with
  | setMix mix volumeDb muted =>
    obtain rfl : mix = page.mix := own
    simp only [read_then_ok] at ran
    obtain ⟨m, named, volumeDb', -, ran⟩ := ran
    obtain ⟨rfl, rfl⟩ := written ran
    exact setOut_own wf (mix_named named) _
  | setLevel mix source gainDb pan muted =>
    obtain ⟨rfl, shows⟩ : mix = page.mix ∧ shown view page viewer source = true := own
    rw [read_then_ok] at ran
    obtain ⟨m, named, ran⟩ := ran
    cases heard : c.topo.slot m source with
    | none =>
      rw [heard] at ran
      cases ran
    | some k =>
      simp only [heard, read_then_ok] at ran
      obtain ⟨gainDb', -, pan', -, ran⟩ := ran
      obtain ⟨rfl, rfl⟩ := written ran
      exact setLevel_own wf (mix_named named) heard shows _
  | setGroup mix group gainDb muted =>
    obtain rfl : mix = page.mix := own
    simp only [read_then_ok] at ran
    obtain ⟨m, named, g, -, gainDb', -, ran⟩ := ran
    obtain ⟨rfl, rfl⟩ := written ran
    exact setGroup_own wf (mix_named named) g _
  | setEq target eq =>
    obtain ⟨-, ran⟩ := refused_then_ok.mp ran
    cases target with
    | input id =>
      simp only [read_then_ok] at ran
      obtain ⟨i, named, ran⟩ := ran
      obtain ⟨rfl, rfl⟩ := written ran
      exact setInput_own wf (input_found named) own _
    | mix id =>
      obtain rfl : id = page.mix := own
      simp only [read_then_ok] at ran
      obtain ⟨m, named, ran⟩ := ran
      obtain ⟨rfl, rfl⟩ := written ran
      exact setOut_own wf (mix_named named) _
    | group mix group =>
      obtain rfl : mix = page.mix := own
      simp only [read_then_ok] at ran
      obtain ⟨m, named, g, -, ran⟩ := ran
      obtain ⟨rfl, rfl⟩ := written ran
      exact setGroup_own wf (mix_named named) g _
  | setLimiter mix enabled limitDb =>
    obtain rfl : mix = page.mix := own
    simp only [read_then_ok] at ran
    obtain ⟨m, named, limitDb', -, ran⟩ := ran
    obtain ⟨rfl, rfl⟩ := written ran
    exact setOut_own wf (mix_named named) _
  | resetLimiterStats mix =>
    obtain rfl : mix = page.mix := own
    rw [read_then_ok] at ran
    obtain ⟨m, named, ran⟩ := ran
    cases ran
    constructor
    case core => exact Confined.refl c
    case said =>
      intro change said
      rw [List.mem_singleton.mp said]
      rfl
    case sent =>
      intro op sent
      rw [List.mem_singleton.mp sent]
      exact .inl ⟨m, mix_named named, .inr rfl⟩
  | setSolo mix sources =>
    obtain ⟨rfl, shows⟩ : mix = page.mix ∧ ∀ s ∈ sources, shown view page viewer s = true := own
    simp only [setSolo] at ran
    rw [get_then, read_then_ok] at ran
    obtain ⟨m, named, ran⟩ := ran
    rw [refused_then_ok, read_then_ok] at ran
    obtain ⟨-, new, slots, ran⟩ := ran
    obtain ⟨rfl, rfl⟩ := written ran
    apply replaceSolo_own wf (mix_named named)
    intro k member
    rcases soloSlots_named slots k member with none | ⟨s, listed, slot⟩
    · simp at none
    · exact ⟨s, shows s listed, slot⟩
  | _ => cases own

theorem OwnCmd.single {cmd : Cmd} (own : OwnCmd view page viewer cmd) :
    (∃ ops, cmd = .batch ops ∧ ∀ op ∈ ops, OwnEdit view page viewer op) ∨
      dispatch cmd = one cmd ∧ OwnEdit view page viewer cmd := by
  cases cmd with
  | batch ops => exact .inl ⟨ops, rfl, own⟩
  | _ => exact .inr ⟨rfl, own⟩

theorem batchLoop_own {ops : List Cmd} {c : Core} (wf : WellFormed c.topo)
    (own : ∀ op ∈ ops, OwnEdit view page viewer op)
    {all result : Partial} {c' : Core} (ran : batchLoop ops all c = .ok result c') :
    ∃ changes rt, result.changes = all.changes ++ changes ∧ result.rt = all.rt ++ rt ∧
      OwnStep view page viewer c c' changes rt := by
  induction ops generalizing c all with
  | nil =>
    cases ran
    exact ⟨[], [], by simp, by simp, nothing_own _⟩
  | cons op rest ih =>
    rw [batchLoop] at ran
    split at ran
    · cases ran
    obtain ⟨p, mid, first, later⟩ := then_ok_iff.mp ran
    have step := one_own wf (own op List.mem_cons_self) first
    have kept : mid.topo = c.topo := step.core.topo
    obtain ⟨changes, rt, joined, joinedRt, steps⟩ :=
      ih (kept ▸ wf) (fun op' inside => own op' (List.mem_cons_of_mem _ inside)) later
    refine ⟨p.changes ++ changes, p.rt ++ rt, ?_, ?_, step.trans steps⟩
    · rw [joined, Partial.extend, List.append_assoc]
    · rw [joinedRt, Partial.extend, List.append_assoc]

omit [Libm] in
theorem finish_own (p : Partial) {mid : Core} (step : OwnStep view page viewer c mid p.changes p.rt) :
    OwnStep view page viewer c (finish p mid).2 (finish p mid).1.changes (finish p mid).1.rt := by
  unfold finish
  cases p.bump with
  | false => exact step
  | true =>
    obtain ⟨⟨topo, listen, test, launch, inputs, mixes, levels, solo⟩, said, sent⟩ := step
    exact ⟨⟨topo, listen, test, launch, inputs, mixes, levels, solo⟩, said, sent⟩

/-- One request of the page, accepted. -/
theorem apply_own (wf : WellFormed c.topo) {cmd : Cmd} (own : OwnCmd view page viewer cmd) {out : Outcome} {c' : Core}
    (ran : apply cmd c = .ok out c') : OwnStep view page viewer c c' out.changes out.rt := by
  unfold apply at ran
  obtain ⟨p, mid, dispatched, finished⟩ := then_ok_iff.mp ran
  have step : OwnStep view page viewer c mid p.changes p.rt := by
    rcases own.single with ⟨ops, rfl, edits⟩ | ⟨single, edit⟩
    · obtain ⟨changes, rt, said, sent, steps⟩ := batchLoop_own wf edits (batch_ok dispatched)
      rw [said, sent]
      exact steps
    · exact one_own wf edit (single ▸ dispatched)
  cases finished
  exact finish_own p step

/-- Requests one after another, with what the accepted ones say and send. -/
def requests : List Cmd → Core → List Change × List RtOp × Core
  | [], c => ([], [], c)
  | cmd :: rest, c => match apply cmd c with
    | .ok out c' =>
      let (changes, rt, last) := requests rest c'
      (out.changes ++ changes, out.rt ++ rt, last)
    | .error _ c' => requests rest c'

theorem requests_own {cmds : List Cmd} {c : Core} (wf : WellFormed c.topo)
    (own : ∀ cmd ∈ cmds, OwnCmd view page viewer cmd) :
    OwnStep view page viewer c (requests cmds c).2.2 (requests cmds c).1 (requests cmds c).2.1 := by
  induction cmds generalizing c with
  | nil => exact nothing_own c
  | cons cmd rest ih =>
    have later : ∀ cmd ∈ rest, OwnCmd view page viewer cmd :=
      fun other inside => own other (List.mem_cons_of_mem _ inside)
    rw [requests]
    cases ran : apply cmd c with
    | ok out c' =>
      have first := apply_own wf (own cmd List.mem_cons_self) ran
      have kept : c'.topo = c.topo := first.core.topo
      exact first.trans (ih (kept ▸ wf) later)
    | error e c' =>
      have same : c' = c := apply_keepsOnError cmd c e c' ran
      subst same
      exact ih wf later

/-- What a person's page may have asked for: one of its commands, or a step of a ramp. -/
inductive Asked (view : SiteView) (mirror : Mirror) (page : Page) : List Cmd → Prop where
  | command {msg : Ui.ClientMsg} {cmds : List Cmd}
      (ok : command view mirror page (Viewer.ofPage page) msg = .ok cmds) : Asked view mirror page cmds
  | ramp {sends : List MixSend} {groups : BTreeMap GroupId F64} {step : List Cmd}
      (planned : step ∈ (ramp view mirror page sends groups).1) : Asked view mirror page [.batch step]

/-- Whatever a person's page asks of an engine, only the page's own mix and the EQs of shown
inputs they own change; no level of a foreign input or of a set nobody wears does, and when
they lead no part of the band no level of a heard mix does, nor is one soloed. -/
theorem page_writes_own_mix {digest : TopologyInfo → String} (site : Compiled digest) (view : SiteView)
    (mirror : Mirror) (page : Page) (p : String) (theirs : page.member = some p) (person : p ≠ engineerId)
    (cmds : List Cmd) (asked : Asked view mirror page cmds) (c : Core) (same : c.topo = site.topo) :
    let viewer := Viewer.ofPage page
    let c' := (requests cmds c).2.2
    let level := fun (c : Core) (m k : ℕ) => c.s.mixes[m]?.bind (·.levels[k]?)
    OwnStep view page viewer c c' (requests cmds c).1 (requests cmds c).2.1 ∧
      (∀ m k id, c.topo.source m k = some (.input id) → view.foreignInput id = true → level c' m k = level c m k) ∧
      (∀ m k h, c.topo.source m k = some (.mix h) → h ∈ view.vacant → level c' m k = level c m k) ∧
      (viewer.leads view = false → ∀ m k h, c.topo.source m k = some (.mix h) →
        level c' m k = level c m k ∧ (k ∈ c'.solo[m]?.getD ∅ → k ∈ c.solo[m]?.getD ∅)) := by
  intro viewer c' level
  have wf : WellFormed c.topo := same ▸ (compile_spec digest site).1
  have plain : viewer.engineer = false := by simp [viewer, Viewer.ofPage, theirs, person]
  have own : ∀ cmd ∈ cmds, OwnCmd view page viewer cmd := by
    cases asked with
    | command ok => exact command_own plain ok
    | ramp planned =>
      intro cmd member
      rw [List.mem_singleton.mp member]
      exact ramp_own planned
  have step := requests_own wf own
  have hidden : ∀ {m k s}, c.topo.source m k = some s → shown view page viewer s = false →
      Hidden view page viewer c.topo m k := by
    intro m k s reads unseen s' again
    rwa [Option.some.inj (again.symm.trans reads)]
  refine ⟨step, fun m k id reads foreign => ?_, fun m k h reads vacant => ?_, fun follows m k h reads => ?_⟩
  · apply step.core.levels m k (hidden reads _)
    simp [shown, showsInput, foreign]
  · apply step.core.levels m k (hidden reads _)
    simp only [shown, heard]
    split
    · cases view.mix page.mix with
      | none => rfl
      | some x => simp [vacant]
    · rfl
  · have aside : Hidden view page viewer c.topo m k := hidden reads (by simp [shown, heard, follows])
    exact ⟨step.core.levels m k aside, step.core.solo m k aside⟩

end

/-! ### Ben's page of `duet` -/

/-- The site's config of `duet`: the two members, and whose the voice is. -/
def duetConfig : Config where
  members := [{ id := "anna", name := "Anna", mix := "anna" }, { id := "ben", name := "Ben", mix := "ben" },
    { id := engineerId, name := "Eng", mix := "eng" }]
  inputs := [{ id := "voice", name := "Voice", owner := some "ben" }]

def duetView : SiteView := (SiteView.buildWith duetConfig none duetCompiled.topo.info).1

def benPage : Page := { id := "ben", name := "Ben", mix := "ben", member := some "ben" }

/-- Ben mutes his voice, solos it and lets it slide away. -/
theorem page_writes_own_mix_ben :
    let own := fun cmds =>
      let asked := @requests duetLibm cmds duetCore
      OwnStep duetView benPage (Viewer.ofPage benPage) duetCore asked.2.2 asked.1 asked.2.1
    let away := (@ramp duetLibm duetView {} benPage [{ src := .input "voice", gainDb := .fin (-6), muted := true }] ∅).1
    own [.setLevel "ben" (.input "voice") none none (some true)] ∧ own [.setSolo "ben" [.input "voice"]] ∧
      away.length = 6 ∧ ∀ step ∈ away, own [.batch step] := by
  intro own away
  have confined (cmds : List Cmd) (asked : @Asked duetLibm duetView {} benPage cmds) : own cmds :=
    (@page_writes_own_mix duetLibm _ duetCompiled duetView {} benPage "ben" rfl (by decide) cmds asked duetCore rfl).1
  refine ⟨confined _ (@Asked.command duetLibm duetView {} benPage (.setMute "voice" true) _ rfl),
    confined _ (@Asked.command duetLibm duetView {} benPage (.setSolo ["voice"]) _ rfl), by decide +kernel,
    fun step planned => confined _ (@Asked.ramp duetLibm duetView {} benPage _ _ step planned)⟩

end IemMixer.Server
