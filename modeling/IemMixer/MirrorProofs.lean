import IemMixer.Link

/-! The mirror against the core: each change the core says is what the mirror must
do to follow it, and whatever is lost on the way, a synced mirror holds the state
the core had at the mirror's revision. -/
namespace IemMixer.MirrorProofs
open Lib Proto TopologyProofs IemMixer.Core

/-- `source` is soloed in `mix`. -/
def Soloed (t : Transient) (mix : MixId) (source : Source) : Prop :=
  ∃ s ∈ t.solo, s.mix = mix ∧ source ∈ s.sources

/-- The same persisted state, listen taps and test signal, and per mix the same
solo set. -/
structure SameView (state state' : MixState) (t t' : Transient) : Prop where
  state : state = state'
  listen : t.listen = t'.listen
  testSignal : t.testSignal = t'.testSignal
  solo : ∀ mix source, Soloed t mix source ↔ Soloed t' mix source

/-- The mirror shows what the core holds. -/
def Shows (m : Mirror) (c : Core) : Prop := SameView m.state c.state m.transient c.transient

/-! ### Solos -/

theorem soloed_core_iff (c : Core) (mix : MixId) (source : Source) :
    Soloed c.transient mix source ↔
      ∃ (m : ℕ) (set : BTreeSet ℕ) (k : ℕ), c.solo[m]? = some set ∧ c.mixId m = some mix ∧
        k ∈ set ∧ c.topo.source m k = some source := by
  simp only [Soloed, transient, List.mem_filterMap, Prod.exists, Option.map_eq_some_iff,
    Std.ExtTreeMap.mem_toList_iff_getElem?_eq_some]
  constructor
  · rintro ⟨s, ⟨m, set, held, id, named, rfl⟩, rfl, member⟩
    obtain ⟨k, inside, read⟩ := List.mem_filterMap.mp member
    exact ⟨m, set, k, held, named, Std.ExtTreeSet.mem_toList.mp inside, read⟩
  · rintro ⟨m, set, k, held, named, inside, read⟩
    exact ⟨_, ⟨m, set, held, mix, named, rfl⟩, rfl,
      List.mem_filterMap.mpr ⟨k, Std.ExtTreeSet.mem_toList.mpr inside, read⟩⟩

/-- What the mirror makes of a solo change. -/
theorem soloed_change_iff (m : Mirror) (mix : MixId) (sources : List Source) (other : MixId)
    (source : Source) :
    Soloed (m.change (.solo mix sources)).transient other source ↔
      if other = mix then source ∈ sources else Soloed m.transient other source := by
  have kept : (∃ s ∈ m.transient.solo.filter fun s => s.mix != mix, s.mix = other ∧ source ∈ s.sources) ↔
      other ≠ mix ∧ Soloed m.transient other source := by
    simp only [List.mem_filter, bne_iff_ne]
    constructor
    · rintro ⟨s, ⟨held, apart⟩, rfl, inside⟩
      exact ⟨apart, s, held, rfl, inside⟩
    · rintro ⟨apart, s, held, rfl, inside⟩
      exact ⟨s, ⟨held, apart⟩, rfl, inside⟩
  have said : Soloed (m.change (.solo mix sources)).transient other source ↔
      (∃ s ∈ m.transient.solo.filter fun s => s.mix != mix, s.mix = other ∧ source ∈ s.sources) ∨
        mix = other ∧ source ∈ sources := by
    cases sources with
    | nil => simp only [Soloed, Mirror.change, List.isEmpty_nil, if_true, List.not_mem_nil, and_false,
        or_false]
    | cons first rest =>
      simp only [Soloed, Mirror.change, List.isEmpty_cons, Bool.false_eq_true, if_false,
        List.mem_append, List.mem_singleton, or_and_right, exists_or, exists_eq_left]
  rw [said, kept]
  by_cases same : other = mix
  · simp [same]
  · simp [same, Ne.symm same]

/-- What replacing a mix's solo makes of the core's. -/
theorem soloed_withSolo_iff {c : Core} (wf : WellFormed c.topo) {m : ℕ} {mix : MixId}
    (named : c.topo.mixIndex mix = some m) (new : BTreeSet ℕ) (other : MixId) (source : Source) :
    Soloed (c.withSolo m new).transient other source ↔
      if other = mix then source ∈ new.toList.filterMap (c.topo.source m)
      else Soloed c.transient other source := by
  have here : c.mixId m = some mix := (mixIndex_iff wf mix m).mp named
  have unique : ∀ k, c.mixId k = some mix → k = m := fun k there =>
    Option.some_inj.mp (((mixIndex_iff wf mix k).mpr there).symm.trans named)
  rw [soloed_core_iff, soloed_core_iff]
  simp only [withSolo_solo, List.mem_filterMap, Std.ExtTreeSet.mem_toList]
  by_cases same : other = mix
  · subst same
    rw [if_pos rfl]
    constructor
    · rintro ⟨k, set, j, held, there, inside, read⟩
      cases unique k there
      rw [if_pos rfl] at held
      split at held
      · cases held
      · cases held
        exact ⟨j, inside, read⟩
    · rintro ⟨j, inside, read⟩
      have filled : new.isEmpty = false := by
        refine Std.ExtTreeSet.isEmpty_eq_false_iff.mpr ?_
        rintro rfl
        exact Std.ExtTreeSet.not_mem_empty inside
      exact ⟨m, new, j, by simp [filled], here, inside, read⟩
  · rw [if_neg same]
    have apart : ∀ k, c.mixId k = some other → m ≠ k := by
      rintro k there rfl
      exact same (Option.some_inj.mp (there.symm.trans here))
    constructor
    · rintro ⟨k, set, j, held, there, inside, read⟩
      rw [if_neg (apart k there)] at held
      exact ⟨k, set, j, held, there, inside, read⟩
    · rintro ⟨k, set, j, held, there, inside, read⟩
      exact ⟨k, set, j, by rw [if_neg (apart k there), held], there, inside, read⟩

/-! ### One edit -/

private theorem shown_mixes {m : Mirror} {c : Core} (shown : Shows m c) {c' : Core} (mix : MixId)
    (f : Mix → Mix) {x : Mix} (held : c.state.mixes[mix]? = some x)
    (written : c'.state = { c.state with mixes := c.state.mixes.insert mix (f x) })
    (transient : c'.transient = c.transient) : Shows (m.modifyMix mix f) c' := by
  have update : m.state.mixes.update mix {} f = c.state.mixes.insert mix (f x) := by
    rw [shown.state, BTreeMap.update, held, Option.getD_some]
  refine ⟨?_, ?_, ?_, ?_⟩
  · have inputs : m.state.inputs = c.state.inputs := congrArg MixState.inputs shown.state
    rw [written]
    exact MixState.ext inputs update
  · rw [transient]
    exact shown.listen
  · rw [transient]
    exact shown.testSignal
  · rw [transient]
    exact shown.solo

/-- No tap to take off: the taps are as they were. -/
theorem untapped_of_none {c : Core} {m : ℕ} (none : c.untapOps m = []) : c.untapped m = c := by
  have free : ∀ l ∈ c.listen.toList, l ≠ some m := by
    rintro l member rfl
    obtain ⟨slot, held⟩ := List.mem_iff_getElem?.mp member
    have op : RtOp.listen slot .none ∈ c.untapOps m :=
      List.mem_filterMap.mpr ⟨(some m, slot), List.mk_mem_zipIdx_iff_getElem?.mpr held, if_pos rfl⟩
    rw [none] at op
    cases op
  have kept : c.listen.map (fun l => if l = some m then .none else l) = c.listen := by
    ext k bound other
    have here := free c.listen[k] (Vector.mem_toList_iff.mpr (Vector.getElem_mem bound))
    simp [here]
  unfold untapped
  rw [kept]

section
variable [Libm]

/-- A mirror that shows the core before an edit shows the core after it, once it has
applied the changes said. -/
theorem edit_shown {c c' : Core} {p : Partial} {m : Mirror} (wf : WellFormed c.topo)
    (edit : Edit c p c') (shown : Shows m c) :
    Shows (p.changes.foldl Mirror.change m) c' := by
  cases edit with
  | input i new _ =>
    rcases setInput_cases i new c with same | ⟨old, node, held, found, same⟩
    · rwa [same]
    · rw [same]
      have written := toState_set_input wf c.s new found held
      refine ⟨?_, shown.listen, shown.testSignal, shown.solo⟩
      have followed : { m.state with inputs := m.state.inputs.insert node.id new } =
          { c.state with inputs := c.state.inputs.insert node.id new } := by rw [shown.state]
      exact followed.trans written.symm
  | out m' new _ =>
    rcases setOut_cases m' new c with same | ⟨rec, node, held, found, same⟩
    · rwa [same]
    · rw [same]
      obtain ⟨there, written⟩ :=
        toState_modify_mix wf c.s (fun rec => { rec with out := new }) found held
      rw [toMix_set_out wf found] at written
      exact shown_mixes shown node.id (fun x => { x with out := new }) there written rfl
  | level m' k new _ =>
    rcases setLevel_cases m' k new c with same | ⟨rec, old, node, source, held, slot, found, read, same⟩
    · rwa [same]
    · rw [same]
      obtain ⟨there, written⟩ :=
        toState_modify_mix wf c.s (fun rec => { rec with levels := rec.levels.set k new }) found held
      rw [toMix_set_level wf found rec new read slot] at written
      cases source with
      | input id =>
        exact shown_mixes shown node.id (fun x => { x with inputs := x.inputs.insert id new })
          there written rfl
      | mix id =>
        exact shown_mixes shown node.id (fun x => { x with mixes := x.mixes.insert id new })
          there written rfl
  | group m' g new _ =>
    rcases setGroup_cases m' g new c with same | ⟨rec, old, node, group, held, strip, found, named, same⟩
    · rwa [same]
    · rw [same]
      obtain ⟨there, written⟩ :=
        toState_modify_mix wf c.s (fun rec => { rec with groups := rec.groups.set g new }) found held
      rw [toMix_set_group wf found rec new named strip] at written
      exact shown_mixes shown node.id (fun x => { x with groups := x.groups.insert group.id new })
        there written rfl
  | limiterReset mix m' => exact shown
  | solo m' mix new named heard =>
    rcases replaceSolo_cases m' mix new c with same | same
    · rwa [same]
    · rw [same]
      refine ⟨shown.state, shown.listen, shown.testSignal, fun other source => ?_⟩
      have mirrored := soloed_change_iff m mix (new.toList.filterMap (c.topo.source m')) other source
      rw [shown.solo other source] at mirrored
      exact mirrored.trans (soloed_withSolo_iff wf named new other source).symm
  | tap m' mix _ _ => exact ⟨shown.state, rfl, shown.testSignal, shown.solo⟩
  | untap m' =>
    rw [dropListen_eq]
    rcases listenPartial_cases (c.untapped m') (c.untapOps m') with ⟨none, same⟩ | ⟨-, same⟩
    · rw [same, untapped_of_none none]
      exact shown
    · rw [same]
      exact ⟨shown.state, rfl, shown.testSignal, shown.solo⟩
  | test signal hil op _ _ => exact ⟨shown.state, shown.listen, rfl, shown.solo⟩
  | testEnded rt _ =>
    rcases takeTest_cases rt c with ⟨-, same⟩ | same
    · rwa [same]
    · rw [same]
      exact ⟨shown.state, shown.listen, rfl, shown.solo⟩
  | nothing rt effect _ _ => exact shown
  | fault _ => exact shown

/-- The same along a path of edits. -/
theorem path_shown {c c' : Core} {changes : List Change} {rt : List RtOp} {m : Mirror}
    (wf : WellFormed c.topo) (path : Path c changes rt c') (shown : Shows m c) :
    Shows (changes.foldl Mirror.change m) c' := by
  induction path generalizing m with
  | nil c => exact shown
  | cons edit _ ih =>
    rw [List.foldl_append]
    exact ih (edit.frame.1.symm ▸ wf) (edit_shown wf edit shown)

end

/-! ### What a run says -/

/-- Two cores a client cannot tell apart. -/
def Same (a b : Core) : Prop := SameView a.state b.state a.transient b.transient

theorem SameView.trans {s₁ s₂ s₃ : MixState} {t₁ t₂ t₃ : Transient}
    (first : SameView s₁ s₂ t₁ t₂) (second : SameView s₂ s₃ t₂ t₃) : SameView s₁ s₃ t₁ t₃ :=
  ⟨first.state.trans second.state, first.listen.trans second.listen,
    first.testSignal.trans second.testSignal,
    fun mix source => (first.solo mix source).trans (second.solo mix source)⟩

theorem SameView.symm {s₁ s₂ : MixState} {t₁ t₂ : Transient} (same : SameView s₁ s₂ t₁ t₂) :
    SameView s₂ s₁ t₂ t₁ :=
  ⟨same.state.symm, same.listen.symm, same.testSignal.symm,
    fun mix source => (same.solo mix source).symm⟩

theorem Same.refl (c : Core) : Same c c := ⟨rfl, rfl, rfl, fun _ _ => .rfl⟩

/-- A message about the cores `past`: the whole of one of them, or the changes that
lead from one to the next revision's. -/
inductive About (past : List Core) : EngineMsg → Prop where
  | state (c : Core) (seen : c ∈ past) : About past c.stateMsg
  | delta (a b : Core) (seenA : a ∈ past) (seenB : b ∈ past) (origin : Option ℕ)
      (changes : List Change) (next : b.rev = a.rev + 1)
      (leads : ∀ m, Shows m a → Shows (changes.foldl Mirror.change m) b) :
    About past (.delta b.rev origin changes)

theorem About.mono {past past' : List Core} {msg : EngineMsg} (more : ∀ c ∈ past, c ∈ past')
    (said : About past msg) : About past' msg := by
  cases said with
  | state c seen => exact .state c (more c seen)
  | delta a b seenA seenB origin changes next leads =>
    exact .delta a b (more a seenA) (more b seenB) origin changes next leads

/-- The revision a message is at. -/
def revOf : EngineMsg → ℕ
  | .state rev .. => rev
  | .delta rev .. => rev
  | _ => 0

/-- A delta is at a later revision than `msg`. -/
def Before (msg later : EngineMsg) : Prop :=
  ∀ rev origin changes, later = .delta rev origin changes → revOf msg < rev

/-- What one tick does: the same view at the same revision or the next revision, said
by messages about the two cores in order. -/
structure Told (c : Core) (msgs : List EngineMsg) (c' : Core) : Prop where
  step : c'.rev = c.rev ∧ Same c c' ∨ c'.rev = c.rev + 1
  about : ∀ msg ∈ msgs, About [c, c'] msg ∧ revOf msg = c'.rev
  order : msgs.Pairwise Before
  fresh : ∀ msg ∈ msgs, Before c.stateMsg msg

theorem told_nothing {c c' : Core} (step : c'.rev = c.rev ∧ Same c c' ∨ c'.rev = c.rev + 1) :
    Told c [] c' := ⟨step, by simp, by simp, by simp⟩

/-- The whole state said after whatever else was. -/
theorem Told.stateMsg {c c' : Core} {msgs : List EngineMsg} (told : Told c msgs c') :
    Told c (msgs ++ [c'.stateMsg]) c' := by
  have plain : ∀ msg, Before msg c'.stateMsg := by
    intro msg rev origin changes same
    cases same
  refine ⟨told.step, fun msg member => ?_, ?_, fun msg member => ?_⟩
  · rcases List.mem_append.mp member with early | last
    · exact told.about msg early
    · rw [List.mem_singleton.mp last]
      exact ⟨.state c' (by simp), rfl⟩
  · exact List.pairwise_append.mpr ⟨told.order, by simp, fun msg _ last member => by
      rw [List.mem_singleton.mp member]
      exact plain msg⟩
  · rcases List.mem_append.mp member with early | last
    · exact told.fresh msg early
    · rw [List.mem_singleton.mp last]
      exact plain _

theorem told_delta {c : Core} (c' : Core) (next : c'.rev = c.rev + 1) (origin : Option ℕ)
    (changes : List Change) (leads : ∀ m, Shows m c → Shows (changes.foldl Mirror.change m) c') :
    Told c [.delta c'.rev origin changes] c' where
  step := .inr next
  about := by
    intro msg member
    rw [List.mem_singleton.mp member]
    exact ⟨.delta c c' (by simp) (by simp) origin changes next leads, rfl⟩
  order := by simp
  fresh := by
    intro msg member rev origin changes same
    rw [List.mem_singleton.mp member] at same
    cases same
    show c.rev < c'.rev
    omega

/-- `messages` adds at most the whole state to the delta. -/
theorem messages_told {c c' : Core} (origin : Option ℕ) (out : Outcome)
    (told : Told c (if out.changes.isEmpty then [] else [.delta out.rev origin out.changes]) c') :
    Told c (c'.messages origin out) c' := by
  unfold messages
  cases out.effect with
  | sendState | imported => exact told.stateMsg
  | none | sendTopology | save | shutdown => simpa using told

section
variable [Libm]

theorem handled_told {c c' : Core} {out : Outcome} (wf : WellFormed c.topo)
    (handled : Handled c (some out) c') (origin : Option ℕ) : Told c (c'.messages origin out) c' := by
  refine messages_told origin out ?_
  cases handled with
  | @edited changes rt next effect quiet path =>
    have leads : ∀ m, Shows m c →
        Shows (changes.foldl Mirror.change m) (next.withRev (c.revAfter changes)) :=
      fun m shown => show Shows _ next from path_shown wf path shown
    cases changes with
    | nil =>
      have same : Same c next := leads { state := c.state, transient := c.transient } (Same.refl c)
      exact told_nothing (.inl ⟨rfl, same⟩)
    | cons change rest => exact told_delta (next.withRev (c.rev + 1)) rfl origin _ leads
  | imported state => exact told_nothing (.inr rfl)

theorem tick_told (c : Core) (wf : WellFormed c.topo) (canonical : Canonical c) (t : Tick) :
    Told c (c.tick t).1 (c.tick t).2 ∧ (c.tick t).2.topo = c.topo ∧ Canonical (c.tick t).2 := by
  have still : Told c [] c := told_nothing (.inl ⟨rfl, Same.refl c⟩)
  cases t with
  | snapshot => exact ⟨still.stateMsg, rfl, canonical⟩
  | event event origin =>
    have handled := handle_spec c wf canonical event
    obtain ⟨topo, kept⟩ := handled.canonical wf canonical
    simp only [tick]
    rcases said : c.handle event with ⟨out, c'⟩
    simp only [said] at handled topo kept
    cases out with
    | none =>
      have same : c' = c := by
        cases handled
        rfl
      rw [same]
      exact ⟨still, rfl, canonical⟩
    | some out => exact ⟨handled_told wf handled origin, topo, kept⟩

/-- What a whole run says: its revisions never fall, at one revision the view is one,
and every message is about the cores passed, the deltas in order. -/
structure RunTold (c : Core) (msgs : List EngineMsg) (past : List Core) : Prop where
  first : c ∈ past
  rises : ∀ a ∈ past, c.rev ≤ a.rev ∧ (a.rev = c.rev → Same c a)
  steady : ∀ a ∈ past, ∀ b ∈ past, a.rev = b.rev → Same a b
  about : ∀ msg ∈ msgs, About past msg
  order : msgs.Pairwise Before
  fresh : ∀ msg ∈ msgs, Before c.stateMsg msg

omit [Libm] in
private theorem Told.cons {c c' : Core} {now later : List EngineMsg} {past : List Core}
    (told : Told c now c') (rest : RunTold c' later past) : RunTold c (now ++ later) (c :: past) := by
  have onward : ∀ a ∈ past, c.rev ≤ a.rev ∧ (a.rev = c.rev → Same c a) := by
    intro a seen
    obtain ⟨above, same⟩ := rest.rises a seen
    rcases told.step with ⟨rev, view⟩ | rev
    · exact ⟨by omega, fun at_c => view.trans (same (by omega))⟩
    · exact ⟨by omega, fun at_c => by omega⟩
  have rises : ∀ a ∈ c :: past, c.rev ≤ a.rev ∧ (a.rev = c.rev → Same c a) := by
    rintro a (_ | ⟨_, seen⟩)
    · exact ⟨Nat.le_refl _, fun _ => Same.refl c⟩
    · exact onward a seen
  refine ⟨by simp, rises, ?_, ?_, ?_, ?_⟩
  · rintro a seenA b seenB revs
    rcases List.mem_cons.mp seenA with rfl | pastA
    · exact (rises b seenB).2 revs.symm
    · rcases List.mem_cons.mp seenB with rfl | pastB
      · exact ((rises a seenA).2 revs).symm
      · exact rest.steady a pastA b pastB revs
  · intro msg member
    rcases List.mem_append.mp member with early | late
    · refine (told.about msg early).1.mono ?_
      simp [rest.first]
    · exact (rest.about msg late).mono fun a seen => List.mem_cons_of_mem c seen
  · refine List.pairwise_append.mpr ⟨told.order, rest.order, fun msg early next late => ?_⟩
    intro rev origin changes same
    have above : c'.rev < rev := rest.fresh next late rev origin changes same
    rw [(told.about msg early).2]
    exact above
  · intro msg member rev origin changes same
    rcases List.mem_append.mp member with early | late
    · exact told.fresh msg early rev origin changes same
    · have above : c'.rev < rev := rest.fresh msg late rev origin changes same
      have up : c.rev ≤ c'.rev := by rcases told.step with ⟨rev, -⟩ | rev <;> omega
      exact Nat.lt_of_le_of_lt up above

theorem run_told (c : Core) (ticks : List Tick) (wf : WellFormed c.topo) (canonical : Canonical c) :
    RunTold c (c.sent ticks) (c.cores ticks) := by
  induction ticks generalizing c with
  | nil =>
    refine ⟨by simp [cores], ?_, ?_, by simp [sent], by simp [sent], by simp [sent]⟩
    · simp only [cores, List.mem_singleton]
      rintro a rfl
      exact ⟨Nat.le_refl _, fun _ => Same.refl a⟩
    · simp only [cores, List.mem_singleton]
      rintro a rfl b rfl -
      exact Same.refl _
  | cons t rest ih =>
    obtain ⟨told, topo, kept⟩ := tick_told c wf canonical t
    exact told.cons (ih (c.tick t).2 (topo.symm ▸ wf) kept)

end

/-! ### What the mirror makes of it -/

/-- A synced mirror shows a core of `past` at its revision. -/
def Follows (past : List Core) (m : Mirror) : Prop :=
  m.synced = true → ∃ c ∈ past, c.rev = m.rev ∧ Shows m c

/-- What a delta can do to a mirror: nothing, show a gap, or one revision's changes. -/
theorem apply_cases (m : Mirror) (rev : ℕ) (origin : Option ℕ) (changes : List Change) :
    ((m.synced = false ∨ rev ≤ m.rev) ∧ m.apply (.delta rev origin changes) = (none, m)) ∨
    (m.synced = true ∧ m.rev + 1 < rev ∧
      m.apply (.delta rev origin changes) = (some .resync, { m with synced := false })) ∨
    (m.synced = true ∧ rev = m.rev + 1 ∧ m.apply (.delta rev origin changes) =
      (some (.changed origin changes), { changes.foldl Mirror.change m with rev })) := by
  simp only [Mirror.apply]
  cases synced : m.synced with
  | false => exact .inl ⟨.inl rfl, rfl⟩
  | true =>
    by_cases old : rev ≤ m.rev
    · exact .inl ⟨.inr old, by simp [old]⟩
    · by_cases next : rev = m.rev + 1
      · exact .inr (.inr ⟨rfl, next, by simp [next]⟩)
      · exact .inr (.inl ⟨rfl, by omega, by simp [old, next]⟩)

theorem apply_follows {past : List Core} (steady : ∀ a ∈ past, ∀ b ∈ past, a.rev = b.rev → Same a b)
    {m : Mirror} {msg : EngineMsg} (about : About past msg) (follows : Follows past m) :
    Follows past (m.apply msg).2 := by
  cases about with
  | state c seen => exact fun _ => ⟨c, seen, rfl, Same.refl c⟩
  | delta a b seenA seenB origin changes next leads =>
    rcases apply_cases m b.rev origin changes with ⟨-, same⟩ | ⟨-, -, same⟩ | ⟨synced, rev, same⟩
    · rwa [same]
    · rw [same]
      intro impossible
      cases impossible
    · rw [same]
      intro _
      obtain ⟨c, seen, at_rev, shown⟩ := follows synced
      have shownA : Shows m a := shown.trans (steady c seen a seenA (by omega))
      exact ⟨b, seenB, rfl, leads m shownA⟩

theorem receive_follows {past : List Core} (steady : ∀ a ∈ past, ∀ b ∈ past, a.rev = b.rev → Same a b)
    (msgs : List EngineMsg) {m : Mirror} (about : ∀ msg ∈ msgs, About past msg)
    (follows : Follows past m) : Follows past (m.receive msgs) := by
  induction msgs generalizing m with
  | nil => exact follows
  | cons msg rest ih =>
    exact ih (fun other member => about other (by simp [member]))
      (apply_follows steady (about msg (by simp)) follows)

/-- A synced mirror is still before revision `r`. -/
def Below (r : ℕ) (m : Mirror) : Prop := m.synced = true → m.rev < r

/-- A message about a revision before `r`, or a delta past it, leaves the mirror
before `r`: it cannot apply a delta past the one it misses. -/
theorem apply_below {past : List Core} {r : ℕ} {m : Mirror} {msg : EngineMsg}
    (about : About past msg) (below : Below r m)
    (apart : revOf msg < r ∨ ∃ rev origin changes, msg = .delta rev origin changes ∧ r < rev) :
    Below r (m.apply msg).2 := by
  cases about with
  | state c seen =>
    rcases apart with early | ⟨rev, origin, changes, same, -⟩
    · exact fun _ => early
    · cases same
  | delta a b seenA seenB origin changes next leads =>
    rcases apply_cases m b.rev origin changes with ⟨-, same⟩ | ⟨-, -, same⟩ | ⟨synced, rev, same⟩
    · rwa [same]
    · rw [same]
      intro impossible
      cases impossible
    · rw [same]
      intro _
      rcases apart with early | ⟨rev', origin', changes', said, late⟩
      · exact early
      · cases said
        have before := below synced
        omega

theorem receive_below (past : List Core) {r : ℕ} (msgs : List EngineMsg) {m : Mirror}
    (about : ∀ msg ∈ msgs, About past msg) (below : Below r m)
    (apart : ∀ msg ∈ msgs, revOf msg < r ∨ ∃ rev origin changes, msg = .delta rev origin changes ∧
      r < rev) : Below r (m.receive msgs) := by
  induction msgs generalizing m with
  | nil => exact below
  | cons msg rest ih =>
    exact ih (fun other member => about other (by simp [member]))
      (apply_below (about msg (by simp)) below (apart msg (by simp)))
      (fun other member => apart other (by simp [member]))

/-- Whole states among the messages. -/
def isState : EngineMsg → Bool
  | .state .. => true
  | _ => false

/-- A mirror that got no whole state since a delta was lost is still before that delta,
and every later delta is past it. -/
theorem RunTold.lost {core : Core} {msgs before after early late : List EngineMsg} {past : List Core}
    {lost rev : ℕ} {origin origin' : Option ℕ} {changes changes' : List Change} {mirror : Mirror}
    (told : RunTold core msgs past) (sent : msgs = before ++ .delta lost origin changes :: after)
    (unsynced : mirror.synced = false) (kept : early.Sublist before)
    (rest : (late ++ [EngineMsg.delta rev origin' changes']).Sublist after)
    (deltas : ∀ msg ∈ late, isState msg = false) :
    Below lost (mirror.receive (early ++ late)) ∧ lost < rev := by
  have about := told.about
  have order := told.order
  rw [sent] at about order
  obtain ⟨-, ahead, across⟩ := List.pairwise_append.mp order
  have behind : ∀ msg ∈ before, revOf msg < lost := fun msg member =>
    across msg member _ (by simp) lost origin changes rfl
  have later : ∀ rev origin changes, EngineMsg.delta rev origin changes ∈ after → lost < rev :=
    fun rev origin changes member =>
      (List.pairwise_cons.mp ahead).1 _ member rev origin changes rfl
  refine ⟨receive_below past (early ++ late) (fun msg member => ?_)
    (fun was => by simp [unsynced] at was) (fun msg member => ?_), ?_⟩
  · rcases List.mem_append.mp member with there | there
    · exact about msg (by simp [kept.subset there])
    · exact about msg (by simp [rest.subset (List.mem_append_left _ there)])
  · rcases List.mem_append.mp member with there | there
    · exact .inl (behind msg (kept.subset there))
    · have member := rest.subset (List.mem_append_left _ there)
      cases about msg (by simp [member]) with
      | state c seen => cases deltas _ there
      | delta a b _ _ origin changes _ _ => exact .inr ⟨_, _, _, rfl, later _ _ _ member⟩
  · exact later rev origin' changes' (rest.subset (by simp))

/-- A delta past the revision a mirror is below is not applied, and is a gap for a
synced one. -/
theorem Below.gap {m : Mirror} {lost rev : ℕ} (below : Below lost m) (later : lost < rev)
    (origin : Option ℕ) (changes : List Change) :
    (∀ origin' changes', (m.apply (.delta rev origin changes)).1 ≠ some (.changed origin' changes')) ∧
      (m.synced = true →
        m.apply (.delta rev origin changes) = (some .resync, { m with synced := false })) := by
  rcases apply_cases m rev origin changes with ⟨idle, same⟩ | ⟨synced, -, same⟩ | ⟨synced, next, -⟩
  · rw [same]
    refine ⟨by simp, fun synced => ?_⟩
    have under := below synced
    rcases idle with off | old
    · rw [synced] at off
      cases off
    · omega
  · rw [same]
    exact ⟨by simp, fun _ => rfl⟩
  · have under := below synced
    omega

section
variable [Libm]

/-- The mirror agrees with the core. Along every run of a compiled site's core,
whichever of the messages are lost on the way to a mirror that was not synced: once
it is synced, its revision is one the core had, and it shows what the core held at
that revision. Once a delta is lost, no later delta is applied before a whole state
arrives: the next one a synced mirror gets is a gap and asks for a resync. -/
theorem mirror_agrees {digest : TopologyInfo → String} (site : Compiled digest) (state : MixState)
    (rev : ℕ) (flags : Flags) (hil : List UInt16) (ticks : List Tick) (mirror : Mirror)
    (unsynced : mirror.synced = false) :
    let core := (new site.topo state rev flags).withHil hil
    (∀ delivered : List EngineMsg, delivered.Sublist (core.sent ticks) →
      (mirror.receive delivered).synced = true →
        (∃ c ∈ core.cores ticks, c.rev = (mirror.receive delivered).rev) ∧
        ∀ c ∈ core.cores ticks, c.rev = (mirror.receive delivered).rev →
          Shows (mirror.receive delivered) c) ∧
    ∀ (before after early late : List EngineMsg) (lost rev : ℕ) (origin origin' : Option ℕ)
      (changes changes' : List Change),
      core.sent ticks = before ++ .delta lost origin changes :: after → early.Sublist before →
      (late ++ [EngineMsg.delta rev origin' changes']).Sublist after →
      (∀ msg ∈ late, isState msg = false) →
      let m := mirror.receive (early ++ late)
      (∀ origin changes, (m.apply (.delta rev origin' changes')).1 ≠ some (.changed origin changes)) ∧
      (m.synced = true →
        m.apply (.delta rev origin' changes') = (some .resync, { m with synced := false })) := by
  intro core
  obtain ⟨wf, -⟩ := compile_spec digest site
  have told := run_told core ticks wf (new_canonical site.topo state rev flags hil)
  constructor
  · intro delivered kept synced
    have start : Follows (core.cores ticks) mirror := fun was => by simp [unsynced] at was
    obtain ⟨c, seen, at_rev, shown⟩ := receive_follows told.steady delivered
      (fun msg member => told.about msg (kept.subset member)) start synced
    exact ⟨⟨c, seen, at_rev⟩, fun other there same =>
      shown.trans (told.steady c seen other there (at_rev.trans same.symm))⟩
  · intro before after early late lost rev origin origin' changes changes' sent kept rest deltas m
    obtain ⟨below, later⟩ := told.lost sent unsynced kept rest deltas
    exact below.gap later origin' changes'

end

/-- A hello and two requests at `duet`: with nothing lost the mirror follows to the
last revision, and with the first delta lost the second is a gap. -/
theorem mirror_agrees_duet :
    let core := (new duetCompiled.topo {} 7 {}).withHil []
    let ticks : List Tick := [.snapshot, .event (.request (.setMix "ben" none (some true))) none,
      .event (.request (.startListen "anna")) none]
    let sent := @sent duetLibm core ticks
    (({} : Mirror).receive sent).rev = 9 ∧
      (∀ c ∈ @cores duetLibm core ticks, c.rev = (({} : Mirror).receive sent).rev →
        Shows (({} : Mirror).receive sent) c) ∧
      ((({} : Mirror).receive (sent.take 1)).apply
        (.delta 9 none [.listen #v[none, some "anna"]])).1 = some .resync := by
  intro core ticks sent
  have all := @mirror_agrees duetLibm _ duetCompiled {} 7 {} [] ticks {} rfl
  refine ⟨by decide +kernel, (all.1 sent (List.Sublist.refl _) (by decide +kernel)).2, ?_⟩
  have said : sent = sent.take 1 ++ .delta 8 none [.mixOut "ben" { muted := true }] ::
      [.delta 9 none [.listen #v[none, some "anna"]]] := by decide +kernel
  have gap := all.2 (sent.take 1) _ (sent.take 1) [] 8 9 none none _
    [.listen #v[none, some "anna"]] said (List.Sublist.refl _) (by simp) (by simp)
  rw [List.append_nil] at gap
  exact congrArg Prod.fst (gap.2 (by decide +kernel))

end IemMixer.MirrorProofs
