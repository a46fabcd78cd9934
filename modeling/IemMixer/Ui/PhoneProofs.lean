import IemMixer.Server.SiteProofs
import IemMixer.Ui.Phone

/-! A page's updates bring the phone from one full state to the next: whatever changes come
together, each shown value is the one the mirror has in the end. -/
namespace IemMixer.Ui
open Lib Proto Server TopologyProofs

/-! ### One mix of the mirror -/

/-- A mix as the mirror has it, the default one when it has none. -/
def mixOf (m : Mirror) (mix : MixId) : Mix := m.state.mixes[mix]?.getD {}

section
variable (m : Mirror) (mix : MixId)

theorem level_of (source : Source) : m.level mix source = ((mixOf m mix).level source).getD {} := by
  cases held : m.state.mixes[mix]? with
  | none => cases source <;> simp [Mirror.level, mixOf, Mix.level, held]
  | some x => simp [Mirror.level, mixOf, held]

theorem out_of : m.out mix = (mixOf m mix).out := by
  cases held : m.state.mixes[mix]? <;> simp [Mirror.out, mixOf, held]

theorem group_of (group : GroupId) : m.group mix group = (mixOf m mix).groups[group]?.getD {} := by
  cases held : m.state.mixes[mix]? <;> simp [Mirror.group, mixOf, held]

theorem mixOf_modifyMix (x : MixId) (f : Mix → Mix) :
    mixOf (m.modifyMix x f) mix = if x = mix then f (mixOf m mix) else mixOf m mix := by
  by_cases same : x = mix
  · simp [mixOf, Mirror.modifyMix, BTreeMap.update, same]
  · simp [mixOf, Mirror.modifyMix, BTreeMap.update, BTreeMap.getElem?_insert_eq, same]

/-- What a change makes of the output, a group's strip, a level and the solo of a mix. -/
theorem out_change (c : Change) : (m.change c).out mix = match c with
    | .mixOut x out => if x = mix then out else m.out mix
    | _ => m.out mix := by
  simp only [out_of]
  cases c with
  | mixOut x out =>
    rw [Mirror.change, mixOf_modifyMix]
    by_cases here : x = mix <;> simp [here]
  | level x source level =>
    cases source <;> rw [Mirror.change, mixOf_modifyMix] <;> split <;> rfl
  | group x group state =>
    rw [Mirror.change, mixOf_modifyMix]
    split <;> rfl
  | _ => rfl

theorem group_change (group : GroupId) (c : Change) : (m.change c).group mix group = match c with
    | .group x g state => if x = mix ∧ g = group then state else m.group mix group
    | _ => m.group mix group := by
  simp only [group_of]
  cases c with
  | mixOut x out =>
    rw [Mirror.change, mixOf_modifyMix]
    split <;> rfl
  | level x source level =>
    cases source <;> rw [Mirror.change, mixOf_modifyMix] <;> split <;> rfl
  | group x g state =>
    rw [Mirror.change, mixOf_modifyMix]
    by_cases here : x = mix
    · by_cases same : g = group
      · simp [here, same]
      · simp [here, same, BTreeMap.getElem?_insert_eq]
    · simp [here]
  | _ => rfl

theorem level_change (source : Source) (c : Change) : (m.change c).level mix source = match c with
    | .level x s level => if x = mix ∧ s = source then level else m.level mix source
    | _ => m.level mix source := by
  simp only [level_of]
  cases c with
  | mixOut x out =>
    rw [Mirror.change, mixOf_modifyMix]
    split <;> cases source <;> rfl
  | level x s level =>
    by_cases here : x = mix
    · cases s <;> cases source <;>
        simp [Mirror.change, mixOf_modifyMix, here, Mix.level, BTreeMap.getElem?_insert_eq]
      all_goals split <;> simp
    · cases s <;> simp [Mirror.change, mixOf_modifyMix, here]
  | group x g state =>
    rw [Mirror.change, mixOf_modifyMix]
    split <;> cases source <;> rfl
  | _ => rfl

theorem solo_change (c : Change) : (m.change c).solo mix = match c with
    | .solo x sources => if x = mix then sources else m.solo mix
    | _ => m.solo mix := by
  cases c with
  | solo x sources =>
    have kept : ∀ solos : List Solo, x ≠ mix →
        ((solos.filter fun s => s.mix != x).find? (·.mix == mix)) = solos.find? (·.mix == mix) := by
      intro solos apart
      rw [List.find?_filter]
      congr 1
      funext s
      by_cases this : s.mix = mix
      · simp [this, Ne.symm apart]
      · simp [this]
    have gone : ∀ solos : List Solo, ((solos.filter fun s => s.mix != x).find? (·.mix == x)) = none := by
      intro solos
      rw [List.find?_eq_none]
      intro s member
      simpa using (List.mem_filter.mp member).2
    by_cases here : x = mix
    · subst here
      cases sources with
      | nil => simp [Mirror.change, Mirror.solo, gone]
      | cons s rest => simp [Mirror.change, Mirror.solo, gone]
    · cases sources with
      | nil => simp [Mirror.change, Mirror.solo, kept _ here, here]
      | cons s rest => simp [Mirror.change, Mirror.solo, kept _ here, here]
  | level x source level => cases source <;> rfl
  | _ => rfl

end

/-! ### Channels and their values -/

/-- A channel but for the values shown on it. -/
structure Slot where
  source : Source
  name : String
  category : String
  eq : Bool
  own : Bool

/-- Level, mute and pan as shown. -/
abbrev Values : Type := F64 × Bool × F64

def Slot.channel (x : Slot) (v : Values) : Channel :=
  { id := x.source.text, name := x.name, levelDb := v.1, pan := v.2.2, muted := v.2.1, category := x.category
    eq := x.eq, own := x.own }

/-- Channels of the values `g` gives. -/
def laid (slots : List Slot) (g : Source → Values) : List Channel := slots.map fun x => x.channel (g x.source)

section
variable (view : SiteView) (mirror : Mirror) (page : Page) (viewer : Viewer)

def slots : List Slot :=
  let own := page.member.bind view.ownInput
  ((view.inputs.filter fun i => showsInput view viewer i.id).map fun i =>
    { source := .input i.id, name := i.name, category := i.category
      eq := viewer.engineer || i.owner == some viewer.sub, own := own == some i.id }) ++
  (heard view page viewer).map fun h =>
    { source := .mix h, name := view.mixName h, category := "mixes", eq := viewer.engineer, own := false }

theorem channels_laid : channels view mirror page viewer = laid (slots view page viewer) (channel mirror page) := by
  simp only [channels, laid, slots, List.map_append, List.map_map]
  rfl

theorem shown_iff (s : Source) :
    shown view page viewer s = true ↔ s ∈ (slots view page viewer).map (·.source) := by
  cases s with
  | input id =>
    simp only [shown, slots, List.map_append, List.map_map, List.mem_append, List.mem_map, List.mem_filter,
      Function.comp_apply, Source.input.injEq, reduceCtorEq, and_false, exists_false, or_false]
    constructor
    · intro shows
      have present := shows
      simp only [showsInput, Bool.and_eq_true, SiteView.input] at present
      obtain ⟨i, found⟩ := Option.isSome_iff_exists.mp present.1
      have named : i.id = id := by simpa using List.find?_some found
      exact ⟨i, ⟨List.mem_of_find?_eq_some found, named ▸ shows⟩, named⟩
    · rintro ⟨i, ⟨-, shows⟩, rfl⟩
      exact shows
  | mix id =>
    simp [shown, slots]

end

theorem laid_congr {slots : List Slot} {g g' : Source → Values} (same : ∀ x ∈ slots, g x.source = g' x.source) :
    laid slots g = laid slots g' := by
  apply List.map_congr_left
  intro x member
  rw [same x member]

/-- With one channel of each id an update finds its own. -/
theorem updateChannel_laid {slots : List Slot} (distinct : (slots.map (·.source.text)).Nodup) {s : Source}
    (member : s ∈ slots.map (·.source)) (g : Source → Values) (v : Values) :
    updateChannel (laid slots g) s.text v.1 v.2.1 v.2.2 = laid slots (Function.update g s v) := by
  induction slots with
  | nil => cases member
  | cons x rest ih =>
    rw [List.map_cons, List.nodup_cons] at distinct
    by_cases here : x.source = s
    · have elsewhere : laid rest (Function.update g s v) = laid rest g := by
        apply laid_congr
        intro y later
        rw [Function.update_of_ne]
        intro same
        apply distinct.1
        rw [here, ← same]
        exact List.mem_map_of_mem later
      have first : (x.channel (g x.source)).id = s.text := by simp [Slot.channel, here]
      simp only [laid, List.map_cons, updateChannel, first, if_true]
      rw [here, Function.update_self]
      exact congrArg₂ List.cons (by simp [Slot.channel, here]) elsewhere.symm
    · have later : s ∈ rest.map (·.source) := by simpa [Ne.symm here] using member
      have other : (x.channel (g x.source)).id ≠ s.text := by
        intro same
        apply distinct.1
        obtain ⟨y, inside, rfl⟩ := List.mem_map.mp later
        exact List.mem_map.mpr ⟨y, inside, same.symm⟩
      simp only [laid, List.map_cons, updateChannel, other, if_false, Function.update_of_ne here]
      exact congrArg _ (ih distinct.2 later)

theorem showExclusiveSolo_laid (slots : List Slot) (g : Source → Values) (soloed : BTreeSet String) :
    showExclusiveSolo (laid slots g) soloed =
      laid slots fun s => ((g s).1, !soloed.contains s.text, (g s).2.2) := by
  simp only [showExclusiveSolo, laid, List.map_map]
  rfl

/-! ### One update after another -/

section
variable (view : SiteView) (page : Page) (viewer : Viewer) (connected : Bool)

/-- The phone shows the mirror's output, strip and solo, and channels of the values `g`. -/
structure Holds (m : Mirror) (g : Source → Values) (p : Phone) : Prop where
  channels : p.channels = laid (slots view page viewer) g
  connection : p.connected = connected
  faders : p.faderTouched = fun _ => false
  global : p.globalTouched = false
  stems : p.stemsTouched = false
  globalLevel : p.globalLevel = uiDb (m.out page.mix).volumeDb
  globalMuted : p.globalMuted = (m.out page.mix).muted
  stemsLevel : p.stemsLevel = (view.group.map fun group => uiDb (m.group page.mix group).gainDb).getD (.fin 0)
  stemsMuted : p.stemsMuted = (view.group.map fun group => (m.group page.mix group).muted).getD false
  stemsGroup : p.stemsGroup = view.group
  pageMix : p.pageMix = some page.mix
  soloed : p.soloed = Std.ExtTreeSet.ofList (soloedSeen view viewer (m.solo page.mix)) compare

variable {view page viewer connected}

theorem Holds.unique {m : Mirror} {g : Source → Values} {p p' : Phone} (holds : Holds view page viewer connected m g p)
    (holds' : Holds view page viewer connected m g p') : p = p' := by
  cases p
  cases p'
  simp only [Phone.mk.injEq]
  exact ⟨holds.channels.trans holds'.channels.symm, holds.connection.trans holds'.connection.symm,
    holds.faders.trans holds'.faders.symm, holds.global.trans holds'.global.symm, holds.stems.trans holds'.stems.symm,
    holds.globalLevel.trans holds'.globalLevel.symm, holds.globalMuted.trans holds'.globalMuted.symm,
    holds.stemsLevel.trans holds'.stemsLevel.symm, holds.stemsMuted.trans holds'.stemsMuted.symm,
    holds.stemsGroup.trans holds'.stemsGroup.symm, holds.pageMix.trans holds'.pageMix.symm,
    holds.soloed.trans holds'.soloed.symm⟩

variable (view page viewer connected) in
/-- A phone just connected: the full state, then the solo. -/
def opened (m : Mirror) : Phone :=
  (({} : Phone).take (stateMsg view m page viewer connected)).take (soloMsg view m page viewer)

theorem opened_holds (m : Mirror) :
    Holds view page viewer connected m (channel m page) (opened view page viewer connected m) where
  channels := by
    simp [opened, Phone.take, stateMsg, soloMsg, mergeOrReplaceChannels, channels_laid]
  connection := rfl
  faders := rfl
  global := rfl
  stems := rfl
  globalLevel := rfl
  globalMuted := rfl
  stemsLevel := by
    simp [opened, Phone.take, stateMsg, soloMsg, Function.comp_def]
  stemsMuted := by
    simp [opened, Phone.take, stateMsg, soloMsg, Function.comp_def]
  stemsGroup := rfl
  pageMix := rfl
  soloed := rfl

/-- Whether the change sends the channel of `s` again. -/
def touches (page : Page) (s : Source) : Change → Bool
  | .level mix source _ => mix == page.mix && source == s
  | .solo mix _ => mix == page.mix
  | _ => false

theorem Holds.congr {m : Mirror} {g g' : Source → Values} {p : Phone} (holds : Holds view page viewer connected m g p)
    (same : ∀ x ∈ slots view page viewer, g x.source = g' x.source) : Holds view page viewer connected m g' p :=
  { holds with channels := holds.channels.trans (laid_congr same) }

section
variable (distinct : ((slots view page viewer).map (·.source.text)).Nodup)
include distinct

theorem Holds.one {m : Mirror} {g : Source → Values} {p : Phone} (holds : Holds view page viewer connected m g p)
    {s : Source} (member : s ∈ (slots view page viewer).map (·.source)) (v : Values) :
    Holds view page viewer connected m (Function.update g s v) (p.take (.channelUpdate s.text v.1 v.2.1 v.2.2)) := by
  have took : p.take (.channelUpdate s.text v.1 v.2.1 v.2.2) =
      { p with channels := updateChannel p.channels s.text v.1 v.2.1 v.2.2 } := by
    simp [Phone.take, holds.faders]
  rw [took, holds.channels, updateChannel_laid distinct member]
  exact { holds with channels := rfl }

/-- Channels sent again show the values sent. -/
theorem Holds.resend {m : Mirror} {g : Source → Values} {p : Phone} (holds : Holds view page viewer connected m g p)
    (now : Source → Values) (sent : List Slot) (inside : ∀ x ∈ sent, x ∈ slots view page viewer) :
    Holds view page viewer connected m (fun s => if s ∈ sent.map (·.source) then now s else g s)
      (((laid sent now).map channelUpdateOf).foldl Phone.take p) := by
  induction sent generalizing g p with
  | nil => simpa [laid] using holds
  | cons x rest ih =>
    have first := holds.one distinct (List.mem_map_of_mem (inside x List.mem_cons_self)) (now x.source)
    have all := ih first fun y later => inside y (List.mem_cons_of_mem _ later)
    apply Holds.congr all
    intro y _
    by_cases later : y.source ∈ rest.map (·.source)
    · simp [later]
    · by_cases same : y.source = x.source
      · simp [same]
      · have absent : y.source ∉ (x :: rest).map (·.source) := by
          rw [List.map_cons, List.mem_cons]
          exact fun member => member.elim same later
        rw [if_neg later, if_neg absent, Function.update_of_ne same]

omit distinct in
/-- Another mirror of the same output, strip and solo. -/
theorem Holds.move {m m' : Mirror} {g : Source → Values} {p : Phone} (holds : Holds view page viewer connected m g p)
    (out : m'.out page.mix = m.out page.mix)
    (strip : ∀ group, view.group = some group → m'.group page.mix group = m.group page.mix group)
    (solo : m'.solo page.mix = m.solo page.mix) : Holds view page viewer connected m' g p := by
  have level : (view.group.map fun group => uiDb (m'.group page.mix group).gainDb) =
      view.group.map fun group => uiDb (m.group page.mix group).gainDb := by
    cases there : view.group with
    | none => rfl
    | some group => simp [strip group there]
  have muted : (view.group.map fun group => (m'.group page.mix group).muted) =
      view.group.map fun group => (m.group page.mix group).muted := by
    cases there : view.group with
    | none => rfl
    | some group => simp [strip group there]
  exact { holds with
    globalLevel := by rw [out, holds.globalLevel]
    globalMuted := by rw [out, holds.globalMuted]
    stemsLevel := by rw [level, holds.stemsLevel]
    stemsMuted := by rw [muted, holds.stemsMuted]
    soloed := by rw [solo, holds.soloed] }

omit distinct in
/-- Changes of another mix. -/
theorem Holds.aside {m : Mirror} {g : Source → Values} {p : Phone} (holds : Holds view page viewer connected m g p)
    (c : Change) (out : ∀ x o, c = .mixOut x o → x ≠ page.mix)
    (strip : ∀ x group state, c = .group x group state → ¬(x = page.mix ∧ view.group = some group))
    (solo : ∀ x sources, c = .solo x sources → x ≠ page.mix) :
    Holds view page viewer connected (m.change c) g p := by
  apply Holds.move holds
  · rw [out_change]
    cases c with
    | mixOut x o => exact if_neg (out x o rfl)
    | _ => rfl
  · intro group there
    rw [group_change]
    cases c with
    | group x other state =>
      apply if_neg
      rintro ⟨here, rfl⟩
      exact strip x other state rfl ⟨here, there⟩
    | _ => rfl
  · rw [solo_change]
    cases c with
    | solo x sources => exact if_neg (solo x sources rfl)
    | _ => rfl

omit distinct in
theorem Holds.setOut {m : Mirror} {g : Source → Values} {p : Phone} (holds : Holds view page viewer connected m g p)
    (o : MixOut) : Holds view page viewer connected (m.change (.mixOut page.mix o)) g
      (p.take (.globalVolumeUpdate (uiDb o.volumeDb) o.muted)) := by
  have took : p.take (.globalVolumeUpdate (uiDb o.volumeDb) o.muted) =
      { p with globalLevel := uiDb o.volumeDb, globalMuted := o.muted } := by simp [Phone.take, holds.global]
  have now : (m.change (.mixOut page.mix o)).out page.mix = o := by simp [out_change]
  have strip : ∀ group, (m.change (.mixOut page.mix o)).group page.mix group = m.group page.mix group :=
    fun group => by rw [group_change]
  have solo : (m.change (.mixOut page.mix o)).solo page.mix = m.solo page.mix := by rw [solo_change]
  rw [took]
  exact { holds with
    globalLevel := by rw [now]
    globalMuted := by rw [now]
    stemsLevel := by simpa only [strip] using holds.stemsLevel
    stemsMuted := by simpa only [strip] using holds.stemsMuted
    soloed := by simpa only [solo] using holds.soloed }

omit distinct in
theorem Holds.setStrip {m : Mirror} {g : Source → Values} {p : Phone} (holds : Holds view page viewer connected m g p)
    {group : GroupId} (there : view.group = some group) (state : MixGroup) :
    Holds view page viewer connected (m.change (.group page.mix group state)) g
      (p.take (.stemsVolumeUpdate (uiDb state.gainDb) state.muted)) := by
  have took : p.take (.stemsVolumeUpdate (uiDb state.gainDb) state.muted) =
      { p with stemsLevel := uiDb state.gainDb, stemsMuted := state.muted } := by simp [Phone.take, holds.stems]
  have now : (m.change (.group page.mix group state)).group page.mix group = state := by simp [group_change]
  have out : (m.change (.group page.mix group state)).out page.mix = m.out page.mix := by rw [out_change]
  have solo : (m.change (.group page.mix group state)).solo page.mix = m.solo page.mix := by rw [solo_change]
  rw [took]
  exact { holds with
    globalLevel := by simpa only [out] using holds.globalLevel
    globalMuted := by simpa only [out] using holds.globalMuted
    stemsLevel := by simp [there, now]
    stemsMuted := by simp [there, now]
    soloed := by simpa only [solo] using holds.soloed }

/-- A solo's update may show any mutes; every channel sent after it shows its own. -/
theorem Holds.setSolo {m : Mirror} {g : Source → Values} {p : Phone} (holds : Holds view page viewer connected m g p)
    (sources : List Source) (now : Source → Values) :
    Holds view page viewer connected (m.change (.solo page.mix sources)) now
      (((laid (slots view page viewer) now).map channelUpdateOf).foldl Phone.take
        (p.take (.soloUpdate (soloedSeen view viewer sources)))) := by
  have soloed : (m.change (.solo page.mix sources)).solo page.mix = sources := by simp [solo_change]
  have out : (m.change (.solo page.mix sources)).out page.mix = m.out page.mix := by rw [out_change]
  have strip : ∀ group, (m.change (.solo page.mix sources)).group page.mix group = m.group page.mix group :=
    fun group => by rw [group_change]
  have switched : ∃ g', Holds view page viewer connected (m.change (.solo page.mix sources)) g'
      (p.take (.soloUpdate (soloedSeen view viewer sources))) := by
    have rest : ∀ g' chs, chs = laid (slots view page viewer) g' →
        Holds view page viewer connected (m.change (.solo page.mix sources)) g' { p with
          channels := chs, soloed := Std.ExtTreeSet.ofList (soloedSeen view viewer sources) compare } :=
      fun g' chs shows => { holds with
        channels := shows
        globalLevel := by simpa only [out] using holds.globalLevel
        globalMuted := by simpa only [out] using holds.globalMuted
        stemsLevel := by simpa only [strip] using holds.stemsLevel
        stemsMuted := by simpa only [strip] using holds.stemsMuted
        soloed := by rw [soloed] }
    simp only [Phone.take]
    split
    · exact ⟨_, rest _ _ (by rw [holds.channels, showExclusiveSolo_laid])⟩
    · exact ⟨g, rest g _ holds.channels⟩
  obtain ⟨g', shows⟩ := switched
  apply Holds.congr (shows.resend distinct now _ fun _ member => member)
  intro x member
  rw [if_pos (List.mem_map_of_mem member)]

theorem Holds.update {m : Mirror} {g : Source → Values} {p : Phone} (holds : Holds view page viewer connected m g p)
    (last : Mirror) (c : Change) : Holds view page viewer connected (m.change c)
      (fun s => if touches page s c then channel last page s else g s)
      ((updatesOf view last page viewer c).foldl Phone.take p) := by
  cases c with
  | mixOut x o =>
    by_cases here : x = page.mix
    · subst here
      simpa [updatesOf, touches] using holds.setOut o
    · simpa [updatesOf, touches, here] using holds.aside (.mixOut x o) (fun _ _ same => by cases same; exact here)
        (fun _ _ _ other => Change.noConfusion other) fun _ _ other => Change.noConfusion other
  | level x source level =>
    have kept : Holds view page viewer connected (m.change (.level x source level)) g p :=
      holds.aside (.level x source level) (fun _ _ other => Change.noConfusion other)
        (fun _ _ _ other => Change.noConfusion other) fun _ _ other => Change.noConfusion other
    by_cases here : x = page.mix ∧ shown view page viewer source = true
    · obtain ⟨rfl, shows⟩ := here
      have one := kept.one distinct ((shown_iff view page viewer source).mp shows) (channel last page source)
      have sent : (updatesOf view last page viewer (.level page.mix source level)).foldl Phone.take p =
          p.take (.channelUpdate source.text (channel last page source).1 (channel last page source).2.1
            (channel last page source).2.2) := by simp [updatesOf, shows]
      rw [sent]
      apply one.congr
      intro x _
      by_cases same : x.source = source
      · simp [touches, same]
      · simp [touches, same, Ne.symm same]
    · have unsent : (updatesOf view last page viewer (.level x source level)).foldl Phone.take p = p := by
        simp [updatesOf, here]
      rw [unsent]
      apply kept.congr
      intro y member
      have untouched : touches page y.source (.level x source level) = false := by
        simp only [touches, Bool.and_eq_false_iff, beq_eq_false_iff_ne]
        by_contra both
        simp only [not_or, not_not] at both
        apply here
        exact ⟨both.1, (shown_iff view page viewer source).mpr (both.2 ▸ List.mem_map_of_mem member)⟩
      simp [untouched]
  | group x group state =>
    by_cases here : x = page.mix ∧ view.group = some group
    · obtain ⟨rfl, there⟩ := here
      simpa [updatesOf, touches, there] using holds.setStrip there state
    · simpa [updatesOf, touches, here] using
        holds.aside (.group x group state) (fun _ _ other => Change.noConfusion other)
          (fun _ _ _ same => by cases same; exact here) fun _ _ other => Change.noConfusion other
  | solo x sources =>
    by_cases here : x = page.mix
    · subst here
      simpa [updatesOf, touches, channels_laid] using holds.setSolo distinct sources (channel last page)
    · simpa [updatesOf, touches, here] using
        holds.aside (.solo x sources) (fun _ _ other => Change.noConfusion other)
          (fun _ _ _ other => Change.noConfusion other) fun _ _ same => by cases same; exact here
  | _ => exact holds.move rfl (fun _ _ => rfl) rfl

/-- A whole delta: what it sends again shows the last mirror's values. -/
theorem Holds.updates {m : Mirror} {g : Source → Values} {p : Phone} (holds : Holds view page viewer connected m g p)
    (last : Mirror) (changes : List Change) : Holds view page viewer connected (changes.foldl Mirror.change m)
      (fun s => if changes.any (touches page s) then channel last page s else g s)
      ((updatesSeen view last page viewer changes).foldl Phone.take p) := by
  induction changes generalizing m g p with
  | nil => simpa [updatesSeen] using holds
  | cons c rest ih =>
    have first := ih (holds.update distinct last c)
    have sent : (updatesSeen view last page viewer (c :: rest)).foldl Phone.take p =
        (updatesSeen view last page viewer rest).foldl Phone.take
          ((updatesOf view last page viewer c).foldl Phone.take p) := by
      simp [updatesSeen, List.foldl_append]
    rw [sent, List.foldl_cons]
    apply first.congr
    intro x _
    by_cases later : rest.any (touches page x.source) = true
    · simp [later]
    · by_cases now : touches page x.source c = true <;> simp [later, now]

end

/-- What no change touches shows the same at both ends. -/
theorem channel_untouched {s : Source} {changes : List Change} (untouched : changes.any (touches page s) = false)
    (m : Mirror) : channel (changes.foldl Mirror.change m) page s = channel m page s := by
  induction changes generalizing m with
  | nil => rfl
  | cons c rest ih =>
    rw [List.any_cons, Bool.or_eq_false_iff] at untouched
    rw [List.foldl_cons, ih untouched.2]
    have level : (m.change c).level page.mix s = m.level page.mix s := by
      rw [level_change]
      cases c with
      | level x source level =>
        apply if_neg
        rintro ⟨rfl, rfl⟩
        simp [touches] at untouched
      | _ => rfl
    have solo : (m.change c).solo page.mix = m.solo page.mix := by
      rw [solo_change]
      cases c with
      | solo x sources =>
        apply if_neg
        rintro rfl
        simp [touches] at untouched
      | _ => rfl
    simp only [channel, masked, level, solo]

end

/-! ### Views of an engine's topology -/

/-- Each channel of a page has its own id. -/
theorem slots_distinct {topo : TopologyInfo} (named : Named topo) (cfg : Config) (roster : Option RosterState)
    (page : Page) (viewer : Viewer) :
    ((slots (SiteView.buildWith cfg roster topo).1 page viewer).map (·.source.text)).Nodup := by
  obtain ⟨inputs, mixes, apart⟩ := List.nodup_append.mp named.ids
  have inputIds : ((SiteView.buildWith cfg roster topo).1.inputs.map (·.id)).Nodup := by
    have plain := (List.nodup_append.mp inputs).1
    simpa [SiteView.buildWith, SiteView.inputView, Function.comp_def] using plain
  simp only [slots, List.map_append, List.map_map]
  rw [List.nodup_append]
  refine ⟨?_, ?_, ?_⟩
  · exact inputIds.sublist (List.filter_sublist.map _)
  · simpa [Function.comp_def, Source.text] using heard_nodup named cfg roster
  · intro id input h heard
    obtain ⟨i, shows, rfl⟩ := List.mem_map.mp input
    obtain ⟨mix, among, rfl⟩ := List.mem_map.mp heard
    have known := heard_known named cfg roster among
    apply apart
    · apply List.mem_append_left
      obtain ⟨x, member, same⟩ := List.mem_map.mp (List.mem_of_mem_filter shows)
      exact List.mem_map.mpr ⟨x, member, by rw [← same]; rfl⟩
    · exact known

/-- A page's updates, in order, make of the page opened on the mirror before a delta the page
opened on the mirror after it. -/
theorem updates_reach_state {digest : TopologyInfo → String} (site : Compiled digest) (cfg : Config)
    (roster : Option RosterState) (page : Page) (viewer : Viewer) (connected : Bool) (m : Mirror) (changes : List Change) :
    let view := (SiteView.buildWith cfg roster site.topo.info).1
    let after := changes.foldl Mirror.change m
    (updatesSeen view after page viewer changes).foldl Phone.take (opened view page viewer connected m) =
      opened view page viewer connected after := by
  intro view after
  have distinct := slots_distinct (info_named (compile_spec digest site).1) cfg roster page viewer
  have start : Holds view page viewer connected m (channel m page) (opened view page viewer connected m) :=
    opened_holds m
  have reached := start.updates distinct after changes
  apply Holds.unique reached
  apply (opened_holds after).congr
  intro x _
  cases touched : changes.any (touches page x.source) with
  | true => rfl
  | false => exact channel_untouched touched m

end IemMixer.Ui
