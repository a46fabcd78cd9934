import IemMixer.Server.MuteAllProofs
import IemMixer.Ui.MuteWrites
import IemMixer.Ui.Mutes

/-! What is behind a page's socket: the mirror follows the core over each engine event, and
what the session says of an event tells each channel its own mute or the solo's mask. -/
namespace IemMixer.Ui
open Lib Proto Server TopologyProofs IemMixer.Core MirrorProofs

/-! ### The mirror beside the core -/

/-- A synced mirror of a core over the topology. -/
structure Linked (topo : Topology) (m : Mirror) (c : Core) : Prop where
  topology : m.topology = some topo.info
  synced : m.synced = true
  rev : m.rev = c.rev
  shows : Shows m c
  once : (m.transient.solo.map (·.mix)).Nodup
  same : c.topo = topo
  canonical : Canonical c

section
variable {topo : Topology} {m : Mirror} {c : Core} {mix : MixId} {x : Source}

theorem mem_solo_iff (once : (m.transient.solo.map (·.mix)).Nodup) :
    x ∈ m.solo mix ↔ Soloed m.transient mix x := by
  unfold Mirror.solo Soloed
  cases found : m.transient.solo.find? (·.mix == mix) with
  | none =>
    simp only [Option.map_none, Option.getD_none, List.not_mem_nil, false_iff, not_exists, not_and]
    intro s member same
    have apart := List.find?_eq_none.mp found s member
    simp [same] at apart
  | some s =>
    have there := List.mem_of_find?_eq_some found
    have named : s.mix = mix := by simpa using List.find?_some found
    simp only [Option.map_some, Option.getD_some]
    constructor
    · exact fun inside => ⟨s, there, named, inside⟩
    · rintro ⟨s', member, named', inside⟩
      obtain rfl := List.inj_on_of_nodup_map once there member (named.trans named'.symm)
      exact inside

theorem Linked.solo_iff (linked : Linked topo m c) : x ∈ m.solo mix ↔ Soloed c.transient mix x :=
  (mem_solo_iff linked.once).trans (linked.shows.solo mix x)

theorem Linked.own (linked : Linked topo m c) : (m.level mix x).muted = ownMute c.state mix x := by
  rw [← own_level, linked.shows.state]

theorem once_change (once : (m.transient.solo.map (·.mix)).Nodup) (change : Change) :
    ((m.change change).transient.solo.map (·.mix)).Nodup := by
  cases change with
  | solo mix sources =>
    have kept := once.sublist ((List.filter_sublist (p := fun s : Solo => s.mix != mix)).map (·.mix))
    cases sources with
    | nil => exact kept
    | cons x rest =>
      simp only [Mirror.change, List.isEmpty_cons, Bool.false_eq_true, if_false, List.map_append, List.map_cons,
        List.map_nil]
      rw [List.nodup_append]
      refine ⟨kept, by simp, ?_⟩
      intro a member b last
      obtain ⟨s, inside, rfl⟩ := List.mem_map.mp member
      rw [List.mem_singleton.mp last]
      simpa using (List.mem_filter.mp inside).2
  | level mix source l => cases source <;> exact once
  | _ => exact once

theorem once_changes (once : (m.transient.solo.map (·.mix)).Nodup) (changes : List Change) :
    ((changes.foldl Mirror.change m).transient.solo.map (·.mix)).Nodup := by
  induction changes generalizing m with
  | nil => exact once
  | cons change rest ih => exact ih (once_change once change)

/-- A core has one solo a mix. -/
theorem once_core (wf : WellFormed c.topo) : (c.transient.solo.map (·.mix)).Nodup := by
  have names : c.transient.solo.map (·.mix) = (c.solo.toList.map Prod.fst).filterMap c.mixId := by
    simp only [transient, List.map_filterMap, List.filterMap_map]
    congr 1
    funext e
    cases named : c.mixId e.1 <;> simp [named]
  rw [names]
  refine List.Nodup.filterMap ?_ (BTreeMap.nodup_keys_toList c.solo)
  intro i j id inI inJ
  exact BTreeMap.name_inj (mixIds_nodup wf) inI inJ

end

/-- What the clients hear of an outcome. -/
def heardOf (origin : Option ℕ) (out : Outcome) : List EngineEvent :=
  (if out.changes.isEmpty then [] else [.changed origin out.changes]) ++
    match out.effect with
    | .sendState | .imported => [.reset]
    | _ => []

namespace Socket
variable {topo : Topology} {d : Socket}

theorem follow_delta (synced : d.mirror.synced = true) {rev : ℕ} (next : rev = d.mirror.rev + 1) (origin : Option ℕ)
    (changes : List Change) : d.follow (.delta rev origin changes) = { d with
      mirror := { changes.foldl Mirror.change d.mirror with rev }
      events := d.events ++ [.changed origin changes] } := by
  subst next
  simp [follow, Mirror.apply, synced, told]

theorem follow_state (c : Core) : d.follow c.stateMsg = { d with
      mirror := { d.mirror with state := c.state, transient := c.transient, rev := c.rev, synced := true }
      events := d.events ++ [.reset] } := by
  simp [follow, Mirror.apply, Core.stateMsg, told]

/-- The mirror after the whole state. -/
theorem linked_state (wf : WellFormed topo) {m : Mirror} {c : Core} (topology : m.topology = some topo.info)
    (same : c.topo = topo) (canonical : Canonical c) :
    Linked topo { m with state := c.state, transient := c.transient, rev := c.rev, synced := true } c :=
  ⟨topology, rfl, rfl, Same.refl c, once_core (same.symm ▸ wf), same, canonical⟩

/-- Changes leave the mirror's topology and its link. -/
theorem changes_frame (m : Mirror) (changes : List Change) : (changes.foldl Mirror.change m).topology = m.topology ∧
    (changes.foldl Mirror.change m).synced = m.synced := by
  induction changes generalizing m with
  | nil => exact ⟨rfl, rfl⟩
  | cons change rest ih =>
    rw [List.foldl_cons, (ih _).1, (ih _).2]
    cases change with
    | level mix source l => cases source <;> exact ⟨rfl, rfl⟩
    | _ => exact ⟨rfl, rfl⟩

variable [Libm]

/-- The delta of an edit. -/
theorem follow_edit (wf : WellFormed topo) (linked : Linked topo d.mirror d.core) {out : Outcome} {c : Core}
    (spec : Handled d.core (some out) c) (edits : out.effect ≠ .imported) (origin : Option ℕ) :
    ∃ m, (if out.changes.isEmpty then [] else [EngineMsg.delta out.rev origin out.changes]).foldl follow
        { d with core := c } = { d with
          core := c, mirror := m
          events := d.events ++ if out.changes.isEmpty then [] else [.changed origin out.changes] } ∧
      Linked topo m c := by
  have wf' : WellFormed d.core.topo := linked.same.symm ▸ wf
  obtain ⟨same, kept⟩ := spec.canonical wf' linked.canonical
  have topology := same.trans linked.same
  have shows := handled_shown wf' spec edits linked.shows
  have rev : out.rev = d.core.revAfter out.changes ∧ c.rev = out.rev := by
    cases spec with
    | edited effect quiet path => exact ⟨rfl, rfl⟩
    | imported state => exact absurd rfl edits
  generalize changed : out.changes = changes at shows rev
  cases changes with
  | nil =>
    refine ⟨d.mirror, by simp, linked.topology, linked.synced, ?_, shows, linked.once, topology, kept⟩
    exact linked.rev.trans (rev.2.trans rev.1).symm
  | cons change rest =>
    obtain ⟨told, synced⟩ := changes_frame d.mirror (change :: rest)
    have next : out.rev = d.mirror.rev + 1 := by
      rw [rev.1, revAfter, linked.rev]
      rfl
    refine ⟨_, follow_delta (d := { d with core := c }) linked.synced next origin (change :: rest), ?_⟩
    exact ⟨told.trans linked.topology, synced.trans linked.synced, rev.2.symm, shows,
      once_changes linked.once (change :: rest), topology, kept⟩

/-- An engine event: the core handles it, the mirror follows, and the session will hear of it. -/
theorem meet_spec (wf : WellFormed topo) (linked : Linked topo d.mirror d.core) (event : Core.Event)
    (origin : Option ℕ) :
    ∃ m, d.meet event origin = { d with
        core := (d.core.handle event).2
        mirror := m
        events := d.events ++ ((d.core.handle event).1.map (heardOf origin)).getD [] } ∧
      Linked topo m (d.core.handle event).2 := by
  have wf' : WellFormed d.core.topo := linked.same.symm ▸ wf
  have spec := handle_spec d.core wf' linked.canonical event
  obtain ⟨same, kept⟩ := spec.canonical wf' linked.canonical
  simp only [meet, tick]
  generalize d.core.handle event = handled at spec same kept
  obtain ⟨said, c⟩ := handled
  cases said with
  | none =>
    cases spec
    exact ⟨d.mirror, by simp, linked⟩
  | some out =>
    by_cases imported : out.effect = .imported
    · cases spec with
      | edited effect quiet path => exact absurd imported quiet
      | imported state =>
        refine ⟨_, follow_state (d := { d with core := _ }) _, ?_⟩
        exact linked_state wf linked.topology (same.trans linked.same) kept
    · obtain ⟨m, first, linked'⟩ := follow_edit wf linked spec imported origin
      simp only [Core.messages, List.foldl_append]
      rw [first]
      simp only [Option.map_some, Option.getD_some, heardOf, ← List.append_assoc]
      cases effect : out.effect with
      | imported => exact absurd effect imported
      | sendState =>
        refine ⟨_, follow_state _, ?_⟩
        exact linked_state wf linked'.topology (same.trans linked.same) kept
      | none | sendTopology | save | shutdown => exact ⟨m, by simp, linked'⟩

end Socket

/-! ### What the session says of mutes -/

section
variable (view : SiteView) (page : Page) (viewer : Viewer) (session : ℕ)

/-- The sources a page shows, in order. -/
def sourcesOf : List Source := (slots view page viewer).map (·.source)

/-- The ids among the soloed ones that a viewer gets. -/
def soloIds (sources : List Source) : BTreeSet String := Std.ExtTreeSet.ofList (soloedSeen view viewer sources) compare

/-- The mutes of full channels. -/
def mutesAt (shown : Source → Bool) (id : String) : Bool :=
  (((sourcesOf view page viewer).find? (·.text == id)).map shown).getD false

def channelTales (shown : Source → Bool) : List Tale :=
  (sourcesOf view page viewer).map fun x => .channel x.text (shown x)

/-- What a change tells when the channels show the mutes `shown`. -/
def changeTales (shown : Source → Bool) : Change → List Tale
  | .level mix x _ => if mix = page.mix ∧ Server.shown view page viewer x then [.channel x.text (shown x)] else []
  | .solo mix sources => if mix = page.mix then
      .solo (soloIds view viewer sources) :: channelTales view page viewer shown
    else []
  | _ => []

/-- What an event tells when the channels show the mutes `shown` and the solo is `now`. -/
def eventTales (shown : Source → Bool) (now : BTreeSet String) : EngineEvent → List Tale
  | .changed origin changes =>
    if origin = some session then
      (changes.filter (ofSolo page.mix)).flatMap fun _ => channelTales view page viewer shown
    else changes.flatMap (changeTales view page viewer shown)
  | .reset => [.state (mutesAt view page viewer shown), .solo now]
  | .connected => [.state (mutesAt view page viewer shown)]
  | .disconnected | .other => []

variable {view page viewer session} (m : Mirror)

theorem channels_tales : ((channels view m page viewer).map channelUpdateOf).filterMap tale =
    channelTales view page viewer fun x => (channel m page x).2.1 := by
  rw [channels_laid, channelTales, sourcesOf]
  simp only [laid, List.map_map]
  rw [← List.filterMap_eq_map, List.filterMap_filterMap, ← List.filterMap_eq_map]
  rfl

theorem updatesOf_tales (c : Change) : (updatesOf view m page viewer c).filterMap tale =
    changeTales view page viewer (fun x => (channel m page x).2.1) c := by
  cases c with
  | level mix x l =>
    simp only [updatesOf, changeTales]
    split <;> rfl
  | solo mix sources =>
    simp only [updatesOf, changeTales]
    split
    · rw [List.filterMap_cons, channels_tales]
      rfl
    · rfl
  | mixOut mix o =>
    simp only [updatesOf, changeTales]
    split <;> rfl
  | group mix group state =>
    simp only [updatesOf, changeTales]
    split <;> rfl
  | _ => rfl

theorem updatesSeen_tales (changes : List Change) : (updatesSeen view m page viewer changes).filterMap tale =
    changes.flatMap (changeTales view page viewer fun x => (channel m page x).2.1) := by
  rw [updatesSeen, List.filterMap_flatMap]
  exact List.flatMap_congr fun c _ => updatesOf_tales m c

theorem ownEcho_tales (changes : List Change) : (ownEchoSeen view m page viewer changes).filterMap tale =
    (changes.filter (ofSolo page.mix)).flatMap fun _ =>
      channelTales view page viewer fun x => (channel m page x).2.1 := by
  induction changes with
  | nil => rfl
  | cons c rest ih =>
    unfold ownEchoSeen updatesSeen at ih ⊢
    cases c with
    | solo mix sources =>
      simp only [List.filter_cons_of_pos, List.flatMap_cons, List.filter_append, List.filterMap_append, ih]
      by_cases here : mix = page.mix
      · simp only [updatesOf, here, if_true, ofSolo, beq_self_eq_true, List.filter_cons_of_pos, List.flatMap_cons]
        rw [List.filter_cons_of_neg (by simp), List.filter_eq_self.mpr, channels_tales]
        rintro msg member
        obtain ⟨c, -, rfl⟩ := List.mem_map.mp member
        rfl
      · simp [updatesOf, here, ofSolo]
    | _ => simpa [ofSolo] using ih

theorem inputUpdates_tales (changes : List Change) : (inputUpdates view changes).filterMap tale = [] := by
  rw [List.filterMap_eq_nil_iff]
  intro msg member
  obtain ⟨c, -, said⟩ := List.mem_filterMap.mp member
  cases c with
  | input id state =>
    obtain ⟨i, -, rfl⟩ := Option.map_eq_some_iff.mp said
    rfl
  | _ => cases said

theorem stateMsg_framed (connected : Bool) :
    Framed ((sourcesOf view page viewer).map Source.text) (stateMsg view m page viewer connected) := by
  show (channels view m page viewer).map (·.id) = _
  rw [channels_laid, laid, sourcesOf, List.map_map, List.map_map]
  rfl

theorem updates_framed {msg : ServerMsg} (changes : List Change) (member : msg ∈ updatesSeen view m page viewer changes)
    (ids : List String) : Framed ids msg := by
  obtain ⟨c, -, said⟩ := List.mem_flatMap.mp member
  cases c with
  | solo mix sources =>
    simp only [updatesOf] at said
    split at said
    · rcases List.mem_cons.mp said with rfl | later
      · trivial
      · obtain ⟨c, -, rfl⟩ := List.mem_map.mp later
        trivial
    · cases said
  | _ =>
    simp only [updatesOf] at said
    try split at said
    all_goals simp_all [Framed]

theorem stateMsg_tale (connected : Bool) : tale (stateMsg view m page viewer connected) =
    some (.state (mutesAt view page viewer fun x => (channel m page x).2.1)) := by
  have same : mutedIn (channels view m page viewer) = mutesAt view page viewer fun x => (channel m page x).2.1 := by
    funext id
    rw [channels_laid, mutedIn, mutesAt, sourcesOf, laid]
    rw [List.find?_map, List.find?_map, Option.map_map, Option.map_map]
    rfl
  rw [← same]
  rfl

end

/-! ### A session of a site that stays as it is -/

/-- The site's view over the engine's topology. -/
abbrev siteOf (s : App) (topo : Topology) : SiteView := (SiteView.buildWith s.siteConfig s.roster topo.info).1

/-- No switch runs, and the page is the site's. -/
structure Placed (s : App) (topo : Topology) (page : Page) : Prop where
  wf : WellFormed topo
  free : s.frozen = false
  calm : s.settling = false
  found : (siteOf s topo).page page.id = some page

namespace Placed
variable {s : App} {topo : Topology} {page : Page} (placed : Placed s topo page) (viewer : Viewer)
  {m : Mirror} {c : Core} (linked : Linked topo m c) (session : ℕ)
include placed

theorem distinct : ((sourcesOf (siteOf s topo) page viewer).map Source.text).Nodup := by
  simpa [sourcesOf, Function.comp_def] using
    slots_distinct (info_named placed.wf) s.siteConfig s.roster page viewer

/-- The page's mix is one of the engine's. -/
theorem known : ∃ k, topo.mixIndex page.mix = some k := by
  obtain ⟨node, inside, named⟩ := page_mix s.siteConfig s.roster placed.found
  obtain ⟨k, -, known⟩ := mixIndex_of_mem placed.wf inside
  exact ⟨k, named ▸ known⟩

theorem movable {x : Source} (member : x ∈ sourcesOf (siteOf s topo) page viewer) :
    Server.movable (siteOf s topo) page viewer x.text = .ok x := by
  have visible := (shown_iff (siteOf s topo) page viewer x).mpr member
  rw [movable_iff]
  cases x with
  | input id => exact .inl ⟨visible, rfl⟩
  | mix id =>
    have heard := List.contains_iff_mem.mp visible
    refine .inr ⟨?_, rfl, heard⟩
    have named := info_named placed.wf
    have mixed := heard_known named s.siteConfig s.roster heard
    have foreign : ((siteOf s topo).input id).isSome = false := by
      rw [Bool.eq_false_iff]
      intro there
      obtain ⟨i, found⟩ := Option.isSome_iff_exists.mp there
      obtain ⟨info, inside, rfl⟩ := List.mem_map.mp (List.mem_of_find?_eq_some found)
      have same : info.id = id := by simpa [SiteView.inputView] using List.find?_some found
      have apart := (List.nodup_append.mp named.ids).2.2
      exact apart id (List.mem_append_left _ (same ▸ List.mem_map_of_mem inside)) id mixed rfl
    simp only [showsInput, Source.text, foreign, Bool.false_and]

include linked

omit placed in
theorem site : s.site m = some (siteOf s topo) := by
  rw [App.site, linked.topology]
  rfl

theorem heeds : closing s (Socket.client m) page = (false, s) := by
  have found : s.page m page.id = some page := by
    rw [App.page, site linked]
    exact placed.found
  simp [closing, App.frozenForPage, placed.free, Socket.client, found]

omit placed in
theorem fullState_here : fullState s (Socket.client m) page viewer = stateMsg (siteOf s topo) m page viewer true := by
  simp only [fullState, Socket.client, site (s := s) linked]

omit placed in
theorem soloSeen_here : soloSeenMsg s (Socket.client m) page viewer = soloMsg (siteOf s topo) m page viewer := by
  simp only [soloSeenMsg, Socket.client, site (s := s) linked]

/-- What a session says of an event. -/
theorem event_tales (event : EngineEvent) :
    (engineEvent s (Socket.client m) page viewer session event).1.filterMap tale =
      eventTales (siteOf s topo) page viewer session (fun x => (channel m page x).2.1)
        (soloIds (siteOf s topo) viewer (m.solo page.mix)) event := by
  have state : fullState s (Socket.client m) page viewer = stateMsg (siteOf s topo) m page viewer true :=
    fullState_here viewer linked
  have solo : soloSeenMsg s (Socket.client m) page viewer = soloMsg (siteOf s topo) m page viewer :=
    soloSeen_here viewer linked
  cases event with
  | reset =>
    simp only [engineEvent, placed.heeds linked, Bool.false_eq_true, if_false, state, solo, eventTales,
      List.filterMap_cons, stateMsg_tale]
    rfl
  | changed origin changes =>
    have inputs : (if viewer.engineer then inputUpdates (siteOf s topo) changes else []).filterMap tale = [] := by
      split
      · exact inputUpdates_tales changes
      · rfl
    simp only [engineEvent, placed.heeds linked, Bool.false_eq_true, if_false, eventTales]
    simp only [Socket.client, site (s := s) linked, List.filterMap_append, inputs, List.append_nil]
    split
    · exact ownEcho_tales m changes
    · exact updatesSeen_tales m changes
  | connected =>
    simp only [engineEvent, state, eventTales, List.filterMap_cons, stateMsg_tale]
    rfl
  | disconnected | other => rfl

/-- Full channels are of the page's sources. -/
theorem event_framed (event : EngineEvent) :
    ∀ msg ∈ (engineEvent s (Socket.client m) page viewer session event).1,
      Framed ((sourcesOf (siteOf s topo) page viewer).map Source.text) msg := by
  have state : fullState s (Socket.client m) page viewer = stateMsg (siteOf s topo) m page viewer true :=
    fullState_here viewer linked
  have solo : soloSeenMsg s (Socket.client m) page viewer = soloMsg (siteOf s topo) m page viewer :=
    soloSeen_here viewer linked
  intro msg member
  cases event with
  | reset =>
    simp only [engineEvent, placed.heeds linked, Bool.false_eq_true, if_false, state, solo, List.mem_cons,
      List.not_mem_nil, or_false] at member
    rcases member with rfl | rfl
    · exact stateMsg_framed m true
    · trivial
  | changed origin changes =>
    simp only [engineEvent, placed.heeds linked, Bool.false_eq_true, if_false] at member
    simp only [Socket.client, site (s := s) linked, List.mem_append] at member
    rcases member with said | input
    · split at said
      · exact updates_framed m _ (List.mem_of_mem_filter said) _
      · exact updates_framed m _ said _
    · split at input
      · obtain ⟨c, -, said⟩ := List.mem_filterMap.mp input
        cases c with
        | input id state =>
          obtain ⟨i, -, rfl⟩ := Option.map_eq_some_iff.mp said
          trivial
        | _ => cases said
      · cases input
  | connected =>
    simp only [engineEvent, state, List.mem_cons, List.not_mem_nil, or_false] at member
    rcases member with rfl | rfl
    · trivial
    · exact stateMsg_framed m true
  | disconnected =>
    obtain rfl := List.mem_singleton.mp member
    trivial
  | other => cases member

omit placed in
/-- What a session says first. -/
theorem opening_tales : (opening s (Socket.client m) page viewer).filterMap tale =
    [.state (mutesAt (siteOf s topo) page viewer fun x => (channel m page x).2.1),
      .solo (soloIds (siteOf s topo) viewer (m.solo page.mix))] := by
  have lineup : (lineupMsg s).toList.filterMap tale = [] := by
    rw [List.filterMap_eq_nil_iff]
    intro msg member
    obtain ⟨l, -, rfl⟩ := Option.map_eq_some_iff.mp (Option.mem_toList.mp member)
    rfl
  rw [opening, List.filterMap_append, lineup, fullState_here viewer linked, soloSeen_here viewer linked,
    List.filterMap_cons, stateMsg_tale]
  rfl

omit placed in
theorem opening_framed : ∀ msg ∈ opening s (Socket.client m) page viewer,
    Framed ((sourcesOf (siteOf s topo) page viewer).map Source.text) msg := by
  intro msg member
  rw [opening, fullState_here viewer linked, soloSeen_here viewer linked, List.mem_append] at member
  rcases member with lineup | rest
  · obtain ⟨l, -, rfl⟩ := Option.map_eq_some_iff.mp (Option.mem_toList.mp lineup)
    trivial
  · simp only [List.mem_cons, List.not_mem_nil, or_false] at rest
    rcases rest with rfl | rfl
    · exact stateMsg_framed m true
    · trivial

end Placed

end IemMixer.Ui
