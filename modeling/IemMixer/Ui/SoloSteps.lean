import IemMixer.Ui.SoloRuns

/-! Each fitting move of a followed page leaves it following, and so does every run of them. -/
namespace IemMixer.Ui
open Lib Proto Server TopologyProofs IemMixer.Core MirrorProofs

theorem MixerState.Meets.longer {ids : List String} {p : MixerState} {mu : Mutes} {tales : List Tale}
    (meets : p.Meets ids mu tales) (more : List Tale) : p.Meets ids mu (tales ++ more) := by
  rcases meets with views | ⟨fresh, shown, rest, rfl⟩
  · exact .inl views
  · exact .inr ⟨fresh, shown, rest ++ more, rfl⟩

namespace Socket
variable {s : App} {topo : Topology} {page : Page} {viewer : Viewer} {session : ℕ} {d : Socket}
  (placed : Placed s topo page) (follows : d.Follows (siteOf s topo) page viewer session topo)

/-! ### The page's side -/

section
include follows

theorem Follows.ask {msg : ClientMsg} (quiet : isClick msg = false) :
    { d with asked := d.asked ++ [msg] }.Follows (siteOf s topo) page viewer session topo := by
  obtain ⟨own, solo, asks, mode⟩ := follows.mutes
  have still : ({ d with asked := d.asked ++ [msg] } : Socket).Soloing ↔ d.Soloing := by
    cases msg with
    | setSolo soloed => cases quiet
    | _ => simp [Soloing]
  refine ⟨⟨follows.linked, follows.framed, follows.seen⟩, own, solo, asks.append (.plain quiet .done), ?_⟩
  rcases mode with calm | waits
  · exact .inl ⟨still.not.mpr calm.free, calm.right⟩
  · exact .inr ⟨still.mpr waits.soloing, waits.channels, waits.known⟩

/-- The page's user moves no mute. -/
theorem Follows.page_moved {p : MixerState}
    (meets : ∀ {mu tales}, d.page.Meets ((sourcesOf (siteOf s topo) page viewer).map Source.text) mu tales →
      p.Meets ((sourcesOf (siteOf s topo) page viewer).map Source.text) mu tales) :
    { d with page := p }.Follows (siteOf s topo) page viewer session topo := by
  obtain ⟨own, solo, asks, ⟨free, mu, shows, right⟩ | ⟨soloing, channels, mu, views, knows⟩⟩ := follows.mutes
  · exact ⟨⟨follows.linked, follows.framed, follows.seen⟩, own, solo, asks, .inl ⟨free, mu, meets shows, right⟩⟩
  · refine ⟨⟨follows.linked, follows.framed, follows.seen⟩, own, solo, asks, .inr ⟨soloing, channels, mu, ?_, knows⟩⟩
    rcases meets (.inl views : d.page.Meets _ mu []) with views' | ⟨-, shown, rest, first⟩
    · exact views'
    · cases first

include placed

/-- The page takes its next message. -/
theorem Follows.take (lands : ∀ msg ∈ d.wire.head?, d.page.Lands msg) :
    (Socket.take d).Follows (siteOf s topo) page viewer session topo := by
  have distinct := placed.distinct viewer
  unfold Socket.take
  cases sent : d.wire with
  | nil => exact follows
  | cons msg rest =>
    have framed := follows.framed msg (sent ▸ List.mem_cons_self)
    have kept : ∀ other ∈ rest, Framed ((sourcesOf (siteOf s topo) page viewer).map Source.text) other :=
      fun other member => follows.framed other (sent ▸ List.mem_cons_of_mem _ member)
    have landed := lands msg (by simp [sent])
    obtain ⟨own, solo, asks, ⟨free, mu, meets, right⟩ | ⟨soloing, channels, mu, views, knows⟩⟩ := follows.mutes
    · rw [sent] at meets
      have meets' := meets.take distinct framed landed
      refine ⟨⟨follows.linked, kept, follows.seen⟩, own, solo, asks, .inl ⟨free, _, meets', ?_⟩⟩
      simp only [due, sent, List.filterMap_cons] at right
      cases said : tale msg with
      | none =>
        rw [said] at right
        exact right
      | some t =>
        rw [said] at right
        exact right
    · have views' := views.take distinct framed landed
      refine ⟨⟨follows.linked, kept, follows.seen⟩, own, solo, asks, .inr ⟨soloing, fun t member => ?_, _, views', ?_⟩⟩
      · refine channels t (List.mem_append.mpr ((List.mem_append.mp member).imp_left fun later => ?_))
        obtain ⟨other, inside, told⟩ := List.mem_filterMap.mp later
        exact List.mem_filterMap.mpr ⟨other, sent ▸ List.mem_cons_of_mem _ inside, told⟩
      · cases said : tale msg with
        | none => exact knows
        | some t =>
          have channel := channels.wire t (List.mem_filterMap.mpr ⟨msg, sent ▸ List.mem_cons_self, said⟩)
          cases t with
          | channel id muted => exact knows.of_same rfl rfl
          | solo new | state shown => cases channel

/-- The session hears its next event. -/
theorem Follows.hear (hears : d.Hears page (siteOf s topo) viewer session) :
    (Socket.hear s page viewer session d).Follows (siteOf s topo) page viewer session topo := by
  have distinct := placed.distinct viewer
  unfold Socket.hear
  cases waiting : d.events with
  | nil => exact follows
  | cons event rest =>
    have tales := placed.event_tales viewer follows.linked session event
    have framed := placed.event_framed viewer follows.linked session event
    have framed' : ∀ msg ∈ d.wire ++ (engineEvent s (client d.mirror) page viewer session event).1,
        Framed ((sourcesOf (siteOf s topo) page viewer).map Source.text) msg := by
      intro msg member
      rcases List.mem_append.mp member with before | said
      · exact follows.framed msg before
      · exact framed msg said
    obtain ⟨own, solo, asks, ⟨free, mu, meets, right⟩ | ⟨soloing, channels, mu, views, knows⟩⟩ := follows.mutes
    · refine ⟨⟨follows.linked, framed', follows.seen⟩, own, solo, asks, .inl ⟨free, mu, ?_, ?_⟩⟩
      · rw [List.filterMap_append]
        exact meets.longer _
      · -- It tells what it would once the clicks are served.
        have told : eventTales (siteOf s topo) page viewer session (fun x => own x || masked d.mirror page x)
            (d.soloNow page (siteOf s topo) viewer) event =
            eventTales (siteOf s topo) page viewer session (d.masks page) (d.soloNow page (siteOf s topo) viewer)
              event := by
          refine alike_eq (event_alike session _ event) fun x member tells => ?_
          have shows : d.masks page x = (d.own page x || masked d.mirror page x) :=
            congrArg (· || masked d.mirror page x) follows.linked.own
          rw [shows]
          cases silenced : masked d.mirror page x with
          | true => simp
          | false =>
            have wanted := hears free event (by simp [waiting]) x member tells silenced
            rw [wants, asks.clicked distinct member] at wanted
            rw [wanted]
        have same : due page (siteOf s topo) viewer session own { d with
            events := rest, wire := d.wire ++ (engineEvent s (client d.mirror) page viewer session event).1 } =
            d.due page (siteOf s topo) viewer session own := by
          have heard : (engineEvent s (client d.mirror) page viewer session event).1.filterMap tale =
              eventTales (siteOf s topo) page viewer session (fun x => own x || masked d.mirror page x)
                (d.soloNow page (siteOf s topo) viewer) event := tales.trans told.symm
          simp only [due, waiting, List.filterMap_append, heard, List.flatMap_cons, List.append_assoc]
          rfl
        rw [same]
        exact right
    · refine ⟨⟨follows.linked, framed', follows.seen⟩, own, solo, asks, .inr ⟨soloing, ?_, mu, views, knows⟩⟩
      have same : ahead page (siteOf s topo) viewer session { d with
          events := rest, wire := d.wire ++ (engineEvent s (client d.mirror) page viewer session event).1 } =
          d.ahead page (siteOf s topo) viewer session := by
        simp only [ahead, waiting, List.filterMap_append, tales, List.flatMap_cons, List.append_assoc]
        rfl
      rw [Channels, same]
      exact channels

end

/-! ### The engine's side -/

theorem unsolo_of {page : Page} {changes : List Change} (apart : ∀ c ∈ changes, ofMutes page.mix c = false) :
    ∀ c ∈ changes, ofSolo page.mix c = false := by
  intro c told
  have free := apart c told
  cases c <;> simp_all [ofMutes, ofSolo]

theorem untold_of {page : Page} {changes : List Change} {x : Source}
    (apart : ∀ c ∈ changes, ofMutes page.mix c = false) :
    ∀ c ∈ changes, ∀ l, c ≠ .level page.mix x l := by
  rintro c told l rfl
  simpa [ofMutes] using apart _ told

/-- A solo whose sources the page shows is one it sees. -/
theorem seen_sources {view : SiteView} {sources : List Source} {solo : Source → Prop} (only : ∀ x, solo x ↔ x ∈ sources)
    (inside : ∀ x ∈ sources, x ∈ sourcesOf view page viewer) :
    (∃ x, solo x) → ∃ x, solo x ∧ seenSolo view viewer x := by
  rintro ⟨x, held⟩
  refine ⟨x, held, ?_⟩
  have visible := (shown_iff view page viewer x).mpr (inside x ((only x).mp held))
  cases x with
  | input id => exact visible
  | mix id => trivial

section
variable {m : Mirror} {c : Core} {heard : List EngineEvent}

/-- Single channels told after single channels. -/
theorem Channels.more (channels : d.Channels page (siteOf s topo) viewer session) (v : Source → Bool)
    (now : BTreeSet String)
    (news : ∀ t ∈ heard.flatMap (eventTales (siteOf s topo) page viewer session v now), t.isChannel = true) :
    { d with core := c, mirror := m, events := d.events ++ heard : Socket }.Channels page (siteOf s topo) viewer
      session := by
  intro t member
  simp only [ahead, List.flatMap_append] at member
  rcases List.mem_append.mp member with wire | told
  · exact channels.wire t wire
  rcases List.mem_append.mp told with before | new
  · exact channels.events _ _ t before
  · obtain ⟨e, inside, told⟩ := List.mem_flatMap.mp new
    exact event_channels (fun t told => news t (List.mem_flatMap.mpr ⟨e, inside, told⟩)) _ _ t told

section
variable (tracks : d.Tracks (siteOf s topo) page viewer topo)
include tracks

/-- What is on its way stays as it tells while the own mutes asked for and the solo do. -/
theorem Tracks.due_still (linked : Linked topo m c) {own own' : Source → Bool}
    (same : ∀ x ∈ sourcesOf (siteOf s topo) page viewer, own' x = own x)
    (still : ∀ x, Soloed c.transient page.mix x ↔ d.solo page x) (heard : List EngineEvent) :
    let after : Socket := { d with core := c, mirror := m, events := d.events ++ heard }
    after.due page (siteOf s topo) viewer session own' = d.due page (siteOf s topo) viewer session own ++
      heard.flatMap (eventTales (siteOf s topo) page viewer session (fun x => own' x || masked m page x)
        (after.soloNow page (siteOf s topo) viewer)) := by
  intro after
  have now : after.soloNow page (siteOf s topo) viewer = d.soloNow page (siteOf s topo) viewer :=
    tracks.linked.ids_congr linked still (siteOf s topo) viewer
  have waiting : d.events.flatMap (eventTales (siteOf s topo) page viewer session
      (fun x => own' x || masked m page x) (d.soloNow page (siteOf s topo) viewer)) =
      d.events.flatMap (eventTales (siteOf s topo) page viewer session
        (fun x => own x || masked d.mirror page x) (d.soloNow page (siteOf s topo) viewer)) := by
    refine alike_eq (flatMap_alike (event_alike session _) d.events) fun x member _ => ?_
    rw [same x member, tracks.linked.masked_congr linked still]
  rw [now, due, due, now, ← waiting]
  simp only [after, List.flatMap_append, List.append_assoc]

/-- The solo stays, nothing is told, and what is asked makes the mutes what they were to be. -/
theorem Tracks.settle (linked : Linked topo m c) (still : ∀ x, Soloed c.transient page.mix x ↔ d.solo page x)
    (silent : ∀ e ∈ heard, tells page session e = false) {own : Source → Bool} {solo : Source → Prop}
    (asks : Asks (siteOf s topo) page viewer (ownMute c.state page.mix) (d.solo page) d.asked own solo)
    (mode : d.Calm (siteOf s topo) page viewer session own ∨ d.Waits (siteOf s topo) page viewer session own solo) :
    { d with core := c, mirror := m, events := d.events ++ heard : Socket }.Follows
      (siteOf s topo) page viewer session topo := by
  have seen : (∃ x, Soloed c.transient page.mix x) →
      ∃ x, Soloed c.transient page.mix x ∧ seenSolo (siteOf s topo) viewer x := by
    simp only [still]
    exact tracks.seen
  have solos : (fun x => Soloed c.transient page.mix x) = d.solo page := funext fun x => propext (still x)
  have asks' : Asks (siteOf s topo) page viewer (ownMute c.state page.mix)
      (fun x => Soloed c.transient page.mix x) d.asked own solo := solos ▸ asks
  refine ⟨⟨linked, tracks.framed, seen⟩, own, solo, asks', ?_⟩
  rcases mode with ⟨free, mu, meets, right⟩ | ⟨soloing, channels, known⟩
  · refine .inl ⟨free, mu, meets, ?_⟩
    rw [tracks.due_still linked (fun _ _ => rfl) still, silent_tales silent, List.append_nil]
    exact right.congr (fun _ _ => rfl) still
  · refine .inr ⟨soloing, channels.more (d.masks page) ∅ ?_, known⟩
    rw [silent_tales silent]
    simp

end

include follows

/-- The mix's mutes and solo stay, and nothing is told of them. -/
theorem Follows.unmoved (linked : Linked topo m c) (same : ∀ x, ownMute c.state page.mix x = d.own page x)
    (still : ∀ x, Soloed c.transient page.mix x ↔ d.solo page x)
    (silent : ∀ e ∈ heard, tells page session e = false) :
    { d with core := c, mirror := m, events := d.events ++ heard : Socket }.Follows
      (siteOf s topo) page viewer session topo := by
  obtain ⟨own, solo, asks, mode⟩ := follows.mutes
  have owns : ownMute c.state page.mix = d.own page := funext same
  exact follows.toTracks.settle linked still silent (owns ▸ asks) mode

variable [Libm] {event : Core.Event} {origin : Option ℕ}
include placed

/-- Own mutes that change without a solo, or only where the page has no channel. -/
theorem Follows.levels (linked : Linked topo m (d.core.handle event).2) (foreign : origin ≠ some session)
    (part : d.Soloing → d.resets event = false) (unsolo : ∀ c ∈ d.said event, ofSolo page.mix c = false)
    (kept : d.Solos page → ∀ x ∈ sourcesOf (siteOf s topo) page viewer,
      ownMute (d.core.handle event).2.state page.mix x = d.own page x) :
    { d with
      core := (d.core.handle event).2
      mirror := m
      events := d.events ++ ((d.core.handle event).1.map (heardOf origin)).getD []
      : Socket }.Follows (siteOf s topo) page viewer session topo := by
  have wf : WellFormed d.core.topo := follows.linked.same.symm ▸ placed.wf
  have distinct := placed.distinct viewer
  have still := fun x => solo_said (x := x) wf follows.linked.canonical unsolo
  have solos : (fun x => Soloed (d.core.handle event).2.transient page.mix x) = d.solo page :=
    funext fun x => propext (still x)
  have seen : (∃ x, Soloed (d.core.handle event).2.transient page.mix x) →
      ∃ x, Soloed (d.core.handle event).2.transient page.mix x ∧ seenSolo (siteOf s topo) viewer x := by
    simp only [still]
    exact follows.seen
  have names := placed.names_now viewer linked seen
  obtain ⟨own, solo, asks, mode⟩ := follows.mutes
  obtain ⟨own', asks', same⟩ := asks.anew (ownMute (d.core.handle event).2.state page.mix)
  have asks'' : Asks (siteOf s topo) page viewer (ownMute (d.core.handle event).2.state page.mix)
      (fun x => Soloed (d.core.handle event).2.transient page.mix x) d.asked own' solo := solos ▸ asks'
  refine ⟨⟨linked, follows.framed, seen⟩, own', solo, asks'', ?_⟩
  rcases mode with ⟨free, mu, meets, right⟩ | ⟨soloing, channels, mu, views, knows⟩
  · refine .inl ⟨free, mu, meets, ?_⟩
    by_cases active : d.Active page
    · have owns := fun x member => same x (kept (.inr ⟨free, active⟩) x member)
      rw [follows.toTracks.due_still linked owns still, heard_tales foreign, List.foldl_append]
      exact (right.congr owns still).told distinct _ _ names (fun _ _ _ => rfl) unsolo (fun _ _ _ => .inl rfl)
        fun silent x _ => by rw [linked.unmasked silent, Bool.or_false]
    · have silent : ¬∃ x, Soloed (d.core.handle event).2.transient page.mix x := by
        simp only [still]
        exact active
      have now : soloIds (siteOf s topo) viewer (m.solo page.mix) = d.soloNow page (siteOf s topo) viewer :=
        follows.linked.ids_congr linked still (siteOf s topo) viewer
      have shows : ∀ x, (own' x || masked m page x) = own' x := fun x => by
        rw [linked.unmasked silent, Bool.or_false]
      rw [due, List.foldl_append] at right
      obtain ⟨between, either, near⟩ := right.anew (fun x => own' x || masked m page x) active distinct
        (flatMap_alike (event_alike session (d.soloNow page (siteOf s topo) viewer)) d.events)
      have told := (near.congr (fun _ _ => rfl) still).told (v := fun x => own' x || masked m page x) distinct
        own' (d.resets event) names (fun held => absurd held silent) unsolo
        (fun x member untold => ?_) fun _ x _ => shows x
      · show Right _ _ _ _
        simp only [due, List.flatMap_append, List.foldl_append, soloNow, heard_tales foreign] at told ⊢
        rw [now] at told ⊢
        exact told
      · rcases own_said wf follows.linked.canonical untold with kept | ⟨-, resets⟩
        · refine .inl ?_
          rcases either x member with old | new
          · exact (same x kept).trans old.symm
          · exact (shows x).symm.trans new.symm
        · exact .inr resets
  · refine .inr ⟨soloing, channels.more (d.masks page) ∅ ?_, mu, views, knows.kept fun active x member => ?_⟩
    · rw [heard_tales foreign, part soloing, levels_tales unsolo]
      simp only [Bool.false_eq_true, if_false, List.append_nil, List.forall_mem_map]
      exact fun _ _ => rfl
    · refine same x (kept (.inl ⟨soloing, ?_⟩) x member)
      rw [views.soloed]
      exact knows.active.mpr active

/-- Another client's event. -/
theorem Follows.other (foreign : origin ≠ some session) (comes : d.Comes page (siteOf s topo) viewer session event) :
    (d.meet event origin).Follows (siteOf s topo) page viewer session topo := by
  obtain ⟨m, met, linked⟩ := meet_spec placed.wf follows.linked event origin
  rw [met]
  have wf : WellFormed d.core.topo := follows.linked.same.symm ▸ placed.wf
  have canonical := follows.linked.canonical
  cases comes with
  | levels part unsolo kept => exact follows.levels placed linked foreign part unsolo kept
  | aside apart part =>
    have same : ∀ x, ownMute (d.core.handle event).2.state page.mix x = d.own page x := by
      intro x
      refine (own_said wf canonical (untold_of apart)).resolve_right fun imported => ?_
      rw [part] at imported
      cases imported.2
    have still := fun x => solo_said (x := x) wf canonical (unsolo_of apart)
    refine follows.unmoved linked same still (heard_silent part fun c told => ?_)
    rw [if_neg foreign]
    exact apart c told
  | solo free heard sources only seen =>
    obtain ⟨own, solo, asks, calm | waits⟩ := follows.mutes
    swap
    · exact absurd waits.soloing free
    obtain ⟨-, mu, meets, right⟩ := calm
    have listed := fun x => solo_only (x := x) wf canonical only
    have same : ∀ x, ownMute (d.core.handle event).2.state page.mix x = d.own page x := by
      intro x
      refine (own_said wf canonical fun c told l level => ?_).resolve_right fun imported => ?_
      · have kept : c ∈ (d.said event).filter (ofMutes page.mix) :=
          List.mem_filter.mpr ⟨told, by rw [level]; exact beq_self_eq_true page.mix⟩
        rw [only, List.mem_singleton, level] at kept
        cases kept
      · rw [imported.1] at only
        cases only
    have sees : (∃ x, Soloed (d.core.handle event).2.transient page.mix x) →
        ∃ x, Soloed (d.core.handle event).2.transient page.mix x ∧ seenSolo (siteOf s topo) viewer x := by
      rintro ⟨x, held⟩
      have filled : sources ≠ [] := List.ne_nil_of_mem ((listed x).mp held)
      obtain ⟨y, member, sees⟩ := seen_of_filled (seen filled)
      exact ⟨y, (listed y).mpr member, sees⟩
    have owns : ownMute (d.core.handle event).2.state page.mix = d.own page := funext same
    have asked := (asks.mutes fun soloed member => free ⟨soloed, member⟩).2
    refine ⟨⟨linked, follows.framed, sees⟩, own, _, owns ▸ asked _, .inl ⟨free, mu, meets, ?_⟩⟩
    obtain ⟨k, known⟩ := placed.known
    have names := placed.names viewer known (fun x => (listed x).symm) (fun x held => ?_) sees
    · simp only [due, silent_tales heard, List.append_nil] at right
      simp only [due, List.flatMap_append, silent_tales heard, List.nil_append, heard_tales foreign]
      rw [List.foldl_append]
      exact right.moved (placed.distinct viewer) names (placed.names_now viewer linked sees) only
        fun silent x _ => by rw [linked.unmasked silent, Bool.or_false]
    · have slot := soloed_slot (x := x) (linked.same.symm ▸ placed.wf) (by rw [linked.same]; exact known) held
      rwa [linked.same] at slot

/-- A request of neither mutes nor solos. -/
theorem Follows.plain {cmd : Cmd} (plain : plainCmd cmd = true) :
    (d.meet (.request cmd) (some session)).Follows (siteOf s topo) page viewer session topo := by
  have wf : WellFormed d.core.topo := follows.linked.same.symm ▸ placed.wf
  have canonical := follows.linked.canonical
  have quiet : ∀ out, (d.core.handle (.request cmd)).1 = some out → out.effect = .none ∧ Keeping d.core out.changes :=
    fun out handled => plain_handled wf canonical plain
      (Prod.ext handled rfl : d.core.handle (.request cmd) = (some out, (d.core.handle (.request cmd)).2))
  have keeping : Keeping d.core (d.said (.request cmd)) := by
    unfold said
    cases handled : (d.core.handle (.request cmd)).1 with
    | none => simp [Keeping]
    | some out => exact (quiet out handled).2
  have part : d.resets (.request cmd) = false := by
    unfold resets
    cases handled : (d.core.handle (.request cmd)).1 with
    | none => rfl
    | some out => rw [Option.any_some, (quiet out handled).1]
  have same : ∀ x, ownMute (d.core.handle (.request cmd)).2.state page.mix x = d.own page x := by
    intro x
    have written := own_keeping (x := x) wf canonical fun c told l level => (keeping c told).2 page.mix x l level
    refine written.resolve_right fun imported => ?_
    rw [part] at imported
    cases imported.2
  have unsolo : ∀ c ∈ d.said (.request cmd), ofSolo page.mix c = false := fun c told => (keeping c told).1 page.mix
  obtain ⟨m, met, linked⟩ := meet_spec placed.wf follows.linked (.request cmd) (some session)
  rw [met]
  refine follows.unmoved linked same (fun x => solo_said wf canonical unsolo) (heard_silent part fun c told => ?_)
  rw [if_pos rfl]
  exact unsolo c told

/-- Such requests one after another. -/
theorem Follows.plains {cmds : List Cmd} (plain : ∀ cmd ∈ cmds, plainCmd cmd = true) :
    (cmds.foldl (fun d cmd => d.meet (.request cmd) (some session)) d).Follows
      (siteOf s topo) page viewer session topo := by
  induction cmds generalizing d with
  | nil => exact follows
  | cons cmd rest ih =>
    have next := follows.plain placed (plain cmd List.mem_cons_self)
    exact ih next fun cmd member => plain cmd (List.mem_cons_of_mem _ member)

end

section
variable (placed : Placed s topo page) (tracks : d.Tracks (siteOf s topo) page viewer topo)
include placed

theorem sources_named {sources : List Source} (members : ∀ x ∈ sources, x ∈ sourcesOf (siteOf s topo) page viewer) :
    (sources.map Source.text).mapM (movable (siteOf s topo) page viewer) = .ok sources := by
  induction sources with
  | nil => rfl
  | cons x rest ih =>
    rw [List.map_cons, List.mapM_cons, placed.movable viewer (members x List.mem_cons_self),
      ih fun y member => members y (List.mem_cons_of_mem _ member)]
    rfl

variable [Libm]
include tracks

/-- The request of a mute click. -/
theorem Tracks.muted {x : Source} (member : x ∈ sourcesOf (siteOf s topo) page viewer) {muted : Bool}
    {own : Source → Bool} {solo : Source → Prop}
    (asks : Asks (siteOf s topo) page viewer (Function.update (d.own page) x muted) (d.solo page) d.asked own solo)
    (mode : d.Calm (siteOf s topo) page viewer session own ∨ d.Waits (siteOf s topo) page viewer session own solo) :
    (d.meet (.request (.setLevel page.mix x none none (some muted))) (some session)).Follows
      (siteOf s topo) page viewer session topo := by
  have wf : WellFormed d.core.topo := tracks.linked.same.symm ▸ placed.wf
  have canonical := tracks.linked.canonical
  obtain ⟨k, known⟩ := placed.known
  obtain ⟨j, slot⟩ := placed.slot viewer known member
  rw [← tracks.linked.same] at known slot
  obtain ⟨out, c, handled, effect, told⟩ := setMute_handled wf canonical known slot muted
  generalize Core.Event.request (.setLevel page.mix x none none (some muted)) = event at handled
  have out_of : (d.core.handle event).1 = some out := by rw [handled]
  have changed := said_some out_of
  have part : d.resets event = false := by simp [resets, out_of, effect]
  have unimported : ¬(d.said event = [] ∧ d.resets event = true) := by simp [part]
  have unsolo : ∀ c ∈ d.said event, ofSolo page.mix c = false := by
    rw [changed]
    rcases told with ⟨none, -⟩ | ⟨l, one, -⟩
    · simp [none]
    · simp [one, ofSolo]
  have owns : ownMute (d.core.handle event).2.state page.mix = Function.update (d.own page) x muted := by
    funext y
    by_cases here : y = x
    · subst here
      rw [Function.update_self]
      rcases told with ⟨none, already⟩ | ⟨l, one, new⟩
      · rw [(own_said wf canonical (by simp [changed, none])).resolve_right unimported]
        exact already
      · rw [own_only wf canonical (changed.trans one), new]
    · rw [Function.update_of_ne here]
      refine (own_said wf canonical fun c said l level => ?_).resolve_right unimported
      rcases told with ⟨none, -⟩ | ⟨l', one, -⟩
      · rw [changed, none] at said
        cases said
      · rw [changed, one, List.mem_singleton, level] at said
        cases said
        exact here rfl
  obtain ⟨m, met, linked⟩ := meet_spec placed.wf tracks.linked event (some session)
  rw [met]
  refine tracks.settle linked (fun y => solo_said wf canonical unsolo) (heard_silent part fun c told => ?_)
    (owns ▸ asks) mode
  rw [if_pos rfl]
  exact unsolo c told

/-- The request of a solo click: every channel is told anew. -/
theorem Tracks.soloed {sources : List Source} (members : ∀ x ∈ sources, x ∈ sourcesOf (siteOf s topo) page viewer)
    (few : sources.length ≤ maxSolo) (moves : ¬∀ x, d.solo page x ↔ x ∈ sources) {own : Source → Bool}
    {solo : Source → Prop}
    (asks : Asks (siteOf s topo) page viewer (d.own page) (· ∈ sources) d.asked own solo)
    (channels : d.Channels page (siteOf s topo) viewer session) {mu : Mutes}
    (views : d.page.Views ((sourcesOf (siteOf s topo) page viewer).map Source.text) mu)
    (knows : Knows (sourcesOf (siteOf s topo) page viewer) own solo mu) :
    (d.meet (.request (.setSolo page.mix sources)) (some session)).Follows
      (siteOf s topo) page viewer session topo := by
  have wf : WellFormed d.core.topo := tracks.linked.same.symm ▸ placed.wf
  have canonical := tracks.linked.canonical
  obtain ⟨k, known⟩ := placed.known
  have heard : ∀ x ∈ sources, ∃ j, topo.slot k x = some j := fun x member => placed.slot viewer known (members x member)
  rw [← tracks.linked.same] at known heard
  obtain ⟨out, c, handled, effect, told⟩ := setSolo_handled wf known heard few
  generalize Core.Event.request (.setSolo page.mix sources) = event at handled
  have out_of : (d.core.handle event).1 = some out := by rw [handled]
  obtain ⟨-, already⟩ | ⟨list, one, exactly⟩ := told
  · exact absurd already moves
  have changed := (said_some out_of).trans one
  have unimported : ¬(d.said event = [] ∧ d.resets event = true) := by simp [changed]
  have owns : ownMute (d.core.handle event).2.state page.mix = d.own page := by
    funext x
    refine (own_said wf canonical fun c said l level => ?_).resolve_right unimported
    rw [changed, List.mem_singleton, level] at said
    cases said
  have solos : (fun x => Soloed (d.core.handle event).2.transient page.mix x) = (· ∈ sources) := by
    funext x
    have only : (d.said event).filter (ofMutes page.mix) = [.solo page.mix list] := by simp [changed, ofMutes]
    rw [propext (solo_only wf canonical only), propext (exactly x)]
  have echo : ∀ (v : Source → Bool) (now : BTreeSet String),
      (((d.core.handle event).1.map (heardOf (some session))).getD []).flatMap
        (eventTales (siteOf s topo) page viewer session v now) = channelTales (siteOf s topo) page viewer v := by
    intro v now
    rw [out_of, Option.map_some, Option.getD_some, echo_tales effect, one]
    simp [ofSolo]
  obtain ⟨m, met, linked⟩ := meet_spec placed.wf tracks.linked event (some session)
  rw [met]
  have seen : (∃ x, Soloed (d.core.handle event).2.transient page.mix x) →
      ∃ x, Soloed (d.core.handle event).2.transient page.mix x ∧ seenSolo (siteOf s topo) viewer x :=
    seen_sources (fun x => Iff.of_eq (congrFun solos x)) members
  refine ⟨⟨linked, tracks.framed, seen⟩, own, solo, ?_, ?_⟩
  · show Asks _ _ _ (ownMute (d.core.handle event).2.state page.mix)
      (fun x => Soloed (d.core.handle event).2.transient page.mix x) d.asked own solo
    rw [owns, solos]
    exact asks
  by_cases soloing : d.Soloing
  · refine .inr ⟨soloing, channels.more (d.masks page) ∅ ?_, mu, views, knows⟩
    rw [echo]
    simp [channelTales, Tale.isChannel]
  · obtain ⟨rfl, -⟩ := asks.mutes fun soloed member => soloing ⟨soloed, member⟩
    refine .inl ⟨soloing, mu, .inl views, ?_⟩
    show Right _ own (fun x => Soloed (d.core.handle event).2.transient page.mix x) _
    rw [solos]
    -- Single channels first, then each anew.
    simp only [due, List.flatMap_append, echo, ← List.append_assoc]
    rw [List.foldl_append]
    have before : ∀ t ∈ d.wire.filterMap tale ++ d.events.flatMap (eventTales (siteOf s topo) page viewer session
        (fun x => own x || masked m page x) (soloIds (siteOf s topo) viewer (m.solo page.mix))), t.isChannel = true :=
      List.forall_mem_append.mpr ⟨channels.wire, channels.events _ _⟩
    obtain ⟨soloed, saved⟩ := channels_leave before mu
    refine (knows.of_same soloed saved).channels (placed.distinct viewer) fun silent x _ => ?_
    rw [linked.unmasked (by simpa only [← solos] using silent), Bool.or_false]

end

section
variable [Libm]
include placed follows

/-- What the server makes of a request of neither. -/
theorem Follows.obeyed {msg : ClientMsg} (quiet : isClick msg = false) :
    (match command (siteOf s topo) d.mirror page viewer msg, (.ok () : Except ViewError Unit) with
      | .ok cmds, .ok () => cmds.foldl (fun (d : Socket) cmd => d.meet (.request cmd) (some session)) d
      | _, _ => d).Follows (siteOf s topo) page viewer session topo := by
  cases ran : command (siteOf s topo) d.mirror page viewer msg with
  | error e => exact follows
  | ok cmds => exact follows.plains placed (plain_command quiet ran)

/-- The server takes the page's next request. -/
theorem Follows.serve : (Socket.serve s page viewer session d).Follows (siteOf s topo) page viewer session topo := by
  have may : s.mayChange d.mirror page = .ok () := by
    have found : s.page d.mirror page.id = some page := by
      rw [App.page, Placed.site (s := s) follows.linked]
      exact placed.found
    simp [App.mayChange, placed.free, placed.calm, found]
  unfold Socket.serve
  cases asked : d.asked with
  | nil => exact follows
  | cons msg rest =>
    simp only [Placed.site (s := s) follows.linked, may]
    have tracks : { d with asked := rest }.Tracks (siteOf s topo) page viewer topo :=
      ⟨follows.linked, follows.framed, follows.seen⟩
    obtain ⟨own, solo, asks, mode⟩ := follows.mutes
    rw [asked] at asks
    -- Whether a solo click waits is as before, unless it is this one.
    have later : (∀ soloed, msg ≠ .setSolo soloed) →
        { d with asked := rest }.Calm (siteOf s topo) page viewer session own ∨
          { d with asked := rest }.Waits (siteOf s topo) page viewer session own solo := by
      intro other
      have still : ({ d with asked := rest } : Socket).Soloing ↔ d.Soloing := by
        simp only [Soloing, asked, List.mem_cons]
        exact exists_congr fun soloed => (or_iff_right fun same => other soloed same.symm).symm
      rcases mode with calm | waits
      · exact .inl ⟨still.not.mpr calm.free, calm.right⟩
      · exact .inr ⟨still.mpr waits.soloing, waits.channels, waits.known⟩
    cases asks with
    | plain quiet asks =>
      have next : { d with asked := rest }.Follows (siteOf s topo) page viewer session topo :=
        ⟨tracks, own, solo, asks, later fun soloed same => by cases same; cases quiet⟩
      exact next.obeyed placed quiet
    | @mute _ _ _ _ _ x member muted asks =>
      have ran : command (siteOf s topo) d.mirror page viewer (.setMute x.text muted) =
          .ok [.setLevel page.mix x none none (some muted)] :=
        setMute_iff.mpr ⟨x, placed.movable viewer member, rfl⟩
      simp only [ran, List.foldl_cons, List.foldl_nil]
      exact tracks.muted placed member asks (later fun soloed same => by cases same)
    | @solo _ _ _ _ _ sources members few moves asks =>
      have ran : command (siteOf s topo) d.mirror page viewer (.setSolo (sources.map Source.text)) =
          .ok [.setSolo page.mix sources] := by
        simp only [command, sources_named placed members]
        rfl
      simp only [ran, List.foldl_cons, List.foldl_nil]
      rcases mode with calm | ⟨-, channels, mu, views, knows⟩
      · exact absurd ⟨_, asked ▸ List.mem_cons_self⟩ calm.free
      · exact tracks.soloed placed members few moves asks channels views knows

end

/-! ### Every move -/

section
variable [Libm]
include placed follows

theorem Follows.step {move : Move} (fits : d.Fits page (siteOf s topo) viewer session move) :
    (d.step s page viewer session move).Follows (siteOf s topo) page viewer session topo := by
  cases move with
  | clickMute id =>
    simp only [Socket.step]
    split
    · exact follows.clickMute placed fits.1 fits.2.1 fits.2.2 (by assumption)
    · exact follows
  | clickSolo id =>
    simp only [Socket.step]
    split
    · exact follows.clickSolo placed fits.1 fits.2 (by assumption)
    · exact follows
  | clearSolo =>
    simp only [Socket.step]
    split
    · exact follows
    · next held => exact follows.clearSolo fits (Bool.eq_false_iff.mpr held)
  | touch faders => exact follows.page_moved fun meets => meets.touch faders
  | slide id levelDb pan => exact follows.page_moved fun meets => meets.slide id levelDb pan
  | ask msg => exact follows.ask fits
  | serve => exact follows.serve placed
  | other event origin => exact follows.other placed fits.1 fits.2
  | hear => exact follows.hear placed fits
  | take => exact follows.take placed fits

theorem Follows.run {moves : List Move} (fits : FitsAll s topo page viewer session d moves) :
    (d.run s page viewer session moves).Follows (siteOf s topo) page viewer session topo := by
  induction moves generalizing d with
  | nil => exact follows
  | cons move rest ih => exact ih (follows.step placed fits.1) fits.2

end

end Socket

end IemMixer.Ui
