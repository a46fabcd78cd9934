import IemMixer.Ui.SocketProofs

/-! The moves a page can follow: its clicks where nothing on its way undoes them, other clients'
mutes while no solo is on, and their solos once the session heard the mutes of before. What an
event of the engine leaves of own mutes and solo, and what the session will tell of it. -/
namespace IemMixer.Ui
open Lib Proto Server TopologyProofs IemMixer.Core MirrorProofs

/-! ### The moves that fit -/

/-- A click of the mutes or the solo. -/
def isClick : ClientMsg → Bool
  | .setMute .. | .setSolo _ => true
  | _ => false

/-- Any other request writes no level's mute and no solo. -/
theorem plain_command {view : SiteView} {mirror : Mirror} {page : Page} {viewer : Viewer} {msg : ClientMsg}
    {cmds : List Cmd} (quiet : isClick msg = false) (ok : command view mirror page viewer msg = .ok cmds) :
    ∀ cmd ∈ cmds, plainCmd cmd = true := by
  cases msg with
  | setMute id muted => cases quiet
  | setSolo soloed => cases quiet
  | setLevel id levelDb =>
    obtain ⟨src, -, ok⟩ := bind_ok_iff.mp ok
    obtain ⟨db, -, ok⟩ := bind_ok_iff.mp ok
    cases ok
    simp [plainCmd]
  | setPan id pan =>
    obtain ⟨src, -, ok⟩ := bind_ok_iff.mp ok
    split at ok
    · cases ok
      simp [plainCmd]
    · cases ok
  | setGlobalLevel levelDb =>
    obtain ⟨db, -, ok⟩ := bind_ok_iff.mp ok
    cases ok
    simp [plainCmd]
  | setStemsLevel levelDb =>
    obtain ⟨group, -, ok⟩ := bind_ok_iff.mp ok
    obtain ⟨db, -, ok⟩ := bind_ok_iff.mp ok
    cases ok
    simp [plainCmd]
  | setStemsMute muted =>
    obtain ⟨group, -, ok⟩ := bind_ok_iff.mp ok
    cases ok
    simp [plainCmd]
  | setEqBand target band param value =>
    obtain ⟨⟨t, name⟩, -, ok⟩ := bind_ok_iff.mp ok
    obtain ⟨eq, -, ok⟩ := bind_ok_iff.mp ok
    cases ok
    simp [plainCmd]
  | setLimiterParam param value =>
    simp only [command] at ok
    split_ifs at ok
    cases ok
    simp [plainCmd]
  | setGlobalMute | setLimiterEnabled | resetLimiterActivity =>
    cases ok
    simp [plainCmd]
  | setInput input trimDb muted processing =>
    simp only [command] at ok
    split_ifs at ok
    cases ok
    simp [plainCmd]
  | resetLimiterStats mix =>
    simp only [command] at ok
    split_ifs at ok
    cases ok
    simp [plainCmd]
  | _ => cases ok

namespace Socket

/-- Whether the session will say something of its mix's mutes or solo. -/
def tells (page : Page) (session : ℕ) : EngineEvent → Bool
  | .changed origin changes => changes.any (if origin = some session then ofSolo page.mix else ofMutes page.mix)
  | .reset | .connected => true
  | .disconnected | .other => false

/-- Nothing of the mutes or the solo is on its way. -/
structure Settled (page : Page) (session : ℕ) (d : Socket) : Prop where
  wire : ∀ msg ∈ d.wire, tale msg = none
  events : ∀ event ∈ d.events, tells page session event = false
  asked : ∀ msg ∈ d.asked, isClick msg = false

section
variable [Libm]

/-- What the engine says of an event. -/
def said (d : Socket) (event : Core.Event) : List Change := ((d.core.handle event).1.map (·.changes)).getD []

/-- Whether it sends its whole state. -/
def resets (d : Socket) (event : Core.Event) : Bool := (d.core.handle event).1.any fun out => match out.effect with
  | .sendState | .imported => true
  | _ => false

end

section
variable (page : Page)

def own (d : Socket) (x : Source) : Bool := ownMute d.core.state page.mix x

def solo (d : Socket) (x : Source) : Prop := Soloed d.core.transient page.mix x

/-- A solo is on in the page's mix. -/
def Active (d : Socket) : Prop := ∃ x, d.solo page x

/-- A solo click of the page's waits. -/
def Soloing (d : Socket) : Prop := ∃ soloed, .setSolo soloed ∈ d.asked

/-- An own mute after a request of the page's. -/
def clicked (x : Source) (own : Bool) : ClientMsg → Bool
  | .setMute id muted => if id = x.text then muted else own
  | _ => own

/-- An own mute after the clicks that wait. -/
def wants (d : Socket) (x : Source) : Bool := d.asked.foldl (clicked x) (d.own page x)

/-- A solo is on after the clicks that wait. -/
def Solos (d : Socket) : Prop := d.Soloing ∧ d.page.soloed.isEmpty = false ∨ ¬d.Soloing ∧ d.Active page

variable (view : SiteView) (viewer : Viewer) (session : ℕ)

/-- A channel's mute as the session shows it now. -/
def masks (d : Socket) (x : Source) : Bool := (channel d.mirror page x).2.1

/-- The solo as the session tells it now. -/
def soloNow (d : Socket) : BTreeSet String := soloIds view viewer (d.mirror.solo page.mix)

/-- What an event tells when the session hears it now. -/
def tales (d : Socket) (event : EngineEvent) : List Tale :=
  eventTales view page viewer session (d.masks page) (d.soloNow page view viewer) event

/-- What is on its way to the page. -/
def ahead (d : Socket) : List Tale := d.wire.filterMap tale ++ d.events.flatMap (d.tales page view viewer session)

/-- What is on its way when the session hears its events with the own mutes `own`. -/
def due (own : Source → Bool) (d : Socket) : List Tale := d.wire.filterMap tale ++
  d.events.flatMap (eventTales view page viewer session (fun x => own x || masked d.mirror page x)
    (d.soloNow page view viewer))

/-- Only single channels are on their way. -/
def Channels (d : Socket) : Prop := ∀ t ∈ d.ahead page view viewer session, t.isChannel = true

/-- The session's next event tells own mutes as the clicks that wait leave them. -/
def Hears (d : Socket) : Prop := ¬d.Soloing → ∀ event ∈ d.events.head?, ∀ x ∈ sourcesOf view page viewer,
  (d.tales page view viewer session event).any (·.tells x.text) = true → masked d.mirror page x = false →
  d.wants page x = d.own page x

variable [Libm]

/-- An event of another client's that the page can follow. -/
inductive Comes (d : Socket) (event : Core.Event) : Prop where
  /-- The solo stays, and with one, as the page's clicks leave it, the own mutes; while a solo
  click waits the state is not sent anew. -/
  | levels (part : d.Soloing → d.resets event = false) (unsolo : ∀ c ∈ d.said event, ofSolo page.mix c = false)
    (kept : d.Solos page → ∀ x ∈ sourcesOf view page viewer,
      ownMute (d.core.handle event).2.state page.mix x = d.own page x)
  /-- Of the mix's mutes and solo nothing is told. -/
  | aside (apart : ∀ c ∈ d.said event, ofMutes page.mix c = false) (part : d.resets event = false)
  /-- The solo changes alone, to one that shows, after the session heard all mutes of before; no
  solo click of the page waits. -/
  | solo (free : ¬d.Soloing) (heard : ∀ event ∈ d.events, tells page session event = false)
    (sources : List Source) (only : (d.said event).filter (ofMutes page.mix) = [.solo page.mix sources])
    (seen : sources ≠ [] → soloedSeen view viewer sources ≠ [])

/-- The moves after which the page still knows the own mutes. -/
def Fits (d : Socket) : Move → Prop
  -- What a solo click waits for tells each channel anew; else nothing told may undo the click.
  | .clickMute id => d.page.soloed.contains id = false ∧ (d.Soloing → d.Channels page view viewer session) ∧
    (¬d.Soloing → spares id (!d.page.mutedSignal id) d.page.soloed (d.due page view viewer session fun x =>
      if x.text = id then !d.page.mutedSignal id else d.wants page x))
  -- A click that starts a solo saves what is shown.
  | .clickSolo _ => d.Channels page view viewer session ∧
    (d.page.soloed.isEmpty = true →
      ∀ x ∈ sourcesOf view page viewer, d.page.mutedSignal x.text = d.wants page x)
  | .clearSolo => d.Channels page view viewer session
  | .ask msg => isClick msg = false
  | .other event origin => origin ≠ some session ∧ d.Comes page view viewer session event
  | .hear => d.Hears page view viewer session
  | .take => ∀ msg ∈ d.wire.head?, d.page.Lands msg
  | .touch _ | .slide .. | .serve => True

/-- The page has the own mutes: saved during a solo, shown without one. -/
structure KnowsOwn (d : Socket) : Prop where
  saved : d.Active page → ∀ x ∈ sourcesOf view page viewer, d.page.preSoloMutes[x.text]? = some (d.own page x)
  click : d.Active page → ∀ x ∈ sourcesOf view page viewer, ¬d.solo page x →
    muteClick x.text (d.page.mutedSignal x.text) d.page.soloed d.page.preSoloMutes = .masked (!d.own page x)
  ended : d.Active page → ∀ x ∈ sourcesOf view page viewer, d.page.clearSolo.mutedSignal x.text = d.own page x
  shown : ¬d.Active page → ∀ x ∈ sourcesOf view page viewer, d.page.mutedSignal x.text = d.own page x

end

/-- Moves that all fit where they are made. -/
def FitsAll [Libm] (s : App) (topo : Topology) (page : Page) (viewer : Viewer) (session : ℕ) : Socket → List Move → Prop
  | _, [] => True
  | d, move :: rest => d.Fits page (siteOf s topo) viewer session move ∧
    FitsAll s topo page viewer session (d.step s page viewer session move) rest

end Socket

/-! ### The solo a page sees -/

/-- A source a viewer gets when soloed. -/
def seenSolo (view : SiteView) (viewer : Viewer) : Source → Prop
  | .input id => showsInput view viewer id = true
  | .mix _ => True

theorem mem_soloIds {view : SiteView} {viewer : Viewer} {sources : List Source} {id : String} :
    id ∈ soloIds view viewer sources ↔ ∃ x ∈ sources, seenSolo view viewer x ∧ x.text = id := by
  simp only [soloIds, Std.ExtTreeSet.mem_ofList, soloedSeen, List.contains_iff_mem, List.mem_map, List.mem_filter]
  constructor
  · rintro ⟨x, ⟨member, kept⟩, rfl⟩
    refine ⟨x, member, ?_, rfl⟩
    cases x with
    | input id => exact kept
    | mix id => trivial
  · rintro ⟨x, member, seen, rfl⟩
    refine ⟨x, ⟨member, ?_⟩, rfl⟩
    cases x with
    | input id => exact seen
    | mix id => rfl

theorem seen_of_filled {view : SiteView} {viewer : Viewer} {sources : List Source}
    (filled : soloedSeen view viewer sources ≠ []) : ∃ x ∈ sources, seenSolo view viewer x := by
  obtain ⟨id, named⟩ := List.exists_mem_of_ne_nil _ filled
  obtain ⟨x, kept, -⟩ := List.mem_map.mp named
  obtain ⟨member, seen⟩ := List.mem_filter.mp kept
  cases x with
  | input id => exact ⟨_, member, seen⟩
  | mix id => exact ⟨_, member, trivial⟩

theorem soloIds_filled {view : SiteView} {viewer : Viewer} {sources : List Source} :
    (soloIds view viewer sources).isEmpty = false ↔ ∃ x ∈ sources, seenSolo view viewer x := by
  rw [Std.ExtTreeSet.isEmpty_eq_false_iff]
  constructor
  · intro filled
    by_contra none
    apply filled
    rw [Std.ExtTreeSet.eq_empty_iff_forall_not_mem]
    intro id member
    obtain ⟨x, inside, seen, -⟩ := mem_soloIds.mp member
    exact none ⟨x, inside, seen⟩
  · rintro ⟨x, member, seen⟩ empty
    have inside := mem_soloIds.mpr ⟨x, member, seen, rfl⟩
    rw [empty] at inside
    exact Std.ExtTreeSet.not_mem_empty inside

namespace Placed
variable {s : App} {topo : Topology} {page : Page} (placed : Placed s topo page) (viewer : Viewer)
include placed

/-- What a mix hears has a name of its own. -/
theorem text_inj {m k j : ℕ} {x y : Source} (known : topo.mixIndex page.mix = some m) (slotX : topo.slot m x = some k)
    (slotY : topo.slot m y = some j) (same : x.text = y.text) : x = y := by
  obtain ⟨node, found, -⟩ := Option.map_eq_some_iff.mp ((mixIndex_iff placed.wf page.mix m).mp known)
  have input : ∀ {id k}, topo.slot m (.input id) = some k → id ∈ topo.inputs.map (·.id) := by
    intro id k slot
    rw [show topo.slot m (.input id) = topo.inputIndex id by simp [Topology.slot, found]] at slot
    obtain ⟨n, there, rfl⟩ := Option.map_eq_some_iff.mp ((inputIndex_iff placed.wf _ _).mp slot)
    exact List.mem_map_of_mem (List.mem_of_getElem? there)
  have mixed : ∀ {id k}, topo.slot m (.mix id) = some k → id ∈ topo.mixes.map (·.id) := by
    intro id k slot
    rw [slot_mix_eq found] at slot
    obtain ⟨i, index, -⟩ := Option.bind_eq_some_iff.mp slot
    obtain ⟨n, there, rfl⟩ := Option.map_eq_some_iff.mp ((mixIndex_iff placed.wf _ _).mp index)
    exact List.mem_map_of_mem (List.mem_of_getElem? there)
  have apart : ∀ id, id ∈ topo.inputs.map (·.id) → id ∉ topo.mixes.map (·.id) := by
    intro id inside outside
    have ids := placed.wf.ids
    rw [List.nodup_append] at ids
    exact ids.2.2 id (by simp [inside]) id outside rfl
  cases x with
  | input id =>
    cases y with
    | input id' => exact congrArg _ same
    | mix id' =>
      obtain rfl : id = id' := same
      exact absurd (mixed slotY) (apart id (input slotX))
  | mix id =>
    cases y with
    | mix id' => exact congrArg _ same
    | input id' =>
      obtain rfl : id = id' := same
      exact absurd (mixed slotX) (apart id (input slotY))

/-- Every shown source is heard. -/
theorem slot {m : ℕ} (known : topo.mixIndex page.mix = some m) {x : Source}
    (member : x ∈ sourcesOf (siteOf s topo) page viewer) : ∃ k, topo.slot m x = some k :=
  shown_slot placed.wf s.siteConfig s.roster known ((shown_iff (siteOf s topo) page viewer x).mpr member)

/-- A solo's ids name it. -/
theorem names {m : ℕ} (known : topo.mixIndex page.mix = some m) {solo : Source → Prop} {sources : List Source}
    (listed : ∀ x, x ∈ sources ↔ solo x) (heard : ∀ x, solo x → ∃ k, topo.slot m x = some k)
    (seen : (∃ x, solo x) → ∃ x, solo x ∧ seenSolo (siteOf s topo) viewer x) :
    Names (sourcesOf (siteOf s topo) page viewer) solo (soloIds (siteOf s topo) viewer sources) := by
  refine ⟨?_, fun x member => ?_⟩
  · rw [soloIds_filled]
    constructor
    · rintro ⟨x, member, -⟩
      exact ⟨x, (listed x).mp member⟩
    · intro active
      obtain ⟨x, held, sees⟩ := seen active
      exact ⟨x, (listed x).mpr held, sees⟩
  · rw [mem_soloIds]
    constructor
    · rintro ⟨y, held, -, same⟩
      obtain ⟨k, slotY⟩ := heard y ((listed y).mp held)
      obtain ⟨j, slotX⟩ := placed.slot viewer known member
      obtain rfl := placed.text_inj known slotY slotX same
      exact (listed y).mp held
    · intro held
      refine ⟨x, (listed x).mpr held, ?_, rfl⟩
      have visible := (shown_iff (siteOf s topo) page viewer x).mpr member
      cases x with
      | input id => exact visible
      | mix id => trivial

end Placed

/-! ### What an event leaves, and what the session will say of it -/

section
variable {topo : Topology} {m m' : Mirror} {c c' : Core} {page : Page} {x : Source}

/-- Without a solo no channel is masked. -/
theorem Linked.unmasked (linked : Linked topo m c) (silent : ¬∃ x, Soloed c.transient page.mix x) (x : Source) :
    masked m page x = false := by
  have none : m.solo page.mix = [] := by
    rw [List.eq_nil_iff_forall_not_mem]
    exact fun y member => silent ⟨y, linked.solo_iff.mp member⟩
  simp [masked, none]

section
variable (linked : Linked topo m c) (linked' : Linked topo m' c')
  (still : ∀ x, Soloed c'.transient page.mix x ↔ Soloed c.transient page.mix x)
include linked linked' still

theorem Linked.solo_congr (x : Source) : x ∈ m'.solo page.mix ↔ x ∈ m.solo page.mix := by
  rw [linked'.solo_iff, linked.solo_iff, still]

/-- A solo masks what it did while it stays. -/
theorem Linked.masked_congr (x : Source) : masked m' page x = masked m page x := by
  have members := linked.solo_congr linked' still
  have empty : (m'.solo page.mix).isEmpty = (m.solo page.mix).isEmpty := by
    rw [Bool.eq_iff_iff]
    simp only [List.isEmpty_iff, List.eq_nil_iff_forall_not_mem, members]
  have held : (m'.solo page.mix).contains x = (m.solo page.mix).contains x := by
    rw [Bool.eq_iff_iff, List.contains_iff_mem, List.contains_iff_mem, members]
  simp only [masked, empty, held]

theorem Linked.ids_congr (view : SiteView) (viewer : Viewer) :
    soloIds view viewer (m'.solo page.mix) = soloIds view viewer (m.solo page.mix) := by
  ext id
  rw [mem_soloIds, mem_soloIds]
  simp only [linked.solo_congr linked' still]

end

/-- A soloed source is heard. -/
theorem soloed_slot (wf : WellFormed c.topo) {mix : MixId} {k : ℕ} (known : c.topo.mixIndex mix = some k)
    (held : Soloed c.transient mix x) : ∃ j, c.topo.slot k x = some j := by
  obtain ⟨i, set, j, -, named, -, read⟩ := (soloed_core_iff c mix x).mp held
  have same : i = k := Option.some.inj (((mixIndex_iff wf mix i).mpr named).symm.trans known)
  subst same
  obtain ⟨node, found, -⟩ := Option.map_eq_some_iff.mp named
  exact ⟨j, (source_slot_iff wf found j x).mp read⟩

end

/-- The session's solo names the engine's. -/
theorem Placed.names_now {s : App} {topo : Topology} {page : Page} (placed : Placed s topo page) (viewer : Viewer)
    {m : Mirror} {c : Core} (linked : Linked topo m c)
    (seen : (∃ x, Soloed c.transient page.mix x) →
      ∃ x, Soloed c.transient page.mix x ∧ seenSolo (siteOf s topo) viewer x) :
    Names (sourcesOf (siteOf s topo) page viewer) (Soloed c.transient page.mix)
      (soloIds (siteOf s topo) viewer (m.solo page.mix)) := by
  obtain ⟨k, known⟩ := placed.known
  have same := linked.same
  refine placed.names viewer known (fun x => linked.solo_iff) (fun x held => ?_) seen
  subst same
  exact soloed_slot placed.wf known held

namespace Socket
variable [Libm] {d : Socket} {page : Page} {event : Core.Event} {x : Source}

theorem said_some {out : Outcome} (handled : (d.core.handle event).1 = some out) : d.said event = out.changes := by
  rw [said, handled]
  rfl

theorem resets_imported {out : Outcome} (handled : (d.core.handle event).1 = some out)
    (imported : out.effect = .imported) : d.resets event = true := by
  rw [resets, handled, Option.any_some, imported]

section
variable (wf : WellFormed d.core.topo) (canonical : Canonical d.core)
include wf canonical

/-- A mirror of the core shows it after what it says, but for an import, which leaves the solo. -/
theorem said_shown (event : Core.Event) :
    Shows ((d.said event).foldl Mirror.change (mirrorOf d.core)) (d.core.handle event).2 ∨
      d.said event = [] ∧ d.resets event = true ∧
        ∀ mix x, Soloed (d.core.handle event).2.transient mix x ↔ Soloed d.core.transient mix x := by
  have spec := handle_spec d.core wf canonical event
  cases handled : (d.core.handle event).1 with
  | none =>
    rw [handled] at spec
    rw [said, handled]
    generalize (d.core.handle event).2 = next at spec
    cases spec
    exact .inl (Same.refl d.core)
  | some out =>
    rw [handled] at spec
    by_cases imported : out.effect = .imported
    · refine .inr ⟨?_, resets_imported handled imported, ?_⟩
      all_goals generalize (d.core.handle event).2 = next at spec
      all_goals cases spec with
      | edited effect quiet path => exact absurd imported quiet
      | imported state => first | exact said_some handled | exact fun mix x => Iff.rfl
    · rw [said_some handled]
      exact .inl (handled_shown (m := mirrorOf d.core) wf spec imported (Same.refl d.core))

/-- Levels written with the mutes they have keep the own mutes, but for an import. -/
theorem own_keeping (keeping : ∀ c ∈ d.said event, ∀ l, c = .level page.mix x l → l.muted = d.own page x) :
    ownMute (d.core.handle event).2.state page.mix x = d.own page x ∨ d.said event = [] ∧ d.resets event = true := by
  rcases said_shown wf canonical event with shows | ⟨silent, resets, -⟩
  · rw [← shows.state]
    exact .inl (own_written keeping rfl)
  · exact .inr ⟨silent, resets⟩

/-- An own mute no change tells is kept, but for an import. -/
theorem own_said (untold : ∀ c ∈ d.said event, ∀ l, c ≠ .level page.mix x l) :
    ownMute (d.core.handle event).2.state page.mix x = d.own page x ∨ d.said event = [] ∧ d.resets event = true :=
  own_keeping wf canonical fun c told l same => absurd same (untold c told l)

/-- The only change, a level's. -/
theorem own_only {l : Level} (only : d.said event = [.level page.mix x l]) :
    ownMute (d.core.handle event).2.state page.mix x = l.muted := by
  rcases said_shown wf canonical event with shows | ⟨silent, -, -⟩
  · rw [← shows.state, only, List.foldl_cons, List.foldl_nil, own_level, level_change]
    simp
  · rw [silent] at only
    cases only

/-- A solo no change tells is kept. -/
theorem solo_said (unsolo : ∀ c ∈ d.said event, ofSolo page.mix c = false) :
    Soloed (d.core.handle event).2.transient page.mix x ↔ d.solo page x := by
  rcases said_shown wf canonical event with shows | ⟨-, -, same⟩
  · rw [← shows.solo, soloed_kept unsolo]
    exact Iff.rfl
  · exact same page.mix x

/-- The only change of mutes and solos, a solo's. -/
theorem solo_only {sources : List Source} (only : (d.said event).filter (ofMutes page.mix) = [.solo page.mix sources]) :
    Soloed (d.core.handle event).2.transient page.mix x ↔ x ∈ sources := by
  rcases said_shown wf canonical event with shows | ⟨silent, -, -⟩
  · rw [← shows.solo, soloed_only only]
  · rw [silent] at only
    cases only

end

variable {view : SiteView} {viewer : Viewer} {session : ℕ}

omit [Libm] in
theorem changeTales_nil {c : Change} (apart : ofMutes page.mix c = false) (shown : Source → Bool) :
    changeTales view page viewer shown c = [] := by
  cases c with
  | level mix x l =>
    have other : mix ≠ page.mix := by simpa [ofMutes] using apart
    simp [changeTales, other]
  | solo mix sources =>
    have other : mix ≠ page.mix := by simpa [ofMutes] using apart
    simp [changeTales, other]
  | _ => rfl

omit [Libm] in
/-- An event that tells nothing. -/
theorem untold_tales {e : EngineEvent} (silent : tells page session e = false) (shown : Source → Bool)
    (now : BTreeSet String) : eventTales view page viewer session shown now e = [] := by
  cases e with
  | changed origin changes =>
    simp only [tells, List.any_eq_false, Bool.not_eq_true] at silent
    simp only [eventTales]
    split
    · next own =>
      have none : changes.filter (ofSolo page.mix) = [] := by
        rw [List.filter_eq_nil_iff]
        simpa only [own, if_true, Bool.not_eq_true] using silent
      rw [none]
      rfl
    · next foreign =>
      rw [List.flatMap_eq_nil_iff]
      intro c told
      exact changeTales_nil (by simpa only [foreign, if_false] using silent c told) shown
  | reset | connected => cases silent
  | disconnected | other => rfl

omit [Libm] in
theorem silent_tales {events : List EngineEvent} (silent : ∀ e ∈ events, tells page session e = false)
    (shown : Source → Bool) (now : BTreeSet String) :
    events.flatMap (eventTales view page viewer session shown now) = [] :=
  List.flatMap_eq_nil_iff.mpr fun e waiting => untold_tales (silent e waiting) shown now

/-- What another client's event tells. -/
theorem heard_tales {origin : Option ℕ} (foreign : origin ≠ some session) (shown : Source → Bool)
    (now : BTreeSet String) :
    (((d.core.handle event).1.map (heardOf origin)).getD []).flatMap (eventTales view page viewer session shown now) =
      (d.said event).flatMap (changeTales view page viewer shown) ++
        if d.resets event then [.state (mutesAt view page viewer shown), .solo now] else [] := by
  unfold said resets
  cases (d.core.handle event).1 with
  | none => rfl
  | some out =>
    obtain ⟨rev, changes, rt, effect⟩ := out
    have changed : (if changes.isEmpty then [] else [EngineEvent.changed origin changes]).flatMap
        (eventTales view page viewer session shown now) = changes.flatMap (changeTales view page viewer shown) := by
      cases changes with
      | nil => rfl
      | cons change rest => simp [eventTales, foreign]
    simp only [Option.map_some, Option.getD_some, heardOf, List.flatMap_append, changed]
    congr 1
    cases effect <;> rfl

/-- An event that says nothing of the mix's mutes and solo. -/
theorem heard_silent {origin : Option ℕ} (part : d.resets event = false)
    (quiet : ∀ c ∈ d.said event, (if origin = some session then ofSolo page.mix else ofMutes page.mix) c = false) :
    ∀ e ∈ ((d.core.handle event).1.map (heardOf origin)).getD [], tells page session e = false := by
  unfold said at quiet
  unfold resets at part
  cases handled : (d.core.handle event).1 with
  | none => simp
  | some out =>
    rw [handled] at quiet part
    simp only [Option.map_some, Option.getD_some] at quiet
    obtain ⟨rev, changes, rt, effect⟩ := out
    intro e heard
    simp only [Option.map_some, Option.getD_some, heardOf, List.mem_append] at heard
    rcases heard with changed | reset
    · split at changed
      · cases changed
      · obtain rfl := List.mem_singleton.mp changed
        simpa only [tells, List.any_eq_false, Bool.not_eq_true] using quiet
    · cases effect with
      | sendState | imported => cases part
      | none | sendTopology | save | shutdown => exact absurd reset List.not_mem_nil

omit [Libm] in
/-- What the session's own request tells it. -/
theorem echo_tales {out : Outcome} (effect : out.effect = .none) (shown : Source → Bool) (now : BTreeSet String) :
    (heardOf (some session) out).flatMap (eventTales view page viewer session shown now) =
      (out.changes.filter (ofSolo page.mix)).flatMap fun _ => channelTales view page viewer shown := by
  rw [heardOf, effect]
  cases out.changes with
  | nil => rfl
  | cons change rest => simp [eventTales]

end Socket

end IemMixer.Ui
