import IemMixer.Server.Session
import IemMixer.Server.SiteProofs

/-! What a page may read: no message names an input foreign to the playing lineup, a heard mix
reaches those who lead only, and what a page does not show leaves no trace in its updates. -/
namespace IemMixer.Server
open Lib Proto TopologyProofs

/-- The sources of the page's solo that an occasion speaks of. -/
def Occasion.solos (mirror : Mirror) (page : Page) : Occasion → List Source
  | .event (.changed _ changes) => mirror.solo page.mix ++ changes.flatMap fun
    | .solo mix sources => if mix = page.mix then sources else []
    | _ => []
  | _ => mirror.solo page.mix

/-- The ids a message gives: of channels, targets, strips and meters. -/
def named : ServerMsg → List String
  | .state channels _ _ _ mix _ _ group => channels.map (·.id) ++ (mix.toList ++ group.toList)
  | .channelUpdate id .. => [id]
  | .soloUpdate soloed => soloed
  | .eqParams target .. => [target]
  | .meters meters => meters.map (·.1)
  | _ => []

/-- The ids of the channels a `State` or a `ChannelUpdate` carries. -/
def carried : ServerMsg → List String
  | .state channels .. => channels.map (·.id)
  | .channelUpdate id .. => [id]
  | _ => []

section
variable {topo : TopologyInfo} (wf : Named topo) (cfg : Config) (roster : Option RosterState) (page : Page) (viewer : Viewer)

/-- Whatever names `id`, it is no foreign input, unless it is the page's own mix or among `solos`. -/
def Clean (view : SiteView) (page : Page) (solos : List Source) (id : String) : Prop :=
  view.foreignInput id = true → id = page.mix ∨ Source.mix id ∈ solos

variable {page viewer} {solos : List Source}

theorem clean_shown {view : SiteView} {id : String} (shows : showsInput view viewer id = true) :
    Clean view page solos id := by
  intro foreign
  simp [showsInput, foreign] at shows

theorem foreign_known {id : String} (foreign : (SiteView.buildWith cfg roster topo).1.foreignInput id = true) :
    id ∈ topo.inputs.map (·.id) := by
  obtain ⟨x, member, same⟩ := List.any_eq_true.mp foreign
  rw [← beq_iff_eq.mp same]
  simp only [SiteView.buildWith, SiteView.foreignOf] at member
  split at member
  · obtain ⟨i, inside, rfl⟩ := List.mem_map.mp member
    exact List.mem_map_of_mem (List.mem_of_mem_filter inside)
  · cases member

include wf

theorem clean_mix {id : String} (known : id ∈ topo.mixes.map (·.id)) :
    Clean (SiteView.buildWith cfg roster topo).1 page solos id := by
  intro foreign
  obtain ⟨-, -, apart⟩ := List.nodup_append.mp wf.ids
  exact absurd rfl (apart id (List.mem_append_left _ (foreign_known cfg roster foreign)) id known)

theorem clean_group {id : String} (known : (SiteView.buildWith cfg roster topo).1.group = some id) :
    Clean (SiteView.buildWith cfg roster topo).1 page solos id := by
  intro foreign
  obtain ⟨g, first, rfl⟩ := Option.map_eq_some_iff.mp known
  obtain ⟨-, -, apart⟩ := List.nodup_append.mp (List.nodup_append.mp wf.ids).1
  exact absurd rfl (apart g.id (foreign_known cfg roster foreign) g.id (List.mem_map_of_mem (List.mem_of_head? first)))

theorem clean_channel {c : Channel} {mirror : Mirror}
    (member : c ∈ channels (SiteView.buildWith cfg roster topo).1 mirror page viewer) :
    Clean (SiteView.buildWith cfg roster topo).1 page solos c.id := by
  rcases List.mem_append.mp member with input | mix
  · obtain ⟨i, shows, rfl⟩ := List.mem_map.mp input
    exact clean_shown (List.mem_filter.mp shows).2
  · obtain ⟨h, heard, rfl⟩ := List.mem_map.mp mix
    exact clean_mix wf cfg roster (heard_known wf cfg roster heard)

theorem clean_state {mirror : Mirror} {connected : Bool} :
    ∀ id ∈ named (stateMsg (SiteView.buildWith cfg roster topo).1 mirror page viewer connected),
      Clean (SiteView.buildWith cfg roster topo).1 page solos id := by
  intro id member
  rcases List.mem_append.mp member with channel | strip
  · obtain ⟨c, inside, rfl⟩ := List.mem_map.mp channel
    exact clean_channel wf cfg roster inside
  · rcases List.mem_append.mp strip with own | group
    · exact fun _ => .inl (Option.mem_toList.mp own |> fun h => (Option.some.inj h).symm)
    · exact clean_group wf cfg roster (Option.mem_toList.mp group)

omit wf in
theorem clean_soloed {view : SiteView} {sources : List Source} (spoken : ∀ s ∈ sources, s ∈ solos) :
    ∀ id ∈ soloedSeen view viewer sources, Clean view page solos id := by
  intro id member
  obtain ⟨s, kept, rfl⟩ := List.mem_map.mp member
  obtain ⟨inside, seen⟩ := List.mem_filter.mp kept
  cases s with
  | input id => exact clean_shown seen
  | mix id => exact fun _ => .inr (spoken _ inside)

theorem clean_updates {mirror : Mirror} {changes : List Change}
    (spoken : ∀ sources, Change.solo page.mix sources ∈ changes → ∀ s ∈ sources, s ∈ solos) {msg : ServerMsg}
    (member : msg ∈ updatesSeen (SiteView.buildWith cfg roster topo).1 mirror page viewer changes) :
    ∀ id ∈ named msg, Clean (SiteView.buildWith cfg roster topo).1 page solos id := by
  obtain ⟨c, inside, said⟩ := List.mem_flatMap.mp member
  intro id names
  cases c with
  | level mix source level =>
    simp only [updatesOf] at said
    split at said
    · rename_i shows
      rw [List.mem_singleton.mp said] at names
      rw [List.mem_singleton.mp names]
      cases source with
      | input i => exact @clean_shown page viewer solos _ _ shows.2
      | mix h =>
        have heard : h ∈ heard (SiteView.buildWith cfg roster topo).1 page viewer := by simpa [shown] using shows.2
        exact clean_mix wf cfg roster (heard_known wf cfg roster heard)
    · cases said
  | solo mix sources =>
    simp only [updatesOf] at said
    split at said
    · rename_i here
      subst here
      rcases List.mem_cons.mp said with rfl | channel
      · exact clean_soloed (spoken sources inside) id names
      · obtain ⟨c, shows, rfl⟩ := List.mem_map.mp channel
        rw [List.mem_singleton.mp names]
        exact clean_channel wf cfg roster shows
    · cases said
  | mixOut mix out =>
    simp only [updatesOf] at said
    split at said
    · rw [List.mem_singleton.mp said] at names
      cases names
    · cases said
  | group mix group state =>
    simp only [updatesOf] at said
    split at said
    · rw [List.mem_singleton.mp said] at names
      cases names
    · cases said
  | _ => cases said

/-- An EQ modal opens on the page's mix, its group, a shown input or a mix of the topology. -/
theorem clean_target {mirror : Mirror} {target : String} {msg : ServerMsg}
    (ok : eqParamsMsg (SiteView.buildWith cfg roster topo).1 mirror page viewer target = .ok msg) :
    ∀ id ∈ named msg, Clean (SiteView.buildWith cfg roster topo).1 page solos id := by
  obtain ⟨⟨t, name⟩, may, said⟩ := bind_ok_iff.mp ok
  cases said
  intro id names
  rw [List.mem_singleton.mp names]
  unfold eqTarget at may
  split at may
  · rename_i own
    exact fun _ => .inl own
  split at may
  · rename_i group
    exact clean_group wf cfg roster group
  split at may
  · rename_i i found
    exact clean_shown (Option.filter_eq_some_iff.mp found).2
  · split at may
    · rename_i m found
      unfold source at found
      split at found
      · cases found
      · obtain ⟨x, known, inside⟩ := Option.bind_eq_some_iff.mp found
        obtain ⟨h, hears, same⟩ := Option.map_eq_some_iff.mp inside
        obtain ⟨info, there, -, -, all⟩ := mix_info cfg roster known
        have free := List.find?_some hears
        simp only [Bool.and_eq_true, beq_iff_eq] at free
        rw [← free.1]
        exact clean_mix wf cfg roster (wf.known info there h (all ▸ List.mem_of_find?_eq_some hears))
    · cases may
    · cases may

omit wf in
/-- The meters of an input the viewer does not see are dropped. -/
theorem clean_meters {s : App} {engine : Client} {merged : Merged} {msg : ServerMsg}
    (topology : engine.mirror.topology = some topo) (said : metersMsg s engine page viewer merged = some msg) :
    ∀ id ∈ named msg, Clean (SiteView.buildWith s.siteConfig s.roster topo).1 page solos id := by
  simp only [metersMsg, App.site, topology, Option.map_some, Option.bind_eq_bind, Option.bind_some, Option.pure_def,
    Option.some.injEq] at said
  subst said
  intro id names foreign
  obtain ⟨⟨key, peaks⟩, kept, rfl⟩ := List.mem_map.mp names
  have passed := (List.mem_filter.mp kept).2
  obtain ⟨i, inside, same⟩ := List.mem_map.mp (foreign_known s.siteConfig s.roster foreign)
  have known : ((SiteView.buildWith s.siteConfig s.roster topo).1.input key).isSome = true := by
    apply List.find?_isSome.mpr
    exact ⟨_, List.mem_map_of_mem inside, by simpa [SiteView.inputView] using same⟩
  have listed : ((SiteView.buildWith s.siteConfig s.roster topo).1.input key).isNone = false := by
    rw [← Option.not_isSome, known]
    rfl
  simp [listed, showsInput, foreign] at passed

end

section
variable {topo : TopologyInfo} (wf : Named topo) {s : App} {engine : Client} (page : Page) (viewer : Viewer)
  (topology : engine.mirror.topology = some topo)
include topology

theorem site_eq : s.site engine.mirror = some (SiteView.buildWith s.siteConfig s.roster topo).1 := by
  rw [App.site, topology, Option.map_some]

theorem fullState_eq : fullState s engine page viewer =
    stateMsg (SiteView.buildWith s.siteConfig s.roster topo).1 engine.mirror page viewer engine.connected := by
  rw [fullState, site_eq topology]

theorem soloSeenMsg_eq : soloSeenMsg s engine page viewer =
    soloMsg (SiteView.buildWith s.siteConfig s.roster topo).1 engine.mirror page viewer := by
  rw [soloSeenMsg, site_eq topology]

end

/-- What a session says: its state or its solo as they are, a part of a change's updates,
answers to what was asked, or nothing that gives ids. -/
inductive Said (s : App) (engine : Client) (view : SiteView) (page : Page) (viewer : Viewer) :
    Occasion → ServerMsg → Prop where
  | state (o : Occasion) : Said s engine view page viewer o (stateMsg view engine.mirror page viewer engine.connected)
  | solo (o : Occasion) : Said s engine view page viewer o (soloMsg view engine.mirror page viewer)
  | plain (o : Occasion) {msg : ServerMsg} (no : named msg = [] ∧ carried msg = []) : Said s engine view page viewer o msg
  | update {origin : Option ℕ} {changes taken : List Change} {msg : ServerMsg} (among : taken ⊆ changes)
      (member : msg ∈ updatesSeen view engine.mirror page viewer taken) :
    Said s engine view page viewer (.event (.changed origin changes)) msg
  | meters {merged : Merged} {msg : ServerMsg} (said : metersMsg s engine page viewer merged = some msg) :
    Said s engine view page viewer (.meters merged) msg
  | eqParams {target : String} {msg : ServerMsg}
      (said : eqParamsMsg view engine.mirror page viewer target = .ok msg) :
    Said s engine view page viewer (.eqParams target) msg

theorem said_lineup {s : App} {engine : Client} {view : SiteView} {page : Page} {viewer : Viewer} {o : Occasion}
    {msg : ServerMsg} (member : msg ∈ (lineupMsg s).toList) : Said s engine view page viewer o msg := by
  obtain ⟨l, -, rfl⟩ := Option.map_eq_some_iff.mp (Option.mem_toList.mp member)
  exact .plain o ⟨rfl, rfl⟩

section
variable {topo : TopologyInfo} (wf : Named topo) {s : App} {engine : Client} {page : Page} {viewer : Viewer}
  (topology : engine.mirror.topology = some topo)
include topology

theorem said_full {o : Occasion} {msg : ServerMsg}
    (member : msg ∈ [fullState s engine page viewer, soloSeenMsg s engine page viewer]) :
    Said s engine (SiteView.buildWith s.siteConfig s.roster topo).1 page viewer o msg := by
  rw [fullState_eq page viewer topology, soloSeenMsg_eq page viewer topology] at member
  rcases List.mem_pair.mp member with rfl | rfl
  · exact .state o
  · exact .solo o

theorem said_event {session : ℕ} {ev : EngineEvent} {msg : ServerMsg}
    (member : msg ∈ (engineEvent s engine page viewer session ev).1) :
    Said s engine (SiteView.buildWith s.siteConfig s.roster topo).1 page viewer (.event ev) msg := by
  cases ev with
  | connected =>
    rw [engineEvent, fullState_eq page viewer topology] at member
    rcases List.mem_pair.mp member with rfl | rfl
    · exact .plain _ ⟨rfl, rfl⟩
    · exact .state _
  | disconnected =>
    rw [List.mem_singleton.mp member]
    exact .plain _ ⟨rfl, rfl⟩
  | reset =>
    simp only [engineEvent] at member
    split at member
    · cases member
    · exact said_full topology member
  | changed origin changes =>
    simp only [engineEvent, site_eq topology] at member
    split at member
    · cases member
    rcases List.mem_append.mp member with update | console
    · split at update
      · exact .update (List.filter_subset_self changes) (List.mem_of_mem_filter update)
      · exact .update (List.Subset.refl changes) update
    · split at console
      · obtain ⟨c, -, shows⟩ := List.mem_filterMap.mp console
        split at shows
        · obtain ⟨i, -, rfl⟩ := Option.map_eq_some_iff.mp shows
          exact .plain _ ⟨rfl, rfl⟩
        · cases shows
      · cases console
  | other => cases member

theorem said_of_msgs {o : Occasion} {session : ℕ} {msg : ServerMsg}
    (member : msg ∈ o.msgs s engine page viewer session) :
    Said s engine (SiteView.buildWith s.siteConfig s.roster topo).1 page viewer o msg := by
  cases o with
  | opening =>
    rcases List.mem_append.mp member with lineup | now
    · exact said_lineup lineup
    · exact said_full topology now
  | event ev => exact said_event topology member
  | lagged => exact said_full topology member
  | lineup =>
    simp only [Occasion.msgs, onLineup] at member
    split at member
    · rename_i told close
      split at close
      · cases close
        exact said_lineup member
      · cases close
    · rename_i msgs refresh
      split at refresh
      · cases refresh
      · cases refresh
        rcases List.mem_append.mp member with lineup | now
        · exact said_lineup lineup
        · rw [List.mem_singleton.mp now, fullState_eq page viewer topology]
          exact .state _
  | meters merged => exact .meters (Option.mem_toList.mp member)
  | eqParams target =>
    have answered := Option.mem_toList.mp member
    rw [getEqParams, site_eq topology, Option.bind_some] at answered
    cases said : eqParamsMsg (SiteView.buildWith s.siteConfig s.roster topo).1 engine.mirror page viewer target with
    | ok answer =>
      rw [said] at answered
      cases answered
      exact .eqParams said
    | error e =>
      rw [said] at answered
      cases answered

include wf

/-- No message gives a foreign input's id. -/
theorem said_clean {o : Occasion} {msg : ServerMsg}
    (said : Said s engine (SiteView.buildWith s.siteConfig s.roster topo).1 page viewer o msg) :
    ∀ id ∈ named msg, Clean (SiteView.buildWith s.siteConfig s.roster topo).1 page (o.solos engine.mirror page) id := by
  have now : ∀ source ∈ engine.mirror.solo page.mix, source ∈ o.solos engine.mirror page := by
    intro source inside
    unfold Occasion.solos
    split
    · exact List.mem_append_left _ inside
    · exact inside
  cases said with
  | state => exact clean_state wf s.siteConfig s.roster
  | solo => exact clean_soloed now
  | plain o no =>
    rw [no.1]
    exact nofun
  | update among member =>
    apply clean_updates wf s.siteConfig s.roster _ member
    intro sources inside source listed
    apply List.mem_append_right
    exact List.mem_flatMap.mpr ⟨_, among inside, by simpa using listed⟩
  | meters said => exact clean_meters topology said
  | eqParams said => exact clean_target wf s.siteConfig s.roster said

end

section
variable {view : SiteView} {page : Page} {viewer : Viewer} {mirror : Mirror}

/-- A viewer who leads nothing sees inputs only. -/
theorem follower_channel (follows : viewer.leads view = false) {c : Channel}
    (member : c ∈ channels view mirror page viewer) : ∃ i ∈ view.inputs, i.id = c.id := by
  simp only [channels, heard, follows, Bool.false_eq_true, if_false, List.map_nil, List.append_nil] at member
  obtain ⟨i, shows, rfl⟩ := List.mem_map.mp member
  exact ⟨i, List.mem_of_mem_filter shows, rfl⟩

theorem follower_update (follows : viewer.leads view = false) {changes : List Change}
    {msg : ServerMsg} (member : msg ∈ updatesSeen view mirror page viewer changes) :
    ∀ id ∈ carried msg, ∃ i ∈ view.inputs, i.id = id := by
  obtain ⟨c, -, said⟩ := List.mem_flatMap.mp member
  intro id names
  cases c with
  | level mix source level =>
    simp only [updatesOf] at said
    split at said
    · rename_i shows
      rw [List.mem_singleton.mp said] at names
      rw [List.mem_singleton.mp names]
      cases source with
      | input i =>
        have seen : showsInput view viewer i = true := shows.2
        simp only [showsInput, Bool.and_eq_true] at seen
        obtain ⟨x, found⟩ := Option.isSome_iff_exists.mp seen.1
        have same : x.id = i := by simpa using List.find?_some found
        exact ⟨x, List.mem_of_find?_eq_some found, same⟩
      | mix h => simp [shown, heard, follows] at shows
    · cases said
  | solo mix sources =>
    simp only [updatesOf] at said
    split at said
    · rcases List.mem_cons.mp said with rfl | channel
      · cases names
      · obtain ⟨c, shows, rfl⟩ := List.mem_map.mp channel
        rw [List.mem_singleton.mp names]
        exact follower_channel follows shows
    · cases said
  | mixOut mix out =>
    simp only [updatesOf] at said
    split at said
    · rw [List.mem_singleton.mp said] at names
      cases names
    · cases said
  | group mix group state =>
    simp only [updatesOf] at said
    split at said
    · rw [List.mem_singleton.mp said] at names
      cases names
    · cases said
  | _ => cases said

/-- A viewer who leads nothing is carried inputs only. -/
theorem follower_said (follows : viewer.leads view = false) {s : App} {engine : Client} {o : Occasion} {msg : ServerMsg}
    (said : Said s engine view page viewer o msg) : ∀ id ∈ carried msg, ∃ i ∈ view.inputs, i.id = id := by
  intro id names
  cases said with
  | state =>
    obtain ⟨c, member, rfl⟩ := List.mem_map.mp names
    exact follower_channel follows member
  | solo => cases names
  | plain o no =>
    rw [no.2] at names
    cases names
  | update among member => exact follower_update follows member id names
  | meters said =>
    obtain ⟨site, -, rest⟩ := Option.bind_eq_some_iff.mp said
    obtain ⟨topo, -, rest⟩ := Option.bind_eq_some_iff.mp rest
    cases rest
    cases names
  | eqParams said =>
    obtain ⟨⟨t, name⟩, -, rest⟩ := bind_ok_iff.mp said
    cases rest
    cases names

end

section
variable (view : SiteView) (page : Page) (viewer : Viewer)

/-- Two mirrors that show the viewer the same. -/
structure Agree (m m' : Mirror) : Prop where
  solo : m'.solo page.mix = m.solo page.mix
  out : m'.out page.mix = m.out page.mix
  group : ∀ g, view.group = some g → m'.group page.mix g = m.group page.mix g
  levels : ∀ s, shown view page viewer s = true → m'.level page.mix s = m.level page.mix s

/-- All changes but the levels of hidden sources. -/
def visible : Change → Bool
  | .level _ source _ => shown view page viewer source
  | _ => true

variable {view page viewer} {m m' : Mirror}

theorem Agree.channel (agree : Agree view page viewer m m') {s : Source} (shows : shown view page viewer s = true) :
    channel m' page s = channel m page s := by
  simp only [Server.channel, masked, agree.levels s shows, agree.solo]

theorem Agree.channels (agree : Agree view page viewer m m') :
    channels view m' page viewer = channels view m page viewer := by
  simp only [Server.channels]
  congr 1
  · apply List.map_congr_left
    intro i member
    rw [agree.channel (s := .input i.id) (List.mem_filter.mp member).2]
  · apply List.map_congr_left
    intro h member
    rw [agree.channel (s := .mix h) (by simpa [shown] using member)]

theorem Agree.stateMsg (agree : Agree view page viewer m m') (connected : Bool) :
    stateMsg view m' page viewer connected = stateMsg view m page viewer connected := by
  have strip : view.group.map (m'.group page.mix) = view.group.map (m.group page.mix) := by
    cases held : view.group with
    | none => rfl
    | some g => exact congrArg some (agree.group g held)
  simp only [Server.stateMsg, agree.channels, agree.out, strip]

theorem Agree.updatesOf (agree : Agree view page viewer m m') (c : Change) :
    updatesOf view m' page viewer c = updatesOf view m page viewer c := by
  cases c with
  | level mix source level =>
    simp only [Server.updatesOf]
    split
    · rename_i shows
      rw [agree.channel shows.2]
    · rfl
  | solo mix sources => simp only [Server.updatesOf, agree.channels]
  | _ => rfl

/-- A hidden source's level says nothing. -/
theorem updatesSeen_visible (m : Mirror) (changes : List Change) :
    updatesSeen view m page viewer changes = updatesSeen view m page viewer (changes.filter (visible view page viewer)) := by
  induction changes with
  | nil => rfl
  | cons c rest ih =>
    simp only [updatesSeen, List.flatMap_cons] at ih ⊢
    cases seen : visible view page viewer c with
    | true => rw [List.filter_cons_of_pos seen, List.flatMap_cons, ih]
    | false =>
      rw [List.filter_cons_of_neg (by simp [seen]), ← ih]
      have silent : updatesOf view m page viewer c = [] := by
        cases c with
        | level mix source level =>
          have hidden : shown view page viewer source = false := seen
          simp [updatesOf, hidden]
        | _ => cases seen
      rw [silent, List.nil_append]

theorem Agree.updatesSeen (agree : Agree view page viewer m m') {changes changes' : List Change}
    (same : changes'.filter (visible view page viewer) = changes.filter (visible view page viewer)) :
    updatesSeen view m' page viewer changes' = updatesSeen view m page viewer changes := by
  rw [updatesSeen_visible m', updatesSeen_visible m, same]
  exact List.flatMap_congr fun c _ => agree.updatesOf c

end

/-- No message gives a foreign input's id, but as the name of a mix: the page's own or one its
solo holds, and no mix of the topology is so named. Heard mixes are carried to those who lead
only. And mirrors that agree on what the page shows give one state, and one list of updates
whatever the hidden levels in their deltas. -/
theorem page_reads_own_lineup {digest : TopologyInfo → String} (site : Compiled digest) (s : App) (engine : Client)
    (topology : engine.mirror.topology = some site.topo.info) (page : Page) (viewer : Viewer) :
    let view := (SiteView.buildWith s.siteConfig s.roster site.topo.info).1
    (∀ (o : Occasion) (session : ℕ), ∀ msg ∈ o.msgs s engine page viewer session,
      (∀ id ∈ named msg, view.foreignInput id = true → id ∉ site.topo.info.mixes.map (·.id) ∧
        (id = page.mix ∨ Source.mix id ∈ o.solos engine.mirror page)) ∧
      (viewer.leads view = false → ∀ id ∈ carried msg, id ∉ site.topo.info.mixes.map (·.id))) ∧
    ∀ m m', Agree view page viewer m m' →
      (∀ connected, stateMsg view m' page viewer connected = stateMsg view m page viewer connected) ∧
      ∀ changes changes', changes'.filter (visible view page viewer) = changes.filter (visible view page viewer) →
        updatesSeen view m' page viewer changes' = updatesSeen view m page viewer changes := by
  intro view
  have wf : Named site.topo.info := info_named (compile_spec digest site).1
  obtain ⟨-, -, apart⟩ := List.nodup_append.mp wf.ids
  constructor
  · intro o session msg member
    have said : Said s engine view page viewer o msg := said_of_msgs topology member
    constructor
    · intro id names foreign
      have input := foreign_known s.siteConfig s.roster foreign
      exact ⟨fun mix => apart id (List.mem_append_left _ input) id mix rfl,
        said_clean wf topology said id names foreign⟩
    · intro follows id names mix
      obtain ⟨i, inside, rfl⟩ := follower_said follows said id names
      obtain ⟨x, input, rfl⟩ := List.mem_map.mp inside
      exact apart x.id (List.mem_append_left _ (List.mem_map_of_mem input)) x.id mix rfl
  · exact fun m m' agree => ⟨agree.stateMsg, fun _ _ same => agree.updatesSeen same⟩

/-- Ben's page of `duet`, where Anna leads and the voice is hers in another band. -/
theorem page_reads_own_lineup_ben :
    let choir : Lineup := { id := "choir", main := true, leaders := ["anna"], sets := .ofList [("ben", "ben")] }
    let voice : LineupInput := { name := "Voice", owner := some "anna" }
    let band : Lineup := { id := "band", inputs := .ofList [("voice", voice)] }
    let s : App := { siteConfig := {}, roster := some ⟨{ lineups := [choir, band] }, "", "choir"⟩ }
    let engine : Client := { mirror := { topology := some duetCompiled.topo.info } }
    let page : Page := { id := "ben", name := "Ben", mix := "ben", member := some "ben" }
    ∀ msg ∈ (engineEvent s engine page (Viewer.ofPage page) 2 (.changed none [.solo "ben" [.mix "anna"]])).1,
      "voice" ∉ named msg ∧ "anna" ∉ carried msg := by
  intro choir voice band s engine page msg member
  have read := (page_reads_own_lineup duetCompiled s engine rfl page (Viewer.ofPage page)).1
    (.event (.changed none [.solo "ben" [.mix "anna"]])) 2 msg member
  constructor
  · intro names
    rcases (read.1 "voice" names (by decide +kernel)).2 with own | soloed
    · exact absurd own (by decide)
    · simp [Occasion.solos, engine, page, Mirror.solo] at soloed
  · exact fun carries => read.2 (by decide +kernel) "anna" carries (by decide)

end IemMixer.Server
