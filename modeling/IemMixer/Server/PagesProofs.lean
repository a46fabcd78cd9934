import IemMixer.Server.MovesProofs
import IemMixer.Server.MigrationFiles
import IemMixer.Server.RosterFacts
import IemMixer.Server.SiteView

/-! Whose page is whose: every player has one on their own set, no two pages lead to one mix, and
which mixes without a member keep their own. -/
namespace IemMixer.Server
open Lib Proto

namespace Pages

structure Fits (cfg : Config) (r : RosterState) (topo : TopologyInfo) (l : Lineup) : Prop where
  lineup : r.lineup = some l
  once : (l.sets.toList.map (·.2)).Nodup
  known : ∀ set name : String, l.sets[set]? = some name → ∃ p, r.roster.person name = some p ∧ p.id = name
  human : ∀ set name : String, l.sets[set]? = some name → name ≠ engineerId
  there : ∀ set name : String, l.sets[set]? = some name →
    topo.mixes.any (·.id == set) = true ∧ set ≠ topo.engineer
  engineer : ∀ m, cfg.member engineerId = some m → m.mix = topo.engineer

section
variable {cfg : Config} {r : RosterState} {topo : TopologyInfo} {l : Lineup}

theorem lineup_member (active : r.lineup = some l) : l ∈ r.roster.lineups := by
  rcases Option.or_eq_some_iff.mp active with here | ⟨-, main⟩
  · exact List.mem_of_find?_eq_some here
  · exact List.mem_of_find?_eq_some main

theorem isSet_ofInfo {set : String} (isSet : (TopologyFacts.ofInfo topo).isSet set = true) :
    topo.mixes.any (·.id == set) = true ∧ set ≠ topo.engineer := by
  obtain ⟨fact, found, fine⟩ := (Option.any_eq_true _ _).mp isSet
  have named : fact.id = set := by simpa using List.find?_some found
  obtain ⟨m, member, rfl⟩ := List.mem_map.mp (List.mem_of_find?_eq_some found)
  refine ⟨List.any_eq_true.mpr ⟨m, member, by simpa using named⟩, ?_⟩
  rintro rfl
  simp only [TopologyFacts.ofInfo, Bool.and_eq_true, bne_iff_ne, ne_eq] at fine
  exact fine.2 named

theorem against_isSet {facts : TopologyFacts} {set : String} (clean : r.roster.problemsAgainst facts = [])
    (member : l ∈ r.roster.lineups) (worn : set ∈ l.sets.keys) : facts.isSet set = true := by
  obtain ⟨lineups, -⟩ := List.append_eq_nil_iff.mp clean
  obtain ⟨i, bound, rfl⟩ := List.getElem_of_mem member
  have own := List.flatMap_eq_nil_iff.mp lineups (r.roster.lineups[i], i)
    (List.mk_mem_zipIdx_iff_getElem?.mpr (List.getElem?_eq_getElem bound))
  obtain ⟨foreign, -⟩ := List.append_eq_nil_iff.mp own
  obtain ⟨sets, -⟩ := List.append_eq_nil_iff.mp foreign
  obtain ⟨j, bound', rfl⟩ := List.getElem_of_mem worn
  have none := List.flatMap_eq_nil_iff.mp sets (_, j)
    (List.mk_mem_zipIdx_iff_getElem?.mpr (List.getElem?_eq_getElem bound'))
  by_contra bad
  simp [bad] at none

/-- Whoever a lineup places is one of the people. -/
theorem placed_known {ids : List String} {equipment : Option Equipment} {i : ℕ} {seen : List String}
    (none : lineupProblems ids equipment i seen l = []) {set name : String} (worn : l.sets[set]? = some name) :
    name ∈ ids := by
  simp only [lineupProblems, List.append_eq_nil_iff] at none
  obtain ⟨j, before, own⟩ := walk_each none.1.1.1.2 (Std.ExtTreeMap.mem_toList_iff_getElem?_eq_some.mpr worn)
  by_contra unknown
  simp [unknown] at own

theorem fits_of_clean (clean : r.roster.problems = [])
    (against : r.roster.problemsAgainst (TopologyFacts.ofInfo topo) = [])
    (engineer : ∀ m, cfg.member engineerId = some m → m.mix = topo.engineer) (active : r.lineup = some l) :
    Fits cfg r topo l := by
  have member := lineup_member active
  simp only [Roster.problems, List.append_eq_nil_iff] at clean
  obtain ⟨⟨⟨⟨⟨-, people⟩, -⟩, lineups⟩, -⟩, -⟩ := clean
  obtain ⟨i, before, own⟩ := walk_each lineups member
  have person : ∀ set name : String, l.sets[set]? = some name →
      ∃ p ∈ r.roster.people, r.roster.person name = some p ∧ p.id = name := by
    intro set name worn
    obtain ⟨q, inside, same⟩ := List.mem_map.mp (placed_known own worn)
    have some : (r.roster.person name).isSome := List.find?_isSome.mpr ⟨q, inside, by simpa using same⟩
    obtain ⟨p, found⟩ := Option.isSome_iff_exists.mp some
    exact ⟨p, List.mem_of_find?_eq_some found, found, by simpa using List.find?_some found⟩
  refine ⟨active, placed_once own, fun set name worn => ?_, fun set name worn => ?_, fun set name worn => ?_,
    engineer⟩
  · obtain ⟨p, -, found⟩ := person set name worn
    exact ⟨p, found⟩
  · obtain ⟨p, inside, -, rfl⟩ := person set name worn
    obtain ⟨j, seen, fine⟩ := walk_each people inside
    exact Migration.not_engineer fine
  · have worn' : set ∈ l.sets.keys := by
      rw [BTreeMap.mem_keys_iff]
      simp [worn]
    exact isSet_ofInfo (against_isSet against member worn')

end

/-- The engineer's entry stands on a mix of the site. -/
def seated (cfg : Config) (topo : TopologyInfo) : Bool :=
  (cfg.member engineerId).isSome && topo.mixes.any (·.id == topo.engineer)

section
variable {cfg : Config} {r : RosterState} {topo : TopologyInfo} {l : Lineup} (fits : Fits cfg r topo l)
include fits

/-- A member wears a set of the lineup or is the engineer. -/
theorem mem_known_iff (m : SiteMember) : m ∈ SiteView.knownMembers cfg (some r) topo ↔
    (l.sets[m.mix]? = some m.id ∧ (r.roster.person m.id).map (·.name) = some m.name) ∨
      (cfg.member engineerId = some m ∧ seated cfg topo = true) := by
  simp only [SiteView.knownMembers, siteMembers, fits.lineup, Option.map_some, Option.getD_some, List.mem_filter,
    List.mem_append, List.mem_filterMap, Option.mem_toList]
  constructor
  · rintro ⟨⟨⟨set, name⟩, placed, found⟩ | entry, there⟩
    · have worn := Std.ExtTreeMap.mem_toList_iff_getElem?_eq_some.mp placed
      obtain ⟨p, person, rfl⟩ := Option.map_eq_some_iff.mp found
      obtain ⟨q, person', same⟩ := fits.known set name worn
      cases person.symm.trans person'
      subst same
      exact .inl ⟨worn, by simp [person]⟩
    · refine .inr ⟨entry, ?_⟩
      rw [fits.engineer m entry] at there
      simp [seated, entry, there]
  · rintro (⟨worn, person⟩ | ⟨entry, seat⟩)
    · obtain ⟨p, found, name⟩ := Option.map_eq_some_iff.mp person
      obtain ⟨q, found', same⟩ := fits.known _ _ worn
      cases found.symm.trans found'
      have placed := Std.ExtTreeMap.mem_toList_iff_getElem?_eq_some.mpr worn
      refine ⟨.inl ⟨(m.mix, m.id), placed, ?_⟩, (fits.there _ _ worn).1⟩
      simp [found, same, name]
    · refine ⟨.inr entry, ?_⟩
      rw [fits.engineer m entry]
      exact (Bool.and_eq_true_iff.mp seat).2

theorem wearer_member {set name : String} (worn : l.sets[set]? = some name) :
    ∃ m ∈ SiteView.knownMembers cfg (some r) topo, m.id = name ∧ m.mix = set := by
  obtain ⟨p, person, -⟩ := fits.known set name worn
  exact ⟨⟨name, p.name, set⟩, (mem_known_iff fits _).mpr (.inl ⟨worn, by simp [person]⟩), rfl, rfl⟩

theorem engineer_member (seat : seated cfg topo = true) :
    ∃ m ∈ SiteView.knownMembers cfg (some r) topo, m.id = engineerId ∧ m.mix = topo.engineer := by
  obtain ⟨m, entry⟩ := Option.isSome_iff_exists.mp (Bool.and_eq_true_iff.mp seat).1
  have own : m.id = engineerId := by simpa using List.find?_some entry
  exact ⟨m, (mem_known_iff fits m).mpr (.inr ⟨entry, seat⟩), own, fits.engineer m entry⟩

/-- No two members have one id, nor one mix: nobody wears two sets, and the engineer's login and
mix are nobody's. -/
theorem member_inj {m n : SiteMember} (first : m ∈ SiteView.knownMembers cfg (some r) topo)
    (second : n ∈ SiteView.knownMembers cfg (some r) topo) (same : m.id = n.id ∨ m.mix = n.mix) : m = n := by
  have login : ∀ x, cfg.member engineerId = some x → x.id = engineerId := by
    intro x entry
    simpa using List.find?_some entry
  rcases (mem_known_iff fits m).mp first with ⟨worn, name⟩ | ⟨entry, -⟩ <;>
    rcases (mem_known_iff fits n).mp second with ⟨worn', name'⟩ | ⟨entry', -⟩
  · have ids : m.id = n.id := by
      rcases same with ids | mixes
      · exact ids
      · rw [mixes] at worn
        exact Option.some.inj (worn.symm.trans worn')
    have mixes : m.mix = n.mix := by
      rw [ids] at worn
      have set := (setOf_iff fits.once _ _).mpr worn
      exact Option.some.inj (set.symm.trans ((setOf_iff fits.once _ _).mpr worn'))
    have names : m.name = n.name := by
      rw [ids] at name
      exact Option.some.inj (name.symm.trans name')
    cases m
    cases n
    simp_all
  · rcases same with ids | mixes
    · exact absurd (ids.trans (login n entry')) (fits.human _ _ worn)
    · exact absurd (mixes.trans (fits.engineer n entry')) (fits.there _ _ worn).2
  · rcases same with ids | mixes
    · exact absurd (ids.symm.trans (login m entry)) (fits.human _ _ worn')
    · exact absurd (mixes.symm.trans (fits.engineer m entry)) (fits.there _ _ worn').2
  · exact Option.some.inj (entry.symm.trans entry')

end

section
variable {cfg : Config} {r : RosterState} {topo : TopologyInfo} {l : Lineup}

/-- The page of a member. -/
def ownPage (m : SiteMember) : Page := { id := m.id, name := m.name, mix := m.mix, member := some m.id }

/-- A mix is free when it is no member's. -/
theorem mixView_free (m : MixInfo) : (SiteView.mixView cfg (some r) topo m).member = none ↔
    ∀ n ∈ SiteView.knownMembers cfg (some r) topo, n.mix ≠ m.id := by
  simp only [SiteView.mixView, Option.map_eq_none_iff, List.find?_eq_none, beq_iff_eq]

theorem mem_vacant_iff (active : r.lineup = some l) (set : String) :
    set ∈ (SiteView.buildWith cfg (some r) topo).1.vacant ↔
      topo.mixes.any (·.id == set) = true ∧ l.personOn set = none ∧ set ∈ personSets cfg r.roster := by
  simp only [SiteView.buildWith, SiteView.vacantSets, Option.bind_some, active, List.mem_map, List.mem_filter,
    List.any_eq_true, beq_iff_eq, Bool.and_eq_true, Option.isNone_iff_eq_none, List.contains_iff_mem]
  constructor
  · rintro ⟨m, ⟨member, nobody, own⟩, rfl⟩
    exact ⟨⟨m, member, rfl⟩, nobody, own⟩
  · rintro ⟨⟨m, member, rfl⟩, nobody, own⟩
    exact ⟨m, ⟨member, nobody, own⟩, rfl⟩

/-- A page is a member's, or that of a free mix that is no vacant set and no member's id. -/
theorem page_cases {name : String} {page : Page}
    (found : (SiteView.buildWith cfg (some r) topo).1.page name = some page) :
    (∃ m ∈ SiteView.knownMembers cfg (some r) topo, m.id = name ∧ page = ownPage m) ∨
      (page.mix = name ∧ page.id = name ∧ page.member = none ∧ topo.mixes.any (·.id == name) = true ∧
        name ∉ (SiteView.buildWith cfg (some r) topo).1.vacant ∧
        ∀ m ∈ SiteView.knownMembers cfg (some r) topo, m.mix ≠ name) := by
  unfold SiteView.page at found
  split at found
  · rename_i m member
    have same : m.id = name := by simpa using List.find?_some member
    exact .inl ⟨m, List.mem_of_find?_eq_some member, same, (Option.some.inj found).symm⟩
  · obtain ⟨v, free, rfl⟩ := Option.map_eq_some_iff.mp found
    have fine := List.find?_some free
    simp only [Bool.and_eq_true, beq_iff_eq, Option.isNone_iff_eq_none, Bool.not_eq_true',
      List.contains_eq_mem, decide_eq_false_iff_not] at fine
    obtain ⟨⟨rfl, none⟩, filled⟩ := fine
    obtain ⟨m, inside, rfl⟩ := List.mem_map.mp (List.mem_of_find?_eq_some free)
    refine .inr ⟨rfl, rfl, rfl, List.any_eq_true.mpr ⟨m, inside, by simp [SiteView.mixView]⟩, filled, ?_⟩
    exact (mixView_free m).mp none

/-- A free mix that is no vacant set has its own page, unless a member has its id. -/
theorem page_free {m : MixInfo} (there : m ∈ topo.mixes)
    (free : (SiteView.mixView cfg (some r) topo m).member = none)
    (filled : m.id ∉ (SiteView.buildWith cfg (some r) topo).1.vacant)
    (unnamed : ∀ n ∈ SiteView.knownMembers cfg (some r) topo, n.id ≠ m.id) :
    ∃ page, (SiteView.buildWith cfg (some r) topo).1.page m.id = some page ∧ page.mix = m.id ∧ page.id = m.id := by
  have nobody : (SiteView.buildWith cfg (some r) topo).1.member m.id = none :=
    List.find?_eq_none.mpr fun n member => by simpa using unnamed n member
  have some : ((SiteView.buildWith cfg (some r) topo).1.page m.id).isSome := by
    simp only [SiteView.page, nobody, Option.isSome_map, List.find?_isSome]
    refine ⟨_, List.mem_map_of_mem there, ?_⟩
    have own : (SiteView.mixView cfg (some r) topo m).id = m.id := rfl
    simp [free, filled, own]
  obtain ⟨page, found⟩ := Option.isSome_iff_exists.mp some
  rcases page_cases found with ⟨n, member, same, -⟩ | ⟨mix, own, -⟩
  · exact absurd same (unnamed n member)
  · exact ⟨page, found, mix, own⟩

/-- A player's page is under their own id. -/
theorem player_once {other name : String} {page : Page}
    (found : (SiteView.buildWith cfg (some r) topo).1.page other = some page) (own : page.member = some name) :
    other = name := by
  rcases page_cases found with ⟨m, -, rfl, rfl⟩ | ⟨-, -, none, -⟩
  · exact Option.some.inj own
  · rw [none] at own
    cases own

variable (fits : Fits cfg r topo l)
include fits

theorem page_member {m : SiteMember} (member : m ∈ SiteView.knownMembers cfg (some r) topo) :
    (SiteView.buildWith cfg (some r) topo).1.page m.id = some (ownPage m) := by
  have found : (SiteView.buildWith cfg (some r) topo).1.member m.id = some m := by
    have some : ((SiteView.buildWith cfg (some r) topo).1.member m.id).isSome :=
      List.find?_isSome.mpr ⟨m, member, by simp⟩
    obtain ⟨n, found⟩ := Option.isSome_iff_exists.mp some
    have same : n.id = m.id := by simpa using List.find?_some found
    rw [found, member_inj fits (List.mem_of_find?_eq_some found) member (.inl same)]
  simp [SiteView.page, found, ownPage]

end

/-- One page for each player on their set, none for a set nobody wears, one for every other mix
without a member, and no two for one mix. -/
structure Exact (cfg : Config) (r : RosterState) (topo : TopologyInfo) (l : Lineup) (view : SiteView) : Prop where
  players : ∀ set name : String, l.sets[set]? = some name →
    (∃ page, view.page name = some page ∧ page.mix = set ∧ page.member = some name) ∧
      ∀ other page, view.page other = some page → page.member = some name → other = name
  apart : ∀ one other page page', view.page one = some page → view.page other = some page' →
    page.mix = page'.mix → one = other
  unworn : ∀ set ∈ personSets cfg r.roster, l.personOn set = none →
    ∀ name page, view.page name = some page → page.mix ≠ set
  others : ∀ m ∈ view.mixes, m.member = none → (m.id ∈ personSets cfg r.roster → l.personOn m.id ≠ none) →
    ∃ page ∈ view.mixPages, view.page m.id = some page ∧ page.mix = m.id ∧ page.id = m.id

/-- No mix that is to keep a page of its own has a member's id, and the engineer's is no person's
set. -/
structure Clear (cfg : Config) (r : RosterState) (topo : TopologyInfo) (l : Lineup) : Prop where
  names : ∀ m ∈ topo.mixes, l.personOn m.id = none → m.id ∉ personSets cfg r.roster →
    (seated cfg topo = true → m.id ≠ topo.engineer) →
      l.plays m.id = false ∧ (seated cfg topo = true → m.id ≠ engineerId)
  engineer : seated cfg topo = true → topo.engineer ∉ personSets cfg r.roster

section
variable {cfg : Config} {r : RosterState} {topo : TopologyInfo} {l : Lineup} (fits : Fits cfg r topo l)
include fits

theorem plays_iff (name : String) : l.plays name = true ↔ ∃ set : String, l.sets[set]? = some name := by
  simp only [Lineup.plays, Option.isSome_iff_exists, setOf_iff fits.once]

theorem free_iff (m : MixInfo) : (SiteView.mixView cfg (some r) topo m).member = none ↔
    l.personOn m.id = none ∧ (seated cfg topo = true → m.id ≠ topo.engineer) := by
  rw [mixView_free]
  constructor
  · intro free
    constructor
    · rw [Option.eq_none_iff_forall_not_mem]
      intro name worn
      obtain ⟨n, member, -, mix⟩ := wearer_member fits worn
      exact free n member mix
    · intro seat same
      obtain ⟨n, member, -, mix⟩ := engineer_member fits seat
      exact free n member (mix.trans same.symm)
  · rintro ⟨unworn, apart⟩ n member mix
    rcases (mem_known_iff fits n).mp member with ⟨worn, -⟩ | ⟨entry, seat⟩
    · rw [mix] at worn
      cases unworn.symm.trans worn
    · exact apart seat (mix.symm.trans (fits.engineer n entry))

/-- A name is a member's when they play, or when it is the seated engineer's. -/
theorem named_iff (name : String) : (∃ m ∈ SiteView.knownMembers cfg (some r) topo, m.id = name) ↔
    l.plays name = true ∨ (seated cfg topo = true ∧ name = engineerId) := by
  rw [plays_iff fits]
  constructor
  · rintro ⟨m, member, rfl⟩
    rcases (mem_known_iff fits m).mp member with ⟨worn, -⟩ | ⟨entry, seat⟩
    · exact .inl ⟨m.mix, worn⟩
    · exact .inr ⟨seat, by simpa using List.find?_some entry⟩
  · rintro (⟨set, worn⟩ | ⟨seat, rfl⟩)
    · obtain ⟨m, member, same, -⟩ := wearer_member fits worn
      exact ⟨m, member, same⟩
    · obtain ⟨m, member, same, -⟩ := engineer_member fits seat
      exact ⟨m, member, same⟩

theorem players_page {set name : String} (worn : l.sets[set]? = some name) :
    ∃ page, (SiteView.buildWith cfg (some r) topo).1.page name = some page ∧ page.mix = set ∧
      page.member = some name := by
  obtain ⟨m, member, rfl, rfl⟩ := wearer_member fits worn
  exact ⟨ownPage m, page_member fits member, rfl, rfl⟩

theorem pages_apart {one other : String} {page page' : Page}
    (found : (SiteView.buildWith cfg (some r) topo).1.page one = some page)
    (found' : (SiteView.buildWith cfg (some r) topo).1.page other = some page') (same : page.mix = page'.mix) :
    one = other := by
  rcases page_cases found with ⟨m, member, rfl, rfl⟩ | ⟨mix, -, -, -, -, free⟩ <;>
    rcases page_cases found' with ⟨n, member', rfl, rfl⟩ | ⟨mix', -, -, -, -, free'⟩
  · exact congrArg _ (member_inj fits member member' (.inr same))
  · exact absurd (same.trans mix') (free' m member)
  · exact absurd (same.symm.trans mix) (free n member')
  · exact mix.symm.trans (same.trans mix')

/-- A set nobody wears has no page, unless it is the seated engineer's. -/
theorem unworn_page {set : String} (own : set ∈ personSets cfg r.roster) (unworn : l.personOn set = none)
    (apart : seated cfg topo = true → set ≠ topo.engineer) {name : String} {page : Page}
    (found : (SiteView.buildWith cfg (some r) topo).1.page name = some page) : page.mix ≠ set := by
  rintro rfl
  rcases page_cases found with ⟨m, member, -, rfl⟩ | ⟨rfl, -, -, there, filled, -⟩
  · rcases (mem_known_iff fits m).mp member with ⟨worn, -⟩ | ⟨entry, seat⟩
    · cases unworn.symm.trans worn
    · exact apart seat (fits.engineer m entry)
  · exact filled ((mem_vacant_iff fits.lineup _).mpr ⟨there, unworn, own⟩)

end

/-- The pages of a site whose roster is sound are exact just when its names are clear. -/
theorem pages_exact (cfg : Config) (r : RosterState) (topo : TopologyInfo) (l : Lineup)
    (sound : r.roster.problems = []) (fitting : r.roster.problemsAgainst (TopologyFacts.ofInfo topo) = [])
    (engineer : ∀ m, cfg.member engineerId = some m → m.mix = topo.engineer) (active : r.lineup = some l) :
    Exact cfg r topo l (SiteView.buildWith cfg (some r) topo).1 ↔ Clear cfg r topo l := by
  have fits := fits_of_clean sound fitting engineer active
  constructor
  · intro exact
    refine ⟨fun m there unworn extra apart => ?_, fun seat own => ?_⟩
    · have free := (free_iff fits m).mpr ⟨unworn, apart⟩
      obtain ⟨page, -, found, mix, -⟩ := exact.others _ (List.mem_map_of_mem there) free fun own => absurd own extra
      -- a member's page would lead to the mix, which is no member's
      have unnamed : ¬∃ n ∈ SiteView.knownMembers cfg (some r) topo, n.id = m.id := by
        rintro ⟨n, member, same⟩
        have other := page_member fits member
        rw [same] at other
        cases found.symm.trans other
        exact (mixView_free m).mp free n member mix
      rw [named_iff fits] at unnamed
      simpa using unnamed
    · have unworn : l.personOn topo.engineer = none := by
        rw [Option.eq_none_iff_forall_not_mem]
        exact fun name worn => (fits.there _ _ worn).2 rfl
      obtain ⟨m, member, -, mix⟩ := engineer_member fits seat
      exact exact.unworn _ own unworn _ _ (page_member fits member) mix
  · intro clear
    refine ⟨fun set name worn => ⟨players_page fits worn, fun other page => player_once⟩,
      fun one other page page' => pages_apart fits, fun set own unworn name page found => ?_,
      fun v shown none filled => ?_⟩
    · refine unworn_page fits own unworn (fun seat same => ?_) found
      exact clear.engineer seat (same ▸ own)
    · obtain ⟨m, there, rfl⟩ := List.mem_map.mp shown
      obtain ⟨unworn, apart⟩ := (free_iff fits m).mp none
      have extra : m.id ∉ personSets cfg r.roster := fun own => filled own unworn
      have unnamed : ¬∃ n ∈ SiteView.knownMembers cfg (some r) topo, n.id = m.id := by
        rw [named_iff fits]
        simpa using clear.names m there unworn extra apart
      have kept : m.id ∉ (SiteView.buildWith cfg (some r) topo).1.vacant := by
        rw [mem_vacant_iff active]
        exact fun vacant => extra vacant.2.2
      obtain ⟨page, found, mix, own⟩ := page_free there none kept fun n member same => unnamed ⟨n, member, same⟩
      refine ⟨page, List.mem_filterMap.mpr ⟨_, List.mem_filter.mpr ⟨shown, ?_⟩, found⟩, found, mix, own⟩
      simpa using none

def threeMixes : TopologyInfo where
  hash := ""
  sampleRate := 96000
  engineer := "engineer"
  inputs := []
  groups := []
  mixes := [⟨"s1", 2, [], []⟩, ⟨"translator", 2, [], []⟩, ⟨"engineer", 2, ["s1"], []⟩]

def engineerOnly : Config := { members := [⟨engineerId, "Engineer", "engineer"⟩] }

def wearing (person : String) : Lineup where
  id := "band"
  main := true
  sets := (∅ : BTreeMap String String).insert "s1" person
  name := "Band"

/-- One person on the one set. -/
def solo (person : String) : RosterState where
  roster := { lineups := [wearing person], people := [⟨person, "Anna", none⟩] }
  sha256 := ""
  active := "band"

theorem pages_exact_anna :
    Exact engineerOnly (solo "anna") threeMixes (wearing "anna")
      (SiteView.buildWith engineerOnly (some (solo "anna")) threeMixes).1 := by
  refine (pages_exact _ _ _ _ (by decide +kernel) (by decide +kernel) ?_ rfl).mpr ⟨?_, by decide +kernel⟩
  · intro m entry
    cases entry
    rfl
  · decide +kernel

/-- A person named as the translator's mix has its page: the mix without a member has none. -/
theorem named_after_a_mix :
    (solo "translator").roster.problems = [] ∧
      (solo "translator").roster.problemsAgainst (TopologyFacts.ofInfo threeMixes) = [] ∧
      (∀ m, engineerOnly.member engineerId = some m → m.mix = threeMixes.engineer) ∧
      (solo "translator").lineup = some (wearing "translator") ∧
      ¬Exact engineerOnly (solo "translator") threeMixes (wearing "translator")
        (SiteView.buildWith engineerOnly (some (solo "translator")) threeMixes).1 := by
  refine ⟨by decide +kernel, by decide +kernel, ?_, rfl, fun exact => ?_⟩
  · intro m entry
    cases entry
    rfl
  · have shown : (SiteView.buildWith engineerOnly (some (solo "translator")) threeMixes).1.page "translator" =
        some ⟨"translator", "Anna", "s1", some "translator"⟩ := by decide +kernel
    obtain ⟨page, -, found, mix, -⟩ := exact.others
      (SiteView.mixView engineerOnly (some (solo "translator")) threeMixes ⟨"translator", 2, [], []⟩)
      (List.mem_map_of_mem (by decide)) (by decide +kernel) fun own => absurd own (by decide +kernel)
    cases shown.symm.trans found
    exact absurd mix (by decide)

end Pages

end IemMixer.Server
