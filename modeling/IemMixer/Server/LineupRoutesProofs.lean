import IemMixer.Server.LineupRoutes

/-! The read of the band and the door of the page's socket agree: a page that reads that it plays
gets its socket, and one that reads that it does not would be refused. -/
namespace IemMixer.Server
open Lib Proto

namespace Doors

/-- The roster in use is sound and fits the engine's topology, once that is known. -/
structure Sited (mirror : Mirror) (r : RosterState) : Prop where
  sound : r.roster.problems = []
  fitting : ∀ topo ∈ mirror.topology, r.roster.problemsAgainst (TopologyFacts.ofInfo topo) = []

/-- No mix has a person's id. -/
def Unnamed (mirror : Mirror) (r : RosterState) : Prop :=
  ∀ topo ∈ mirror.topology, ∀ m ∈ topo.mixes, r.roster.person m.id = none

/-- The engineer's token says so. -/
def Issued (token : Token) : Prop := ∀ claims, token = .valid claims → claims.sub = engineerId → claims.engineer = true

section
variable {s : App} {mirror : Mirror} {r : RosterState} {l : Lineup} {id : String}

theorem person_id {p : Person} (found : r.roster.person id = some p) : p.id = id := by
  simpa using List.find?_some found

theorem person_human (sound : r.roster.problems = []) (known : (r.roster.person id).isSome) : id ≠ engineerId := by
  obtain ⟨p, found⟩ := Option.isSome_iff_exists.mp known
  simp only [Roster.problems, List.append_eq_nil_iff] at sound
  obtain ⟨⟨⟨⟨⟨-, people⟩, -⟩, -⟩, -⟩, -⟩ := sound
  obtain ⟨i, seen, own⟩ := walk_each people (List.mem_of_find?_eq_some found)
  exact person_id found ▸ Migration.not_engineer own

/-- A sound roster has a lineup to play. -/
theorem lineup_plays (sound : r.roster.problems = []) : ∃ l, r.lineup = some l := by
  simp only [Roster.problems, List.append_eq_nil_iff] at sound
  obtain ⟨⟨⟨⟨⟨-, -⟩, -⟩, -⟩, mains⟩, -⟩ := sound
  have single : (r.roster.lineups.filter (·.main)).length = 1 := by
    by_contra other
    simp [other] at mains
  have main : r.roster.main.isSome := by
    rw [Roster.main, List.find?_isSome]
    obtain ⟨l, member⟩ := List.exists_mem_of_length_pos (show 0 < _ by rw [single]; omega)
    exact ⟨l, List.mem_filter.mp member⟩
  obtain ⟨l, found⟩ := Option.isSome_iff_exists.mp main
  unfold RosterState.lineup
  cases r.roster.lineup r.active with
  | none => exact ⟨l, found⟩
  | some here => exact ⟨here, rfl⟩

theorem worn_of_plays (plays : l.plays id = true) : ∃ set : String, l.sets[set]? = some id := by
  obtain ⟨set, worn⟩ := Option.isSome_iff_exists.mp plays
  obtain ⟨⟨other, name⟩, found, -⟩ := Option.map_eq_some_iff.mp worn
  have same : name = id := by simpa using List.find?_some found
  exact ⟨other, same ▸ Std.ExtTreeMap.mem_toList_iff_getElem?_eq_some.mp (List.mem_of_find?_eq_some found)⟩

theorem plays_of_worn {set : String} (worn : l.sets[set]? = some id) : l.plays id = true := by
  simp only [Lineup.plays, Lineup.setOf, Option.isSome_map, List.find?_isSome]
  exact ⟨_, Std.ExtTreeMap.mem_toList_iff_getElem?_eq_some.mpr worn, by simp⟩

/-- Before a topology is known a page is a member's. -/
theorem early_page {page : Page} (early : mirror.topology = none) (found : s.page mirror id = some page) :
    page.member = some id ∧ ∃ m ∈ siteMembers s.siteConfig s.roster, m.id = id := by
  simp only [App.page, App.site, early, Option.map_none] at found
  obtain ⟨m, here, rfl⟩ := Option.map_eq_some_iff.mp found
  have same : m.id = id := by simpa using List.find?_some here
  exact ⟨by simp [same], m, List.mem_of_find?_eq_some here, same⟩

/-- A member of the site plays or is the engineer. -/
theorem member_plays (active : r.lineup = some l) {cfg : Config} {m : SiteMember}
    (member : m ∈ siteMembers cfg (some r)) : l.plays m.id = true ∨ m.id = engineerId := by
  simp only [siteMembers, active, Option.map_some, Option.getD_some, List.mem_append, List.mem_filterMap,
    Option.mem_toList] at member
  rcases member with ⟨⟨set, name⟩, placed, found⟩ | entry
  · obtain ⟨p, person, rfl⟩ := Option.map_eq_some_iff.mp found
    have worn := Std.ExtTreeMap.mem_toList_iff_getElem?_eq_some.mp placed
    have same : p.id = name := person_id person
    exact .inl (plays_of_worn (same ▸ worn))
  · exact .inr (by simpa using List.find?_some entry)

variable (sited : Sited mirror r) (use : s.roster = some r) (active : r.lineup = some l)
include sited use active

/-- Who plays has a page, and it is theirs. -/
theorem page_of_player (known : (r.roster.person id).isSome) (plays : l.plays id = true) :
    ∃ page, s.page mirror id = some page ∧ page.member = some id := by
  obtain ⟨set, worn⟩ := worn_of_plays plays
  obtain ⟨p, person⟩ := Option.isSome_iff_exists.mp known
  have own : p.id = id := person_id person
  have placed : (⟨p.id, p.name, set⟩ : SiteMember) ∈ siteMembers s.siteConfig (some r) := by
    simp only [siteMembers, active, Option.map_some, Option.getD_some, List.mem_append, List.mem_filterMap]
    exact .inl ⟨(set, id), Std.ExtTreeMap.mem_toList_iff_getElem?_eq_some.mpr worn, by simp [person]⟩
  cases topology : mirror.topology with
  | some topo =>
    have inside : set ∈ l.sets.keys := by
      rw [BTreeMap.mem_keys_iff]
      simp [worn]
    have there := Pages.isSet_ofInfo (Pages.against_isSet (sited.fitting topo topology) (Pages.lineup_member active) inside)
    have some : ((SiteView.buildWith s.siteConfig (some r) topo).1.member id).isSome :=
      List.find?_isSome.mpr ⟨_, List.mem_filter.mpr ⟨placed, there.1⟩, by simp [own]⟩
    obtain ⟨m, found⟩ := Option.isSome_iff_exists.mp some
    have same : m.id = id := by simpa using List.find?_some found
    exact ⟨Pages.ownPage m, by simp [App.page, App.site, topology, use, SiteView.page, found, Pages.ownPage],
      congrArg _ same⟩
  | none =>
    have some : (s.page mirror id).isSome := by
      simp only [App.page, App.site, topology, Option.map_none, use, Option.isSome_map, List.find?_isSome]
      exact ⟨_, placed, by simp [own]⟩
    obtain ⟨page, found⟩ := Option.isSome_iff_exists.mp some
    exact ⟨page, found, (early_page topology found).1⟩

/-- Who does not play has none but, named as a mix, that of the mix. -/
theorem page_of_other {page : Page} (known : (r.roster.person id).isSome) (out : l.plays id = false)
    (found : s.page mirror id = some page) :
    page.member = none ∧ ∃ topo ∈ mirror.topology, ∃ m ∈ topo.mixes, m.id = id := by
  have human := person_human sited.sound known
  have nobody : ∀ m ∈ siteMembers s.siteConfig (some r), m.id ≠ id := by
    rintro m member rfl
    rcases member_plays active member with plays | engineer
    · rw [out] at plays
      cases plays
    · exact absurd engineer human
  cases topology : mirror.topology with
  | some topo =>
    simp only [App.page, App.site, topology, use, Option.map_some] at found
    rcases Pages.page_cases found with ⟨m, member, same, -⟩ | ⟨-, -, none, there, -⟩
    · exact absurd same (nobody m (List.mem_of_mem_filter member))
    · obtain ⟨m, inside, same⟩ := List.any_eq_true.mp there
      exact ⟨none, topo, rfl, m, inside, by simpa using same⟩
  | none =>
    obtain ⟨-, m, member, same⟩ := early_page topology found
    exact absurd same (nobody m (use ▸ member))

end

/-- What a page reads tells whether its socket is taken, and each refuses as the other does. -/
def Concur (s : App) (read : Option (Except Reject (Option LineupInfo))) (door : Except Reject Page) : Prop :=
  match read with
  | none => False
  | some (.ok none) => s.roster = none
  | some (.ok (some info)) => info.playing = true ↔ ∃ page, door = .ok page
  | some (.error refusal) => ∃ other, door = .error other ∧ other.status = refusal.status

theorem bearer_valid {s : App} {token : Token} {claims : AuthClaims} (taken : s.bearer token = .ok claims) :
    token = .valid claims ∧ s.subjectKnown claims = true := by
  cases token with
  | invalid => cases taken
  | expired => cases taken
  | valid held =>
    simp only [App.bearer, claimsOf, bind, Except.bind] at taken
    split at taken
    · rename_i known
      cases taken
      exact ⟨rfl, known⟩
    · cases taken

theorem openFor_iff {claims : AuthClaims} {found : Option Page} :
    (∃ page, openFor claims found = .ok page) ↔ ∃ page, found = some page ∧ mayOpen claims.viewer page = true := by
  cases found with
  | none => simp [openFor]
  | some page =>
    cases may : mayOpen claims.viewer page <;> simp [openFor, may]

/-- A person's page, looked up by themselves or by the engineer. -/
theorem person_agrees {s : App} {mirror : Mirror} {r : RosterState} {l : Lineup} {claims : AuthClaims} {id : String}
    (sited : Sited mirror r) (use : s.roster = some r) (active : r.lineup = some l)
    (unnamed : claims.engineer = true → Unnamed mirror r) (own : claims.engineer = true ∨ claims.sub = id)
    (known : (r.roster.person id).isSome) :
    l.plays id = true ↔ ∃ page, s.page mirror id = some page ∧ mayOpen claims.viewer page = true := by
  constructor
  · intro plays
    obtain ⟨page, found, member⟩ := page_of_player sited use active known plays
    refine ⟨page, found, ?_⟩
    rcases own with engineer | own
    · simp [mayOpen, AuthClaims.viewer, engineer]
    · simp [mayOpen, AuthClaims.viewer, member, own]
  · rintro ⟨page, found, opens⟩
    by_contra out
    have out : l.plays id = false := by simpa using out
    obtain ⟨none, topo, announced, m, inside, same⟩ := page_of_other sited use active known out found
    have engineer : claims.engineer = true := by simpa [mayOpen, AuthClaims.viewer, none] using opens
    have nobody := unnamed engineer topo announced m inside
    rw [same] at nobody
    simp [nobody] at known

end Doors

open Doors

/-- A page that reads that it plays gets its socket and one that reads that it does not is refused
it; where the read is refused the socket is too, for the same reason. -/
theorem lineup_read_agrees_with_door (s : App) (mirror : Mirror) (token : Token) (id : String)
    (sited : ∀ r, s.roster = some r → Sited mirror r) (issued : Issued token)
    (unnamed : ∀ r claims, s.roster = some r → token = .valid claims → claims.engineer = true → Unnamed mirror r) :
    Concur s (getLineup s mirror token (some id)) (wsMixer s mirror token id) := by
  unfold getLineup wsMixer
  cases taken : s.bearer token with
  | error refusal => exact ⟨refusal, rfl, rfl⟩
  | ok claims =>
    obtain ⟨rfl, subject⟩ := bearer_valid taken
    cases use : s.roster with
    | none => exact use
    | some r =>
      have sited := sited r use
      obtain ⟨l, active⟩ := lineup_plays sited.sound
      simp only [active, Option.map_some, bind, Except.bind]
      by_cases own : claims.engineer = true ∨ claims.sub = id
      · have asks : (claims.engineer || id == claims.sub) = true := by
          rcases own with engineer | rfl
          · simp [engineer]
          · simp
        have enters : (!claims.engineer && claims.sub != id) = false := by
          rcases own with engineer | same
          · simp [engineer]
          · simp [same]
        simp only [pagePlays, asks, enters, Bool.not_true, Bool.false_eq_true, if_false]
        by_cases known : (r.roster.person id).isSome = true
        · simp only [known, if_true, Except.map, Concur]
          rw [openFor_iff]
          exact person_agrees sited use active (unnamed r claims use rfl) own known
        -- A page of the site's, which is the engineer's alone.
        have engineer : claims.engineer = true := by
          rcases own with engineer | rfl
          · exact engineer
          · by_contra plain
            have login : claims.sub = engineerId := by
              simp only [App.subjectKnown, App.memberExists, use, Bool.or_eq_true, Bool.and_eq_true,
                beq_iff_eq] at subject
              rcases subject with engineer | person | login
              · exact absurd engineer plain
              · exact absurd person known
              · exact login.1
            exact plain (issued claims rfl login)
        cases found : s.page mirror id with
        | none =>
          simp only [if_neg known, Option.isSome_none, Bool.false_eq_true, if_false, Except.map, Concur]
          exact ⟨_, rfl, rfl⟩
        | some page =>
          simp only [if_neg known, Option.isSome_some, if_true, Except.map, Concur, true_iff]
          exact openFor_iff.mpr ⟨page, rfl, by simp [mayOpen, AuthClaims.viewer, engineer]⟩
      · obtain ⟨plain, other⟩ := not_or.mp own
        have asks : (claims.engineer || id == claims.sub) = false := by simp [plain, Ne.symm other]
        have enters : (!claims.engineer && claims.sub != id) = true := by simp [plain, other]
        simp only [pagePlays, asks, enters, Bool.not_false, if_true, Except.map, Concur]
        exact ⟨_, rfl, rfl⟩

/-- Anna plays on the one set; the engine announced three mixes. -/
def annasSite : App := { siteConfig := Pages.engineerOnly, roster := some (Pages.solo "anna") }

def annasMirror : Mirror := { Mirror.start with topology := some Pages.threeMixes }

theorem annasSite_sited : Sited annasMirror (Pages.solo "anna") where
  sound := by decide +kernel
  fitting topo announced := by
    cases announced
    decide +kernel

/-- The engineer looks at Anna's page. -/
theorem lineup_read_agrees_with_door_anna :
    Concur annasSite (getLineup annasSite annasMirror (.valid ⟨engineerId, true⟩) (some "anna"))
      (wsMixer annasSite annasMirror (.valid ⟨engineerId, true⟩) "anna") := by
  refine lineup_read_agrees_with_door annasSite annasMirror _ "anna" ?_ ?_ ?_
  · intro r use
    cases use
    exact annasSite_sited
  · intro claims same _
    cases same
    rfl
  · intro r claims use _ _ topo announced
    cases use
    cases announced
    decide +kernel

end IemMixer.Server
