import IemMixer.Lib.Except
import IemMixer.Server.View
import IemMixer.TopologyProofs

/-! Mute All against the channels a page shows and the unmutes it may ask for. -/
namespace IemMixer.Server
open Lib Proto TopologyProofs

section
variable (view : SiteView) (mirror : Mirror) (page : Page) (viewer : Viewer)

/-- Every shown channel shows a source that the viewer sees. -/
theorem channels_shown {c : Channel} (member : c ∈ channels view mirror page viewer) :
    ∃ s, s.text = c.id ∧ shown view page viewer s = true ∧ (c.levelDb, c.muted, c.pan) = channel mirror page s := by
  rcases List.mem_append.mp member with input | heard
  · obtain ⟨i, inside, rfl⟩ := List.mem_map.mp input
    exact ⟨.input i.id, rfl, (List.mem_filter.mp inside).2, rfl⟩
  · obtain ⟨h, inside, rfl⟩ := List.mem_map.mp heard
    exact ⟨.mix h, rfl, List.contains_iff_mem.mpr inside, rfl⟩

/-- The mixes the page's mix hears, seen or not. -/
def hearsAll : List MixId := ((view.mix page.mix).map (·.hears)).getD []

theorem heard_iff {h : MixId} : h ∈ heard view page viewer ↔
    viewer.leads view = true ∧ h ∈ hearsAll view page ∧ view.vacant.contains h = false := by
  unfold heard hearsAll
  cases viewer.leads view with
  | false => simp
  | true => cases view.mix page.mix <;> simp

/-- What Mute All takes: the inputs the viewer sees, and all the page's mix hears. -/
def Takes : Source → Prop
  | .input id => showsInput view viewer id = true
  | .mix h => h ∈ hearsAll view page

variable {view mirror page viewer}

theorem muteAll_iff {op : Cmd} {ops : List Cmd} (all : muteAll view page viewer = .batch ops) :
    op ∈ ops ↔ ∃ s, Takes view page viewer s ∧ op = .setLevel page.mix s none none (some true) := by
  obtain rfl := Cmd.batch.inj all
  simp only [List.mem_map, List.mem_append, List.mem_filter]
  refine exists_congr fun s => and_congr ?_ eq_comm
  cases s with
  | input id =>
    simp only [Source.input.injEq, reduceCtorEq, and_false, exists_false, or_false, Takes]
    constructor
    · rintro ⟨i, ⟨-, shows⟩, rfl⟩
      exact shows
    · intro shows
      obtain ⟨i, found⟩ := Option.isSome_iff_exists.mp (Bool.and_eq_true_iff.mp shows).1
      obtain rfl : i.id = id := by simpa using List.find?_some found
      exact ⟨i, ⟨List.mem_of_find?_eq_some found, shows⟩, rfl⟩
  | mix h => simp [Takes, hearsAll]

theorem source_mix {id : String} (hidden : showsInput view viewer id = false) : source view page id =
    if id ∈ hearsAll view page ∧ view.vacant.contains id = false then some (.mix id) else none := by
  have named : source view page id = (view.mix page.mix).bind fun m =>
      (m.hears.find? fun h => h == id && !view.vacant.contains h).map .mix :=
    if_neg (Bool.eq_false_iff.mp hidden)
  rw [named, hearsAll]
  cases view.mix page.mix with
  | none => simp
  | some m =>
    simp only [Option.bind_some, Option.map_some, Option.getD_some]
    split_ifs with worn
    · obtain ⟨h, found⟩ : ∃ h, (m.hears.find? fun h => h == id && !view.vacant.contains h) = some h :=
        Option.isSome_iff_exists.mp (List.find?_isSome.mpr ⟨id, worn.1, by simpa using worn.2⟩)
      have fits := List.find?_some found
      obtain rfl : h = id := by
        simp only [Bool.and_eq_true, beq_iff_eq] at fits
        exact fits.1
      rw [found, Option.map_some]
    · rw [List.find?_eq_none.mpr, Option.map_none]
      intro h inside
      by_cases same : h = id
      · subst same
        rw [not_and, Bool.not_eq_false] at worn
        simp only [beq_self_eq_true, Bool.true_and, worn inside, Bool.not_true, Bool.false_eq_true, not_false_iff]
      · simp [same]

/-- What a viewer may move by an id: the input they see, or else the mix they hear. -/
theorem movable_iff {id : String} {s : Source} : movable view page viewer id = .ok s ↔
    (showsInput view viewer id = true ∧ s = .input id) ∨
      (showsInput view viewer id = false ∧ s = .mix id ∧ id ∈ heard view page viewer) := by
  cases shows : showsInput view viewer id with
  | true =>
    have named : source view page id = some (.input id) := if_pos shows
    simp [movable, named, eq_comm]
  | false =>
    rw [heard_iff, movable, source_mix shows]
    by_cases worn : id ∈ hearsAll view page ∧ view.vacant.contains id = false
    · rw [if_pos worn]
      cases leads : viewer.leads view with
      | false => simp
      | true =>
        constructor
        · intro ok
          exact .inr ⟨rfl, (Except.ok.inj ok).symm, rfl, worn⟩
        · rintro (⟨no, -⟩ | ⟨-, rfl, -⟩)
          · cases no
          · rfl
    · rw [if_neg worn]
      constructor
      · intro ok
        cases ok
      · rintro (⟨no, -⟩ | ⟨-, rfl, -, rest⟩)
        · cases no
        · exact absurd rest worn

theorem setMute_iff {id : String} {muted : Bool} {cmds : List Cmd} :
    command view mirror page viewer (.setMute id muted) = .ok cmds ↔
      ∃ s, movable view page viewer id = .ok s ∧ cmds = [.setLevel page.mix s none none (some muted)] := by
  simp only [command, bind_ok_iff]
  refine exists_congr fun s => and_congr_right fun _ => ⟨fun ok => (Except.ok.inj ok).symm, fun same => same ▸ rfl⟩

theorem shown_takes {s : Source} (seen : shown view page viewer s = true) : Takes view page viewer s := by
  cases s with
  | input id => exact seen
  | mix h => exact ((heard_iff ..).mp (List.contains_iff_mem.mp seen)).2.1

variable (view mirror page viewer)

/-- Mute All mutes every channel shown, and the viewer may unmute, by its id, exactly what the
page shows them of what it muted. -/
theorem mute_all_undone {ops : List Cmd} (all : muteAll view page viewer = .batch ops) :
    (∀ c ∈ channels view mirror page viewer, ∃ s, s.text = c.id ∧
      (c.levelDb, c.muted, c.pan) = channel mirror page s ∧ Cmd.setLevel page.mix s none none (some true) ∈ ops) ∧
    ∀ s, Cmd.setLevel page.mix s none none (some true) ∈ ops →
      ((∃ cmds, command view mirror page viewer (.setMute s.text false) = .ok cmds) ↔
        shown view page viewer s = true ∨ showsInput view viewer s.text = true) ∧
      ∀ cmds, command view mirror page viewer (.setMute s.text false) = .ok cmds →
        (showsInput view viewer s.text = true → s = .input s.text) →
        cmds = [.setLevel page.mix s none none (some false)] := by
  constructor
  · intro c member
    obtain ⟨s, named, seen, same⟩ := channels_shown view mirror page viewer member
    exact ⟨s, named, same, (muteAll_iff all).mpr ⟨s, shown_takes seen, rfl⟩⟩
  · intro s muted
    obtain ⟨_, takes, same⟩ := (muteAll_iff all).mp muted
    cases same
    have mix : showsInput view viewer s.text = false → s = .mix s.text := by
      cases s with
      | input id =>
        have shows : showsInput view viewer id = true := takes
        exact fun hidden => absurd (hidden.symm.trans shows) Bool.false_ne_true
      | mix h => exact fun _ => rfl
    simp only [setMute_iff, movable_iff]
    constructor
    · constructor
      · rintro ⟨_, _, ⟨shows, -⟩ | ⟨hidden, rfl, heard⟩, -⟩
        · exact .inr shows
        · rw [mix hidden]
          exact .inl (List.contains_iff_mem.mpr heard)
      · intro seen
        cases shows : showsInput view viewer s.text with
        | true => exact ⟨_, _, .inl ⟨rfl, rfl⟩, rfl⟩
        | false =>
          rw [shows, mix shows] at seen
          exact ⟨_, _, .inr ⟨rfl, rfl, List.contains_iff_mem.mp (seen.resolve_right Bool.false_ne_true)⟩, rfl⟩
    · rintro cmds ⟨_, ⟨shows, rfl⟩ | ⟨hidden, rfl, -⟩, rfl⟩ apart
      · rw [← apart shows]
      · rw [← mix hidden]

end

/-- Anna leads the choir, Ben does not. -/
def choirView : SiteView :=
  let choir : Lineup :=
    { id := "choir", main := true, leaders := ["anna"], sets := .ofList [("anna", "anna"), ("ben", "ben")] }
  let people := [{ id := "anna", name := "Anna" }, { id := "ben", name := "Ben" }]
  (SiteView.buildWith {} (some ⟨{ people, lineups := [choir] }, "", "choir"⟩) duetCompiled.topo.info).1

def pageOf (id name : String) : Page := { id, name, mix := id, member := some id }

/-- Anna mutes all of her page and unmutes Ben's mix. -/
theorem mute_all_undone_anna :
    (∃ cmds, command choirView {} (pageOf "anna" "Anna") { sub := "anna", engineer := false } (.setMute "ben" false) =
      .ok cmds) := by
  have undone := (mute_all_undone choirView {} (pageOf "anna" "Anna") { sub := "anna", engineer := false } rfl).2
    (.mix "ben") ((muteAll_iff rfl).mpr ⟨_, by simp only [Takes]; decide +kernel, rfl⟩)
  exact undone.1.mpr (.inl (by decide +kernel))

/-- Ben does not lead the choir: his Mute All mutes Anna's mix, and he may not unmute it. -/
theorem ben_stays_muted :
    choirView.page "ben" = some (pageOf "ben" "Ben") ∧
    muteAll choirView (pageOf "ben" "Ben") { sub := "ben", engineer := false } = .batch
      [.setLevel "ben" (.input "voice") none none (some true), .setLevel "ben" (.mix "anna") none none (some true)] ∧
    command choirView {} (pageOf "ben" "Ben") { sub := "ben", engineer := false } (.setMute "anna" false) =
      .error (.forbidden "the mixes a set hears are its leader's") :=
  ⟨by decide +kernel, rfl, rfl⟩

end IemMixer.Server
