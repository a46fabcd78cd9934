import IemMixer.Server.ConfineProofs
import IemMixer.Ui.SoloSteps

/-! The mutes a page saved are the own ones. It holds wherever nothing is on its way, of every
run of fitting moves from a page that opened on own mutes. One that opened on a solo's mask
saved the mask. -/
namespace IemMixer.Ui
open Lib Proto Server TopologyProofs IemMixer.Core MirrorProofs

namespace Socket

/-- A page opens where each channel a solo silences is muted itself, and a solo shows. -/
structure Opens (view : SiteView) (page : Page) (viewer : Viewer) (core : Core) (mirror : Mirror) : Prop where
  muted : ∀ x ∈ sourcesOf view page viewer, masked mirror page x = true → ownMute core.state page.mix x = true
  seen : mirror.solo page.mix ≠ [] → soloedSeen view viewer (mirror.solo page.mix) ≠ []

section
variable {s : App} {topo : Topology} {page : Page} {viewer : Viewer} {session : ℕ}
  (placed : Placed s topo page)
include placed

/-- A page just opened follows. -/
theorem opened_follows {core : Core} {mirror : Mirror} (linked : Linked topo mirror core)
    (opens : Opens (siteOf s topo) page viewer core mirror) :
    (opened s page viewer core mirror).Follows (siteOf s topo) page viewer session topo := by
  have distinct := placed.distinct viewer
  have seen : (∃ x, Soloed core.transient page.mix x) →
      ∃ x, Soloed core.transient page.mix x ∧ seenSolo (siteOf s topo) viewer x := by
    rintro ⟨x, held⟩
    obtain ⟨y, member, sees⟩ := seen_of_filled (opens.seen (List.ne_nil_of_mem (linked.solo_iff.mpr held)))
    exact ⟨y, linked.solo_iff.mp member, sees⟩
  have names := placed.names_now viewer linked seen
  have tales : (opening s (client mirror) page viewer).filterMap tale = _ := Placed.opening_tales viewer linked
  refine ⟨⟨linked, Placed.opening_framed viewer linked, seen⟩, _, _, .done, .inl ⟨by simp [Soloing, opened], ?_⟩⟩
  refine ⟨⟨fun _ => false, ∅, fun _ => none⟩, .inr ⟨⟨rfl, rfl, fun id => by simp [opened]⟩, _, _, tales⟩, ?_⟩
  -- The channels first, as if there were no solo, then the solo.
  have shown : Right (sourcesOf (siteOf s topo) page viewer) (fun x => (channel mirror page x).2.1) (fun _ => False)
      (Mutes.hear ⟨fun _ => false, ∅, fun _ => none⟩
        (.state (mutesAt (siteOf s topo) page viewer fun x => (channel mirror page x).2.1))) := by
    have nothing : Knows (sourcesOf (siteOf s topo) page viewer) (fun x => (channel mirror page x).2.1) (fun _ => False)
        ⟨fun _ => false, ∅, fun _ => none⟩ := ⟨by simp, by simp, by simp⟩
    exact nothing.state fun _ x member => mutesAt_source distinct _ member
  have own : ∀ x ∈ sourcesOf (siteOf s topo) page viewer,
      ownMute core.state page.mix x = (channel mirror page x).2.1 := by
    intro x member
    simp only [channel, linked.own]
    cases silenced : masked mirror page x with
    | false => rw [Bool.or_false]
    | true => rw [opens.muted x member silenced, Bool.or_true]
  have right : Right (sourcesOf (siteOf s topo) page viewer) (ownMute core.state page.mix)
      (Soloed core.transient page.mix) (Mutes.hear (Mutes.hear ⟨fun _ => false, ∅, fun _ => none⟩
        (.state (mutesAt (siteOf s topo) page viewer fun x => (channel mirror page x).2.1)))
        (.solo (soloIds (siteOf s topo) viewer (mirror.solo page.mix)))) := by
    by_cases active : ∃ x, Soloed core.transient page.mix x
    · exact ⟨(shown.soloTold names).kept fun _ => own, fun silent => absurd active silent⟩
    · have still : ∀ x, Soloed core.transient page.mix x ↔ False := by simpa using active
      have none : Names (sourcesOf (siteOf s topo) page viewer) (fun _ => False)
          (soloIds (siteOf s topo) viewer (mirror.solo page.mix)) := by
        simpa only [Names, still] using names
      exact (shown.again none).congr own still
  show Right _ _ _ (List.foldl Mutes.hear _ ((opening s (client mirror) page viewer).filterMap tale ++ []))
  rw [tales, List.append_nil]
  exact right

/-- A page that follows has the own mutes where nothing is on its way. -/
theorem Follows.knows {d : Socket} (follows : d.Follows (siteOf s topo) page viewer session topo)
    (settled : d.Settled page session) : d.KnowsOwn page (siteOf s topo) viewer := by
  have distinct := placed.distinct viewer
  obtain ⟨mu, views, right⟩ := follows.settled settled
  refine ⟨fun active x member => ?_, fun active x member apart => ?_, fun active x member => ?_,
    fun silent x member => ?_⟩
  · rw [views.saved _ (List.mem_map_of_mem member), right.saved active x member]
  · have loud : d.page.soloed.isEmpty = false := by
      rw [views.soloed]
      exact right.active.mpr active
    rw [right.mute_click views member apart, loud]
    rfl
  · obtain ⟨mu', views', right'⟩ := right.clear views active
    rw [views'.signal (List.mem_map_of_mem member)]
    exact right'.shown (by simp) x member
  · rw [views.signal (List.mem_map_of_mem member)]
    exact right.shown silent x member

variable [Libm]

end

instance (p : MixerState) : (msg : ServerMsg) → Decidable (p.Lands msg)
  | .channelUpdate .. => inferInstanceAs (Decidable (_ → _))
  | .state .. => inferInstanceAs (Decidable (∀ c ∈ _, _ → _))
  | .globalVolumeUpdate .. | .stemsVolumeUpdate .. | .soloUpdate .. | .eqParams .. | .meters .. | .connectionChanged ..
  | .lineupChanged .. | .inputUpdate .. => .isTrue trivial

section
attribute [local instance] duetLibm
variable (view : SiteView) (page : Page) (viewer : Viewer) (session : ℕ)

/-- Nothing is on its way to the page. -/
def still (d : Socket) : Bool := d.wire.isEmpty && d.events.isEmpty

/-- Moves that fit: clicks with nothing on its way to the page, events heard once all clicks are served. -/
def fitting (d : Socket) : Move → Bool
  | .clickMute id => d.still && !d.page.soloed.contains id
  | .clickSolo _ => d.still && (!d.page.soloed.isEmpty ||
    (sourcesOf view page viewer).all fun x => d.page.mutedSignal x.text == d.wants page x)
  | .clearSolo => d.still
  | .ask msg => !isClick msg
  | .other event origin => d.still && d.asked.isEmpty && origin != some session &&
    match (d.said event).filter (ofMutes page.mix) with
    | [.solo mix sources] => mix == page.mix && (sources.isEmpty || !(soloedSeen view viewer sources).isEmpty)
    | _ => false
  | .hear => d.asked.isEmpty
  | .take => d.wire.head?.all fun msg => decide (d.page.Lands msg)
  | .touch _ | .slide .. | .serve => true

def fittingAll (s : App) (topo : Topology) : Socket → List Move → Bool
  | _, [] => true
  | d, move :: rest => d.fitting (siteOf s topo) page viewer session move &&
    fittingAll s topo (d.step s page viewer session move) rest

variable {view page viewer session} {d : Socket}

theorem still_iff : d.still = true ↔ d.wire = [] ∧ d.events = [] := by
  simp only [still, Bool.and_eq_true, List.isEmpty_iff]

theorem settled_of_still (still : d.still = true) (asked : d.asked = []) : d.Settled page session := by
  obtain ⟨wire, events⟩ := still_iff.mp still
  exact ⟨by simp [wire], by simp [events], by simp [asked]⟩

theorem channels_of_still (still : d.still = true) : d.Channels page view viewer session := by
  obtain ⟨wire, events⟩ := still_iff.mp still
  simp [Channels, ahead, wire, events]

theorem fits_of_fitting {move : Move} (fit : d.fitting view page viewer session move = true) :
    d.Fits page view viewer session move := by
  cases move with
  | clickMute id =>
    simp only [fitting, Bool.and_eq_true, Bool.not_eq_true'] at fit
    obtain ⟨wire, events⟩ := still_iff.mp fit.1
    exact ⟨fit.2, fun _ => channels_of_still fit.1, fun _ => by simp [due, wire, events, spares]⟩
  | clickSolo id =>
    simp only [fitting, Bool.and_eq_true, Bool.or_eq_true, Bool.not_eq_true', List.all_eq_true, beq_iff_eq] at fit
    refine ⟨channels_of_still fit.1, fun silent => fit.2.resolve_left ?_⟩
    simp [silent]
  | clearSolo => exact channels_of_still fit
  | ask msg => simpa [fitting, Fits] using fit
  | other event origin =>
    simp only [fitting, Bool.and_eq_true, bne_iff_ne, List.isEmpty_iff] at fit
    obtain ⟨⟨⟨still, asked⟩, foreign⟩, solo⟩ := fit
    have settled : d.Settled page session := settled_of_still still asked
    split at solo
    · next mix sources only =>
      simp only [Bool.and_eq_true, beq_iff_eq] at solo
      obtain ⟨rfl, shows⟩ := solo
      refine ⟨foreign, .solo settled.free settled.events sources only fun filled => ?_⟩
      simpa [filled] using shows
    · cases solo
  | hear =>
    have asked := List.isEmpty_iff.mp fit
    exact fun _ event _ x _ _ _ => by simp [wants, asked]
  | take =>
    intro msg waits
    rw [fitting, Option.mem_def.mp waits] at fit
    exact of_decide_eq_true fit
  | touch | slide | serve => trivial

theorem fitsAll_of_fitting {s : App} {topo : Topology} {moves : List Move}
    (fit : fittingAll page viewer session s topo d moves = true) : FitsAll s topo page viewer session d moves := by
  induction moves generalizing d with
  | nil => trivial
  | cons move rest ih =>
    rw [fittingAll, Bool.and_eq_true] at fit
    exact ⟨fits_of_fitting fit.1, ih fit.2⟩

/-- For the engineer, who sees both channels: the voice and Ben. -/
def annaPage : Page := { id := "anna", name := "Anna", mix := "anna", member := some "anna" }

def annaViewer : Viewer := { sub := engineerId, engineer := true }

def duetApp : App := { siteConfig := duetConfig }

/-- The engine of `duet` after requests, and its mirror. -/
def duetAfter (cmds : List Cmd) : Core := duetCore.run (cmds.map .request)

def duetMirror (c : Core) : Mirror :=
  { Mirror.start with
    topology := some duetCompiled.topo.info, state := c.state, transient := c.transient, rev := c.rev, synced := true }

def annaOpened (cmds : List Cmd) : Socket :=
  opened duetApp annaPage annaViewer (duetAfter cmds) (duetMirror (duetAfter cmds))

theorem duet_placed : Placed duetApp duetCompiled.topo annaPage where
  wf := (compile_spec _ duetCompiled).1
  free := rfl
  calm := rfl
  found := rfl

theorem duet_linked (cmds : List Cmd) : Linked duetCompiled.topo (duetMirror (duetAfter cmds)) (duetAfter cmds) := by
  have wf := (compile_spec _ duetCompiled).1
  obtain ⟨topo, canonical⟩ := run_canonical duetCore (cmds.map .request) wf (new_canonical duetCompiled.topo {} 7 {} [])
  exact linked_state (m := { Mirror.start with topology := some duetCompiled.topo.info }) wf rfl topo canonical

end

end Socket

end IemMixer.Ui
