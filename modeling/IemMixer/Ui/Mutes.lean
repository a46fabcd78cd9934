import IemMixer.Ui.Solo

/-! A page's mutes as a function of the channel: what each message, click and slide makes of
the shown and the saved ones. A fader under the finger keeps its channel's mute too, so a
message lands when it tells a touched channel no other mute. -/
namespace IemMixer.Ui
open Lib Proto Server

/-- The mutes shown, the solo, and the mutes saved. -/
structure Mutes where
  shown : String → Bool
  soloed : BTreeSet String
  saved : String → Option Bool

/-- What a message tells of mutes. -/
inductive Tale where
  | channel (id : String) (muted : Bool)
  | solo (soloed : BTreeSet String)
  | state (shown : String → Bool)

/-- Whether one channel is told. -/
def Tale.isChannel : Tale → Bool
  | .channel .. => true
  | _ => false

/-- What is told of channel `id` to a page with the solo `soloed`: without a solo no mute but
`muted`, and no solo ends. -/
def spares (id : String) (muted : Bool) : BTreeSet String → List Tale → Prop
  | _, [] => True
  | soloed, .channel other shown :: rest =>
    (soloed.isEmpty = true → other = id → shown = muted) ∧ spares id muted soloed rest
  | soloed, .state shown :: rest => (soloed.isEmpty = true → shown id = muted) ∧ spares id muted soloed rest
  | soloed, .solo new :: rest => (new.isEmpty = true → soloed.isEmpty = true) ∧ spares id muted new rest

/-- Whether a channel's mute is told. -/
def Tale.tells (id : String) : Tale → Bool
  | .channel other _ => other == id
  | .state _ => true
  | .solo _ => false

def mutedIn (chs : List Channel) (id : String) : Bool := ((chs.find? (·.id == id)).map (·.muted)).getD false

def tale : ServerMsg → Option Tale
  | .channelUpdate id _ muted _ => some (.channel id muted)
  | .soloUpdate soloed => some (.solo (Std.ExtTreeSet.ofList soloed compare))
  | .state channels .. => some (.state (mutedIn channels))
  | _ => none

/-- What a page no finger is on makes of it. -/
def Mutes.hear (mu : Mutes) : Tale → Mutes
  | .channel id muted => { mu with shown := Function.update mu.shown id muted }
  | .state shown => { mu with shown }
  | .solo new => match soloChange mu.soloed new with
    | .unchanged => mu
    | .cleared => { mu with soloed := new, saved := fun _ => none }
    | .entered => { mu with soloed := new, saved := fun id => some (mu.shown id) }
    | .switched => { mu with soloed := new, shown := fun id => !new.contains id }

theorem soloChange_spec (current new : BTreeSet String) : match soloChange current new with
    | .unchanged => new = current
    | .cleared => new.isEmpty = true
    | .entered => new.isEmpty = false ∧ current.isEmpty = true
    | .switched => new ≠ current ∧ new.isEmpty = false ∧ current.isEmpty = false := by
  unfold soloChange
  split_ifs <;> simp_all

/-- Channels of the ids, in order, showing the mutes `f`. -/
structure Rows (ids : List String) (f : String → Bool) (chs : List Channel) : Prop where
  entries : chs.map (fun c => (c.id, c.muted)) = ids.map fun id => (id, f id)

section
variable {ids : List String} {f : String → Bool} {chs : List Channel}

theorem Rows.keys (rows : Rows ids f chs) : chs.map (·.id) = ids := by
  have firsts := congrArg (List.map Prod.fst) rows.entries
  simpa [Function.comp_def] using firsts

theorem Rows.congr {g : String → Bool} (rows : Rows ids f chs) (same : ∀ id ∈ ids, f id = g id) : Rows ids g chs := by
  refine ⟨rows.entries.trans ?_⟩
  apply List.map_congr_left
  intro id member
  rw [same id member]

theorem Rows.mem (rows : Rows ids f chs) {c : Channel} (member : c ∈ chs) : c.id ∈ ids ∧ c.muted = f c.id := by
  have entry : (c.id, c.muted) ∈ ids.map fun id => (id, f id) := rows.entries ▸ List.mem_map_of_mem member
  obtain ⟨id, inside, same⟩ := List.mem_map.mp entry
  obtain ⟨rfl, muted⟩ := Prod.mk.inj same
  exact ⟨inside, muted.symm⟩

/-- Channels whose ids stay and whose mutes become a function of the id. -/
theorem Rows.map (rows : Rows ids f chs) (g : Channel → Channel) (h : String → Bool) (id : ∀ c, (g c).id = c.id)
    (muted : ∀ c, (g c).muted = h c.id) : Rows ids h (chs.map g) := by
  have named := rows.keys
  subst named
  exact ⟨by simp [id, muted]⟩

theorem Rows.mutedIn (rows : Rows ids f chs) {id : String} (member : id ∈ ids) : mutedIn chs id = f id := by
  unfold Ui.mutedIn
  cases found : chs.find? (·.id == id) with
  | none =>
    rw [← rows.keys] at member
    obtain ⟨c, inside, rfl⟩ := List.mem_map.mp member
    simpa using List.find?_eq_none.mp found c inside
  | some c =>
    obtain ⟨-, muted⟩ := rows.mem (List.mem_of_find?_eq_some found)
    have named : c.id = id := by simpa using List.find?_some found
    rw [Option.map_some, Option.getD_some, muted, named]

/-- A channel's mute written. -/
theorem Rows.modify (rows : Rows ids f chs) (g : Channel → Channel) {id : String} {muted : Bool}
    (named : ∀ c, c.id = id → (g c).id = id) (written : ∀ c, c.id = id → (g c).muted = muted) (distinct : ids.Nodup) :
    Rows ids (Function.update f id muted) (modifyChannel g id chs) := by
  induction chs generalizing ids with
  | nil =>
    cases ids with
    | nil => exact ⟨rfl⟩
    | cons x rest => cases rows.entries
  | cons c later ih =>
    cases ids with
    | nil => cases rows.entries
    | cons x rest =>
      obtain ⟨fresh, apart⟩ := List.nodup_cons.mp distinct
      obtain ⟨first, tail⟩ := List.cons.inj rows.entries
      obtain ⟨rfl, muted'⟩ := Prod.mk.inj first
      have below : Rows rest f later := ⟨tail⟩
      by_cases here : c.id = id
      · subst here
        rw [modifyChannel, if_pos rfl]
        have elsewhere : Rows rest (Function.update f c.id muted) later := by
          apply below.congr
          intro id member
          rw [Function.update_of_ne]
          rintro rfl
          exact fresh member
        constructor
        simp only [List.map_cons, named c rfl, written c rfl, Function.update_self, elsewhere.entries]
      · rw [modifyChannel, if_neg here]
        constructor
        simp only [List.map_cons, Function.update_of_ne here, muted', (ih below apart).entries]

/-- A channel changed but for its mute. -/
theorem Rows.slide (rows : Rows ids f chs) (g : Channel → Channel) (id : String) (named : ∀ c, (g c).id = c.id)
    (muted : ∀ c, (g c).muted = c.muted) : Rows ids f (modifyChannel g id chs) := by
  have same : (modifyChannel g id chs).map (fun c => (c.id, c.muted)) = chs.map fun c => (c.id, c.muted) := by
    clear rows
    induction chs with
    | nil => rfl
    | cons c rest ih =>
      unfold modifyChannel
      split
      · simp [named, muted]
      · simp [ih]
  exact ⟨same.trans rows.entries⟩

theorem updateChannel_eq (id : String) (levelDb : F64) (muted : Bool) (pan : F64) :
    updateChannel chs id levelDb muted pan = modifyChannel (fun c => { c with levelDb, muted, pan }) id chs := by
  induction chs with
  | nil => rfl
  | cons c rest ih => simp only [updateChannel, modifyChannel, ih]

theorem set_found (new : Channel) :
    (match chs.findIdx? (·.id == new.id) with
      | some i => chs.set i new
      | none => chs) = modifyChannel (fun _ => new) new.id chs := by
  induction chs with
  | nil => rfl
  | cons c rest ih =>
    rw [List.findIdx?_cons, modifyChannel]
    by_cases here : c.id = new.id
    · simp [here]
    · rw [if_neg here, beq_false_of_ne here, ← ih]
      cases rest.findIdx? (·.id == new.id) <;> rfl

/-- Full channels of the same ids bring their mutes, when the touched ones' are shown already. -/
theorem Rows.merge {g : String → Bool} {incoming : List Channel} {touched : String → Bool} (rows : Rows ids f chs)
    (news : Rows ids g incoming) (distinct : ids.Nodup) (lands : ∀ id ∈ ids, touched id = true → f id = g id) :
    Rows ids g (mergeOrReplaceChannels chs incoming touched) := by
  have walk : ∀ (news : List Channel) (f : String → Bool) (chs : List Channel), Rows ids f chs →
      (∀ c ∈ news, c.id ∈ ids ∧ c.muted = g c.id) → (∀ id ∈ ids, touched id = true → f id = g id) →
      ∃ f', (∀ id ∈ ids, (id ∈ news.map (·.id) ∨ f id = g id) → f' id = g id) ∧
        Rows ids f' (news.foldl (fun chs new =>
          if touched new.id then chs
          else match chs.findIdx? (·.id == new.id) with
            | some i => chs.set i new
            | none => chs) chs) := by
    intro news
    induction news with
    | nil =>
      intro f chs rows _ _
      exact ⟨f, fun id _ known => known.resolve_left (by simp), rows⟩
    | cons c rest ih =>
      intro f chs rows each lands
      obtain ⟨inside, muted⟩ := each c List.mem_cons_self
      have later := fun c member => each c (List.mem_cons_of_mem _ member)
      rw [List.foldl_cons]
      by_cases held : touched c.id = true
      · rw [if_pos held]
        obtain ⟨f', reached, rows'⟩ := ih f chs rows later lands
        refine ⟨f', fun id member known => reached id member ?_, rows'⟩
        rw [List.map_cons, List.mem_cons] at known
        rcases known with (rfl | known) | known
        · exact .inr (lands c.id inside held)
        · exact .inl known
        · exact .inr known
      · rw [if_neg held, set_found]
        have next := rows.modify (fun _ => c) (fun _ _ => rfl) (fun _ _ => muted) distinct
        have kept : ∀ id ∈ ids, touched id = true → Function.update f c.id (g c.id) id = g id := by
          intro id member touch
          rw [Function.update_of_ne]
          · exact lands id member touch
          · rintro rfl
            exact held touch
        obtain ⟨f', reached, rows'⟩ := ih _ _ next later kept
        refine ⟨f', fun id member known => reached id member ?_, rows'⟩
        rw [List.map_cons, List.mem_cons] at known
        by_cases here : id = c.id
        · subst here
          exact .inr (Function.update_self ..)
        · rw [Function.update_of_ne here]
          exact known.imp_left fun either => either.resolve_left here
  unfold mergeOrReplaceChannels
  simp only [rows.keys, news.keys, bne_self_eq_false, Bool.or_false]
  split
  · exact news
  · obtain ⟨f', reached, rows'⟩ := walk incoming f chs rows (fun _ member => news.mem member) lands
    exact rows'.congr fun id member => reached id member (.inl (by rw [news.keys]; exact member))

theorem Rows.saved (rows : Rows ids f chs) {id : String} (member : id ∈ ids) :
    (channelMutes chs)[id]? = some (f id) := by
  have same : channelMutes chs = BTreeMap.collect (ids.map fun id => (id, f id)) := by
    rw [← rows.entries, BTreeMap.collect, channelMutes, List.foldl_map]
  rw [same, BTreeMap.getElem?_collect_keyed, if_pos member]

end

/-! ### A page and its mutes -/

/-- The page shows the mutes, on channels of the ids. -/
structure MixerState.Views (ids : List String) (p : MixerState) (mu : Mutes) : Prop where
  rows : Rows ids mu.shown p.channels
  soloed : p.soloed = mu.soloed
  saved : ∀ id ∈ ids, p.preSoloMutes[id]? = mu.saved id

/-- A message of channels has those of the ids. -/
def Framed (ids : List String) : ServerMsg → Prop
  | .state channels .. => channels.map (·.id) = ids
  | _ => True

/-- The message tells a channel under a finger no other mute than it shows. -/
def MixerState.Lands (p : MixerState) : ServerMsg → Prop
  | .channelUpdate id _ muted _ => p.faderTouched id = true → p.mutedSignal id = muted
  | .state channels .. => ∀ c ∈ channels, p.faderTouched c.id = true → p.mutedSignal c.id = c.muted
  | _ => True

namespace MixerState
variable {ids : List String} {p : MixerState} {mu : Mutes}

theorem Views.signal (views : p.Views ids mu) {id : String} (member : id ∈ ids) : p.mutedSignal id = mu.shown id :=
  views.rows.mutedIn member

theorem rows_of_framed {channels : List Channel} (framed : channels.map (·.id) = ids) (distinct : ids.Nodup) :
    Rows ids (mutedIn channels) channels := by
  subst framed
  constructor
  rw [List.map_map]
  apply List.map_congr_left
  intro c member
  have found : channels.find? (·.id == c.id) = some c := by
    induction channels with
    | nil => cases member
    | cons x rest ih =>
      obtain ⟨fresh, distinct⟩ := List.nodup_cons.mp distinct
      rcases List.mem_cons.mp member with rfl | later
      · simp
      · have apart : x.id ≠ c.id := by
          intro same
          exact fresh (List.mem_map.mpr ⟨c, later, same.symm⟩)
        rw [List.find?_cons, beq_false_of_ne apart]
        exact ih distinct later
  simp [mutedIn, found]

/-- A message that lands does to the page what it tells. -/
theorem Views.take (views : p.Views ids mu) (distinct : ids.Nodup) {msg : ServerMsg} (framed : Framed ids msg)
    (lands : p.Lands msg) : (p.take msg).Views ids (((tale msg).map mu.hear).getD mu) := by
  cases msg with
  | channelUpdate id levelDb muted pan =>
    refine ⟨?_, ?_, views.saved⟩
    · simp only [MixerState.take, Phone.take, tale, Option.map_some, Option.getD_some, Mutes.hear]
      by_cases held : p.faderTouched id = true
      · rw [if_pos held]
        apply views.rows.congr
        intro other member
        by_cases here : other = id
        · subst here
          rw [Function.update_self, ← views.signal member]
          exact lands held
        · rw [Function.update_of_ne here]
      · rw [if_neg held, updateChannel_eq]
        exact views.rows.modify _ (fun _ named => named) (fun _ _ => rfl) distinct
    · simp only [MixerState.take, Phone.take]
      split <;> exact views.soloed
  | state channels connected globalLevelDb globalMuted mix stemsLevelDb stemsMuted group =>
    refine ⟨?_, views.soloed, views.saved⟩
    have news := rows_of_framed framed distinct
    apply views.rows.merge news distinct
    intro id member touch
    rw [← news.keys] at member
    obtain ⟨c, inside, rfl⟩ := List.mem_map.mp member
    obtain ⟨known, muted⟩ := news.mem inside
    rw [← views.signal known, lands c inside touch, muted]
  | soloUpdate soloed =>
    have current : p.soloed = mu.soloed := views.soloed
    simp only [tale, Option.map_some, Option.getD_some, Mutes.hear]
    rw [← current]
    generalize new : (Std.ExtTreeSet.ofList soloed compare : BTreeSet String) = now
    have spec := soloChange_spec p.soloed now
    cases change : soloChange p.soloed now with
    | unchanged =>
      rw [change] at spec
      refine ⟨?_, ?_, ?_⟩
      · simpa [MixerState.take, Phone.take, new, spec] using views.rows
      · simp [MixerState.take, Phone.take, new, spec, current]
      · simpa [MixerState.take, new, change] using views.saved
    | cleared =>
      rw [change] at spec
      refine ⟨?_, ?_, ?_⟩
      · simpa [MixerState.take, Phone.take, new, spec] using views.rows
      · simp [MixerState.take, Phone.take, new]
      · simp [MixerState.take, new, change]
    | entered =>
      rw [change] at spec
      refine ⟨?_, ?_, ?_⟩
      · simpa [MixerState.take, Phone.take, new, spec.2] using views.rows
      · simp [MixerState.take, Phone.take, new]
      · intro id member
        simpa [MixerState.take, new, change] using views.rows.saved member
    | switched =>
      rw [change] at spec
      refine ⟨?_, ?_, ?_⟩
      · have shows : (p.take (.soloUpdate soloed)).channels = showExclusiveSolo p.channels now := by
          simp [MixerState.take, Phone.take, new, spec]
        rw [shows]
        exact views.rows.map _ _ (fun _ => rfl) fun _ => rfl
      · simp [MixerState.take, Phone.take, new]
      · simpa [MixerState.take, new, change] using views.saved
  | globalVolumeUpdate levelDb muted =>
    refine ⟨?_, ?_, views.saved⟩ <;> simp only [MixerState.take, Phone.take] <;> split
    · exact views.rows
    · exact views.rows
    · exact views.soloed
    · exact views.soloed
  | stemsVolumeUpdate levelDb muted =>
    refine ⟨?_, ?_, views.saved⟩ <;> simp only [MixerState.take, Phone.take] <;> split
    · exact views.rows
    · exact views.rows
    · exact views.soloed
    · exact views.soloed
  | eqParams | meters | connectionChanged | lineupChanged | inputUpdate => exact ⟨views.rows, views.soloed, views.saved⟩

/-- A page that has shown nothing yet, before its first channels. -/
def Fresh (p : MixerState) (mu : Mutes) : Prop :=
  p.channels = [] ∧ p.soloed = mu.soloed ∧ ∀ id : String, p.preSoloMutes[id]? = mu.saved id

/-- The page shows the mutes, or will from what it is told first. -/
def Meets (ids : List String) (p : MixerState) (mu : Mutes) (tales : List Tale) : Prop :=
  p.Views ids mu ∨ (p.Fresh mu ∧ ∃ shown rest, tales = .state shown :: rest)

/-- A page takes its next message as it tells. -/
theorem Meets.take {msg : ServerMsg} {wire : List ServerMsg} (meets : p.Meets ids mu ((msg :: wire).filterMap tale))
    (distinct : ids.Nodup) (framed : Framed ids msg) (lands : p.Lands msg) :
    (p.take msg).Meets ids (((tale msg).map mu.hear).getD mu) (wire.filterMap tale) := by
  rcases meets with views | ⟨⟨none, soloed, saved⟩, shown, rest, first⟩
  · exact .inl (views.take distinct framed lands)
  · cases msg with
    | state channels connected globalLevelDb globalMuted mix stemsLevelDb stemsMuted group =>
      refine .inl ⟨?_, soloed, fun id _ => saved id⟩
      simpa [MixerState.take, Phone.take, none, mergeOrReplaceChannels, tale, Mutes.hear] using
        rows_of_framed framed distinct
    | channelUpdate id levelDb muted pan => simp [tale] at first
    | soloUpdate ids => simp [tale] at first
    | globalVolumeUpdate levelDb muted =>
      refine .inr ⟨⟨?_, ?_, saved⟩, shown, rest, first⟩ <;> simp only [MixerState.take, Phone.take] <;> split
      · exact none
      · exact none
      · exact soloed
      · exact soloed
    | stemsVolumeUpdate levelDb muted =>
      refine .inr ⟨⟨?_, ?_, saved⟩, shown, rest, first⟩ <;> simp only [MixerState.take, Phone.take] <;> split
      · exact none
      · exact none
      · exact soloed
      · exact soloed
    | eqParams | meters | connectionChanged | lineupChanged | inputUpdate =>
      exact .inr ⟨⟨none, soloed, saved⟩, shown, rest, first⟩

/-- Fingers and levels leave the mutes. -/
theorem Meets.slide {tales : List Tale} (meets : p.Meets ids mu tales) (id : String) (levelDb pan : F64) :
    { p with channels := modifyChannel (fun c => { c with levelDb, pan }) id p.channels }.Meets ids mu tales := by
  rcases meets with views | ⟨⟨none, soloed, saved⟩, first⟩
  · exact .inl ⟨views.rows.slide _ id (fun _ => rfl) fun _ => rfl, views.soloed, views.saved⟩
  · exact .inr ⟨⟨by simp [none, modifyChannel], soloed, saved⟩, first⟩

theorem Meets.touch {tales : List Tale} (meets : p.Meets ids mu tales) (faders : String → Bool) :
    { p with faderTouched := faders }.Meets ids mu tales := by
  rcases meets with views | ⟨fresh, first⟩
  · exact .inl ⟨views.rows, views.soloed, views.saved⟩
  · exact .inr ⟨fresh, first⟩

end MixerState

/-! ### The mutes that are right -/

/-- The page knows the solo, and while there is one the own mutes. -/
structure Knows (sources : List Source) (own : Source → Bool) (solo : Source → Prop) (mu : Mutes) : Prop where
  active : mu.soloed.isEmpty = false ↔ ∃ x, solo x
  soloed : ∀ x ∈ sources, (x.text ∈ mu.soloed ↔ solo x)
  saved : (∃ x, solo x) → ∀ x ∈ sources, mu.saved x.text = some (own x)

/-- And without one it shows them. -/
structure Right (sources : List Source) (own : Source → Bool) (solo : Source → Prop) (mu : Mutes) : Prop
    extends Knows sources own solo mu where
  shown : (¬∃ x, solo x) → ∀ x ∈ sources, mu.shown x.text = own x

section
variable {sources : List Source} {own : Source → Bool} {solo : Source → Prop} {mu : Mutes}

theorem Right.congr {own' : Source → Bool} {solo' : Source → Prop} (right : Right sources own solo mu)
    (same : ∀ x ∈ sources, own' x = own x) (still : ∀ x, solo' x ↔ solo x) : Right sources own' solo' mu := by
  have known : (∃ x, solo' x) ↔ ∃ x, solo x := exists_congr still
  refine ⟨⟨right.active.trans known.symm, fun x member => (right.soloed x member).trans (still x).symm, ?_⟩, ?_⟩
  · intro active x member
    rw [right.saved (known.mp active) x member, same x member]
  · intro silent x member
    rw [right.shown (fun active => silent (known.mpr active)) x member, same x member]

/-- A set of ids tells the solo. -/
def Names (sources : List Source) (solo : Source → Prop) (ids : BTreeSet String) : Prop :=
  (ids.isEmpty = false ↔ ∃ x, solo x) ∧ ∀ x ∈ sources, (x.text ∈ ids ↔ solo x)

/-- A solo's update saves the mutes it starts from. -/
theorem Right.soloTold {solo' : Source → Prop} {new : BTreeSet String} (right : Right sources own solo mu)
    (names : Names sources solo' new) : Knows sources own solo' (mu.hear (.solo new)) := by
  have spec := soloChange_spec mu.soloed new
  cases change : soloChange mu.soloed new with
  | unchanged =>
    rw [change] at spec
    subst spec
    simp only [Mutes.hear, change]
    refine ⟨names.1, names.2, fun active x member => right.saved ?_ x member⟩
    exact right.active.mp (names.1.mpr active)
  | cleared =>
    rw [change] at spec
    simp only [Mutes.hear, change]
    refine ⟨names.1, names.2, fun active => ?_⟩
    rw [← names.1, spec] at active
    cases active
  | entered =>
    rw [change] at spec
    simp only [Mutes.hear, change]
    refine ⟨names.1, names.2, fun _ x member => ?_⟩
    have silent : ¬∃ x, solo x := by simp [← right.active, spec.2]
    exact congrArg some (right.shown silent x member)
  | switched =>
    rw [change] at spec
    simp only [Mutes.hear, change]
    exact ⟨names.1, names.2, fun _ => right.saved (right.active.mp spec.2.2)⟩

/-- The solo as it is, told again. -/
theorem Right.again {new : BTreeSet String} (right : Right sources own solo mu) (names : Names sources solo new) :
    Right sources own solo (mu.hear (.solo new)) := by
  refine ⟨right.soloTold names, fun silent x member => ?_⟩
  have before : mu.soloed.isEmpty = true := by
    rw [← Bool.not_eq_false, right.active]
    exact silent
  have after : new.isEmpty = true := by
    rw [← Bool.not_eq_false, names.1]
    exact silent
  have still : (mu.hear (.solo new)).shown = mu.shown := by
    simp only [Mutes.hear, soloChange, before, after, if_true]
    split_ifs <;> rfl
  rw [still]
  exact right.shown silent x member

/-- Channels told one after another. -/
theorem hear_channels (distinct : (sources.map Source.text).Nodup) (v : Source → Bool) {xs : List Source}
    (inside : ∀ x ∈ xs, x ∈ sources) (mu : Mutes) :
    let after := (xs.map fun x => Tale.channel x.text (v x)).foldl Mutes.hear mu
    after.soloed = mu.soloed ∧ after.saved = mu.saved ∧
      ∀ x ∈ sources, after.shown x.text = if x ∈ xs then v x else mu.shown x.text := by
  induction xs generalizing mu with
  | nil => simp
  | cons y rest ih =>
    obtain ⟨soloed, saved, shown⟩ := ih (fun x member => inside x (List.mem_cons_of_mem _ member))
      (mu.hear (.channel y.text (v y)))
    refine ⟨soloed, saved, fun x member => ?_⟩
    rw [List.map_cons, List.foldl_cons, shown x member]
    by_cases later : x ∈ rest
    · simp [later]
    · by_cases same : x = y
      · simp [same, Mutes.hear]
      · have apart : x.text ≠ y.text := fun text =>
          same (List.inj_on_of_nodup_map distinct member (inside y List.mem_cons_self) text)
        simp [later, same, Mutes.hear, Function.update_of_ne apart]

/-- Single channels leave the solo and the saved mutes. -/
theorem channels_leave {tales : List Tale} (channels : ∀ t ∈ tales, t.isChannel = true) (mu : Mutes) :
    (tales.foldl Mutes.hear mu).soloed = mu.soloed ∧ (tales.foldl Mutes.hear mu).saved = mu.saved := by
  induction tales generalizing mu with
  | nil => exact ⟨rfl, rfl⟩
  | cons t rest ih =>
    obtain ⟨soloed, saved⟩ := ih (fun t member => channels t (List.mem_cons_of_mem _ member)) (mu.hear t)
    rw [List.foldl_cons, soloed, saved]
    cases t with
    | channel id muted => exact ⟨rfl, rfl⟩
    | solo new | state shown => cases channels _ List.mem_cons_self

/-- What is known is of the solo and the saved mutes. -/
theorem Knows.of_same {mu' : Mutes} (knows : Knows sources own solo mu) (soloed : mu'.soloed = mu.soloed)
    (saved : mu'.saved = mu.saved) : Knows sources own solo mu' := by
  refine ⟨?_, ?_, ?_⟩
  · rw [soloed]
    exact knows.active
  · rw [soloed]
    exact knows.soloed
  · rw [saved]
    exact knows.saved

/-- What is known stays known over channels, whatever they show. -/
theorem Knows.told (knows : Knows sources own solo mu) (distinct : (sources.map Source.text).Nodup) (v : Source → Bool)
    {xs : List Source} (inside : ∀ x ∈ xs, x ∈ sources) :
    Knows sources own solo ((xs.map fun x => Tale.channel x.text (v x)).foldl Mutes.hear mu) := by
  obtain ⟨soloed, saved, -⟩ := hear_channels distinct v inside mu
  exact knows.of_same soloed saved

/-- Own mutes that a solo's silence leaves. -/
theorem Knows.kept {own' : Source → Bool} (knows : Knows sources own solo mu)
    (kept : (∃ x, solo x) → ∀ x ∈ sources, own' x = own x) : Knows sources own' solo mu := by
  refine ⟨knows.active, knows.soloed, fun active x member => ?_⟩
  rw [knows.saved active x member, kept active x member]

/-- The channels whose own mutes changed, told. -/
theorem Right.levels {own' : Source → Bool} (right : Right sources own solo mu)
    (distinct : (sources.map Source.text).Nodup) {v : Source → Bool} {xs : List Source} (inside : ∀ x ∈ xs, x ∈ sources)
    (kept : (∃ x, solo x) → ∀ x ∈ sources, own' x = own x) (untold : ∀ x ∈ sources, x ∉ xs → own' x = own x)
    (plain : (¬∃ x, solo x) → ∀ x ∈ xs, v x = own' x) :
    Right sources own' solo ((xs.map fun x => Tale.channel x.text (v x)).foldl Mutes.hear mu) := by
  refine ⟨(right.toKnows.told distinct v inside).kept kept, fun silent x member => ?_⟩
  obtain ⟨-, -, shown⟩ := hear_channels distinct v inside mu
  rw [shown x member]
  split
  · exact plain silent x (by assumption)
  · rw [untold x member (by assumption)]
    exact right.shown silent x member

/-- Every channel told makes what is known right. -/
theorem Knows.channels (knows : Knows sources own solo mu) (distinct : (sources.map Source.text).Nodup)
    {v : Source → Bool} (plain : (¬∃ x, solo x) → ∀ x ∈ sources, v x = own x) :
    Right sources own solo ((sources.map fun x => Tale.channel x.text (v x)).foldl Mutes.hear mu) := by
  refine ⟨knows.told distinct v fun _ member => member, fun silent x member => ?_⟩
  obtain ⟨-, -, shown⟩ := hear_channels distinct v (fun _ member => member) mu
  rw [shown x member, if_pos member]
  exact plain silent x member

theorem Knows.state (knows : Knows sources own solo mu) {shown : String → Bool}
    (plain : (¬∃ x, solo x) → ∀ x ∈ sources, shown x.text = own x) : Right sources own solo (mu.hear (.state shown)) :=
  ⟨⟨knows.active, knows.soloed, knows.saved⟩, plain⟩

end

/-! ### The clicks -/

/-- The page's mutes after a mute click on `id`. -/
structure Mutes.Clicked (id : String) (muted : Bool) (mu mu' : Mutes) : Prop where
  soloed : mu'.soloed = mu.soloed
  shown : ∀ other, other ≠ id → mu'.shown other = mu.shown other
  saved : ∀ other, other ≠ id → mu'.saved other = mu.saved other
  silent : mu.soloed.isEmpty = true → mu'.shown id = muted
  active : mu.soloed.isEmpty = false → mu'.saved id = some muted

section
variable {sources : List Source} {own : Source → Bool} {solo : Source → Prop} {mu mu' : Mutes} {x : Source}
  {muted : Bool} (distinct : (sources.map Source.text).Nodup) (member : x ∈ sources)
  (click : mu.Clicked x.text muted mu')
include distinct member click

theorem Knows.clicked (knows : Knows sources own solo mu) : Knows sources (Function.update own x muted) solo mu' := by
  have soloed := click.soloed
  refine ⟨?_, ?_, fun active y inside => ?_⟩
  · rw [soloed]
    exact knows.active
  · rw [soloed]
    exact knows.soloed
  · by_cases same : y = x
    · rw [same, Function.update_self]
      exact click.active (knows.active.mpr active)
    · have other : y.text ≠ x.text := fun text => same (List.inj_on_of_nodup_map distinct inside member text)
      rw [Function.update_of_ne same, click.saved y.text other]
      exact knows.saved active y inside

theorem Right.clicked (right : Right sources own solo mu) : Right sources (Function.update own x muted) solo mu' := by
  refine ⟨right.toKnows.clicked distinct member click, fun silent y inside => ?_⟩
  by_cases same : y = x
  · rw [same, Function.update_self]
    refine click.silent ?_
    rw [← Bool.not_eq_false, right.active]
    exact silent
  · have other : y.text ≠ x.text := fun text => same (List.inj_on_of_nodup_map distinct inside member text)
    rw [Function.update_of_ne same, click.shown y.text other]
    exact right.shown silent y inside

end

section
variable {sources : List Source} {own : Source → Bool} {solo : Source → Prop} {p : MixerState} {mu : Mutes}
  (views : p.Views (sources.map Source.text) mu)
include views

theorem Knows.silent_iff (knows : Knows sources own solo mu) : p.soloed.isEmpty = true ↔ ¬∃ x, solo x := by
  rw [← knows.active, views.soloed, Bool.not_eq_false]

/-- A mute click: with a solo the saved mute changes, without one the shown. -/
theorem MixerState.Views.clickMute (distinct : (sources.map Source.text).Nodup) {id : String}
    (apart : p.soloed.contains id = false) (up : p.connected = true) :
    ∃ muted mu', (p.onMuteClick id).2 = [.setMute id muted] ∧
      (p.onMuteClick id).1.Views (sources.map Source.text) mu' ∧ mu.Clicked id muted mu' ∧
      (p.soloed.isEmpty = true → muted = !p.mutedSignal id) := by
  have soloed := views.soloed
  unfold MixerState.onMuteClick muteClick
  rw [up]
  by_cases silent : p.soloed.isEmpty = true
  · simp only [Bool.not_true, Bool.false_eq_true, if_false, silent, Bool.false_and]
    refine ⟨_, { mu with shown := Function.update mu.shown id (!p.mutedSignal id) }, rfl,
      ⟨?_, soloed, views.saved⟩, ⟨rfl, ?_, fun _ _ => rfl, ?_, ?_⟩, fun _ => rfl⟩
    · exact views.rows.modify _ (fun _ named => named) (fun _ _ => rfl) distinct
    · exact fun other differs => Function.update_of_ne differs _ _
    · exact fun _ => Function.update_self ..
    · intro active
      rw [← soloed, silent] at active
      cases active
  · rw [Bool.not_eq_true] at silent
    simp only [Bool.not_true, Bool.false_eq_true, if_false, silent, apart, Bool.not_false, Bool.and_true, if_true]
    refine ⟨_, { mu with saved := Function.update mu.saved id (some (!p.preSoloMutes[id]?.getD false)) }, rfl,
      ⟨views.rows, soloed, ?_⟩, ⟨rfl, fun _ _ => rfl, ?_, ?_, ?_⟩, False.elim⟩
    · intro other known
      simp only [BTreeMap.getElem?_insert_eq]
      by_cases same : other = id
      · simp [same]
      · simp only [Ne.symm same, if_false, Function.update_of_ne same]
        exact views.saved other known
    · exact fun other differs => Function.update_of_ne differs _ _
    · intro none
      rw [← soloed, silent] at none
      cases none
    · exact fun _ => Function.update_self ..

variable (right : Right sources own solo mu)
include right

/-- A masked channel's click is the opposite of its own mute, and so is one while nothing is soloed. -/
theorem Right.mute_click {x : Source} (member : x ∈ sources) (unsoloed : ¬solo x) :
    muteClick x.text (p.mutedSignal x.text) p.soloed p.preSoloMutes =
      if p.soloed.isEmpty then .toggle (!own x) else .masked (!own x) := by
  have inside := List.mem_map_of_mem (f := Source.text) member
  have apart : p.soloed.contains x.text = false := by
    rw [Bool.eq_false_iff]
    intro held
    rw [views.soloed] at held
    exact unsoloed ((right.soloed x member).mp held)
  unfold muteClick
  by_cases silent : p.soloed.isEmpty = true
  · rw [views.signal inside, right.shown ((right.silent_iff views).mp silent) x member]
    simp [silent]
  · have active : ∃ x, solo x := by
      by_contra none
      exact silent ((right.silent_iff views).mpr none)
    rw [views.saved _ inside, right.saved active x member]
    simp [silent, apart]

/-- The solo's end shows the own mutes. -/
theorem Right.clear (active : ∃ x, solo x) : ∃ mu', p.clearSolo.Views (sources.map Source.text) mu' ∧
    Right sources own (fun _ => False) mu' := by
  refine ⟨⟨fun id => (p.preSoloMutes[id]?).getD false, ∅, fun _ => none⟩, ⟨?_, rfl, ?_⟩, ?_⟩
  · exact views.rows.map _ _ (fun _ => rfl) fun _ => rfl
  · intro id _
    simp [MixerState.clearSolo]
  · refine ⟨⟨by simp, by simp, by simp⟩, fun _ x member => ?_⟩
    simp [views.saved _ (List.mem_map_of_mem member), right.saved active x member]

theorem Right.clickClear (active : ∃ x, solo x) (up : p.connected = true) :
    p.onClearSolo.2 = [.setSolo []] ∧
      ∃ mu', p.onClearSolo.1.Views (sources.map Source.text) mu' ∧ Right sources own (fun _ => False) mu' := by
  unfold MixerState.onClearSolo
  simp only [up, Bool.not_true, Bool.false_eq_true, if_false, true_and]
  exact right.clear views active

theorem Right.clickSolo (distinct : (sources.map Source.text).Nodup) {x : Source} (member : x ∈ sources)
    (up : p.connected = true) :
    (solo x ∧ (p.onSoloClick x.text).2 = [.setSolo []] ∧
      ∃ mu', (p.onSoloClick x.text).1.Views (sources.map Source.text) mu' ∧ Right sources own (fun _ => False) mu') ∨
    (¬solo x ∧ (p.onSoloClick x.text).2 = [.setSolo [x.text]] ∧
      ∃ mu', (p.onSoloClick x.text).1.Views (sources.map Source.text) mu' ∧ Right sources own (· = x) mu') := by
  have soloed : p.soloed.contains x.text = true ↔ solo x := by
    rw [views.soloed]
    exact right.soloed x member
  unfold MixerState.onSoloClick
  simp only [up, Bool.not_true, Bool.false_eq_true, if_false]
  by_cases held : p.soloed.contains x.text = true
  · left
    have on := soloed.mp held
    simp only [held, if_true, true_and]
    exact ⟨on, right.clear views ⟨x, on⟩⟩
  · right
    have off := soloed.not.mp held
    simp only [held, Bool.false_eq_true, if_false, true_and]
    refine ⟨off, ⟨fun id => id != x.text, Std.ExtTreeSet.ofList [x.text] compare, fun id =>
      if p.soloed.isEmpty then some (mu.shown id) else mu.saved id⟩, ⟨?_, rfl, ?_⟩, ?_⟩
    · exact views.rows.map _ _ (fun _ => rfl) fun _ => rfl
    · intro id known
      split
      · exact views.rows.saved known
      · exact views.saved id known
    · have only : ∀ y ∈ sources, (y.text = x.text ↔ y = x) := by
        intro y member'
        exact ⟨List.inj_on_of_nodup_map distinct member' member, congrArg _⟩
      refine ⟨⟨?_, ?_, ?_⟩, fun none => absurd ⟨x, rfl⟩ none⟩
      · simp
      · intro y member'
        rw [Std.ExtTreeSet.mem_ofList]
        simp [only y member', eq_comm]
      · intro _ y member'
        by_cases silent : p.soloed.isEmpty = true
        · simp only [silent, if_true]
          exact congrArg some (right.shown ((right.silent_iff views).mp silent) y member')
        · simp only [silent, Bool.false_eq_true, if_false]
          refine right.saved ?_ y member'
          by_contra none
          exact silent ((right.silent_iff views).mpr none)

end

end IemMixer.Ui
