import IemMixer.Ui.SoloProofs

/-! A page that follows. What is on its way, heard in order by the mutes it shows, makes them
right for the own mutes and the solo as the page's waiting clicks will leave them; or a solo click
waits, whose answer tells every channel anew. -/
namespace IemMixer.Ui
open Lib Proto Server TopologyProofs IemMixer.Core MirrorProofs

/-! ### What an event tells keeps the mutes right -/

section
variable {view : SiteView} {page : Page} {viewer : Viewer}

/-- The channel of a level's change. -/
def leveled (view : SiteView) (page : Page) (viewer : Viewer) : Change → Option Source
  | .level mix x _ => if mix = page.mix ∧ shown view page viewer x then some x else none
  | _ => none

theorem leveled_iff {c : Change} {x : Source} : leveled view page viewer c = some x ↔
    shown view page viewer x = true ∧ ∃ l, c = .level page.mix x l := by
  cases c with
  | level mix y l =>
    simp only [leveled]
    split
    · next told =>
      obtain ⟨rfl, seen⟩ := told
      simp only [Option.some.injEq, Change.level.injEq, true_and, exists_and_left, exists_eq', and_true]
      constructor
      · rintro rfl
        exact ⟨seen, rfl⟩
      · exact fun both => both.2
    · next untold =>
      simp only [reduceCtorEq, Change.level.injEq, false_iff]
      rintro ⟨seen, l', rfl, rfl, -⟩
      exact untold ⟨rfl, seen⟩
  | _ => simp [leveled]

/-- Changes without a solo tell channels. -/
theorem levels_tales {changes : List Change} (unsolo : ∀ c ∈ changes, ofSolo page.mix c = false) (v : Source → Bool) :
    changes.flatMap (changeTales view page viewer v) =
      (changes.filterMap (leveled view page viewer)).map fun x => .channel x.text (v x) := by
  induction changes with
  | nil => rfl
  | cons c rest ih =>
    rw [List.flatMap_cons, ih fun c member => unsolo c (List.mem_cons_of_mem _ member)]
    have first := unsolo c List.mem_cons_self
    cases c with
    | level mix x l =>
      simp only [changeTales, leveled, List.filterMap_cons]
      split <;> simp
    | solo mix sources =>
      have other : mix ≠ page.mix := by simpa [ofSolo] using first
      simp [changeTales, List.filterMap_cons, leveled, other]
    | _ => rfl

theorem mutesAt_source (distinct : ((sourcesOf view page viewer).map Source.text).Nodup) (v : Source → Bool)
    {x : Source} (member : x ∈ sourcesOf view page viewer) : mutesAt view page viewer v x.text = v x := by
  unfold mutesAt
  cases found : (sourcesOf view page viewer).find? (·.text == x.text) with
  | none => simpa using List.find?_eq_none.mp found x member
  | some y =>
    have named : y.text = x.text := by simpa using List.find?_some found
    have same := List.inj_on_of_nodup_map distinct (List.mem_of_find?_eq_some found) member named
    rw [Option.map_some, Option.getD_some, same]

variable {own : Source → Bool} {solo solo' : Source → Prop} {mu : Mutes} {v : Source → Bool}
  {now : BTreeSet String} (distinct : ((sourcesOf view page viewer).map Source.text).Nodup)
include distinct

/-- The whole state, told. -/
theorem Knows.reset (knows : Knows (sourcesOf view page viewer) own solo mu)
    (names : Names (sourcesOf view page viewer) solo now)
    (plain : (¬∃ x, solo x) → ∀ x ∈ sourcesOf view page viewer, v x = own x) :
    Right (sourcesOf view page viewer) own solo
      ([Tale.state (mutesAt view page viewer v), .solo now].foldl Mutes.hear mu) := by
  refine (knows.state fun silent x member => ?_).again names
  rw [mutesAt_source distinct v member]
  exact plain silent x member

/-- Changes that leave the solo. -/
theorem Right.told (own' : Source → Bool) (resets : Bool) {changes : List Change}
    (right : Right (sourcesOf view page viewer) own solo mu)
    (names : Names (sourcesOf view page viewer) solo now)
    (kept : (∃ x, solo x) → ∀ x ∈ sourcesOf view page viewer, own' x = own x)
    (unsolo : ∀ c ∈ changes, ofSolo page.mix c = false)
    (untold : ∀ x ∈ sourcesOf view page viewer, (∀ c ∈ changes, ∀ l, c ≠ .level page.mix x l) →
      own' x = own x ∨ resets = true)
    (plain : (¬∃ x, solo x) → ∀ x ∈ sourcesOf view page viewer, v x = own' x) :
    Right (sourcesOf view page viewer) own' solo ((changes.flatMap (changeTales view page viewer v) ++
      if resets then [Tale.state (mutesAt view page viewer v), .solo now] else []).foldl Mutes.hear mu) := by
  rw [levels_tales unsolo, List.foldl_append]
  have inside : ∀ x ∈ changes.filterMap (leveled view page viewer), x ∈ sourcesOf view page viewer := by
    intro x told
    obtain ⟨c, -, level⟩ := List.mem_filterMap.mp told
    exact (shown_iff view page viewer x).mp (leveled_iff.mp level).1
  cases resets with
  | true => exact ((right.toKnows.told distinct v inside).kept kept).reset distinct names plain
  | false =>
    refine right.levels distinct inside kept (fun x member apart => ?_) fun silent x told => ?_
    · refine (untold x member fun c told l same => ?_).resolve_right Bool.false_ne_true
      have seen := (shown_iff view page viewer x).mpr member
      exact apart (List.mem_filterMap.mpr ⟨c, told, leveled_iff.mpr ⟨seen, l, same⟩⟩)
    · exact plain silent x (inside x told)

/-- Changes whose only one of mutes and solos is a solo. -/
theorem Right.moved {changes : List Change} {resets : Bool} {list : List Source}
    (right : Right (sourcesOf view page viewer) own solo mu)
    (names : Names (sourcesOf view page viewer) solo' (soloIds view viewer list))
    (again : Names (sourcesOf view page viewer) solo' now)
    (only : changes.filter (ofMutes page.mix) = [.solo page.mix list])
    (plain : (¬∃ x, solo' x) → ∀ x ∈ sourcesOf view page viewer, v x = own x) :
    Right (sourcesOf view page viewer) own solo' ((changes.flatMap (changeTales view page viewer v) ++
      if resets then [Tale.state (mutesAt view page viewer v), .solo now] else []).foldl Mutes.hear mu) := by
  have tales : changes.flatMap (changeTales view page viewer v) =
      .solo (soloIds view viewer list) :: channelTales view page viewer v := by
    have apart : ∀ cs : List Change, cs.flatMap (changeTales view page viewer v) =
        (cs.filter (ofMutes page.mix)).flatMap (changeTales view page viewer v) := by
      intro cs
      induction cs with
      | nil => rfl
      | cons c rest ih =>
        by_cases of : ofMutes page.mix c = true
        · rw [List.filter_cons_of_pos of, List.flatMap_cons, List.flatMap_cons, ih]
        · rw [List.filter_cons_of_neg of, List.flatMap_cons, ih]
          rw [Socket.changeTales_nil (Bool.eq_false_iff.mpr of), List.nil_append]
    rw [apart, only]
    simp [changeTales]
  rw [tales, List.foldl_append, List.foldl_cons]
  have told := (right.soloTold names).channels distinct plain
  cases resets with
  | true => exact told.toKnows.reset distinct again plain
  | false => exact told

end

/-! ### Mutes told anew -/

/-- Tales of the same channels with the mutes `v` and `v'`. -/
inductive Alike (view : SiteView) (page : Page) (viewer : Viewer) (v v' : Source → Bool) : Tale → Tale → Prop where
  | channel {x : Source} (member : x ∈ sourcesOf view page viewer) :
    Alike view page viewer v v' (.channel x.text (v x)) (.channel x.text (v' x))
  | solo (soloed : BTreeSet String) : Alike view page viewer v v' (.solo soloed) (.solo soloed)
  | state : Alike view page viewer v v' (.state (mutesAt view page viewer v)) (.state (mutesAt view page viewer v'))

section
variable {view : SiteView} {page : Page} {viewer : Viewer} {v v' : Source → Bool}

theorem channels_alike : List.Forall₂ (Alike view page viewer v v') (channelTales view page viewer v)
    (channelTales view page viewer v') := by
  simp only [channelTales, List.forall₂_map_left_iff, List.forall₂_map_right_iff]
  exact List.forall₂_same.mpr fun x member => .channel member

theorem change_alike (c : Change) : List.Forall₂ (Alike view page viewer v v') (changeTales view page viewer v c)
    (changeTales view page viewer v' c) := by
  cases c with
  | level mix x l =>
    simp only [changeTales]
    split
    · next told => exact .cons (.channel ((shown_iff view page viewer x).mp told.2)) .nil
    · exact .nil
  | solo mix sources =>
    simp only [changeTales]
    split
    · exact .cons (.solo _) channels_alike
    · exact .nil
  | _ => exact .nil

theorem flatMap_alike {α : Type} {f g : α → List Tale}
    (each : ∀ a, List.Forall₂ (Alike view page viewer v v') (f a) (g a)) (as : List α) :
    List.Forall₂ (Alike view page viewer v v') (as.flatMap f) (as.flatMap g) := by
  induction as with
  | nil => exact .nil
  | cons a rest ih =>
    rw [List.flatMap_cons, List.flatMap_cons]
    exact List.rel_append (each a) ih

theorem event_alike (session : ℕ) (now : BTreeSet String) (e : EngineEvent) :
    List.Forall₂ (Alike view page viewer v v') (eventTales view page viewer session v now e)
      (eventTales view page viewer session v' now e) := by
  cases e with
  | changed origin changes =>
    simp only [eventTales]
    split
    · exact flatMap_alike (fun _ => channels_alike) _
    · exact flatMap_alike change_alike _
  | reset => exact .cons .state (.cons (.solo _) .nil)
  | connected => exact .cons .state .nil
  | disconnected | other => exact .nil

/-- Tales that tell no channel otherwise. -/
theorem alike_eq {tales tales' : List Tale} (alike : List.Forall₂ (Alike view page viewer v v') tales tales')
    (same : ∀ x ∈ sourcesOf view page viewer, tales.any (·.tells x.text) = true → v' x = v x) : tales' = tales := by
  induction alike with
  | nil => rfl
  | @cons t t' rest rest' first _ ih =>
    rw [ih fun x member told => same x member (by simp [told])]
    cases first with
    | @channel x member => rw [same x member (by simp [Tale.tells])]
    | solo new => rfl
    | state =>
      have at_each : mutesAt view page viewer v' = mutesAt view page viewer v := by
        funext id
        unfold mutesAt
        cases found : (sourcesOf view page viewer).find? (·.text == id) with
        | none => rfl
        | some x =>
          rw [Option.map_some, Option.map_some, same x (List.mem_of_find?_eq_some found) (by simp [Tale.tells])]
      rw [at_each]

theorem channels_of_alike {tales tales' : List Tale} (alike : List.Forall₂ (Alike view page viewer v v') tales tales')
    (channels : ∀ t ∈ tales, t.isChannel = true) : ∀ t ∈ tales', t.isChannel = true := by
  induction alike with
  | nil => simp
  | cons first _ ih =>
    obtain ⟨here, later⟩ := List.forall_mem_cons.mp channels
    refine List.forall_mem_cons.mpr ⟨?_, ih later⟩
    cases first with
    | channel member => rfl
    | solo new | state => cases here

/-- An event tells single channels whatever they show. -/
theorem event_channels {session : ℕ} {now : BTreeSet String} {e : EngineEvent}
    (channels : ∀ t ∈ eventTales view page viewer session v now e, t.isChannel = true) (v' : Source → Bool)
    (now' : BTreeSet String) : ∀ t ∈ eventTales view page viewer session v' now' e, t.isChannel = true := by
  cases e with
  | changed origin changes => exact channels_of_alike (event_alike session now (.changed origin changes)) channels
  | reset | connected => cases channels _ List.mem_cons_self
  | disconnected | other => simp [eventTales]

/-- Mutes of another telling: each is as told, or as it was. -/
theorem hear_alike (distinct : ((sourcesOf view page viewer).map Source.text).Nodup) {tales tales' : List Tale}
    (alike : List.Forall₂ (Alike view page viewer v v') tales tales') {mu mu' : Mutes} (soloed : mu'.soloed = mu.soloed)
    (near : ∀ x ∈ sourcesOf view page viewer, mu'.shown x.text = mu.shown x.text ∨ mu'.shown x.text = v' x) :
    (tales'.foldl Mutes.hear mu').soloed = (tales.foldl Mutes.hear mu).soloed ∧
      ∀ x ∈ sourcesOf view page viewer,
        (tales'.foldl Mutes.hear mu').shown x.text = (tales.foldl Mutes.hear mu).shown x.text ∨
        (tales'.foldl Mutes.hear mu').shown x.text = v' x := by
  induction alike generalizing mu mu' with
  | nil => exact ⟨soloed, near⟩
  | cons first _ ih =>
    rw [List.foldl_cons, List.foldl_cons]
    cases first with
    | @channel y member =>
      refine ih soloed fun x inside => ?_
      by_cases here : x = y
      · simp [Mutes.hear, here]
      · have apart : x.text ≠ y.text := fun same => here (List.inj_on_of_nodup_map distinct inside member same)
        simpa only [Mutes.hear, Function.update_of_ne apart] using near x inside
    | state =>
      refine ih soloed fun x inside => .inr ?_
      exact mutesAt_source distinct v' inside
    | solo new =>
      refine ih ?_ ?_
      · simp only [Mutes.hear, soloed]
        split <;> first | exact soloed | rfl
      · intro x inside
        simp only [Mutes.hear, soloed]
        split
        · exact near x inside
        · exact near x inside
        · exact near x inside
        · exact .inl rfl

/-- Without a solo, what was right for the old own mutes is right for each old or new. -/
theorem Right.anew {own : Source → Bool} {solo : Source → Prop} {tales tales' : List Tale} {mu : Mutes}
    (right : Right (sourcesOf view page viewer) own solo (tales.foldl Mutes.hear mu)) (v' : Source → Bool)
    (silent : ¬∃ x, solo x) (distinct : ((sourcesOf view page viewer).map Source.text).Nodup)
    (alike : List.Forall₂ (Alike view page viewer v v') tales tales') :
    ∃ between, (∀ x ∈ sourcesOf view page viewer, between x = own x ∨ between x = v' x) ∧
      Right (sourcesOf view page viewer) between solo (tales'.foldl Mutes.hear mu) := by
  obtain ⟨soloed, near⟩ := hear_alike distinct alike (rfl : mu.soloed = mu.soloed) fun _ _ => .inl rfl
  refine ⟨fun x => (tales'.foldl Mutes.hear mu).shown x.text, fun x member => ?_, ⟨?_, ?_, ?_⟩, fun _ _ _ => rfl⟩
  · rw [← right.shown silent x member]
    exact near x member
  · rw [soloed]
    exact right.active
  · rw [soloed]
    exact right.soloed
  · exact fun active => absurd active silent

end

/-! ### A click and what is on its way -/

/-- Tales that differ on channel `id` alone. -/
inductive Apart (id : String) : Tale → Tale → Prop where
  | channel {other : String} {muted muted' : Bool} (same : other ≠ id → muted' = muted) :
    Apart id (.channel other muted) (.channel other muted')
  | solo (soloed : BTreeSet String) : Apart id (.solo soloed) (.solo soloed)
  | state {shown shown' : String → Bool} (same : ∀ other, other ≠ id → shown' other = shown other) :
    Apart id (.state shown) (.state shown')

section
variable {id : String} {tales tales' : List Tale}

theorem apart_self (tales : List Tale) : List.Forall₂ (Apart id) tales tales := by
  refine List.forall₂_same.mpr fun t _ => ?_
  cases t with
  | channel other muted => exact .channel fun _ => rfl
  | solo new => exact .solo new
  | state shown => exact .state fun _ _ => rfl

theorem apart_of_alike {view : SiteView} {page : Page} {viewer : Viewer} {v v' : Source → Bool}
    (alike : List.Forall₂ (Alike view page viewer v v') tales tales')
    (same : ∀ x ∈ sourcesOf view page viewer, x.text ≠ id → v' x = v x) : List.Forall₂ (Apart id) tales tales' := by
  refine alike.imp fun t t' first => ?_
  cases first with
  | channel member => exact .channel (same _ member)
  | solo new => exact .solo new
  | state =>
    refine .state fun other differs => ?_
    unfold mutesAt
    cases found : (sourcesOf view page viewer).find? (·.text == other) with
    | none => rfl
    | some x =>
      have named : x.text = other := by simpa using List.find?_some found
      rw [Option.map_some, Option.map_some, same x (List.mem_of_find?_eq_some found) (named ▸ differs)]

/-- During a solo that goes on, what is told of a channel is all one. -/
theorem spares_active {muted muted' : Bool} {soloed : BTreeSet String} (active : soloed.isEmpty = false)
    (apart : List.Forall₂ (Apart id) tales tales') (spared : spares id muted soloed tales) :
    spares id muted' soloed tales' := by
  induction apart generalizing soloed with
  | nil => trivial
  | cons first _ ih =>
    cases first with
    | channel | state => exact ⟨fun silent => absurd silent (by simp [active]), ih active spared.2⟩
    | solo new =>
      refine ⟨spared.1, ih ?_ spared.2⟩
      rw [Bool.eq_false_iff]
      intro ends
      rw [spared.1 ends] at active
      cases active

/-- A click's effect outlasts what spares it. -/
theorem hear_clicked {muted : Bool} (apart : List.Forall₂ (Apart id) tales tales') {mu mu' : Mutes}
    (clicked : mu.Clicked id muted mu') (spared : spares id muted mu.soloed tales') :
    (tales.foldl Mutes.hear mu).Clicked id muted (tales'.foldl Mutes.hear mu') := by
  induction apart generalizing mu mu' with
  | nil => exact clicked
  | cons first _ ih =>
    rw [List.foldl_cons, List.foldl_cons]
    obtain ⟨soloed, shown, saved, silent, active⟩ := clicked
    cases first with
    | @channel other was now same =>
      refine ih ⟨soloed, fun y differs => ?_, saved, fun none => ?_, active⟩ spared.2
      · by_cases here : y = other
        · subst here
          simp only [Mutes.hear, Function.update_self, same differs]
        · simpa only [Mutes.hear, Function.update_of_ne here] using shown y differs
      · by_cases here : id = other
        · subst here
          simpa only [Mutes.hear, Function.update_self] using spared.1 none rfl
        · simpa only [Mutes.hear, Function.update_of_ne here] using silent none
    | state same => exact ih ⟨soloed, same, saved, spared.1, active⟩ spared.2
    | solo new =>
      have spec := soloChange_spec mu.soloed new
      have after : (mu.hear (.solo new)).soloed = new := by
        simp only [Mutes.hear]
        cases change : soloChange mu.soloed new with
        | unchanged =>
          rw [change] at spec
          exact spec.symm
        | cleared | entered | switched => rfl
      refine ih ?_ (by rw [after]; exact spared.2)
      simp only [Mutes.hear, soloed]
      cases change : soloChange mu.soloed new with
      | unchanged => exact ⟨soloed, shown, saved, silent, active⟩
      | cleared =>
        -- The solo would have ended, or was none.
        rw [change] at spec
        have none := spared.1 spec
        have same : new = mu.soloed := by
          rw [Std.ExtTreeSet.isEmpty_iff] at spec none
          rw [spec, none]
        simp [soloChange, same] at change
      | entered =>
        rw [change] at spec
        refine ⟨rfl, shown, fun y differs => congrArg some (shown y differs), fun none => ?_, fun _ => ?_⟩
        · exact absurd none (by simp [spec.1])
        · exact congrArg some (silent spec.2)
      | switched =>
        rw [change] at spec
        refine ⟨rfl, fun _ _ => rfl, saved, fun none => ?_, fun _ => active spec.2.2⟩
        exact absurd none (by simp [spec.2.1])

end

/-! ### The invariant -/

namespace Socket

/-- What the page's requests make of the own mutes and the solo. Each solo click changes the solo. -/
inductive Asks (view : SiteView) (page : Page) (viewer : Viewer) :
    (Source → Bool) → (Source → Prop) → List ClientMsg → (Source → Bool) → (Source → Prop) → Prop where
  | done {own : Source → Bool} {solo : Source → Prop} : Asks view page viewer own solo [] own solo
  | plain {own own' : Source → Bool} {solo solo' : Source → Prop} {msg : ClientMsg} {rest : List ClientMsg}
    (quiet : isClick msg = false) (later : Asks view page viewer own solo rest own' solo') :
    Asks view page viewer own solo (msg :: rest) own' solo'
  | mute {own own' : Source → Bool} {solo solo' : Source → Prop} {rest : List ClientMsg} {x : Source}
    (member : x ∈ sourcesOf view page viewer) (muted : Bool)
    (later : Asks view page viewer (Function.update own x muted) solo rest own' solo') :
    Asks view page viewer own solo (.setMute x.text muted :: rest) own' solo'
  | solo {own own' : Source → Bool} {solo solo' : Source → Prop} {rest : List ClientMsg} {sources : List Source}
    (members : ∀ x ∈ sources, x ∈ sourcesOf view page viewer) (few : sources.length ≤ maxSolo)
    (moves : ¬∀ x, solo x ↔ x ∈ sources) (later : Asks view page viewer own (· ∈ sources) rest own' solo') :
    Asks view page viewer own solo (.setSolo (sources.map Source.text) :: rest) own' solo'

section
variable {view : SiteView} {page : Page} {viewer : Viewer} {own own' own'' : Source → Bool}
  {solo solo' solo'' : Source → Prop} {msgs more : List ClientMsg}

theorem Asks.append (asks : Asks view page viewer own solo msgs own' solo')
    (next : Asks view page viewer own' solo' more own'' solo'') :
    Asks view page viewer own solo (msgs ++ more) own'' solo'' := by
  induction asks with
  | done => exact next
  | plain quiet _ ih => exact .plain quiet (ih next)
  | mute member muted _ ih => exact .mute member muted (ih next)
  | solo members few moves _ ih => exact .solo members few moves (ih next)

theorem Asks.alone {x : Source} (member : x ∈ sourcesOf view page viewer) (unsoloed : ¬solo x) :
    Asks view page viewer own solo [.setSolo [x.text]] own (· = x) := by
  have asks : Asks view page viewer own solo [.setSolo ([x].map Source.text)] own (· ∈ [x]) :=
    .solo (by simpa using member) (by simp [maxSolo]) (fun same => unsoloed ((same x).mpr List.mem_cons_self)) .done
  simpa using asks

theorem Asks.ended (active : ∃ x, solo x) : Asks view page viewer own solo [.setSolo []] own fun _ => False := by
  obtain ⟨x, held⟩ := active
  have asks : Asks view page viewer own solo [.setSolo (([] : List Source).map Source.text)] own (· ∈ []) :=
    .solo (by simp) (Nat.zero_le _) (fun same => List.not_mem_nil ((same x).mp held)) .done
  simpa using asks

/-- Requests without a click. -/
theorem Asks.quiet (asks : Asks view page viewer own solo msgs own' solo')
    (quiet : ∀ msg ∈ msgs, isClick msg = false) : own' = own ∧ solo' = solo := by
  induction asks with
  | done => exact ⟨rfl, rfl⟩
  | plain _ _ ih => exact ih fun msg member => quiet msg (List.mem_cons_of_mem _ member)
  | mute | solo => cases quiet _ List.mem_cons_self

/-- Without a solo click the mutes alone change, whatever the solo. -/
theorem Asks.mutes (asks : Asks view page viewer own solo msgs own' solo') (free : ∀ soloed, .setSolo soloed ∉ msgs) :
    solo' = solo ∧ ∀ other, Asks view page viewer own other msgs own' other := by
  induction asks with
  | done => exact ⟨rfl, fun _ => .done⟩
  | plain quiet _ ih =>
    obtain ⟨same, each⟩ := ih fun soloed member => free soloed (List.mem_cons_of_mem _ member)
    exact ⟨same, fun other => .plain quiet (each other)⟩
  | mute member muted _ ih =>
    obtain ⟨same, each⟩ := ih fun soloed member => free soloed (List.mem_cons_of_mem _ member)
    exact ⟨same, fun other => .mute member muted (each other)⟩
  | solo => exact absurd List.mem_cons_self (free _)

/-- The requests from other own mutes. -/
theorem Asks.anew (asks : Asks view page viewer own solo msgs own' solo') (other : Source → Bool) :
    ∃ other', Asks view page viewer other solo msgs other' solo' ∧ ∀ x, other x = own x → other' x = own' x := by
  induction asks generalizing other with
  | done => exact ⟨other, .done, fun _ same => same⟩
  | plain quiet _ ih =>
    obtain ⟨after, asks, same⟩ := ih other
    exact ⟨after, .plain quiet asks, same⟩
  | @mute own own' solo solo' rest x member muted _ ih =>
    obtain ⟨after, asks, same⟩ := ih (Function.update other x muted)
    refine ⟨after, .mute member muted asks, fun y alike => same y ?_⟩
    by_cases here : y = x
    · simp [here]
    · simp [Function.update_of_ne here, alike]
  | solo members few moves _ ih =>
    obtain ⟨after, asks, same⟩ := ih other
    exact ⟨after, .solo members few moves asks, same⟩

/-- Each own mute as the last click on it leaves it. -/
theorem Asks.clicked (asks : Asks view page viewer own solo msgs own' solo')
    (distinct : ((sourcesOf view page viewer).map Source.text).Nodup) {x : Source}
    (member : x ∈ sourcesOf view page viewer) : msgs.foldl (Socket.clicked x) (own x) = own' x := by
  induction asks with
  | done => rfl
  | @plain own own' solo solo' msg rest quiet _ ih =>
    have kept : Socket.clicked x (own x) msg = own x := by cases msg <;> first | rfl | cases quiet
    rw [List.foldl_cons, kept]
    exact ih
  | @mute own own' solo solo' rest y inside muted _ ih =>
    rw [List.foldl_cons, ← ih]
    congr 1
    by_cases here : x = y
    · simp [Socket.clicked, here]
    · have apart : y.text ≠ x.text := fun same => here (List.inj_on_of_nodup_map distinct inside member same).symm
      simp [Socket.clicked, apart, Function.update_of_ne here]
  | solo members few moves _ ih => exact ih

end

section
variable (view : SiteView) (page : Page) (viewer : Viewer) (session : ℕ)

/-- No solo click waits, and what is on its way makes the page right. -/
structure Calm (own : Source → Bool) (d : Socket) : Prop where
  free : ¬d.Soloing
  right : ∃ mu, d.page.Meets ((sourcesOf view page viewer).map Source.text) mu (d.wire.filterMap tale) ∧
    Right (sourcesOf view page viewer) own (d.solo page) ((d.due page view viewer session own).foldl Mutes.hear mu)

/-- A solo click waits, whose answer tells every channel anew. -/
structure Waits (own : Source → Bool) (solo : Source → Prop) (d : Socket) : Prop where
  soloing : d.Soloing
  channels : d.Channels page view viewer session
  known : ∃ mu, d.page.Views ((sourcesOf view page viewer).map Source.text) mu ∧
    Knows (sourcesOf view page viewer) own solo mu

/-- The session tells its page's sources, of a core it mirrors, whose solo shows. -/
structure Tracks (topo : Topology) (d : Socket) : Prop where
  linked : Linked topo d.mirror d.core
  framed : ∀ msg ∈ d.wire, Framed ((sourcesOf view page viewer).map Source.text) msg
  seen : d.Active page → ∃ x, d.solo page x ∧ seenSolo view viewer x

/-- The page follows its mix: it is right for what its clicks will make of it. -/
structure Follows (topo : Topology) (d : Socket) : Prop extends d.Tracks view page viewer topo where
  mutes : ∃ own solo, Asks view page viewer (d.own page) (d.solo page) d.asked own solo ∧
    (d.Calm view page viewer session own ∨ d.Waits view page viewer session own solo)

end

section
variable {s : App} {topo : Topology} {view : SiteView} {page : Page} {viewer : Viewer} {session : ℕ} {d : Socket}

theorem strip_known {ids : List String} {mu : Mutes} (views : d.page.Views ids mu) {id : String}
    (strip : d.strip id = true) : id ∈ ids := by
  obtain ⟨c, inside, named⟩ := List.any_eq_true.mp strip
  rw [← beq_iff_eq.mp named]
  exact (views.rows.mem inside).1

theorem Settled.free (settled : d.Settled page session) : ¬d.Soloing := by
  rintro ⟨soloed, waits⟩
  cases settled.asked _ waits

/-- With nothing on its way the page is right. -/
theorem Follows.settled (follows : d.Follows view page viewer session topo) (settled : d.Settled page session) :
    ∃ mu, d.page.Views ((sourcesOf view page viewer).map Source.text) mu ∧
      Right (sourcesOf view page viewer) (d.own page) (d.solo page) mu := by
  have wire : d.wire.filterMap tale = [] := List.filterMap_eq_nil_iff.mpr settled.wire
  obtain ⟨own, solo, asks, calm | waits⟩ := follows.mutes
  · obtain ⟨rfl, -⟩ := asks.quiet settled.asked
    obtain ⟨-, mu, meets, right⟩ := calm
    rw [due, wire, silent_tales settled.events] at right
    rw [wire] at meets
    rcases meets with views | ⟨-, shown, rest, first⟩
    · exact ⟨mu, views, right⟩
    · cases first
  · exact absurd waits.soloing settled.free

theorem Channels.wire (channels : d.Channels page view viewer session) :
    ∀ t ∈ d.wire.filterMap tale, t.isChannel = true :=
  fun t member => channels t (List.mem_append_left _ member)

theorem Channels.event (channels : d.Channels page view viewer session) {e : EngineEvent} (waits : e ∈ d.events)
    (v : Source → Bool) (now : BTreeSet String) :
    ∀ t ∈ eventTales view page viewer session v now e, t.isChannel = true :=
  event_channels (fun t told => channels t (List.mem_append_right _ (List.mem_flatMap.mpr ⟨e, waits, told⟩))) v now

theorem Channels.events (channels : d.Channels page view viewer session) (v : Source → Bool)
    (now : BTreeSet String) : ∀ t ∈ d.events.flatMap (eventTales view page viewer session v now),
      t.isChannel = true := by
  intro t member
  obtain ⟨e, waits, told⟩ := List.mem_flatMap.mp member
  exact channels.event waits v now t told

theorem Channels.due (channels : d.Channels page view viewer session) (own : Source → Bool) :
    ∀ t ∈ d.due page view viewer session own, t.isChannel = true :=
  List.forall_mem_append.mpr ⟨channels.wire, channels.events _ _⟩

/-- Single channels find the page's channels shown. -/
theorem Channels.views (channels : d.Channels page view viewer session) {ids : List String} {mu : Mutes}
    (meets : d.page.Meets ids mu (d.wire.filterMap tale)) : d.page.Views ids mu := by
  rcases meets with views | ⟨-, shown, rest, first⟩
  · exact views
  · have state := channels.wire (.state shown) (first ▸ List.mem_cons_self)
    cases state

section
variable (follows : d.Follows view page viewer session topo)
include follows

/-- With single channels on their way the page knows the solo, and with one the own mutes. -/
theorem Follows.known (channels : d.Channels page view viewer session) : ∃ own solo mu,
    Asks view page viewer (d.own page) (d.solo page) d.asked own solo ∧
      d.page.Views ((sourcesOf view page viewer).map Source.text) mu ∧
      Knows (sourcesOf view page viewer) own solo mu := by
  obtain ⟨own, solo, asks, calm | waits⟩ := follows.mutes
  · obtain ⟨free, mu, meets, right⟩ := calm
    obtain ⟨rfl, -⟩ := asks.mutes fun soloed member => free ⟨soloed, member⟩
    obtain ⟨soloed, saved⟩ := channels_leave (channels.due own) mu
    exact ⟨own, _, mu, asks, channels.views meets, right.toKnows.of_same soloed.symm saved.symm⟩
  · obtain ⟨-, -, mu, views, knows⟩ := waits
    exact ⟨own, solo, mu, asks, views, knows⟩

/-- A click that does nothing. -/
theorem Follows.idle {did : MixerState × List ClientMsg} (same : did = (d.page, [])) :
    (Socket.click d did).Follows view page viewer session topo := by
  subst same
  have still : Socket.click d (d.page, []) = d := by simp [Socket.click]
  rw [still]
  exact follows

/-- A solo click waits for its answer. -/
theorem Follows.soloClick (channels : d.Channels page view viewer session) {did : MixerState × List ClientMsg}
    {own : Source → Bool} {solo solo' : Source → Prop} {mu : Mutes} {soloed : List String}
    (asks : Asks view page viewer (d.own page) (d.solo page) d.asked own solo)
    (sent : did.2 = [.setSolo soloed]) (next : Asks view page viewer own solo [.setSolo soloed] own solo')
    (views : did.1.Views ((sourcesOf view page viewer).map Source.text) mu)
    (knows : Knows (sourcesOf view page viewer) own solo' mu) :
    (Socket.click d did).Follows view page viewer session topo := by
  have after : (Socket.click d did).asked = d.asked ++ [.setSolo soloed] := by rw [Socket.click, sent]
  refine ⟨⟨follows.linked, follows.framed, follows.seen⟩, own, solo', ?_, .inr ⟨?_, channels, mu, views, knows⟩⟩
  · rw [after]
    exact asks.append next
  · exact ⟨soloed, by simp [after]⟩

theorem Follows.clearSolo (channels : d.Channels page view viewer session) (held : d.page.soloed.isEmpty = false) :
    (Socket.click d d.page.onClearSolo).Follows view page viewer session topo := by
  obtain ⟨own, solo, mu, asks, views, knows⟩ := follows.known channels
  have active : ∃ x, solo x := by
    rw [← knows.active, ← views.soloed]
    exact held
  have right : Right (sourcesOf view page viewer) own solo mu := ⟨knows, fun silent => absurd active silent⟩
  cases up : d.page.connected with
  | false => exact follows.idle (by simp [MixerState.onClearSolo, up])
  | true =>
    obtain ⟨sent, mu', views', right'⟩ := right.clickClear views active up
    exact follows.soloClick channels asks sent (.ended active) views' right'.toKnows

end

section
variable (placed : Placed s topo page) (follows : d.Follows (siteOf s topo) page viewer session topo)
include placed follows

theorem Follows.clickSolo (channels : d.Channels page (siteOf s topo) viewer session) {id : String}
    (shows : d.page.soloed.isEmpty = true →
      ∀ x ∈ sourcesOf (siteOf s topo) page viewer, d.page.mutedSignal x.text = d.wants page x)
    (strip : d.strip id = true) :
    (Socket.click d (d.page.onSoloClick id)).Follows (siteOf s topo) page viewer session topo := by
  have distinct := placed.distinct viewer
  obtain ⟨own, solo, mu, asks, views, knows⟩ := follows.known channels
  obtain ⟨x, inside, rfl⟩ := List.mem_map.mp (strip_known views strip)
  have right : Right (sourcesOf (siteOf s topo) page viewer) own solo mu := by
    refine ⟨knows, fun silent y member => ?_⟩
    have shown := shows ((knows.silent_iff views).mpr silent) y member
    rw [views.signal (List.mem_map_of_mem member), wants, asks.clicked distinct member] at shown
    exact shown
  cases up : d.page.connected with
  | false => exact follows.idle (by simp [MixerState.onSoloClick, up])
  | true =>
    rcases right.clickSolo views distinct inside up with
      ⟨on, sent, mu', views', right'⟩ | ⟨off, sent, mu', views', right'⟩
    · exact follows.soloClick channels asks sent (.ended ⟨x, on⟩) views' right'.toKnows
    · exact follows.soloClick channels asks sent (.alone inside off) views' right'.toKnows

/-- A mute click waits, and what is on its way leaves it. -/
theorem Follows.clickMute {id : String} (apart : d.page.soloed.contains id = false)
    (channels : d.Soloing → d.Channels page (siteOf s topo) viewer session)
    (spared : ¬d.Soloing → spares id (!d.page.mutedSignal id) d.page.soloed
      (d.due page (siteOf s topo) viewer session fun x =>
        if x.text = id then !d.page.mutedSignal id else d.wants page x))
    (strip : d.strip id = true) :
    (Socket.click d (d.page.onMuteClick id)).Follows (siteOf s topo) page viewer session topo := by
  have distinct := placed.distinct viewer
  cases up : d.page.connected with
  | false => exact follows.idle (by simp [MixerState.onMuteClick, up])
  | true =>
    obtain ⟨own, solo, asks, mode⟩ := follows.mutes
    have views : ∃ mu, d.page.Views ((sourcesOf (siteOf s topo) page viewer).map Source.text) mu ∧
        (¬d.Soloing → Right (sourcesOf (siteOf s topo) page viewer) own (d.solo page)
          ((d.due page (siteOf s topo) viewer session own).foldl Mutes.hear mu)) ∧
        (d.Soloing → Knows (sourcesOf (siteOf s topo) page viewer) own solo mu) := by
      rcases mode with ⟨free, mu, views | ⟨⟨none, -⟩, -⟩, right⟩ | ⟨waits, -, mu, views, knows⟩
      · exact ⟨mu, views, fun _ => right, fun waits => absurd waits free⟩
      · simp [Socket.strip, none] at strip
      · exact ⟨mu, views, fun free => absurd waits free, fun _ => knows⟩
    obtain ⟨mu, views, right, knows⟩ := views
    have known := strip_known views strip
    obtain ⟨muted, mu', sent, views', clicked, silent⟩ := views.clickMute distinct apart up
    obtain ⟨x, inside, rfl⟩ := List.mem_map.mp known
    have asked : (Socket.click d (d.page.onMuteClick x.text)).asked = d.asked ++ [.setMute x.text muted] := by
      rw [Socket.click, sent]
    have soloing : (Socket.click d (d.page.onMuteClick x.text)).Soloing ↔ d.Soloing := by simp [Soloing, asked]
    refine ⟨⟨follows.linked, follows.framed, follows.seen⟩, Function.update own x muted, solo, ?_, ?_⟩
    · rw [asked]
      exact asks.append (.mute inside muted .done)
    by_cases waits : d.Soloing
    · exact .inr ⟨soloing.mpr waits, channels waits, mu', views', (knows waits).clicked distinct inside clicked⟩
    · refine .inl ⟨soloing.not.mpr waits, mu', .inl views', ?_⟩
      -- Each other channel is told as before.
      have others : List.Forall₂ (Apart x.text) (d.due page (siteOf s topo) viewer session own)
          (d.due page (siteOf s topo) viewer session (Function.update own x muted)) := by
        refine List.rel_append (apart_self _) (apart_of_alike (flatMap_alike (event_alike session _) d.events) ?_)
        intro z _ text
        rw [Function.update_of_ne fun same => text (congrArg Source.text same)]
      have spares' : spares x.text muted mu.soloed
          (d.due page (siteOf s topo) viewer session (Function.update own x muted)) := by
        have spared := spared waits
        rw [views.soloed] at spared
        have told : d.due page (siteOf s topo) viewer session (fun z =>
              if z.text = x.text then !d.page.mutedSignal x.text else d.wants page z) =
            d.due page (siteOf s topo) viewer session (Function.update own x (!d.page.mutedSignal x.text)) := by
          refine congrArg (d.wire.filterMap tale ++ ·)
            (alike_eq (flatMap_alike (event_alike session _) d.events) fun z seen _ => ?_)
          by_cases same : z = x
          · subst same
            simp
          · have other : z.text ≠ x.text := fun text => same (List.inj_on_of_nodup_map distinct seen inside text)
            simp [other, Function.update_of_ne same, wants, asks.clicked distinct seen]
        rw [told] at spared
        by_cases none : mu.soloed.isEmpty = true
        · rw [silent (views.soloed ▸ none)]
          exact spared
        · refine spares_active (Bool.eq_false_iff.mpr none) ?_ spared
          refine List.rel_append (apart_self _) (apart_of_alike (flatMap_alike (event_alike session _) d.events) ?_)
          intro z _ text
          have other : z ≠ x := fun same => text (congrArg Source.text same)
          rw [Function.update_of_ne other, Function.update_of_ne other]
      exact (right waits).clicked distinct inside (hear_clicked others clicked spares')

end

end

end Socket

end IemMixer.Ui
