import IemMixer.Persist.History

/-! The seed's strict reading of the directory against the boot's tolerant one. Where the
strict pick ends well it met no unreadable file, so the tolerant one reads the same files,
finds the same in each and takes the same. -/
namespace IemMixer.Persist
open Lib Lib.Files Proto

section
variable {β : Type} {o : Oracle β}

/-- What can be read stays so, what cannot too, and nothing crashes. -/
structure Steady (o : Oracle β) : Prop where
  read : ∀ (name : String) (t t' : ℕ), o t (.read name) = .done → o t' (.read name) = .done
  list : ∀ t t' : ℕ, o t .list = .done → o t' .list = .done
  whole : ∀ (t : ℕ) (step : Step β) (torn : Option β), o t step ≠ .crash torn

/-- From anywhere `m` ends with a result. -/
def Ends {μ α : Type} (o : Oracle β) (m : FileM β μ α) : Prop := ∀ w, ∃ a w', m o w = .ok a w'

section
variable {μ α γ : Type} {m : FileM β μ α} {f : α → FileM β μ γ}

theorem ends_pure (a : α) : Ends o (pure a : FileM β μ α) := fun w => ⟨a, w, rfl⟩

theorem ends_bind (first : Ends o m) (next : ∀ a, Ends o (f a)) : Ends o (m >>= f) := by
  intro w
  obtain ⟨a, mid, ran⟩ := first w
  obtain ⟨b, last, later⟩ := next a mid
  refine ⟨b, last, ?_⟩
  simp only [bind, ReaderT.bind, EStateM.bind, ran]
  exact later

theorem ends_ite {c : Prop} [Decidable c] {n : FileM β μ α} (yes : Ends o m) (no : Ends o n) :
    Ends o (if c then m else n) := by
  split
  · exact yes
  · exact no

/-- A step that does not crash is an error or a result, both values to an attempt. -/
theorem ends_perform (steady : Steady o) (step : Step β) (act : Dir β → Except IoError (α × Dir β)) :
    Ends o (attempt (perform step act) : FileM β μ _) := by
  intro w
  unfold attempt perform
  cases fate : o w.clock step with
  | done => cases act w.dir <;> simp
  | failed again text torn => simp
  | crash torn => exact absurd fate (steady.whole _ _ torn)

end

/-- A look that ends leaves the directory as it was and finds what it finds. -/
theorem looks_ends {μ α : Type} {d : Dir β} {m : FileM β μ α} {A : α → Prop} (looks : Looks o d m A) (ends : Ends o m)
    {w : World β μ} (here : w.dir = d) : ∃ a w', m o w = .ok a w' ∧ w'.dir = d ∧ A a := by
  obtain ⟨a, w', ran⟩ := ends w
  obtain ⟨⟨dir, -⟩, found⟩ := looks_ok looks here ran
  exact ⟨a, w', ran, dir, found⟩

variable [Json β] (steady : Steady o)
include steady

omit [Json β] in
private theorem ends_readTried (name : String) (paused : ℕ) : Ends o (readTried name paused : StoreM β _) := by
  have again : ∀ left paused, Ends o (readAgain name left paused : StoreM β _) := by
    intro left
    induction left with
    | zero =>
      intro paused
      unfold readAgain
      apply ends_bind (ends_perform steady _ _)
      rintro (e | bytes)
      · exact ends_ite (ends_pure _) (ends_pure _)
      · exact ends_pure _
    | succ left ih =>
      intro paused
      unfold readAgain
      apply ends_bind (ends_perform steady _ _)
      rintro (e | bytes)
      · exact ends_ite (ends_pure _) (ends_ite (ih _) (ends_pure _))
      · exact ends_pure _
  exact again _ _

private theorem ends_readState (s : Store) (name : String) (pick : Pick) (reading : Reading) :
    Ends o (s.readState name pick reading : StoreM β _) := by
  unfold Store.readState
  apply ends_bind (ends_readTried steady name _)
  rintro ⟨e | _ | b, paused⟩
  · exact ends_ite (ends_pure _) (ends_pure _)
  · exact ends_pure _
  · dsimp only
    split <;> exact ends_pure _

omit [Json β] in
private theorem ends_list (s : Store) : Ends o (attempt s.list : StoreM β _) := by
  have mapped : (attempt s.list : StoreM β _) = _ := attempt_map listing
  rw [mapped]
  exact ends_bind (ends_perform steady _ _) fun _ => ends_pure _

private theorem ends_orphansAbove (own : UInt64) (listed : Except IoError Listing) :
    Ends o (orphansAbove own listed : StoreM β _) := by
  have alarms : ∀ orphans, Ends o (orphanAlarms own orphans : StoreM β _) := by
    intro orphans
    induction orphans with
    | nil => exact ends_pure _
    | cons orphan rest ih =>
      unfold orphanAlarms
      apply ends_bind (ends_readTried steady _ _)
      intro read
      exact ends_bind ih fun _ => ends_pure _
  cases listed with
  | ok listed => exact alarms _
  | error e => exact ends_pure _

/-- Where the strict reading `m` ends well in the directory `d`, so does the tolerant `n`,
with the same, which is as `A` says, and nothing passed over since `past`. -/
def Follows (o : Oracle β) (d : Dir β) (past : List String) {α : Type} (m n : StoreM β (Except IoError α × Pick))
    (A : α → Prop) : Prop :=
  ∀ w w' a pick after, w.dir = d → w'.dir = d → m o w = .ok (.ok a, pick) after →
    (after.dir = d ∧ pick.passedOver = past ∧ A a) ∧ ∃ after', n o w' = .ok (.ok a, pick) after' ∧ after'.dir = d

variable {d : Dir β} {past : List String}

omit steady [Json β] in
theorem follows_pure {α : Type} {a : α} {pick : Pick} (same : pick.passedOver = past) {A : α → Prop} (holds : A a) :
    Follows o d past (pure (.ok a, pick)) (pure (.ok a, pick)) A := by
  rintro w w' b pick' after here there ⟨⟩
  exact ⟨⟨here, same, holds⟩, w', rfl, there⟩

omit steady [Json β] in
theorem follows_bind {α γ : Type} {m n : StoreM β (Except IoError α × Pick)} {A : α → Prop} {C : γ → Prop}
    {f g : Except IoError α × Pick → StoreM β (Except IoError γ × Pick)} (first : Follows o d past m n A)
    (fails : ∀ e pick, f (.error e, pick) = pure (.error e, pick))
    (next : ∀ a (pick : Pick), pick.passedOver = past → A a → Follows o d past (f (.ok a, pick)) (g (.ok a, pick)) C) :
    Follows o d past (m >>= f) (n >>= g) C := by
  intro w w' c pick after here there ran
  simp only [bind, ReaderT.bind, EStateM.bind] at ran
  cases start : m o w with
  | error stop mid => simp [start] at ran
  | ok r mid =>
    rw [start] at ran
    obtain ⟨r, pick₁⟩ := r
    cases r with
    | error e =>
      simp only [fails] at ran
      cases ran
    | ok a =>
      obtain ⟨⟨dir, same, holds⟩, mid', ran', dir'⟩ := first w w' a pick₁ mid here there start
      obtain ⟨ended, after', later, home⟩ := next a pick₁ same holds mid mid' c pick after dir dir' ran
      refine ⟨ended, after', ?_, home⟩
      simp only [bind, ReaderT.bind, EStateM.bind, ran', later]

omit steady [Json β] in
/-- A file that can be read is, at once. -/
private theorem readTried_done {name : String} (can : ∀ t, o t (.read name) = .done) (paused : ℕ) (w : World β Bool) :
    readTried name paused o w = .ok (.ok w.dir[name]?, paused) { w with clock := w.clock + 1 } := by
  cases held : w.dir[name]? with
  | none =>
    have gone : (attempt (Files.read name) : StoreM β _) o w = .ok (.error missing) { w with clock := w.clock + 1 } := by
      simp only [attempt, Files.read, perform, can, held]
    rw [readTried, show readTries - 1 = 3 + 1 from rfl, readAgain]
    simp only [bind, ReaderT.bind, EStateM.bind, gone]
    rfl
  | some b =>
    have found : (attempt (Files.read name) : StoreM β _) o w = .ok (.ok b) { w with clock := w.clock + 1 } := by
      simp only [attempt, Files.read, perform, can, held]
    rw [readTried, show readTries - 1 = 3 + 1 from rfl, readAgain]
    simp only [bind, ReaderT.bind, EStateM.bind, found]
    rfl

private theorem follows_readState (s : Store) (name : String) {pick : Pick} (same : pick.passedOver = past) :
    Follows o d past (s.readState name pick .strict) (s.readState name pick .tolerant) (· ≠ .unreadable) := by
  intro w w' a last after here there ran
  obtain ⟨r, mid, tried, home, found⟩ :=
    looks_ends (looks_readTried (o := o) name pick.paused) (ends_readTried steady name pick.paused) here
  simp only [Store.readState, bind, ReaderT.bind, EStateM.bind, tried] at ran
  obtain ⟨bytes, paused⟩ := r
  cases bytes with
  | error e => cases ran
  | ok bytes =>
    have can : ∀ t, o t (.read name) = .done := by
      have once : ¬Unreadable o name := found.2
      simp only [Unreadable, not_forall, not_not] at once
      obtain ⟨t, done⟩ := once
      exact fun t' => steady.read name t t' done
    rw [readTried_done can] at tried
    cases tried
    have tried' := readTried_done can pick.paused w'
    have equal : w'.dir[name]? = w.dir[name]? := by rw [here, there]
    simp only [Store.readState, bind, ReaderT.bind, EStateM.bind, tried', equal]
    cases held : w.dir[name]? with
    | none =>
      simp only [held] at ran
      cases ran
      exact ⟨⟨here, same, by simp⟩, _, rfl, there⟩
    | some b =>
      simp only [held] at ran
      cases decoded : decode b with
      | ok p =>
        simp only [decoded] at ran ⊢
        cases ran
        exact ⟨⟨here, same, by simp⟩, _, rfl, there⟩
      | error why =>
        simp only [decoded] at ran ⊢
        cases ran
        exact ⟨⟨here, same, by simp⟩, _, rfl, there⟩

private theorem follows_newestValid (s : Store) (gens : List (UInt64 × String)) {pick : Pick}
    (same : pick.passedOver = past) :
    Follows o d past (s.newestValid .strict gens pick) (s.newestValid .tolerant gens pick) fun _ => True := by
  induction gens generalizing pick with
  | nil => exact follows_pure same trivial
  | cons head older ih =>
    unfold Store.newestValid
    apply follows_bind (follows_readState steady s head.2 same)
    · intro e pick
      rfl
    · intro found pick same read
      cases found with
      | valid p => exact follows_pure same trivial
      | missing => exact ih same
      | damaged => exact ih same
      | unreadable => exact absurd rfl read

omit steady [Json β] in
private theorem againstCurrent_passes (s : Store) (c : Persisted) (tmp : Read) (pick : Pick) :
    (s.againstCurrent c tmp pick).2.passedOver = pick.passedOver := by
  cases tmp with
  | valid t =>
    simp only [Store.againstCurrent]
    split <;> rfl
  | _ => rfl

omit steady [Json β] in
private theorem againstGeneration_passes (s : Store) (tmp : Read) (newest : Option (Persisted × UInt64 × String))
    (unlisted : Option IoError) (pick : Pick) :
    (s.againstGeneration tmp newest unlisted pick).2.passedOver = pick.passedOver := by
  cases tmp with
  | valid t =>
    cases newest with
    | none => rfl
    | some g =>
      simp only [Store.againstGeneration]
      split <;> rfl
  | _ => cases newest <;> rfl

omit [Json β] in
/-- A listing that was made is made again. -/
private theorem follows_generations (s : Store) {γ : Type} {f g : Except IoError (List (UInt64 × String)) →
    StoreM β (Except IoError γ × Pick)} {C : γ → Prop} (fails : ∀ e, ∃ e' pick, f (.error e) = pure (.error e', pick))
    (next : ∀ gens, Follows o d past (f (.ok gens)) (g (.ok gens)) C) :
    Follows o d past (attempt s.generations >>= f) (attempt s.generations >>= g) C := by
  have mapped : (attempt s.generations : StoreM β _) = attempt s.list >>= fun r => pure (r.map (·.generations)) :=
    attempt_map Listing.generations
  have listed : (attempt s.list : StoreM β _) = attempt Files.list >>= fun r => pure (r.map listing) :=
    attempt_map listing
  have made : ∀ w : World β Bool, o w.clock .list = .done → (attempt s.generations : StoreM β _) o w =
      .ok (.ok (listing w.dir.keys).generations) { w with clock := w.clock + 1 } := by
    intro w done
    have names : (attempt Files.list : StoreM β _) o w = .ok (.ok w.dir.keys) { w with clock := w.clock + 1 } := by
      simp only [attempt, Files.list, perform, done]
    rw [mapped, listed]
    simp only [bind, ReaderT.bind, EStateM.bind, names]
    rfl
  intro w w' c pick after here there ran
  simp only [bind, ReaderT.bind, EStateM.bind] at ran
  cases fate : o w.clock .list with
  | crash torn => exact absurd fate (steady.whole _ _ torn)
  | failed again text torn =>
    obtain ⟨e', pick', failed⟩ := fails ⟨if again then .transient else .other, text⟩
    have lost : (attempt s.generations : StoreM β _) o w =
        .ok (.error ⟨if again then .transient else .other, text⟩) { w with clock := w.clock + 1 } := by
      have names : (attempt Files.list : StoreM β _) o w =
          .ok (.error ⟨if again then .transient else .other, text⟩) { w with clock := w.clock + 1 } := by
        simp only [attempt, Files.list, perform, fate, tear]
      rw [mapped, listed]
      simp only [bind, ReaderT.bind, EStateM.bind, names]
      rfl
    simp only [lost, failed] at ran
    cases ran
  | done =>
    simp only [made w fate, here] at ran
    have again := made w' (steady.list _ _ fate)
    obtain ⟨ended, after', later, home⟩ := next (listing d.keys).generations { w with clock := w.clock + 1 }
      { w' with clock := w'.clock + 1 } c pick after here there (here ▸ ran)
    refine ⟨ended, after', ?_, home⟩
    simp only [bind, ReaderT.bind, EStateM.bind, again, there]
    exact there ▸ later

private theorem follows_pickFallback (s : Store) (tmp : Read) {pick : Pick} (same : pick.passedOver = past) :
    Follows o d past (s.pickFallback tmp pick .strict) (s.pickFallback tmp pick .tolerant) fun _ => True := by
  unfold Store.pickFallback
  apply follows_generations steady
  · intro e
    exact ⟨e, pick, rfl⟩
  · intro gens
    apply follows_bind (follows_newestValid steady s gens.reverse same)
    · intro e pick
      rfl
    · intro newest pick same _
      have extended := (againstGeneration_passes s tmp newest none pick).trans same
      exact follows_pure extended trivial

theorem follows_pickLive (s : Store) : Follows o d [] (s.pickLive {} .strict) (s.pickLive {} .tolerant) fun _ => True := by
  unfold Store.pickLive
  apply follows_bind (follows_readState steady s currentJson rfl)
  · intro e pick
    rfl
  · intro current pick same read
    have none : (if current.state = .unreadable then pick.passedOver ++ [currentJson] else pick.passedOver) = [] := by
      cases current with
      | unreadable => exact absurd rfl read
      | _ => exact same
    apply follows_bind (follows_readState steady s saveTmp none)
    · intro e pick
      rfl
    · intro tmp pick same _
      cases current with
      | valid current => 
        have extended := (againstCurrent_passes s current tmp { pick with saveTmp := tmp.state }).trans same
        exact follows_pure extended trivial
      | _ => exact follows_pickFallback steady s tmp same

omit steady in
/-- What a pick takes is in the file it names. -/
private theorem Picked.holds {l : Live} {pick : Pick} {current tmp : Read} (picked : Picked o d (some l) pick current tmp) :
    Holds d l.file l.persisted := by
  have readsCurrent := picked.readsCurrent
  have readsTmp := picked.readsTmp
  cases picked.choice with
  | superseded => exact readsTmp.1
  | leftover => exact readsCurrent.1
  | current => exact readsCurrent.1
  | pending => exact readsTmp.1
  | generation fallen named holds newest => exact holds

omit steady in
private theorem live_ran {s : Store} {w after : World β Bool} {r : Option (Source × String)}
    (ran : s.live o w = .ok r after) : ∃ live pick, s.pickLive {} .strict o w = .ok (.ok live, pick) after ∧
      r = live.map fun l => (l.source, l.file) := by
  simp only [Store.live, bind, ReaderT.bind, EStateM.bind] at ran
  cases picked : s.pickLive {} .strict o w with
  | error stop mid => simp [picked] at ran
  | ok x mid =>
    obtain ⟨live, pick⟩ := x
    rw [picked] at ran
    cases live with
    | error e => cases ran
    | ok live =>
      cases ran
      exact ⟨live, pick, rfl, rfl⟩

/-- With nothing passed over a load is what its chain gives, and more alarms. -/
private theorem load_of_chain {s : Store} {topo : Topology} {w mid : World β Bool} {chained : Loaded}
    (ran : s.loadChain topo o w = .ok (chained, []) mid) : ∃ loaded last, s.load topo o w = .ok loaded last ∧
      loaded.source = chained.source ∧ loaded.persisted = chained.persisted := by
  obtain ⟨listed, next, looked⟩ := ends_list steady s mid
  obtain ⟨orphans, last, compared⟩ := ends_orphansAbove steady chained.persisted.rev listed next
  have whole : s.load topo o w = .ok { chained with alarms := chained.alarms ++ orphans } last := by
    simp only [Store.load, bind, ReaderT.bind, EStateM.bind, ran, looked, List.isEmpty_nil, if_true, compared]
    rfl
  exact ⟨_, last, whole, rfl, rfl⟩

/-- The boot takes what the strict look took. -/
private theorem load_of_live {s : Store} (topo : Topology) {w w' after : World β Bool} {live : Option Live} {pick : Pick}
    (here : w.dir = d) (there : w'.dir = d) (strict : s.pickLive {} .strict o w = .ok (.ok live, pick) after) :
    (∀ l, live = some l → Holds d l.file l.persisted ∧ ∃ loaded last, s.load topo o w' = .ok loaded last ∧
      loaded.source = l.source ∧
      loaded.persisted = { l.persisted with state := toState topo (reconcile topo l.persisted.state).1 }) ∧
    (live = none → ∃ loaded last, s.load topo o w' = .ok loaded last ∧
      (loaded.source = .baseline ∨ loaded.source = .defaults)) := by
  obtain ⟨⟨-, none, -⟩, mid, tolerant, home⟩ := follows_pickLive steady s w w' live pick after here there strict
  constructor
  · rintro l rfl
    obtain ⟨-, live, current, tmp, same, picked⟩ := looks_ok (looks_pickLive s) there tolerant
    cases same
    have chained : s.loadChain topo o w' = .ok (settle topo l.persisted l.source pick, []) mid := by
      simp only [Store.loadChain, bind, ReaderT.bind, EStateM.bind, tolerant, none]
      rfl
    obtain ⟨loaded, last, ran, source, persisted⟩ := load_of_chain steady chained
    exact ⟨picked.holds, loaded, last, ran, source, persisted⟩
  · rintro rfl
    obtain ⟨r, next, looked⟩ := ends_readState steady s baselineJson pick .tolerant mid
    have chained : ∃ chained, s.loadChain topo o w' = .ok (chained, []) next ∧
        (chained.source = .baseline ∨ chained.source = .defaults) := by
      obtain ⟨found, pick'⟩ := r
      simp only [Store.loadChain, bind, ReaderT.bind, EStateM.bind, tolerant, none, looked]
      cases found with
      | error e => exact ⟨_, rfl, .inr rfl⟩
      | ok found =>
        cases found with
        | valid p => exact ⟨_, rfl, .inl rfl⟩
        | _ => exact ⟨_, rfl, .inr rfl⟩
    obtain ⟨chained, ran, source⟩ := chained
    obtain ⟨loaded, last, ran, same, -⟩ := load_of_chain steady ran
    exact ⟨loaded, last, ran, same ▸ source⟩

/-- The two readings agree. With whatever can and cannot be read in the directory: a live state
the seed finds is the one the engine loads, and where the seed finds none the engine falls to
the baseline or the defaults. -/
theorem readings_agree (s : Store) (topo : Topology) (w w' : World β Bool) (same : w'.dir = w.dir) :
    (∀ source after, s.liveState o w = .ok (some source) after → ∃ file last p loaded last',
      s.liveFile o w = .ok (some file) last ∧ Holds w.dir file p ∧ s.load topo o w' = .ok loaded last' ∧
      loaded.source = source ∧ loaded.persisted = { p with state := toState topo (reconcile topo p.state).1 }) ∧
    (∀ after, s.liveState o w = .ok none after → ∃ loaded last, s.load topo o w' = .ok loaded last ∧
      (loaded.source = .baseline ∨ loaded.source = .defaults)) := by
  have looked : ∀ r after, s.liveState o w = .ok r after → ∃ live pick, s.live o w = .ok live after ∧
      r = live.map (·.1) ∧ ∃ l, s.pickLive {} .strict o w = .ok (.ok l, pick) after ∧
        live = l.map fun l => (l.source, l.file) := by
    intro r after ran
    simp only [Store.liveState, bind, ReaderT.bind, EStateM.bind] at ran
    cases found : s.live o w with
    | error stop mid => simp [found] at ran
    | ok live mid =>
      rw [found] at ran
      cases ran
      obtain ⟨l, pick, strict, same⟩ := live_ran found
      exact ⟨live, pick, rfl, rfl, l, strict, same⟩
  constructor
  · intro source after ran
    obtain ⟨live, pick, found, named, l, strict, rfl⟩ := looked _ _ ran
    cases l with
    | none => cases named
    | some l =>
      cases named
      obtain ⟨holds, loaded, last', boot, source, persisted⟩ := (load_of_live steady topo rfl same strict).1 l rfl
      have file : s.liveFile o w = .ok (some l.file) after := by
        simp only [Store.liveFile, bind, ReaderT.bind, EStateM.bind, found]
        rfl
      exact ⟨l.file, after, l.persisted, loaded, last', file, holds, boot, source, persisted⟩
  · intro after ran
    obtain ⟨live, pick, found, named, l, strict, rfl⟩ := looked _ _ ran
    cases l with
    | none => exact (load_of_live steady topo rfl same strict).2 rfl
    | some l => cases named

end

/-- A `current.json` that decodes beside a generation that cannot be read. -/
def besideLocked : World PlainBytes Bool :=
  ⟨(∅ : Dir PlainBytes).insert currentJson (plainBytes 3) |>.insert (generationName 1 (some 2)) none, false, 0⟩

theorem locked_steady : Steady (locked (generationName 1 (some 2))) where
  read := by
    intro name t t' done
    exact done
  list := fun t t' done => done
  whole := by
    intro t step torn
    unfold locked
    split
    · split <;> simp
    · simp

/-- What the seed's look says. -/
def looksAs (o : Oracle PlainBytes) (w : World PlainBytes Bool) : Option (Option Source) :=
  match duetStore.liveState o w with
  | .ok source _ => some source
  | .error _ _ => none

theorem looksAs_ok {o : Oracle PlainBytes} {w : World PlainBytes Bool} {source : Option Source}
    (evaluated : looksAs o w = some source) : ∃ after, duetStore.liveState o w = .ok source after := by
  unfold looksAs at evaluated
  split at evaluated
  · rename_i source after ran
    cases evaluated
    exact ⟨after, ran⟩
  · cases evaluated

/-- The seed and the boot both take `current.json`. -/
theorem readings_agree_locked : ∃ loaded last, duetStore.load TopologyProofs.duetCompiled.topo
    (locked (generationName 1 (some 2))) besideLocked = .ok loaded last ∧ loaded.source = .current := by
  have looks : looksAs (locked (generationName 1 (some 2))) besideLocked = some (some .current) := by decide +kernel
  obtain ⟨after, ran⟩ := looksAs_ok looks
  obtain ⟨-, -, -, loaded, last, -, -, boot, source, -⟩ := (readings_agree locked_steady duetStore
    TopologyProofs.duetCompiled.topo besideLocked besideLocked rfl).1 .current after ran
  exact ⟨loaded, last, boot, source⟩

end IemMixer.Persist
