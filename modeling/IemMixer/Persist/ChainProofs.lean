import IemMixer.Persist.Chain
import IemMixer.Persist.NamesProofs

/-! What a load finds, for every directory and every pattern of failures: each
file's reading is what the directory holds, and the pick follows from the readings.
A load changes nothing, and only a crash stops it. -/
namespace IemMixer.Persist
open Lib Lib.Files Proto

section
variable {β : Type} [Json β] {o : Oracle β} {d : Dir β}

/-- The file decodes to `p`. -/
def Holds (d : Dir β) (name : String) (p : Persisted) : Prop :=
  ∃ b, d[name]? = some b ∧ decode b = .ok p

theorem Holds.unique {name : String} {p q : Persisted} (first : Holds d name p)
    (second : Holds d name q) : p = q := by
  obtain ⟨b, held, decoded⟩ := first
  obtain ⟨c, held', decoded'⟩ := second
  cases held.symm.trans held'
  cases decoded.symm.trans decoded'
  rfl

/-! ### State files -/

/-- What a state's bytes read back as, before the payload. -/
private theorem encoded_file [LawfulJson β] {p : Persisted} {b : β} (encoded : encode p = .ok b) :
    ∃ t : Json.Text β, Json.toText p = .ok t ∧
      Json.fromSlice b = .ok ⟨formatName, schemaVersion, Json.digest t, t⟩ := by
  obtain ⟨t, text⟩ := LawfulJson.text (β := β) p
  obtain ⟨c, vec, slice⟩ := LawfulJson.file (β := β) ⟨formatName, schemaVersion, Json.digest t, t⟩
  have same : (encode p : Except IoError β) = .ok c := by
    simp [encode, text, vec, Except.mapError, bind, Except.bind]
  cases same.symm.trans encoded
  exact ⟨t, text, slice⟩

/-- Bytes that name the program's own format, schema and digest decode as their payload. -/
private theorem decode_file {b : β} {t : Json.Text β}
    (slice : Json.fromSlice b = .ok ⟨formatName, schemaVersion, Json.digest t, t⟩) :
    decode b = (Json.fromText t).mapError fun e => s!"payload: {e}" := by
  simp [decode, slice, Except.mapError, bind, Except.bind]

/-- A state of finite numbers reads back as it was written. -/
theorem decode_encode [LawfulJson β] {p : Persisted} {b : β} (finite : p.state.Finite)
    (encoded : encode p = .ok b) : decode b = .ok p := by
  obtain ⟨t, text, slice⟩ := encoded_file encoded
  rw [decode_file slice, LawfulJson.state p t finite text]
  rfl

/-- Bytes read back with the revision they were written with. -/
theorem decode_encode_rev [LawfulJson β] {p q : Persisted} {b : β} (encoded : encode p = .ok b)
    (decoded : decode b = .ok q) : q.rev = p.rev := by
  obtain ⟨t, text, slice⟩ := encoded_file encoded
  rw [decode_file slice] at decoded
  cases parsed : Json.fromText t with
  | error e =>
    rw [parsed] at decoded
    cases decoded
  | ok r =>
    rw [parsed] at decoded
    cases decoded
    exact LawfulJson.rev p q t text parsed

/-! ### Readings -/

/-- What `read_tried` gives. -/
def ReadBytes (o : Oracle β) (d : Dir β) (name : String) : Except IoError (Option β) → Prop
  | .ok b => d[name]? = b ∧ ¬Unreadable o name
  | .error _ => ¬Readable o name

omit [Json β] in
private theorem gone_or_failed {name : String} {e : IoError} (found : Found o d name (.error e)) :
    (e.kind = .notFound → ReadBytes o d name (.ok none)) ∧
      (e.kind ≠ .notFound → ReadBytes o d name (.error e)) := by
  rcases found with ⟨gone, found⟩ | ⟨other, found⟩
  · exact ⟨fun _ => found, fun other => absurd gone other⟩
  · exact ⟨fun gone => absurd gone other, fun _ => found⟩

omit [Json β] in
private theorem looks_readAgain (name : String) (left paused : ℕ) :
    Looks o d (readAgain name left paused) fun r => ReadBytes o d name r.1 := by
  induction left generalizing paused with
  | zero =>
    unfold readAgain
    refine looks_bind (looks_read name) fun r found => ?_
    cases r with
    | ok bytes => exact looks_pure found
    | error e =>
      exact looks_ite (fun gone => looks_pure ((gone_or_failed found).1 gone))
        fun other => looks_pure ((gone_or_failed found).2 other)
  | succ left ih =>
    unfold readAgain
    refine looks_bind (looks_read name) fun r found => ?_
    cases r with
    | ok bytes => exact looks_pure found
    | error e =>
      exact looks_ite (fun gone => looks_pure ((gone_or_failed found).1 gone)) fun other =>
        looks_ite (fun _ => ih (paused + 1)) fun _ => looks_pure ((gone_or_failed found).2 other)

omit [Json β] in
theorem looks_readTried (name : String) (paused : ℕ) :
    Looks o d (readTried name paused) fun r => ReadBytes o d name r.1 :=
  looks_readAgain name _ paused

/-- A reading says what the directory holds at a name; only an unreadable one says
nothing. -/
def Reads (o : Oracle β) (d : Dir β) (name : String) : Read → Prop
  | .missing => d[name]? = none ∧ ¬Unreadable o name
  | .damaged => (∃ b, d[name]? = some b ∧ ∀ p, decode b ≠ .ok p) ∧ ¬Unreadable o name
  | .valid p => Holds d name p ∧ ¬Unreadable o name
  | .unreadable => ¬Readable o name

/-- A file that could hold live state. -/
def LiveName (name : String) : Prop := name = currentJson ∨ ∃ p, generationParts name = some p

/-- `p'` is `p` with more alarms, more rejections and, passed over, more live files
that could not be read. -/
structure Pick.Extends (o : Oracle β) (p p' : Pick) : Prop where
  alarms : p.alarms <+: p'.alarms
  passedOver : ∃ more, p'.passedOver = p.passedOver ++ more ∧
    ∀ name ∈ more, LiveName name ∧ ¬Readable o name
  currentJson : p'.currentJson = p.currentJson
  saveTmp : p'.saveTmp = p.saveTmp

omit [Json β] in
theorem Pick.Extends.refl (p : Pick) : p.Extends o p :=
  ⟨List.prefix_rfl, ⟨[], by simp⟩, rfl, rfl⟩

omit [Json β] in
theorem Pick.Extends.trans {p p' p'' : Pick} (first : p.Extends o p') (second : p'.Extends o p'') :
    p.Extends o p'' := by
  obtain ⟨more, same, unread⟩ := first.passedOver
  obtain ⟨more', same', unread'⟩ := second.passedOver
  refine ⟨first.alarms.trans second.alarms, ⟨more ++ more', ?_, ?_⟩,
    second.currentJson.trans first.currentJson, second.saveTmp.trans first.saveTmp⟩
  · rw [same', same, List.append_assoc]
  · intro name held
    exact (List.mem_append.mp held).elim (unread name) (unread' name)

omit [Json β] in
/-- Alarms raised stay. -/
theorem Pick.Extends.loud {p p' : Pick} (more : p.Extends o p') (some_ : p.alarms ≠ []) :
    p'.alarms ≠ [] := by
  intro none_
  have short := more.alarms
  rw [none_, List.prefix_nil] at short
  exact some_ short

omit [Json β] in
/-- Files passed over stay so. -/
theorem Pick.Extends.passes {p p' : Pick} (more : p.Extends o p') (some_ : p.passedOver ≠ []) :
    p'.passedOver ≠ [] := by
  obtain ⟨more, same, -⟩ := more.passedOver
  rw [same]
  exact List.append_ne_nil_of_left_ne_nil some_ _

omit [Json β] in
/-- What is passed over is live and could not be read. -/
theorem Pick.Extends.unread {p p' : Pick} (more : p.Extends o p')
    (before : ∀ name ∈ p.passedOver, LiveName name ∧ ¬Readable o name) :
    ∀ name ∈ p'.passedOver, LiveName name ∧ ¬Readable o name := by
  obtain ⟨more, same, unread⟩ := more.passedOver
  intro name held
  rw [same] at held
  exact (List.mem_append.mp held).elim (before name) (unread name)

theorem looks_readState (s : Store) (name : String) (pick : Pick) :
    Looks o d (s.readState name pick .tolerant) fun r =>
      ∃ found, r.1 = .ok found ∧ Reads o d name found ∧ pick.Extends o r.2 ∧
        (found = .unreadable → r.2.alarms ≠ []) := by
  unfold Store.readState
  refine looks_bind (looks_readTried name _) ?_
  rintro ⟨bytes, paused⟩ found
  rcases bytes with e | _ | b
  · dsimp only
    rw [if_neg (by simp)]
    exact looks_pure ⟨_, rfl, found, ⟨List.prefix_append .., ⟨[], by simp⟩, rfl, rfl⟩, by simp⟩
  · exact looks_pure ⟨_, rfl, found, ⟨List.prefix_rfl, ⟨[], by simp⟩, rfl, rfl⟩, by simp⟩
  · dsimp only
    cases decoded : decode b with
    | ok p =>
      exact looks_pure ⟨_, rfl, ⟨⟨b, found.1, decoded⟩, found.2⟩, ⟨List.prefix_rfl, ⟨[], by simp⟩, rfl, rfl⟩,
        by simp⟩
    | error why =>
      exact looks_pure ⟨_, rfl, ⟨⟨b, found.1, by simp [decoded]⟩, found.2⟩,
        ⟨List.prefix_rfl, ⟨[], by simp⟩, rfl, rfl⟩, by simp⟩

/-! ### The pick -/

/-- An unreadable generation with no readable valid one before it, newest first. -/
def Passed (o : Oracle β) (d : Dir β) (gens : List (UInt64 × String)) : Prop :=
  ∃ newer e older, gens = newer ++ e :: older ∧ Unreadable o e.2 ∧
    ∀ x ∈ newer, ∀ p, Holds d x.2 p → Unreadable o x.2

/-- Past a head that could be read, the rest is passed. -/
private theorem Passed.tail {head : UInt64 × String} {older : List (UInt64 × String)}
    (passed : Passed o d (head :: older)) (read : ¬Unreadable o head.2) :
    Passed o d older ∧ ∀ p, ¬Holds d head.2 p := by
  obtain ⟨newer, e, rest, split, unread, invalid⟩ := passed
  cases newer with
  | nil =>
    cases split
    exact absurd unread read
  | cons first newer =>
    cases split
    exact ⟨⟨newer, e, rest, rfl, unread, fun x held => invalid x (by simp [held])⟩,
      fun p held => read (invalid head (by simp) p held)⟩

/-- A pick among generations is one of them, and holds what it is read as. -/
def Newest (d : Dir β) (gens : List (UInt64 × String)) :
    Option (Persisted × UInt64 × String) → Prop
  | none => True
  | some (p, seq, name) => (seq, name) ∈ gens ∧ Holds d name p

private theorem Newest.cons {head : UInt64 × String} {older : List (UInt64 × String)}
    {newest : Option (Persisted × UInt64 × String)} (found : Newest d older newest) :
    Newest d (head :: older) newest := by
  cases newest with
  | none => trivial
  | some _ => exact ⟨List.mem_cons_of_mem _ found.1, found.2⟩

theorem looks_newestValid (s : Store) (gens : List (UInt64 × String))
    (named : ∀ e ∈ gens, ∃ p, generationParts e.2 = some p) (pick : Pick) :
    Looks o d (s.newestValid .tolerant gens pick) fun r =>
      ∃ newest, r.1 = .ok newest ∧ Newest d gens newest ∧ pick.Extends o r.2 ∧
        (Passed o d gens → r.2.passedOver ≠ []) := by
  induction gens generalizing pick with
  | nil =>
    refine looks_pure ⟨none, rfl, trivial, .refl pick, ?_⟩
    rintro ⟨newer, e, older, split, -⟩
    simp at split
  | cons head older ih =>
    obtain ⟨seq, name⟩ := head
    unfold Store.newestValid
    refine looks_bind (looks_readState s name pick) ?_
    rintro ⟨-, mid⟩ ⟨found, rfl, reads, extended, -⟩
    have rest := ih fun e held => named e (by simp [held])
    -- A head that is no state and was read: the answer is the rest's.
    have skipped : ¬Unreadable o name → ∀ r : Except IoError _ × Pick,
        (∃ newest, r.1 = .ok newest ∧ Newest d older newest ∧ mid.Extends o r.2 ∧
          (Passed o d older → r.2.passedOver ≠ [])) →
        ∃ newest, r.1 = .ok newest ∧ Newest d ((seq, name) :: older) newest ∧ pick.Extends o r.2 ∧
          (Passed o d ((seq, name) :: older) → r.2.passedOver ≠ []) := by
      rintro read r ⟨newest, result, picked, further, passes⟩
      exact ⟨newest, result, picked.cons, extended.trans further, fun passed => passes (passed.tail read).1⟩
    cases found with
    | valid p =>
      refine looks_pure ⟨_, rfl, ⟨List.mem_cons_self, reads.1⟩, extended, fun passed => ?_⟩
      exact absurd reads.1 ((passed.tail reads.2).2 p)
    | missing => exact looks_mono (rest mid) (skipped reads.2)
    | damaged => exact looks_mono (rest mid) (skipped reads.2)
    | unreadable =>
      refine looks_mono (rest _) ?_
      rintro r ⟨newest, result, picked, further, -⟩
      have passing : mid.Extends o { mid with passedOver := mid.passedOver ++ [name] } :=
        ⟨List.prefix_rfl, ⟨[name], rfl, by simpa using ⟨.inr (named (seq, name) (by simp)), reads⟩⟩, rfl, rfl⟩
      refine ⟨newest, result, picked.cons, extended.trans (passing.trans further), fun _ => ?_⟩
      obtain ⟨more, same, -⟩ := further.passedOver
      rw [same]
      simp

/-- What a pick takes, by what it read at `current.json` and `save.tmp`. -/
inductive Choice (d : Dir β) (alarms : List String) : Read → Read → Option Live → Prop where
  | superseded (newer : c.rev ≤ t.rev) :
    Choice d alarms (.valid c) (.valid t) (some ⟨t, .interrupted, saveTmp⟩)
  | leftover (older : t.rev < c.rev) (loud : alarms ≠ []) :
    Choice d alarms (.valid c) (.valid t) (some ⟨c, .current, currentJson⟩)
  | current (none_ : ∀ t, tmp ≠ .valid t) :
    Choice d alarms (.valid c) tmp (some ⟨c, .current, currentJson⟩)
  | pending (fallen : ∀ c, current ≠ .valid c) :
    Choice d alarms current (.valid t) (some ⟨t, .interrupted, saveTmp⟩)
  | generation (fallen : ∀ c, current ≠ .valid c) (named : generationParts file = some (seq, rev))
      (holds : Holds d file g) (newest : ∀ t, tmp = .valid t → t.rev < g.rev) :
    Choice d alarms current tmp (some ⟨g, .generation seq, file⟩)
  | nothing (fallen : ∀ c, current ≠ .valid c) (none_ : ∀ t, tmp ≠ .valid t) :
    Choice d alarms current tmp none

omit [Json β] in
private theorem passTmp_extends (s : Store) (pick : Pick) (why alarm : String) :
    pick.Extends o (s.passTmp pick why alarm) :=
  ⟨List.prefix_append .., ⟨[], by simp [Store.passTmp]⟩, rfl, rfl⟩

private theorem not_supersedes {a b : Persisted} (h : ¬supersedes a b = true) : a.rev < b.rev := by
  simpa [supersedes] using h

theorem againstCurrent_spec (s : Store) (c : Persisted) (tmp : Read) (pick : Pick) :
    Choice d (s.againstCurrent c tmp pick).2.alarms (.valid c) tmp (s.againstCurrent c tmp pick).1 ∧
      pick.Extends o (s.againstCurrent c tmp pick).2 := by
  unfold Store.againstCurrent
  cases tmp with
  | valid t =>
    dsimp only
    split
    · rename_i newer
      exact ⟨.superseded (by simpa [supersedes] using newer), .refl pick⟩
    · rename_i older
      exact ⟨.leftover (not_supersedes older) (by simp [Store.passTmp]), passTmp_extends ..⟩
  | missing => exact ⟨.current (by simp), .refl pick⟩
  | unreadable => exact ⟨.current (by simp), .refl pick⟩
  | damaged => exact ⟨.current (by simp), .refl pick⟩

theorem againstGeneration_spec (s : Store) {current : Read} (tmp : Read) (fallen : ∀ c, current ≠ .valid c)
    (gens : List (UInt64 × String)) (newest : Option (Persisted × UInt64 × String))
    (named : ∀ e ∈ gens, ∃ rev, generationParts e.2 = some (e.1, rev)) (found : Newest d gens newest)
    (unlisted : Option IoError) (pick : Pick) :
    Choice d (s.againstGeneration tmp newest unlisted pick).2.alarms current tmp
        (s.againstGeneration tmp newest unlisted pick).1 ∧
      pick.Extends o (s.againstGeneration tmp newest unlisted pick).2 := by
  unfold Store.againstGeneration
  cases newest with
  | none =>
    cases tmp with
    | valid t => exact ⟨.pending fallen, List.prefix_append .., ⟨[], by simp⟩, rfl, rfl⟩
    | missing => exact ⟨.nothing fallen (by simp), .refl pick⟩
    | unreadable => exact ⟨.nothing fallen (by simp), .refl pick⟩
    | damaged => exact ⟨.nothing fallen (by simp), .refl pick⟩
  | some newest =>
    obtain ⟨g, seq, file⟩ := newest
    obtain ⟨rev, parts⟩ := named _ found.1
    cases tmp with
    | valid t =>
      dsimp only
      split
      · exact ⟨.pending fallen, .refl pick⟩
      · rename_i older
        refine ⟨.generation fallen parts found.2 ?_, passTmp_extends ..⟩
        rintro _ ⟨⟩
        exact not_supersedes older
    | missing => exact ⟨.generation fallen parts found.2 (by simp), .refl pick⟩
    | unreadable => exact ⟨.generation fallen parts found.2 (by simp), .refl pick⟩
    | damaged => exact ⟨.generation fallen parts found.2 (by simp), .refl pick⟩

/-- The generations a listing names, newest first. -/
def newestFirst (d : Dir β) : List (UInt64 × String) := (listing d.keys).generations.reverse

omit [Json β] in
private theorem mem_newestFirst {e : UInt64 × String} (held : e ∈ newestFirst d) :
    ∃ rev, generationParts e.2 = some (e.1, rev) :=
  (mem_generations.mp (List.mem_reverse.mp held)).2

/-- What `list` gives, caught. -/
def ListedAs (o : Oracle β) (d : Dir β) : Except IoError Listing → Prop
  | .ok listed => listed = listing d.keys
  | .error _ => ¬Listable o

omit [Json β] in
theorem looks_store_list (s : Store) : Looks o d (attempt s.list : StoreM β _) (ListedAs o d) := by
  refine looks_mono (looks_attempt_map listing looks_list) ?_
  rintro _ ⟨r, listed, rfl⟩
  cases r with
  | ok names => cases listed; rfl
  | error e => exact listed

omit [Json β] in
private theorem looks_generations (s : Store) :
    Looks o d (attempt s.generations : StoreM β _) fun r => ∃ listed, ListedAs o d listed ∧
      r = listed.map (·.generations) :=
  looks_attempt_map _ (looks_store_list s)

theorem looks_pickFallback (s : Store) (current : Read) {tmp : Read} (fallen : ∀ c, current ≠ .valid c)
    (pick : Pick) :
    Looks o d (s.pickFallback tmp pick .tolerant) fun r =>
      ∃ live, r.1 = .ok live ∧ Choice d r.2.alarms current tmp live ∧ pick.Extends o r.2 ∧
        (Listable o → Passed o d (newestFirst d) → r.2.passedOver ≠ []) := by
  unfold Store.pickFallback
  refine looks_bind (looks_generations s) ?_
  rintro _ ⟨listed, shown, rfl⟩
  cases listed with
  | ok listed =>
    cases shown
    refine looks_bind (looks_newestValid s (newestFirst d) (fun e held => ?_) pick) ?_
    · obtain ⟨rev, parts⟩ := mem_newestFirst held
      exact ⟨_, parts⟩
    rintro ⟨-, mid⟩ ⟨newest, rfl, found, extended, passes⟩
    have spec := againstGeneration_spec (o := o) s tmp fallen _ newest (fun _ => mem_newestFirst)
      found none mid
    exact looks_pure ⟨_, rfl, spec.1, extended.trans spec.2,
      fun _ passed => spec.2.passes (passes passed)⟩
  | error e =>
    dsimp only [Except.map]
    rw [if_neg (by simp)]
    have spec := againstGeneration_spec (o := o) (d := d) s tmp fallen [] none (by simp)
      trivial (some e)
      { pick with rejected := pick.rejected ++ [(s.dir, s!"the generations cannot be listed: {e.text}")] }
    refine looks_pure ⟨_, rfl, spec.1, ?_, fun always => absurd always shown⟩
    exact ⟨spec.2.alarms, spec.2.passedOver, spec.2.currentJson, spec.2.saveTmp⟩

/-- A pick, by what the directory holds: the readings at `current.json` and `save.tmp`,
what it recorded of them, and what it took. -/
structure Picked (o : Oracle β) (d : Dir β) (live : Option Live) (pick : Pick) (current tmp : Read) :
    Prop where
  readsCurrent : Reads o d currentJson current
  readsTmp : Reads o d saveTmp tmp
  currentState : pick.currentJson = current.state
  tmpState : pick.saveTmp = tmp.state
  loud : current = .unreadable ∨ tmp = .unreadable → pick.alarms ≠ []
  unread : ∀ name ∈ pick.passedOver, LiveName name ∧ ¬Readable o name
  passesCurrent : current = .unreadable → pick.passedOver ≠ []
  passes : (∀ c, current ≠ .valid c) → Listable o → Passed o d (newestFirst d) →
    pick.passedOver ≠ []
  choice : Choice d pick.alarms current tmp live

theorem looks_pickLive (s : Store) :
    Looks o d (s.pickLive {} .tolerant) fun r =>
      ∃ live current tmp, r.1 = .ok live ∧ Picked o d live r.2 current tmp := by
  unfold Store.pickLive
  refine looks_bind (looks_readState s currentJson {}) ?_
  rintro ⟨-, first⟩ ⟨current, rfl, readsCurrent, extended, loud⟩
  dsimp only
  refine looks_bind (looks_readState s saveTmp _) ?_
  rintro ⟨-, second⟩ ⟨tmp, rfl, readsTmp, extended', loud'⟩
  -- What the pick holds once both files are read is what any later pick extends.
  have both : ∀ (live : Option Live) (last : Pick),
      Choice d last.alarms current tmp live →
      ({ second with saveTmp := tmp.state } : Pick).Extends o last →
      ((∀ c, current ≠ .valid c) → Listable o → Passed o d (newestFirst d) → last.passedOver ≠ []) →
      Picked o d live last current tmp := by
    intro live last choice further passes
    have marked : ({} : Pick).Extends o { first with
        passedOver := if current.state = .unreadable then first.passedOver ++ [currentJson]
          else first.passedOver } := by
      refine extended.trans ⟨List.prefix_rfl, ?_, rfl, rfl⟩
      split
      · cases current <;> simp_all [Read.state, LiveName, Reads]
      · exact ⟨[], by simp⟩
    refine ⟨readsCurrent, readsTmp, further.currentJson.trans extended'.currentJson, further.saveTmp,
      ?_, ?_, ?_, passes, choice⟩
    · rintro (unread | unread)
      · exact further.loud (extended'.loud (loud unread))
      · exact further.loud (loud' unread)
    · exact further.unread (extended'.unread (marked.unread (by simp)))
    · rintro rfl
      exact further.passes (extended'.passes (by simp [Read.state]))
  cases current with
  | valid c =>
    have spec := againstCurrent_spec (o := o) (d := d) s c tmp { second with saveTmp := tmp.state }
    exact looks_pure ⟨_, _, _, rfl, both _ _ spec.1 spec.2 fun fallen => absurd rfl (fallen c)⟩
  | missing =>
    refine looks_mono (looks_pickFallback s .missing (by simp) _) ?_
    rintro ⟨-, last⟩ ⟨live, rfl, choice, further, passes⟩
    exact ⟨_, _, _, rfl, both _ _ choice further fun _ => passes⟩
  | unreadable =>
    refine looks_mono (looks_pickFallback s .unreadable (by simp) _) ?_
    rintro ⟨-, last⟩ ⟨live, rfl, choice, further, passes⟩
    exact ⟨_, _, _, rfl, both _ _ choice further fun _ => passes⟩
  | damaged =>
    refine looks_mono (looks_pickFallback s .damaged (by simp) _) ?_
    rintro ⟨-, last⟩ ⟨live, rfl, choice, further, passes⟩
    exact ⟨_, _, _, rfl, both _ _ choice further fun _ => passes⟩

/-! ### The load -/

/-- What the chain loads: the live state, else the baseline, else the defaults. -/
inductive Chained (o : Oracle β) (d : Dir β) (topo : Topology) (pick : Pick) :
    Option Live → Loaded → Prop where
  | live (l : Live) : Chained o d topo pick (some l) (settle topo l.persisted l.source pick)
  | baseline (more : pick.Extends o pick') (holds : Holds d baselineJson p) :
    Chained o d topo pick none (settle topo p .baseline pick')
  | defaults (more : pick.Extends o pick') : Chained o d topo pick none (fresh topo pick')

theorem looks_loadChain (s : Store) (topo : Topology) :
    Looks o d (s.loadChain topo) fun r => ∃ live pick current tmp, Picked o d live pick current tmp ∧
      r.2 = pick.passedOver ∧ Chained o d topo pick live r.1 := by
  unfold Store.loadChain
  refine looks_bind (looks_pickLive s) ?_
  rintro ⟨-, pick⟩ ⟨live, current, tmp, rfl, picked⟩
  cases live with
  | some live => exact looks_pure ⟨_, _, _, _, picked, rfl, .live live⟩
  | none =>
    refine looks_bind (looks_readState s baselineJson pick) ?_
    rintro ⟨-, last⟩ ⟨found, rfl, reads, extended, -⟩
    cases found with
    | valid p => exact looks_pure ⟨_, _, _, _, picked, rfl, .baseline extended reads.1⟩
    | missing => exact looks_pure ⟨_, _, _, _, picked, rfl, .defaults extended⟩
    | unreadable => exact looks_pure ⟨_, _, _, _, picked, rfl, .defaults extended⟩
    | damaged => exact looks_pure ⟨_, _, _, _, picked, rfl, .defaults extended⟩

private theorem looks_orphanAlarms (own : UInt64) (orphans : List (UInt32 × String)) :
    Looks o d (orphanAlarms own orphans : StoreM β _) fun _ => True := by
  induction orphans with
  | nil => exact looks_pure trivial
  | cons orphan rest ih =>
    unfold orphanAlarms
    refine looks_bind (looks_readTried orphan.2 _) fun r _ => ?_
    exact looks_bind ih fun _ _ => looks_pure trivial

private theorem looks_orphansAbove (own : UInt64) (listed : Except IoError Listing) :
    Looks o d (orphansAbove own listed : StoreM β _) fun _ => True := by
  cases listed with
  | ok listed => exact looks_orphanAlarms own _
  | error e => exact looks_pure trivial

/-- What the chain says of the two files is what the pick found. -/
theorem Chained.findings {topo : Topology} {pick : Pick} {live : Option Live} {l : Loaded}
    (chained : Chained o d topo pick live l) :
    l.currentJson = pick.currentJson ∧ l.saveTmp = pick.saveTmp := by
  cases chained with
  | live l => exact ⟨rfl, rfl⟩
  | baseline more _ => exact ⟨more.currentJson, more.saveTmp⟩
  | defaults more => exact ⟨more.currentJson, more.saveTmp⟩

/-- The chain's result, continued above what it passed over. -/
def continued (chained : Loaded) (passedOver : List String) (listed : Except IoError Listing) :
    Loaded :=
  if passedOver.isEmpty then chained else continueAbove chained passedOver listed

/-- Continuing changes the revision and adds alarms. -/
theorem continued_frame (chained : Loaded) (passedOver : List String)
    (listed : Except IoError Listing) :
    (continued chained passedOver listed).source = chained.source ∧
      (continued chained passedOver listed).currentJson = chained.currentJson ∧
      (continued chained passedOver listed).saveTmp = chained.saveTmp := by
  unfold continued
  split
  · exact ⟨rfl, rfl, rfl⟩
  · simp [continueAbove]

/-- Past a file that could not be read there is always an alarm. -/
theorem continued_loud {chained : Loaded} {passedOver : List String}
    {listed : Except IoError Listing}
    (quiet : (continued chained passedOver listed).alarms = []) :
    passedOver = [] ∧ continued chained passedOver listed = chained := by
  unfold continued at quiet ⊢
  split at quiet
  · rename_i none_
    exact ⟨by simpa using none_, by rw [if_pos none_]⟩
  · simp [continueAbove] at quiet

/-- A load: the chain's result, continued above what it passed over, with the
orphans' alarms. -/
theorem looks_load (s : Store) (topo : Topology) :
    Looks o d (s.load topo) fun loaded => ∃ live pick current tmp chained listed orphans,
      Picked o d live pick current tmp ∧ Chained o d topo pick live chained ∧ ListedAs o d listed ∧
        loaded = { continued chained pick.passedOver listed with
          alarms := (continued chained pick.passedOver listed).alarms ++ orphans } := by
  unfold Store.load
  refine looks_bind (looks_loadChain s topo) ?_
  rintro ⟨chained, -⟩ ⟨live, pick, current, tmp, picked, rfl, chains⟩
  refine looks_bind (looks_store_list s) fun listed shown => ?_
  refine looks_bind (looks_orphansAbove _ listed) fun orphans _ => looks_pure ?_
  exact ⟨_, _, _, _, _, _, _, picked, chains, shown, rfl⟩

end

end IemMixer.Persist
