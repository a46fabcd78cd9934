import IemMixer.Server.Listen

/-! The taps follow the listeners. A mix whose listeners counted, or will count what the engine
accepted, is tapped; a tapped mix has such a listener, or a stop of it is due. A start that
crosses a stop of the same mix breaks the first, one that is given up the second. -/
namespace IemMixer.Server
open Lib Proto TopologyProofs

/-- A phase that keeps no mix. -/
def Hearing.plain : Hearing → Bool
  | .lastOut .. | .starting .. | .accepted _ => false
  | _ => true

namespace Audio

/-- The session will count what the engine accepted. -/
def wants (a : Audio) (mix : MixId) : Hearing → Prop
  | .accepted other => other = mix
  | .starting id other => other = mix ∧ a.answers[id]? = some true
  | _ => False

def Wanted (a : Audio) (mix : MixId) : Prop :=
  0 < a.listening mix ∨ ∃ (n : ℕ) (phase : Hearing), a.sessions[n]? = some phase ∧ a.wants mix phase

/-- A stop of the mix is on its way to the engine. -/
def StopDue (a : Audio) (mix : MixId) : Prop :=
  (∃ (n : ℕ) (next : Then), a.sessions[n]? = some (.lastOut mix next)) ∨ ∃ id, (id, .stopListen mix) ∈ a.pipe

def Kept (a : Audio) (mix : MixId) : Prop := a.Wanted mix ∨ a.StopDue mix

/-- Somebody other than session `n` keeps the mix. -/
def KeptBeside (a : Audio) (n : ℕ) (mix : MixId) : Prop :=
  0 < a.listening mix ∨ (∃ (k : ℕ) (phase : Hearing), k ≠ n ∧ a.sessions[k]? = some phase ∧ a.wants mix phase) ∨
    a.StopDue mix

variable [Libm]

/-- The engine meets a stop only of a mix nobody wants, and a start it accepts, given up before
or after, is of a mix someone else keeps. -/
def Fair (a : Audio) : Move → Prop
  | .serve => match a.pipe with
    | (_, .stopListen mix) :: _ => ¬ a.Wanted mix
    | (id, .startListen mix) :: _ =>
      (a.core.handle (.request (.startListen mix))).1.isSome →
        (∃ n : ℕ, a.sessions[n]? = some (.starting id mix)) ∨ a.Kept mix
    | _ => True
  | .timeout n => match a.sessions[n]? with
    | some (.starting id mix) => a.answers[id]? = some true → a.KeptBeside n mix
    | _ => True
  | _ => True

structure Inv (a : Audio) : Prop where
  wf : WellFormed a.core.topo
  placed : a.core.Placed
  tapped : ∀ mix, a.Wanted mix → a.core.Taps mix
  kept : ∀ mix, a.core.Taps mix → a.Kept mix
  requests : ∀ p ∈ a.pipe, p.1 < a.nextId ∧ a.answers[p.1]? = none ∧
    ∃ mix, p.2 = .startListen mix ∨ p.2 = .stopListen mix
  once : (a.pipe.map (·.1)).Nodup
  answered : ∀ (id : ℕ) (ok : Bool), a.answers[id]? = some ok → id < a.nextId
  waits : ∀ (n id : ℕ) (mix : MixId), a.sessions[n]? = some (.starting id mix) →
    id < a.nextId ∧ ∀ cmd, (id, cmd) ∈ a.pipe → cmd = .startListen mix

variable {a a' : Audio} {n : ℕ} {mix : MixId}

omit [Libm] in
theorem inv_starts (wf : WellFormed a.core.topo) (starts : a.Starts) : a.Inv := by
  obtain ⟨pipe, answers, listeners, sessions, silent⟩ := starts
  have nobody : ∀ n : ℕ, a.sessions[n]? = none := by simp [sessions]
  refine ⟨wf, fun slot m taken => ?_, fun mix wanted => ?_, ?_, by simp [pipe], by simp [pipe], by simp [answers], ?_⟩
  · cases (silent slot).symm.trans taken
  · rcases wanted with counted | ⟨n, phase, held, -⟩
    · simp [listening, listeners] at counted
    · cases (nobody n).symm.trans held
  · rintro mix ⟨m, -, slot, taken⟩
    cases (silent slot).symm.trans taken
  · intro n id mix held
    cases (nobody n).symm.trans held

omit [Libm] in
/-- Nobody new is wanted, nobody kept is lost. -/
private theorem Inv.keeps (inv : a.Inv) (core : a'.core = a.core) (pipe : a'.pipe = a.pipe)
    (nextId : a'.nextId = a.nextId) (answers : a'.answers = a.answers)
    (wanted : ∀ mix, a'.Wanted mix → a.Wanted mix) (kept : ∀ mix, a.Kept mix → a'.Kept mix)
    (waits : ∀ (n id : ℕ) (mix : MixId), a'.sessions[n]? = some (.starting id mix) →
      a.sessions[n]? = some (.starting id mix)) :
    a'.Inv where
  wf := core ▸ inv.wf
  placed := core ▸ inv.placed
  tapped mix more := core ▸ inv.tapped mix (wanted mix more)
  kept mix taps := kept mix (inv.kept mix (core ▸ taps))
  requests := by
    rw [pipe, nextId, answers]
    exact inv.requests
  once := pipe ▸ inv.once
  answered := by
    rw [nextId, answers]
    exact inv.answered
  waits n id mix held := by
    rw [pipe, nextId]
    exact inv.waits n id mix (waits n id mix held)

omit [Libm] in
theorem goes_sessions (a : Audio) (n : ℕ) (phase : Hearing) (k : ℕ) :
    (a.goes n phase).sessions[k]? = if n = k then some phase else a.sessions[k]? := BTreeMap.getElem?_insert_eq _ _ _ _

omit [Libm] in
theorem wanted_goes {phase : Hearing} (wanted : (a.goes n phase).Wanted mix) : a.wants mix phase ∨ a.Wanted mix := by
  rcases wanted with counted | ⟨k, other, held, wants⟩
  · exact .inr (.inl counted)
  · rw [goes_sessions] at held
    split at held
    · cases held
      exact .inl wants
    · exact .inr (.inr ⟨k, other, held, wants⟩)

omit [Libm] in
/-- Whoever was kept still is, unless session `n` alone kept it. -/
theorem kept_goes (phase : Hearing) (kept : a.Kept mix) :
    (a.goes n phase).Kept mix ∨
      ∃ old, a.sessions[n]? = some old ∧ (a.wants mix old ∨ ∃ next, old = .lastOut mix next) := by
  rcases kept with (counted | ⟨k, other, held, wants⟩) | ⟨k, next, held⟩ | sent
  · exact .inl (.inl (.inl counted))
  · by_cases same : n = k
    · subst same
      exact .inr ⟨other, held, .inl wants⟩
    · exact .inl (.inl (.inr ⟨k, other, by rwa [goes_sessions, if_neg same], wants⟩))
  · by_cases same : n = k
    · subst same
      exact .inr ⟨_, held, .inr ⟨next, rfl⟩⟩
    · exact .inl (.inr (.inl ⟨k, next, by rwa [goes_sessions, if_neg same]⟩))
  · exact .inl (.inr (.inr sent))

omit [Libm] in
private theorem Inv.turns (inv : a.Inv) {phase : Hearing} (up : ∀ mix, a.wants mix phase → a.Wanted mix)
    (down : ∀ mix old, a.sessions[n]? = some old → (a.wants mix old ∨ ∃ next, old = .lastOut mix next) →
      (a.goes n phase).Kept mix)
    (waits : ∀ id mix, phase ≠ .starting id mix) : (a.goes n phase).Inv := by
  refine inv.keeps rfl rfl rfl rfl (fun mix wanted => ?_) (fun mix kept => ?_) fun k id mix held => ?_
  · exact (wanted_goes wanted).elim (up mix) id
  · rcases kept_goes phase kept with still | ⟨old, held, lost⟩
    · exact still
    · exact down mix old held lost
  · rw [goes_sessions] at held
    split at held
    · cases waits id mix (Option.some.inj held)
    · exact held

omit [Libm] in
private theorem wants_plain {phase : Hearing} (plain : phase.plain) : ¬ a.wants mix phase := by
  cases phase <;> simp_all [wants, Hearing.plain]

omit [Libm] in
private theorem Inv.strolls (inv : a.Inv) {phase : Hearing} (plain : Hearing.plain phase)
    (was : ∀ old, a.sessions[n]? = some old → Hearing.plain old) : (a.goes n phase).Inv := by
  refine inv.turns (fun mix wants => absurd wants (wants_plain plain)) (fun mix old held lost => ?_)
    fun id mix same => ?_
  · rcases lost with wants | ⟨next, rfl⟩
    · exact absurd wants (wants_plain (was old held))
    · cases was _ held
  · subst same
    cases plain

omit [Libm] in
private theorem plain_next (next : Then) : Hearing.plain next.phase := by cases next <;> rfl

omit [Libm] in
private theorem Inv.leave (inv : a.Inv) {next : Then} {phase : Hearing} (held : a.sessions[n]? = some phase)
    (moved : a.leave n next phase = some a') : a'.Inv := by
  cases phase <;> cases moved
  · refine inv.strolls (plain_next next) fun old there => ?_
    cases held.symm.trans there
    rfl
  · refine inv.strolls rfl fun old there => ?_
    cases held.symm.trans there
    rfl

omit [Libm] in
/-- A `stop` leaves every mix its listeners but the one whose last listener left. -/
theorem uncount_positive (listeners : BTreeMap MixId ℕ) (mix m : MixId) :
    0 < (uncount listeners mix).2[m]?.getD 0 ↔
      0 < listeners[m]?.getD 0 ∧ ¬ ((uncount listeners mix).1 = true ∧ m = mix) := by
  unfold uncount
  cases held : listeners[mix]? with
  | none => simp
  | some n =>
    by_cases more : 1 < n
    · simp only [if_pos more, BTreeMap.getElem?_insert_eq]
      split
      · rename_i same
        subst same
        simp only [held, Option.getD_some, Bool.false_eq_true, not_false_eq_true, and_true]
        omega
      · simp
    · simp only [if_neg more, BTreeMap.getElem?_erase_eq]
      split
      · rename_i same
        simp [same]
      · rename_i apart
        simp [Ne.symm apart]

omit [Libm] in
/-- A changed count. -/
private theorem wanted_counted {listeners : BTreeMap MixId ℕ} {m : MixId}
    (fewer : 0 < listeners[m]?.getD 0 → 0 < a.listening m) (wanted : ({ a with listeners } : Audio).Wanted m) :
    a.Wanted m := wanted.imp fewer id

omit [Libm] in
private theorem Inv.uncounts (inv : a.Inv) {next : Then} {last : Bool} {listeners : BTreeMap MixId ℕ}
    (held : a.sessions[n]? = some (.leaving mix next)) (counted : uncount a.listeners mix = (last, listeners)) :
    ({ a with listeners }.goes n (if last then .lastOut mix next else next.phase)).Inv := by
  have counts : ∀ m, 0 < listeners[m]?.getD 0 ↔ 0 < a.listening m ∧ ¬ (last = true ∧ m = mix) := by
    intro m
    have positive := uncount_positive a.listeners mix m
    rwa [counted] at positive
  refine inv.keeps rfl rfl rfl rfl (fun m wanted => ?_) (fun m kept => ?_) fun k id m there => ?_
  · rcases wanted_goes wanted with wants | wanted
    · cases last <;> cases next <;> cases wants
    · exact wanted_counted (fun some => ((counts m).mp some).1) wanted
  · by_cases out : last = true ∧ m = mix
    · obtain ⟨rfl, rfl⟩ := out
      exact .inr (.inl ⟨n, next, by rw [goes_sessions, if_pos rfl, if_pos rfl]⟩)
    · have still : ({ a with listeners } : Audio).Kept m :=
        kept.imp_left (Or.imp_left fun some => (counts m).mpr ⟨some, out⟩)
      refine (kept_goes _ still).resolve_right ?_
      rintro ⟨old, there, lost⟩
      cases held.symm.trans there
      rcases lost with wants | ⟨next, same⟩
      · cases wants
      · cases same
  · rw [goes_sessions] at there
    split at there
    · cases last <;> cases next <;> cases there
    · exact there

omit [Libm] in
private theorem Inv.counts (inv : a.Inv) (held : a.sessions[n]? = some (.accepted mix)) :
    ({ a with listeners := a.listeners.insert mix (a.listening mix + 1) }.goes n (.listening mix)).Inv := by
  have counts : ∀ m, mix ≠ m → (a.listeners.insert mix (a.listening mix + 1))[m]?.getD 0 = a.listening m := by
    intro m apart
    rw [BTreeMap.getElem?_insert_eq, if_neg apart]
    rfl
  refine inv.keeps rfl rfl rfl rfl (fun m wanted => ?_) (fun m kept => ?_) fun k id m there => ?_
  · rcases wanted_goes wanted with wants | counted | here
    · cases wants
    · by_cases same : mix = m
      · exact same ▸ .inr ⟨n, _, held, rfl⟩
      · exact .inl (counts m same ▸ counted)
    · exact .inr here
  · by_cases same : mix = m
    · refine .inl (.inl ?_)
      simp [listening, goes, same]
    · have still : ({ a with listeners := a.listeners.insert mix (a.listening mix + 1) } : Audio).Kept m :=
        kept.imp_left (Or.imp_left fun some => some.trans_eq (counts m same).symm)
      refine (kept_goes _ still).resolve_right ?_
      rintro ⟨old, there, lost⟩
      cases held.symm.trans there
      rcases lost with wants | ⟨next, same⟩
      · exact same wants
      · cases same
  · rw [goes_sessions] at there
    split at there
    · cases there
    · exact there

omit [Libm] in
/-- Session `n` writes a request: of the mix it would start, or of the one it left last. -/
private theorem Inv.writes (inv : a.Inv) {cmd : Cmd} {phase : ℕ → Hearing} {old : Hearing}
    (held : a.sessions[n]? = some old)
    (sends : (∃ next, old = .lastOut mix next ∧ cmd = .stopListen mix ∧ phase = (.stopping · mix next)) ∨
      old = .arriving mix ∧ cmd = .startListen mix ∧ phase = (.starting · mix)) : (a.write n cmd phase).Inv := by
  have about : ∃ m, cmd = .startListen m ∨ cmd = .stopListen m := by
    rcases sends with ⟨next, -, rfl, -⟩ | ⟨-, rfl, -⟩
    · exact ⟨mix, .inr rfl⟩
    · exact ⟨mix, .inl rfl⟩
  have fresh : a.answers[a.nextId]? = none := by
    cases ok : a.answers[a.nextId]? with
    | none => rfl
    | some ok' => exact absurd (inv.answered _ _ ok) (lt_irrefl _)
  have wanted : ∀ m, (a.write n cmd phase).Wanted m → a.Wanted m := by
    intro m wanted
    have between : (a.goes n (phase a.nextId)).Wanted m := wanted
    refine (wanted_goes between).resolve_left fun wants => ?_
    rcases sends with ⟨next, -, -, rfl⟩ | ⟨-, -, rfl⟩
    · cases wants
    · cases fresh.symm.trans wants.2
  have kept : ∀ m, a.Kept m → (a.write n cmd phase).Kept m := by
    intro m kept
    rcases kept_goes (n := n) (phase a.nextId) kept with still | ⟨other, there, lost⟩
    · exact still.imp id (Or.imp id fun ⟨id, sent⟩ => ⟨id, List.mem_append_left _ sent⟩)
    · cases held.symm.trans there
      rcases sends with ⟨next, rfl, rfl, -⟩ | ⟨rfl, -, -⟩
      · rcases lost with wants | ⟨next', same⟩
        · cases wants
        · cases same
          exact .inr (.inr ⟨a.nextId, by simp [write]⟩)
      · rcases lost with wants | ⟨next', same⟩
        · cases wants
        · cases same
  refine ⟨inv.wf, inv.placed, fun m more => inv.tapped m (wanted m more), fun m taps => kept m (inv.kept m taps),
    ?_, ?_, fun id ok answered => Nat.lt_succ_of_lt (inv.answered id ok answered), ?_⟩
  · intro p member
    rcases List.mem_append.mp member with sent | new
    · obtain ⟨small, open', known⟩ := inv.requests p sent
      exact ⟨Nat.lt_succ_of_lt small, open', known⟩
    · rw [List.mem_singleton.mp new]
      exact ⟨Nat.lt_succ_self _, fresh, about⟩
  · unfold write
    rw [List.map_append, List.nodup_append]
    refine ⟨inv.once, List.nodup_singleton _, ?_⟩
    intro id member other last same
    obtain ⟨p, sent, rfl⟩ := List.mem_map.mp member
    have small := (inv.requests p sent).1
    simp only [List.map_cons, List.map_nil, List.mem_singleton] at last
    omega
  · intro k id m there
    simp only [write, goes_sessions] at there
    split at there
    · have starts : cmd = .startListen m ∧ a.nextId = id := by
        rcases sends with ⟨next, -, -, rfl⟩ | ⟨-, rfl, rfl⟩
        · cases there
        · cases there
          exact ⟨rfl, rfl⟩
      obtain ⟨rfl, rfl⟩ := starts
      refine ⟨Nat.lt_succ_self _, fun cmd member => ?_⟩
      rcases List.mem_append.mp member with sent | new
      · exact absurd (inv.requests _ sent).1 (lt_irrefl _)
      · exact (Prod.ext_iff.mp (List.mem_singleton.mp new)).2
    · obtain ⟨small, sent⟩ := inv.waits k id m there
      refine ⟨Nat.lt_succ_of_lt small, fun cmd member => ?_⟩
      rcases List.mem_append.mp member with before | new
      · exact sent cmd before
      · have same := (Prod.ext_iff.mp (List.mem_singleton.mp new)).1
        exact absurd same small.ne

omit [Libm] in
/-- A session sees its request answered, or gives up. -/
private theorem Inv.answers (inv : a.Inv) {id : ℕ} {ok : Bool} (held : a.sessions[n]? = some (.starting id mix))
    (answered : a.answers[id]? = some ok) : (a.goes n (if ok then .accepted mix else .idle)).Inv := by
  refine inv.turns (fun m wants => ?_) (fun m old there lost => ?_) fun _ _ same => ?_
  · cases ok with
    | false => cases wants
    | true => exact .inr ⟨n, _, held, wants, answered⟩
  · cases held.symm.trans there
    rcases lost with ⟨rfl, accepted⟩ | ⟨next, same⟩
    · cases answered.symm.trans accepted
      exact .inl (.inr ⟨n, .accepted mix, by rw [goes_sessions, if_pos rfl, if_pos rfl], rfl⟩)
    · cases same
  · cases ok <;> cases same

omit [Libm] in
private theorem Inv.givesUp (inv : a.Inv) {id : ℕ} (held : a.sessions[n]? = some (.starting id mix))
    (fair : a.answers[id]? = some true → a.KeptBeside n mix) : (a.goes n .idle).Inv := by
  refine inv.turns nofun (fun m old there lost => ?_) nofun
  cases held.symm.trans there
  rcases lost with ⟨rfl, accepted⟩ | ⟨next, same⟩
  · rcases fair accepted with counted | ⟨k, phase, apart, there, wants⟩ | ⟨k, next, there⟩ | sent
    · exact .inl (.inl counted)
    · exact .inl (.inr ⟨k, phase, by rwa [goes_sessions, if_neg (Ne.symm apart)], wants⟩)
    · refine .inr (.inl ⟨k, next, ?_⟩)
      rw [goes_sessions, if_neg]
      · exact there
      · rintro rfl
        cases held.symm.trans there
    · exact .inr (.inr sent)
  · cases same

/-- The next request answered, the core after it. -/
def served (a : Audio) (id : ℕ) (rest : List (ℕ × Cmd)) (ok : Bool) (core : Core) : Audio :=
  { a with core, pipe := rest, answers := a.answers.insert id ok }

section
variable {id : ℕ} {cmd : Cmd} {rest : List (ℕ × Cmd)} {ok : Bool} {core : Core}

omit [Libm] in
/-- Whom an accepted start was of is wanted then. -/
theorem wanted_served (unanswered : a.answers[id]? = none) (m : MixId) :
    (a.served id rest ok core).Wanted m ↔
      a.Wanted m ∨ ok = true ∧ ∃ k : ℕ, a.sessions[k]? = some (.starting id m) := by
  have reply : ∀ other, (a.answers.insert id ok)[other]? = if id = other then some ok else a.answers[other]? :=
    fun other => BTreeMap.getElem?_insert_eq _ _ _ _
  constructor
  · rintro (counted | ⟨k, phase, held, wants⟩)
    · exact .inl (.inl counted)
    · cases phase with
      | accepted other => exact .inl (.inr ⟨k, _, held, wants⟩)
      | starting id' other =>
        obtain ⟨rfl, accepted⟩ := wants
        rw [served, reply] at accepted
        split at accepted
        · rename_i here
          subst here
          exact .inr ⟨Option.some.inj accepted, k, held⟩
        · exact .inl (.inr ⟨k, _, held, rfl, accepted⟩)
      | _ => cases wants
  · rintro ((counted | ⟨k, phase, held, wants⟩) | ⟨rfl, k, held⟩)
    · exact .inl counted
    · cases phase with
      | accepted other => exact .inr ⟨k, _, held, wants⟩
      | starting id' other =>
        obtain ⟨rfl, accepted⟩ := wants
        refine .inr ⟨k, _, held, rfl, ?_⟩
        rw [served, reply, if_neg]
        · exact accepted
        · rintro rfl
          cases unanswered.symm.trans accepted
      | _ => cases wants
    · exact .inr ⟨k, _, held, rfl, by rw [served, reply, if_pos rfl]⟩

omit [Libm] in
private theorem Inv.served (inv : a.Inv) (next : a.pipe = (id, cmd) :: rest) (topo : core.topo = a.core.topo)
    (placed : core.Placed) (tapped : ∀ m, (a.served id rest ok core).Wanted m → core.Taps m)
    (kept : ∀ m, core.Taps m → (a.served id rest ok core).Kept m) : (a.served id rest ok core).Inv := by
  have later : ∀ p ∈ rest, p ∈ a.pipe := fun p member => next ▸ List.mem_cons_of_mem _ member
  have distinct := inv.once
  rw [next, List.map_cons, List.nodup_cons] at distinct
  refine ⟨topo ▸ inv.wf, placed, tapped, kept, fun p member => ?_, distinct.2, fun other ok' answered => ?_,
    fun k other m held => ?_⟩
  · obtain ⟨small, unanswered, known⟩ := inv.requests p (later p member)
    refine ⟨small, ?_, known⟩
    rw [Audio.served, BTreeMap.getElem?_insert_eq, if_neg]
    · exact unanswered
    · rintro rfl
      exact distinct.1 (List.mem_map.mpr ⟨p, member, rfl⟩)
  · rw [Audio.served, BTreeMap.getElem?_insert_eq] at answered
    split at answered
    · rename_i here
      exact here ▸ (inv.requests (id, cmd) (next ▸ List.mem_cons_self)).1
    · exact inv.answered other ok' answered
  · obtain ⟨small, only⟩ := inv.waits k other m held
    exact ⟨small, fun cmd member => only cmd (later _ member)⟩

private theorem Inv.servesStart (inv : a.Inv) (next : a.pipe = (id, .startListen mix) :: rest) (fair : a.Fair .serve) :
    (a.serve id (.startListen mix) rest).Inv := by
  obtain ⟨-, unanswered, -⟩ := inv.requests _ (next ▸ List.mem_cons_self : (id, Cmd.startListen mix) ∈ a.pipe)
  have due : ∀ m, a.StopDue m → ∀ ok core, (a.served id rest ok core).StopDue m := by
    rintro m (left | ⟨other, sent⟩) ok core
    · exact .inl left
    · refine .inr ⟨other, ?_⟩
      rw [next] at sent
      rcases List.mem_cons.mp sent with same | later
      · cases same
      · exact later
  have still : ∀ m, a.Kept m → ∀ ok core, (a.served id rest ok core).Kept m := fun m kept ok core =>
    kept.imp (fun wanted => (wanted_served unanswered m).mpr (.inl wanted)) fun stop => due m stop ok core
  rcases Core.startListen_cases a.core mix with same | ⟨m, out, core, same, named, free, topo, listen⟩
  · have answer : a.serve id (.startListen mix) rest = a.served id rest false a.core := by
      simp only [serve, same, Option.isSome_none]
      rfl
    rw [answer]
    refine inv.served next rfl inv.placed (fun m wanted => ?_) fun m taps => still m (inv.kept m taps) _ _
    rcases (wanted_served unanswered m).mp wanted with wanted | ⟨no, -⟩
    · exact inv.tapped m wanted
    · cases no
  · have answer : a.serve id (.startListen mix) rest = a.served id rest true core := by
      simp only [serve, same, Option.isSome_some]
      rfl
    obtain ⟨placed, taps, other⟩ := Core.taps_set inv.wf inv.placed named free topo listen
    rw [answer]
    refine inv.served next topo placed (fun m wanted => ?_) fun m there => ?_
    · by_cases here : m = mix
      · exact here ▸ taps
      · refine (other m here).mpr (inv.tapped m (((wanted_served unanswered m).mp wanted).resolve_right ?_))
        rintro ⟨-, k, held⟩
        obtain ⟨-, only⟩ := inv.waits k id m held
        cases only _ (next ▸ List.mem_cons_self)
        exact here rfl
    · by_cases here : m = mix
      · subst here
        simp only [Fair, next, same, Option.isSome_some, forall_const] at fair
        rcases fair with waiting | kept
        · exact .inl ((wanted_served unanswered m).mpr (.inr ⟨rfl, waiting⟩))
        · exact still m kept _ _
      · exact still m (inv.kept m ((other m here).mp there)) _ _

private theorem Inv.servesStop (inv : a.Inv) (next : a.pipe = (id, .stopListen mix) :: rest) (fair : a.Fair .serve) :
    (a.serve id (.stopListen mix) rest).Inv := by
  obtain ⟨-, unanswered, -⟩ := inv.requests _ (next ▸ List.mem_cons_self : (id, Cmd.stopListen mix) ∈ a.pipe)
  have unwanted : ¬ a.Wanted mix := by simpa [Fair, next] using fair
  have nobody : ∀ (k : ℕ) (m : MixId), a.sessions[k]? ≠ some (.starting id m) := by
    intro k m held
    obtain ⟨-, only⟩ := inv.waits k id m held
    cases only _ (next ▸ List.mem_cons_self)
  have same : ∀ m ok core, (a.served id rest ok core).Wanted m ↔ a.Wanted m := fun m ok core =>
    (wanted_served unanswered m).trans (or_iff_left fun ⟨_, k, held⟩ => nobody k m held)
  have still : ∀ m, m ≠ mix → a.Kept m → ∀ ok core, (a.served id rest ok core).Kept m := by
    rintro m apart (wanted | left | ⟨other, sent⟩) ok core
    · exact .inl ((same m ok core).mpr wanted)
    · exact .inr (.inl left)
    · refine .inr (.inr ⟨other, ?_⟩)
      rw [next] at sent
      rcases List.mem_cons.mp sent with here | later
      · cases here
        exact absurd rfl apart
      · exact later
  obtain ⟨topo, off⟩ := Core.stopListen_cases a.core mix
  have parts : (a.core.handle (.request (.stopListen mix))).2.Placed ∧
      ¬ (a.core.handle (.request (.stopListen mix))).2.Taps mix ∧ ∀ other, other ≠ mix →
        ((a.core.handle (.request (.stopListen mix))).2.Taps other ↔ a.core.Taps other) := by
    rcases off with ⟨unknown, listen⟩ | ⟨m, named, listen⟩
    · have taps : Core.SameTaps a.core (a.core.handle (.request (.stopListen mix))).2 := ⟨topo, listen⟩
      refine ⟨taps.placed inv.placed, ?_, fun other _ => taps.taps other⟩
      rintro ⟨m, named, -⟩
      rw [topo, unknown] at named
      cases named
    · exact Core.taps_off inv.wf inv.placed named topo listen
  obtain ⟨placed, gone, other⟩ := parts
  refine inv.served next topo placed (fun m wanted => ?_) fun m there => ?_
  · have before := (same m _ _).mp wanted
    by_cases here : m = mix
    · exact absurd (here ▸ before) unwanted
    · exact (other m here).mpr (inv.tapped m before)
  · by_cases here : m = mix
    · exact absurd (here ▸ there) gone
    · exact still m here (inv.kept m ((other m here).mp there)) _ _

end

theorem Inv.move (inv : a.Inv) {m : Move} (fair : a.Fair m) (moved : a.move m = some a') : a'.Inv := by
  cases m with
  | connect n =>
    simp only [Audio.move] at moved
    split at moved
    · cases moved
    · rename_i free
      cases moved
      refine inv.strolls rfl fun old held => ?_
      exact absurd (Std.ExtTreeMap.contains_eq_isSome_getElem?.trans (by simp [held])) free
  | listenStart n | listenStop n | close n =>
    obtain ⟨phase, held, moved⟩ := Option.bind_eq_some_iff.mp moved
    exact inv.leave held moved
  | count n =>
    simp only [Audio.move] at moved
    split at moved
    · rename_i mix next held
      cases moved
      exact inv.uncounts held rfl
    · rename_i mix held
      cases moved
      exact inv.counts held
    · cases moved
  | lookUp n page =>
    simp only [Audio.move] at moved
    split at moved
    · rename_i held
      cases moved
      refine inv.strolls ?_ fun old there => ?_
      · cases page <;> rfl
      · cases held.symm.trans there
        rfl
    · cases moved
  | send n =>
    simp only [Audio.move] at moved
    split at moved
    · rename_i mix next held
      cases moved
      exact inv.writes held (.inl ⟨next, rfl, rfl, rfl⟩)
    · rename_i mix held
      cases moved
      exact inv.writes held (.inr ⟨rfl, rfl, rfl⟩)
    · cases moved
  | answer n =>
    simp only [Audio.move] at moved
    split at moved
    · rename_i id mix next held
      obtain ⟨ok, -, rfl⟩ := Option.map_eq_some_iff.mp moved
      refine inv.strolls (plain_next next) fun old there => ?_
      cases held.symm.trans there
      rfl
    · rename_i id mix held
      obtain ⟨ok, answered, rfl⟩ := Option.map_eq_some_iff.mp moved
      exact inv.answers held answered
    · cases moved
  | timeout n =>
    simp only [Audio.move] at moved
    split at moved
    · rename_i id mix next held
      cases moved
      refine inv.strolls (plain_next next) fun old there => ?_
      cases held.symm.trans there
      rfl
    · rename_i id mix held
      cases moved
      exact inv.givesUp held (by simpa [Fair, held] using fair)
    · cases moved
  | serve =>
    simp only [Audio.move] at moved
    split at moved
    · rename_i id cmd rest next
      cases moved
      obtain ⟨-, -, mix, rfl | rfl⟩ := inv.requests _ (next ▸ List.mem_cons_self : (id, cmd) ∈ a.pipe)
      · exact inv.servesStart next fair
      · exact inv.servesStop next fair
    · cases moved
  | engine event =>
    simp only [Audio.move] at moved
    split at moved
    · rename_i quiet
      cases moved
      have same := Core.handle_taps quiet a.core
      exact ⟨same.1 ▸ inv.wf, same.placed inv.placed, fun m wanted => (same.taps m).mpr (inv.tapped m wanted),
        fun m taps => inv.kept m ((same.taps m).mp taps), inv.requests, inv.once, inv.answered, inv.waits⟩
    · cases moved

omit [Libm] in
/-- With no start and no stop in flight, whom somebody counts is who is wanted. -/
private theorem Settled.kept (settled : a.Settled) (mix : MixId) : a.Kept mix ↔ 0 < a.listening mix := by
  constructor
  · rintro ((counted | ⟨n, phase, held, wants⟩) | ⟨n, next, held⟩ | ⟨id, sent⟩)
    · exact counted
    · have still := settled.2 n phase held
      refine absurd wants (wants_plain ?_)
      cases phase <;> first | rfl | cases still
    · cases settled.2 n _ held
    · rw [settled.1] at sent
      cases sent
  · exact fun counted => .inl (.inl counted)

/-- From an engine that taps nothing: whenever no start and no stop is in flight, the engine taps
exactly the mixes that have listeners. -/
theorem taps_follow_listeners (start : Audio) (wf : WellFormed start.core.topo) (starts : start.Starts) (a : Audio)
    (run : Leads move Fair start a) (settled : a.Settled) (mix : MixId) :
    a.core.Taps mix ↔ 0 < a.listening mix := by
  have inv : a.Inv := run.invariant (fun _ _ _ inv fair moved => inv.move fair moved) (inv_starts wf starts)
  rw [← settled.kept mix]
  exact ⟨inv.kept mix, fun kept => inv.tapped mix (.inl ((settled.kept mix).mp kept))⟩

end Audio

section
attribute [local instance] Core.duetLibm

open Audio
open IemMixer.Core (duetCore)

def duetAudio : Audio := { core := duetCore }

theorem duetAudio_starts : duetAudio.Starts := ⟨rfl, rfl, rfl, rfl, by decide⟩

/-- Nobody listens, or will, to what a stop is served of; a start is served to who waits for it. -/
def Audio.calm (a : Audio) : Audio.Move → Bool
  | .serve => match a.pipe with
    | (_, .stopListen mix) :: _ => a.listening mix == 0 && a.sessions.toList.all (·.2.plain)
    | (id, .startListen mix) :: _ => a.sessions.toList.any (·.2 == .starting id mix)
    | _ => true
  | .timeout _ => false
  | _ => true

theorem fair_of_calm {a : Audio} {m : Audio.Move} (calm : a.calm m = true) : a.Fair m := by
  cases m with
  | serve =>
    unfold Audio.calm at calm
    unfold Audio.Fair
    dsimp only at calm ⊢
    split at calm
    · obtain ⟨none, all⟩ := Bool.and_eq_true_iff.mp calm
      rintro (counted | ⟨n, phase, held, wants⟩)
      · exact absurd (beq_iff_eq.mp none) (Nat.ne_of_gt counted)
      · have plain := List.all_eq_true.mp all _ (Std.ExtTreeMap.mem_toList_iff_getElem?_eq_some.mpr held)
        exact wants_plain plain wants
    · obtain ⟨⟨n, phase⟩, member, same⟩ := List.any_eq_true.mp calm
      obtain rfl := beq_iff_eq.mp same
      exact fun _ => .inl ⟨n, Std.ExtTreeMap.mem_toList_iff_getElem?_eq_some.mp member⟩
    · trivial
  | timeout n => cases calm
  | _ => trivial

/-- Session `n` asks for the page of `mix`, and what follows up to the engine. -/
def asks (n : ℕ) (mix : MixId) : List Audio.Move :=
  [.connect n, .listenStart n, .lookUp n (some mix), .send n, .serve, .answer n]

theorem taps_follow_listeners_duet : ∃ a : Audio, Leads move Fair duetAudio a ∧ a.Settled ∧
    (a.core.Taps "ben" ↔ 0 < a.listening "ben") ∧ a.core.Taps "ben" ∧ a.listening "ben" = 1 := by
  -- Anna's mix is refused while Ben's has the slot.
  have ran : (runThrough move calm duetAudio (asks 1 "ben" ++ [.count 1] ++ asks 2 "ben" ++ [.count 2] ++
      asks 3 "anna" ++ [.close 2, .count 2])).any (fun a => decide (a.Settled ∧ a.core.Taps "ben" ∧ a.listening "ben" = 1)) = true := by
    decide +kernel
  obtain ⟨a, led, fine⟩ := (Option.any_eq_true _ _).mp ran
  obtain ⟨settled, taps, one⟩ := of_decide_eq_true fine
  have run : Leads move Fair duetAudio a := runThrough_leads (fun _ _ => fair_of_calm) led
  exact ⟨a, run, settled, taps_follow_listeners duetAudio (TopologyProofs.compile_spec _ TopologyProofs.duetCompiled).1
    duetAudio_starts a run settled "ben", taps, one⟩

/-- The last listener of a mix counts itself out, another asks for the mix, then the stop goes
out: the engine has the mix tapped when it meets the start, and takes the tap off after it. -/
theorem a_start_crosses_a_stop : duetAudio.Starts ∧ ∃ a : Audio, Leads move (fun _ _ => True) duetAudio a ∧ a.Settled ∧
    ¬ (a.core.Taps "ben" ↔ 0 < a.listening "ben") := by
  have ran : (runThrough move (fun _ _ => true) duetAudio (asks 1 "ben" ++ [.count 1, .connect 2, .listenStart 2,
      .lookUp 2 (some "ben"), .listenStop 1, .count 1, .send 2, .send 1, .serve, .serve, .answer 1, .answer 2,
      .count 2])).any (fun a => decide (a.Settled ∧ ¬ a.core.Taps "ben" ∧ a.listening "ben" = 1)) = true := by
    decide +kernel
  obtain ⟨a, led, fine⟩ := (Option.any_eq_true _ _).mp ran
  obtain ⟨settled, untapped, one⟩ := of_decide_eq_true fine
  refine ⟨duetAudio_starts, a, runThrough_leads (fun _ _ _ => trivial) led, settled, fun both => ?_⟩
  exact untapped (both.mpr (one ▸ Nat.one_pos))

end
end IemMixer.Server
