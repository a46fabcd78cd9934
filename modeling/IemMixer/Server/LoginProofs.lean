import IemMixer.Server.Auth
import IemMixer.Server.LoginGuardProofs

/-! How many guesses of one client there are, when its requests are checked, hashed and
counted at their own pace. -/
namespace IemMixer.Server
open Lib Lib.Recent LoginGuard

/-! ### The guard's window of a client -/

namespace LoginGuard.Guard

/-- The failures of a client the guard holds. -/
def window (g : Guard) (client : ClientKey) : List ℕ := (g.clients.lookup client).getD []

variable {g : Guard} {client c : ClientKey} {member : String} {now : ℕ}

private theorem clients_checkStreak (g : Guard) (key : ClientKey × String) (now : ℕ) :
    (g.checkStreak key now).2.clients = g.clients := by
  unfold checkStreak
  cases g.streaks.lookup key with
  | none => rfl
  | some streak =>
    dsimp only
    split
    · rfl
    · split <;> rfl

private theorem clients_checkOrigin (g : Guard) (origin : Origin) (now : ℕ) :
    (g.checkOrigin origin now).2.clients = g.clients := by
  have same (b : OriginBudget) : (g.setBudget origin b).clients = g.clients := (setBudget_maps g origin b).2
  unfold checkOrigin
  cases (g.budget origin).lastAdmitted with
  | none => exact same _
  | some last =>
    dsimp only
    split <;> exact same _

/-- The client's part of an admission prunes the client's window. -/
private theorem checkClient_window (g : Guard) (client : ClientKey) (now : ℕ) :
    ((g.checkClient client now).2.window client = prune clientWindow now (g.window client) ∧
      ∀ other ≠ client, (g.checkClient client now).2.window other = g.window other) ∧
    ((g.checkClient client now).1 = .ok () → clientWindowFailures ≤ (prune clientWindow now (g.window client)).length →
      ∀ last ∈ (prune clientWindow now (g.window client)).getLast?, clientSpacing ≤ now - last) := by
  unfold checkClient
  cases held : g.clients.lookup client with
  | none =>
    have empty : g.window client = [] := by
      unfold window
      rw [held]
      rfl
    refine ⟨⟨by rw [empty]; rfl, fun _ _ => rfl⟩, fun _ many => ?_⟩
    rw [empty] at many
    simp [prune, clientWindowFailures] at many
  | some window =>
    have full : g.window client = window := by
      unfold Guard.window
      rw [held]
      rfl
    have pruned : ∀ other, ({ g with clients := g.clients.insert client (prune clientWindow now window) }).window other =
        if other = client then prune clientWindow now window else g.window other := by
      intro other
      unfold Guard.window
      split
      · rename_i same
        subst same
        simp only [AList.lookup_insert, Option.getD_some]
      · rename_i apart
        simp only [AList.lookup_insert_ne apart]
    rw [full]
    dsimp only
    refine ⟨⟨?_, fun other apart => ?_⟩, ?_⟩
    · have := pruned client
      rw [if_pos rfl] at this
      split
      · split <;> exact this
      · exact this
    · have := pruned other
      rw [if_neg apart] at this
      split
      · split <;> exact this
      · exact this
    · cases newest : (prune clientWindow now window).getLast? with
      | none =>
        intro _ _ last is
        cases is
      | some t =>
        dsimp only
        split
        · intro admitted
          cases admitted
        · rename_i spaced
          rintro - many last ⟨⟩
          omega

/-- An admission prunes the client's window or leaves it. -/
theorem check_window (g : Guard) (client : ClientKey) (member : String) (now : ℕ) (c : ClientKey) :
    (g.check client member now).2.window c = g.window c ∨
      (g.check client member now).2.window c = prune clientWindow now (g.window c) := by
  have clients := clients_checkStreak g (client, member) now
  unfold check
  rcases begun : g.checkStreak (client, member) now with ⟨first, g₁⟩
  rw [begun] at clients
  have streak : g₁.window = g.window := funext fun c => by
    unfold window
    rw [clients]
  cases first with
  | error wait => exact .inl (congrFun streak c)
  | ok =>
    obtain ⟨⟨own, others⟩, -⟩ := checkClient_window g₁ client now
    dsimp only
    rcases checked : g₁.checkClient client now with ⟨second, g₂⟩
    rw [checked] at own others
    have between : g₂.window c = g.window c ∨ g₂.window c = prune clientWindow now (g.window c) := by
      by_cases same : c = client
      · rw [same, own, streak]
        exact .inr rfl
      · rw [others c same, streak]
        exact .inl rfl
    cases second with
    | error wait => exact between
    | ok =>
      have last := clients_checkOrigin g₂ client.origin now
      unfold window at between ⊢
      rw [last]
      exact between

/-- An admission over the budget is spaced from the newest failure the guard holds. -/
theorem check_spaced (admitted : (g.check client member now).1 = .ok ())
    (many : clientWindowFailures ≤ (prune clientWindow now (g.window client)).length) :
    ∀ last ∈ (prune clientWindow now (g.window client)).getLast?, clientSpacing ≤ now - last := by
  have clients := clients_checkStreak g (client, member) now
  unfold check at admitted
  rcases begun : g.checkStreak (client, member) now with ⟨first, g₁⟩
  rw [begun] at clients admitted
  have streak : g₁.window = g.window := funext fun c => by
    unfold window
    rw [clients]
  cases first with
  | error wait => cases admitted
  | ok =>
    have spaced := (checkClient_window g₁ client now).2
    rw [streak] at spaced
    dsimp only at admitted
    rcases checked : g₁.checkClient client now with ⟨second, g₂⟩
    rw [checked] at spaced admitted
    cases second with
    | error wait => cases admitted
    | ok => exact spaced rfl many

/-- The table of clients has room for one more failure of `client`. -/
def Roomy (g : Guard) (client : ClientKey) : Prop :=
  (g.clients.lookup client).isSome ∨ g.clients.entries.length < maxTracked

private theorem bumpClient_window (roomy : g.Roomy client) :
    (g.bumpClient client now).window c =
      if client = c then push clientWindowFailures now (prune clientWindow now (g.window c)) else g.window c := by
  have spared : ((g.clients.lookup client).isNone && decide (maxTracked ≤ g.clients.entries.length)) = false := by
    rcases roomy with tracked | fits
    · simp [Option.isNone_eq_false_iff.mpr tracked]
    · simp only [Bool.and_eq_false_imp, decide_eq_false_iff_not]
      omega
  simp only [window, bumpClient, spared, Bool.false_eq_true, if_false]
  by_cases same : client = c
  · subst same
    rw [AList.lookup_insert, Option.getD_some, if_pos rfl]
  · rw [AList.lookup_insert_ne (Ne.symm same), if_neg same]

/-- A failure counted is the newest of the client's. -/
theorem recordFailure_window (member : String) (now : ℕ) (c : ClientKey) (roomy : g.Roomy client) :
    (g.recordFailure client member now).2.window c =
      if client = c then push clientWindowFailures now (prune clientWindow now (g.window c)) else g.window c := by
  have tables := (recordFailure_tables g client member now).2.1
  have bumped : (g.recordFailure client member now).2.window =
      ((g.bumpStreak (client, member) now).bumpClient client now).window := funext fun c => by
    unfold window
    rw [tables]
  rw [bumped]
  exact bumpClient_window roomy

end LoginGuard.Guard

/-! ### The gate -/

/-- No more than may hash and wait do. -/
structure HashGate.Within (g : HashGate) : Prop where
  running : g.running.length ≤ g.concurrency
  waiting : g.waiting.length ≤ g.maxWaiting

/-- The gate of the same size, with no more than it may hold. -/
structure HashGate.Holds (g g' : HashGate) : Prop where
  within : g'.Within
  concurrency : g'.concurrency = g.concurrency
  maxWaiting : g'.maxWaiting = g.maxWaiting

section
variable {g g' : HashGate} {n : ℕ}

theorem HashGate.Within.acquire (within : g.Within) (got : g.acquire n = some g') : g.Holds g' := by
  unfold HashGate.acquire at got
  split at got
  · rename_i slot
    cases got
    exact ⟨⟨slot, within.waiting⟩, rfl, rfl⟩
  split at got
  · cases got
  · rename_i place
    cases got
    refine ⟨⟨within.running, ?_⟩, rfl, rfl⟩
    show (g.waiting ++ [n]).length ≤ g.maxWaiting
    rw [List.length_append, List.length_singleton]
    omega

theorem HashGate.Within.grant (within : g.Within) (got : g.grant n = some g') : g.Holds g' := by
  unfold HashGate.grant at got
  split at got
  · rename_i slot
    cases got
    exact ⟨⟨slot.1, (List.length_erase_le ..).trans within.waiting⟩, rfl, rfl⟩
  · cases got

theorem HashGate.Within.release (within : g.Within) : g.Holds (g.release n) :=
  ⟨⟨(List.length_erase_le ..).trans within.running, within.waiting⟩, rfl, rfl⟩

theorem HashGate.Within.cancel (within : g.Within) : g.Holds (g.cancel n) :=
  ⟨⟨within.running, (List.length_erase_le ..).trans within.waiting⟩, rfl, rfl⟩

end

/-! ### Runs -/

/-- When the request a verification is for arrived. -/
def Phase.arrived : Phase → Option ℕ
  | .loginRead r | .loginHash r _ _ | .loginDone r _ => some r.arrived
  | .oldRead _ arrived _ | .oldHash _ arrived _ _ | .oldDone _ arrived _ _ => some arrived
  | _ => none

/-- The failure a request is about to be counted for. -/
def Phase.failure : Phase → Option (ClientKey × ℕ)
  | .loginDone r .none => some (r.client, r.arrived)
  | .oldDone c arrived _ false => some (c.client, arrived)
  | _ => none

namespace Auth

/-- When the requests of `client` whose failures are counted arrived, as they were counted. -/
def times (a : Auth) (client : ClientKey) : List ℕ := (a.counted.filter (·.1 = client)).map (·.2)

/-- The failures of `client` are counted in the order of their arrival, and no failure makes the
guard forget a client's. -/
def Ordered (client : ClientKey) (a : Auth) : Move → Prop
  | .finish n => ∀ phase, a.requests[n]? = some phase → ∀ other arrived, phase.failure = some (other, arrived) →
    a.guard.Roomy other ∧ (other = client → ∀ t ∈ a.times client, t ≤ arrived)
  | _ => True

/-- Nothing happened yet. -/
structure Opens (a : Auth) : Prop where
  requests : a.requests = ∅
  guard : a.guard = {}
  counted : a.counted = []
  gate : a.gate = {}

/-- The guard's window keeps the failures counted of `client`, and nobody is ahead of the clock. -/
structure Counts (client : ClientKey) (a : Auth) : Prop where
  keeps : Keeps clientWindow clientWindowFailures a.clock (a.times client) (a.guard.window client)
  past : ∀ (n : ℕ) (phase : Phase), a.requests[n]? = some phase → ∀ t ∈ phase.arrived, t ≤ a.clock
  gate : ({} : HashGate).Holds a.gate

variable {client : ClientKey} {a a' : Auth} {n : ℕ} {out : Option Response}

theorem Opens.counts (opens : a.Opens) : a.Counts client where
  keeps := by
    unfold times
    rw [opens.counted, opens.guard]
    exact keeps_nil _ _ _
  past n phase found := by
    rw [opens.requests] at found
    simp at found
  gate := by
    rw [opens.gate]
    exact ⟨⟨Nat.zero_le _, Nat.zero_le _⟩, rfl, rfl⟩

/-- The request goes on, having arrived by now. -/
private theorem Counts.goes (counts : a.Counts client) {phase : Phase} (past : ∀ t ∈ phase.arrived, t ≤ a.clock)
    (moved : a.goes n phase = some (a', out)) : a'.Counts client := by
  cases moved
  refine ⟨counts.keeps, fun m p found => ?_, counts.gate⟩
  rw [BTreeMap.getElem?_insert_eq] at found
  split at found
  · cases found
    exact past
  · exact counts.past m p found

private theorem Counts.answers (counts : a.Counts client) {reply : Response} (moved : a.answers n reply = some (a', out)) :
    a'.Counts client := by
  cases moved
  refine ⟨counts.keeps, fun m p found => ?_, counts.gate⟩
  rw [BTreeMap.getElem?_erase_eq] at found
  split at found
  · cases found
  · exact counts.past m p found

private theorem Counts.check (counts : a.Counts client) (other : ClientKey) (member : String) :
    { a with guard := (a.guard.check other member a.clock).2 }.Counts client := by
  refine ⟨?_, counts.past, counts.gate⟩
  rcases a.guard.check_window other member a.clock client with same | pruned
  · rw [same]
    exact counts.keeps
  · rw [pruned]
    exact counts.keeps.prune

private theorem Counts.holds (counts : a.Counts client) {gate : HashGate} (holds : a.gate.Holds gate) :
    { a with gate }.Counts client :=
  ⟨counts.keeps, counts.past, ⟨holds.within, holds.concurrency.trans counts.gate.concurrency,
    holds.maxWaiting.trans counts.gate.maxWaiting⟩⟩

private theorem Counts.recordSuccess (counts : a.Counts client) (other : ClientKey) (member : String) :
    (a.recordSuccess other member).Counts client :=
  ⟨counts.keeps, counts.past, counts.gate⟩

private theorem Counts.recordFailure (counts : a.Counts client) {other : ClientKey} {member : String} {arrived : ℕ}
    (past : arrived ≤ a.clock) (roomy : a.guard.Roomy other) (last : other = client → ∀ t ∈ a.times client, t ≤ arrived) :
    (a.recordFailure other member arrived).Counts client := by
  refine ⟨?_, counts.past, counts.gate⟩
  have window := Guard.recordFailure_window member arrived client roomy
  have times : (a.recordFailure other member arrived).times client =
      a.times client ++ if other = client then [arrived] else [] := by
    unfold Auth.times Auth.recordFailure
    by_cases own : other = client <;> simp [own]
  rw [times]
  show Keeps _ _ a.clock _ ((a.guard.recordFailure other member arrived).2.window client)
  rw [window]
  split
  · rename_i own
    exact (counts.keeps.prune_at past).push_at (by decide) (last own) past
  · rw [List.append_nil]
    exact counts.keeps

private theorem Counts.login (counts : a.Counts client) {other : ClientKey} {member pin : String}
    (moved : a.login n other member pin = some (a', out)) : a'.Counts client := by
  have checked := counts.check other member
  unfold Auth.login at moved
  rcases verdict : a.guard.check other member a.clock with ⟨result, guard⟩
  rw [verdict] at checked moved
  cases result with
  | error wait => exact checked.answers moved
  | ok =>
    dsimp only at moved
    split at moved
    · exact checked.answers moved
    · refine checked.goes ?_ moved
      rintro t ⟨⟩
      exact le_rfl

private theorem Counts.admission (counts : a.Counts client) {c : ChangePin} (moved : a.admission n c = some (a', out)) :
    a'.Counts client := by
  have checked := counts.check c.client c.claims.sub
  unfold Auth.admission at moved
  split at moved
  · exact counts.answers moved
  split at moved
  · exact counts.answers moved
  split at moved
  · dsimp only at moved
    split at moved
    · exact counts.answers moved
    split at moved
    · exact counts.answers moved
    · refine counts.goes ?_ moved
      rintro t ⟨⟩
  split at moved
  · exact counts.answers moved
  rcases verdict : a.guard.check c.client c.claims.sub a.clock with ⟨result, guard⟩
  rw [verdict] at checked moved
  cases result with
  | error wait => exact checked.answers moved
  | ok =>
    refine checked.goes ?_ moved
    rintro t ⟨⟩
    exact le_rfl

private theorem Counts.read (counts : a.Counts client) {phase : Phase} (held : a.requests[n]? = some phase)
    (moved : a.read n phase = some (a', out)) : a'.Counts client := by
  have past := counts.past n phase held
  cases phase with
  | loginRead r =>
    refine counts.goes ?_ moved
    exact past
  | oldRead c arrived checked =>
    refine counts.goes ?_ moved
    exact past
  | _ => cases moved

private theorem Counts.finish (counts : a.Counts client) {phase : Phase} (held : a.requests[n]? = some phase)
    (ordered : a.Ordered client (.finish n)) (moved : a.finish n phase = some (a', out)) : a'.Counts client := by
  have past := counts.past n phase held
  cases phase with
  | loginDone r matched =>
    cases matched with
    | none =>
      obtain ⟨roomy, last⟩ := ordered _ held r.client r.arrived rfl
      exact (counts.recordFailure (past r.arrived rfl) roomy last).answers moved
    | _ => exact (counts.recordSuccess ..).answers moved
  | oldDone c arrived checked ok =>
    cases ok with
    | false =>
      obtain ⟨roomy, last⟩ := ordered _ held c.client arrived rfl
      exact (counts.recordFailure (past arrived rfl) roomy last).answers moved
    | true =>
      refine (counts.recordSuccess ..).goes ?_ moved
      rintro t ⟨⟩
  | _ => cases moved

private theorem Counts.store (counts : a.Counts client) {write : Write} {phase : Phase}
    (moved : a.store n write phase = some (a', out)) : a'.Counts client := by
  cases phase with
  | newDone target phc k =>
    have same (pins : PinStore) : { a with pins }.Counts client := ⟨counts.keeps, counts.past, counts.gate⟩
    exact (same _).answers moved
  | _ => cases moved

/-- Rosters and the store are nothing to it. -/
private theorem Counts.aside (counts : a.Counts client) (roster : Option Roster) (pins : PinStore) (watch : Watch)
    (lost : List String) (rosters : ℕ) : { a with roster, pins, watch, lost, rosters }.Counts client :=
  ⟨counts.keeps, counts.past, counts.gate⟩

variable [Argon2]

private theorem arrived_hashed (salt : String) (phase : Phase) : (hashed salt phase).arrived = phase.arrived := by
  cases phase <;> rfl

private theorem Counts.hash (counts : a.Counts client) (n : ℕ) (salt : String) :
    { a with gate := a.gate.release n, requests := a.requests.modify n (hashed salt) }.Counts client := by
  have released := counts.holds (counts.gate.within.release (n := n))
  refine ⟨counts.keeps, fun m p found => ?_, released.gate⟩
  rw [Std.ExtTreeMap.getElem?_modify] at found
  split at found
  · obtain ⟨before, held, rfl⟩ := Option.map_eq_some_iff.mp found
    rename_i same
    rw [Std.compare_eq_iff_eq] at same
    subst same
    rw [arrived_hashed]
    exact counts.past _ before held
  · exact counts.past m p found

theorem Counts.move (counts : a.Counts client) {m : Move} (ordered : a.Ordered client m)
    (moved : a.move m = some (a', out)) : a'.Counts client := by
  cases m with
  | pass time =>
    cases moved
    have later : a.clock ≤ a.clock + time := Nat.le_add_right ..
    exact ⟨counts.keeps.wait later, fun n phase found t arrived => (counts.past n phase found t arrived).trans later,
      counts.gate⟩
  | login n other member pin =>
    simp only [Auth.move] at moved
    split at moved
    · exact counts.login moved
    · cases moved
  | change n c =>
    simp only [Auth.move] at moved
    split at moved
    · refine counts.goes ?_ moved
      rintro t ⟨⟩
    · cases moved
  | admission n =>
    simp only [Auth.move] at moved
    split at moved
    · exact counts.admission moved
    · cases moved
  | read n =>
    obtain ⟨phase, held, moved⟩ := Option.bind_eq_some_iff.mp moved
    exact counts.read held moved
  | acquire n =>
    obtain ⟨phase, held, moved⟩ := Option.bind_eq_some_iff.mp moved
    split at moved
    · split at moved
      · rename_i got
        cases moved
        exact counts.holds (counts.gate.within.acquire got)
      · exact counts.answers moved
    · cases moved
  | grant n =>
    obtain ⟨gate, got, same⟩ := Option.map_eq_some_iff.mp moved
    cases same
    exact counts.holds (counts.gate.within.grant got)
  | hash n salt =>
    simp only [Auth.move] at moved
    split at moved
    · cases moved
      exact counts.hash n salt
    · cases moved
  | crash n =>
    simp only [Auth.move] at moved
    split at moved
    · exact (counts.holds counts.gate.within.release).answers moved
    · cases moved
  | finish n =>
    obtain ⟨phase, held, moved⟩ := Option.bind_eq_some_iff.mp moved
    exact counts.finish held ordered moved
  | store n write =>
    obtain ⟨phase, held, moved⟩ := Option.bind_eq_some_iff.mp moved
    exact counts.store moved
  | leave n =>
    cases moved
    exact (counts.holds counts.gate.within.cancel).answers (rfl : Auth.answers _ n .ok = _)
  | adopt r former deletion fine work =>
    simp only [Auth.move] at moved
    split at moved
    · cases moved
      unfold Auth.adopt
      split
      split
      · exact counts.aside ..
      · exact counts.aside ..
    · cases moved
  | takeFirst =>
    simp only [Auth.move] at moved
    split at moved
    · cases moved
      exact counts.aside ..
    · cases moved
  | reload r =>
    simp only [Auth.move] at moved
    split at moved
    · cases moved
      exact counts.aside ..
    · cases moved
  | follow work =>
    simp only [Auth.move] at moved
    split at moved
    · cases moved
      exact counts.aside ..
    · cases moved

theorem Reaches.counts {start : Auth} (opens : start.Opens) (run : Reaches (Ordered client) start a) :
    a.Counts client := by
  induction run with
  | refl => exact opens.counts
  | tail _ last ih =>
    obtain ⟨m, out, ordered, moved⟩ := last
    exact ih.move ordered moved

omit [Argon2] in
/-- With 20 failures of ten minutes counted, a client's admission is a minute after all of them. -/
private theorem Counts.spaced (counts : a.Counts client) (member : String)
    (admitted : (a.guard.check client member a.clock).1 = .ok ())
    (many : clientWindowFailures ≤ count clientWindow a.clock (a.times client)) :
    ∀ t ∈ a.times client, t + clientSpacing ≤ a.clock := by
  obtain ⟨enough, newest⟩ := keeps_tells counts.keeps le_rfl (by decide)
  have full := enough.mpr many
  have spaced := Guard.check_spaced admitted full
  rw [newest full] at spaced
  intro t member
  obtain ⟨before, last, split⟩ := List.eq_nil_or_concat (a.times client) |>.resolve_left (List.ne_nil_of_mem member)
  have ordered := counts.keeps.ordered
  rw [split, List.concat_eq_append] at member ordered spaced
  have gap := spaced last (by simp)
  have below : t ≤ last := by
    rcases List.mem_append.mp member with earlier | same
    · exact (List.pairwise_append.mp ordered).2.2 t earlier last (List.mem_singleton_self _)
    · exact (List.mem_singleton.mp same).le
  have positive : 0 < clientSpacing := by decide
  omega

/-- At any time no more than two requests hash and eight wait to. And while 20 or more failures
of a client's last ten minutes are counted, in the order the requests arrived, a login of it
that is admitted arrives a minute or more after every request whose failure is counted: those
admitted closer together were being hashed, or right. -/
theorem guesses_are_spaced (client : ClientKey) (start a : Auth) (opens : start.Opens)
    (run : Reaches (Ordered client) start a) :
    a.gate.running.length ≤ hashConcurrency ∧ a.gate.waiting.length ≤ hashQueue ∧
      (clientWindowFailures ≤ count clientWindow a.clock (a.times client) →
        ∀ n member pin a', a.move (.login n client member pin) = some (a', none) →
          ∀ t ∈ a.times client, t + clientSpacing ≤ a.clock) := by
  have counts := run.counts opens
  refine ⟨?_, ?_, fun many n member pin a' moved => ?_⟩
  · have within := counts.gate.within.running
    rwa [counts.gate.concurrency] at within
  · have within := counts.gate.within.waiting
    rwa [counts.gate.maxWaiting] at within
  · simp only [Auth.move] at moved
    split at moved
    · refine counts.spaced member ?_ many
      unfold Auth.login at moved
      rcases verdict : a.guard.check client member a.clock with ⟨result, guard⟩
      rw [verdict] at moved
      cases result with
      | error wait => cases moved
      | ok => rfl
    · cases moved

omit [Argon2] in
/-- `Ordered`, to evaluate. -/
private def orderly (client : ClientKey) (a : Auth) : Move → Bool
  | .finish n => match a.requests[n]?.bind Phase.failure with
    | some (other, arrived) =>
      ((a.guard.clients.lookup other).isSome || decide (a.guard.clients.entries.length < maxTracked)) &&
        (decide (other ≠ client) || (a.times client).all (· ≤ arrived))
    | none => true
  | _ => true

omit [Argon2] in
private theorem ordered_of {m : Move} (fine : orderly client a m = true) : a.Ordered client m := by
  cases m with
  | finish n =>
    intro phase held other arrived fails
    simp only [orderly, held, Option.bind_some, fails, Bool.and_eq_true, Bool.or_eq_true, decide_eq_true_eq,
      List.all_eq_true] at fine
    exact ⟨fine.1, fun own => fine.2.resolve_left fun apart => apart own⟩
  | _ => exact trivial

end Auth

/-! ### Twenty guesses -/

def guesser : ClientKey := ⟨.lan, 1⟩

/-- A band of Ana, with a PIN. -/
def soloBand : Auth where
  site := ["ana"]
  pins := ⟨{ members := .ofList [("ana", "$argon2id$1111")] }, { members := .ofList [("ana", "$argon2id$1111")] }⟩

namespace Auth

/-- Twenty wrong PINs at once, each of them verified and counted in turn. -/
def guesses : List Move :=
  (List.range 20).map (.login · guesser "ana" "0000") ++
    (List.range 20).flatMap fun n => [.read n, .acquire n, .hash n "", .finish n]

attribute [local instance] plainArgon2

theorem guesses_are_spaced_minute : ∃ a a', Reaches (Ordered guesser) soloBand a ∧
    a.move (.login 20 guesser "ana" "0000") = some (a', none) ∧ ∀ t ∈ a.times guesser, t + clientSpacing ≤ a.clock := by
  have ran : (soloBand.run (orderly guesser) (guesses ++ [.pass (seconds 60)])).any (fun a =>
      decide (clientWindowFailures ≤ count clientWindow a.clock (a.times guesser)) &&
        (a.move (.login 20 guesser "ana" "0000")).any (·.2.isNone)) = true := by decide +kernel
  obtain ⟨a, reached, facts⟩ := (Option.any_eq_true _ _).mp ran
  simp only [Bool.and_eq_true, decide_eq_true_eq, Option.any_eq_true, Option.isNone_iff_eq_none] at facts
  obtain ⟨many, ⟨a', out⟩, moved, rfl⟩ := facts
  have run : Reaches (Ordered guesser) soloBand a := reaches_run (fun _ _ => ordered_of) reached
  have spaced := (guesses_are_spaced guesser soloBand a ⟨rfl, rfl, rfl, rfl⟩ run).2.2 many 20 "ana" "0000" a' moved
  exact ⟨a, a', run, moved, spaced⟩

/-- Two logins of the guesser that arrived together are verified. -/
private def twins (a : Auth) (n n' : ℕ) : Bool :=
  match a.requests[n]?, a.requests[n']? with
  | some (.loginDone r _), some (.loginDone r' _) =>
    decide (r.client = guesser ∧ r'.client = guesser ∧ r.arrived = r'.arrived)
  | _, _ => false

/-- Two guesses that arrive together, a minute after twenty: both are admitted and verified. -/
theorem guesses_at_once : ¬ ∀ a, Reaches (fun _ _ => True) soloBand a →
    clientWindowFailures ≤ count clientWindow a.clock (a.times guesser) →
    ∀ (n n' : ℕ) (r r' : Login) (matched matched' : PinMatch), n ≠ n' → a.requests[n]? = some (.loginDone r matched) →
      a.requests[n']? = some (.loginDone r' matched') → r.client = guesser → r'.client = guesser →
      r.arrived + clientSpacing ≤ r'.arrived ∨ r'.arrived + clientSpacing ≤ r.arrived := by
  intro spaced
  have ran : (soloBand.run (fun _ _ => true) (guesses ++ [.pass (seconds 60), .login 20 guesser "ana" "0000",
      .login 21 guesser "ana" "1234", .read 20, .acquire 20, .hash 20 "", .read 21, .acquire 21, .hash 21 ""])).any
      (fun a => decide (clientWindowFailures ≤ count clientWindow a.clock (a.times guesser)) && twins a 20 21) = true := by
    decide +kernel
  obtain ⟨a, reached, facts⟩ := (Option.any_eq_true _ _).mp ran
  simp only [Bool.and_eq_true, decide_eq_true_eq] at facts
  obtain ⟨many, both⟩ := facts
  unfold twins at both
  split at both
  · rename_i r matched r' matched' first second
    obtain ⟨own, own', together⟩ := of_decide_eq_true both
    have apart := spaced a (reaches_run (fun _ _ _ => trivial) reached) many 20 21 r r' matched matched' (by decide)
      first second own own'
    rw [together] at apart
    have positive : 0 < clientSpacing := by decide
    omega
  · cases both

end Auth

end IemMixer.Server
