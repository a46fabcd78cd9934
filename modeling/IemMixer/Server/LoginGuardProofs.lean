import IemMixer.Server.LoginGuard

/-! The guard against the whole record of what happened: its truncated queues and its
streaks decide as counting all of it does. -/
namespace IemMixer.Server.LoginGuard
open Lib.Recent

/-- What happened, as far as it counts. -/
inductive Deed where
  | failed (client : ClientKey) (member : String) (time : ℕ)
  | succeeded (client : ClientKey) (member : String)
  | admitted (client : ClientKey) (time : ℕ)

/-- Everything that happened, the newest first. -/
abbrev Past := List Deed

namespace Deed

/-- The time of a failure that `mine` picks. -/
def failure (mine : ClientKey → String → Bool) : Deed → Option ℕ
  | .failed client member time => if mine client member then some time else none
  | _ => none

def admission (origin : Origin) : Deed → Option ℕ
  | .admitted client time => if client.origin = origin then some time else none
  | _ => none

end Deed

namespace Past

/-- The times of the failures that `mine` picks, the oldest first. -/
def failures (past : Past) (mine : ClientKey → String → Bool) : List ℕ :=
  (past.filterMap (Deed.failure mine)).reverse

def ofKey (key : ClientKey × String) (client : ClientKey) (member : String) : Bool := (client, member) = key
def ofClient (client : ClientKey) (other : ClientKey) (_ : String) : Bool := other = client
def ofOrigin (origin : Origin) (client : ClientKey) (_ : String) : Bool := client.origin = origin

/-- The failures of `key` in a row before `later`, none of them a success or longer than
the decay before the next. -/
def streak (key : ClientKey × String) : Past → ℕ → ℕ
  | [], _ => 0
  | .failed client member time :: before, later =>
    if (client, member) = key then
      if later - time < streakDecay then streak key before time + 1 else 0
    else streak key before later
  | .succeeded client member :: before, later => if (client, member) = key then 0 else streak key before later
  | .admitted _ _ :: before, later => streak key before later

def lastAdmitted (past : Past) (origin : Origin) : Option ℕ := past.findSome? (Deed.admission origin)

/-- What is left of a delay that began at `start`. -/
def wait (delay now : ℕ) (start : Option ℕ) : ℕ := (start.map fun t => delay - (now - t)).getD 0

def streakWait (past : Past) (key : ClientKey × String) (now : ℕ) : ℕ :=
  wait (streakDelay (past.streak key now)) now (past.failures (ofKey key)).getLast?

/-- A client that failed 20 times in ten minutes waits a minute from its last failure. -/
def clientWait (past : Past) (client : ClientKey) (now : ℕ) : ℕ :=
  if clientWindowFailures ≤ count clientWindow now (past.failures (ofClient client)) then
    wait clientSpacing now (past.failures (ofClient client)).getLast?
  else 0

/-- An origin that failed more than 30 times in an hour waits five seconds from its last
admission. -/
def originWait (past : Past) (origin : Origin) (now : ℕ) : ℕ :=
  if engineerWindowFailures < count engineerWindow now (past.failures (ofOrigin origin)) then
    wait engineerSpacing now (past.lastAdmitted origin)
  else 0

/-- The admission, decided on everything that happened. -/
def verdict (past : Past) (client : ClientKey) (member : String) (now : ℕ) : Except ℕ Unit :=
  if 0 < past.streakWait (client, member) now then .error (past.streakWait (client, member) now)
  else if 0 < past.clientWait client now then .error (past.clientWait client now)
  else if 0 < past.originWait client.origin now then .error (past.originWait client.origin now)
  else .ok ()

end Past

/-- The streak of `key` as the guard holds it. -/
def StreakKept (past : Past) (key : ClientKey × String) (now : ℕ) : Option Streak → Prop
  | none => ∀ later, now ≤ later → past.streak key later = 0
  | some s => s.lastFailure ≤ now ∧ (past.failures (Past.ofKey key)).getLast? = some s.lastFailure ∧
      ∃ n, 0 < n ∧ s.failures = min n u32Max ∧
        ∀ later, now ≤ later → past.streak key later = if later - s.lastFailure < streakDecay then n else 0

structure Agrees (g : Guard) (past : Past) (now : ℕ) : Prop where
  streaks : ∀ key, StreakKept past key now (g.streaks.lookup key)
  clients : ∀ client, Keeps clientWindow clientWindowFailures now (past.failures (Past.ofClient client))
    ((g.clients.lookup client).getD [])
  budgets : ∀ origin, Keeps engineerWindow (engineerWindowFailures + 1) now (past.failures (Past.ofOrigin origin))
    (g.budget origin).failures
  admitted : ∀ origin, (g.budget origin).lastAdmitted = past.lastAdmitted origin
  soon : ∀ origin, ∀ t ∈ past.lastAdmitted origin, t ≤ now

section
variable {g : Guard} {past : Past} {now later : ℕ} {key : ClientKey × String} {client : ClientKey} {member : String}

theorem Agrees.wait (agrees : Agrees g past now) (wait : now ≤ later) : Agrees g past later where
  streaks := by
    intro key
    have kept := agrees.streaks key
    cases held : g.streaks.lookup key with
    | none =>
      rw [held] at kept
      exact fun t after => kept t (wait.trans after)
    | some s =>
      rw [held] at kept
      obtain ⟨past, last, n, some, count, ends⟩ := kept
      exact ⟨past.trans wait, last, n, some, count, fun t after => ends t (wait.trans after)⟩
  clients := fun client => (agrees.clients client).wait wait
  budgets := fun origin => (agrees.budgets origin).wait wait
  admitted := agrees.admitted
  soon := fun origin t member => (agrees.soon origin t member).trans wait

/-- Past nine failures every streak owes the same. -/
theorem streakDelay_cap (n : ℕ) : streakDelay (min n u32Max) = streakDelay n := by
  unfold streakDelay u32Max freeFailures
  rcases Nat.le_total n (2 ^ 32 - 1) with small | large
  · rw [min_eq_left small]
  · rw [min_eq_right large]
    have big : 6 ≤ n - 3 := by omega
    have more : ¬ n < 3 := by omega
    simp [big, more]

theorem streakDelay_le (n : ℕ) : streakDelay n ≤ maxDelay := by
  unfold streakDelay
  split
  · exact Nat.zero_le _
  · simp only
    split
    · exact le_rfl
    · exact min_le_right _ _

theorem checkStreak_spec (agrees : Agrees g past now) (key : ClientKey × String) :
    (g.checkStreak key now).1 =
        (if 0 < past.streakWait key now then .error (past.streakWait key now) else .ok ()) ∧
      Agrees (g.checkStreak key now).2 past now := by
  have kept := agrees.streaks key
  unfold Guard.checkStreak Past.streakWait Past.wait
  cases held : g.streaks.lookup key with
  | none =>
    rw [held] at kept
    have nothing : past.streak key now = 0 := kept now le_rfl
    refine ⟨?_, agrees⟩
    cases (past.failures (Past.ofKey key)).getLast? <;> simp [nothing, streakDelay, freeFailures]
  | some s =>
    rw [held] at kept
    obtain ⟨soon, last, n, some, count, ends⟩ := kept
    have owed := ends now le_rfl
    simp only [last, Option.map_some, Option.getD_some]
    split
    · rename_i decayed
      have none : past.streak key now = 0 := by rw [owed, if_neg (by omega)]
      refine ⟨by simp [none, streakDelay, freeFailures], ?_⟩
      refine ⟨fun other => ?_, agrees.clients, agrees.budgets, agrees.admitted, agrees.soon⟩
      by_cases same : other = key
      · subst same
        simp only [AList.lookup_erase]
        intro later after
        rw [ends later after, if_neg (by omega)]
      · simp only [AList.lookup_erase_ne same]
        exact agrees.streaks other
    · rename_i running
      have runs : past.streak key now = n := by rw [owed, if_pos (by omega)]
      rw [runs, count, streakDelay_cap]
      split
      · rename_i early
        exact ⟨by rw [if_pos (by omega)], agrees⟩
      · rename_i late
        exact ⟨by rw [if_neg (by omega)], agrees⟩

/-- A pruned queue tells the window's count and the last time. -/
theorem keeps_tells {span cap limit : ℕ} {all queue : List ℕ} (keeps : Keeps span cap now all queue)
    (within : limit ≤ cap) (positive : 0 < limit) :
    (limit ≤ (prune span now queue).length ↔ limit ≤ count span now all) ∧
      (limit ≤ (prune span now queue).length → (prune span now queue).getLast? = all.getLast?) := by
  have length := keeps.length_prune
  refine ⟨by omega, fun enough => keeps.prune.getLast? ?_⟩
  intro empty
  rw [empty] at enough
  simp only [List.length_nil] at enough
  omega

theorem checkClient_spec (agrees : Agrees g past now) (client : ClientKey) :
    (g.checkClient client now).1 =
        (if 0 < past.clientWait client now then .error (past.clientWait client now) else .ok ()) ∧
      Agrees (g.checkClient client now).2 past now := by
  have keeps := agrees.clients client
  unfold Guard.checkClient Past.clientWait Past.wait
  cases held : g.clients.lookup client with
  | none =>
    rw [held] at keeps
    have few : ¬ clientWindowFailures ≤ count clientWindow now (past.failures (Past.ofClient client)) := by
      have length := keeps.length_prune
      simp only [Option.getD_none, prune, List.dropWhile_nil, List.length_nil, clientWindowFailures] at length ⊢
      omega
    exact ⟨by simp [few], agrees⟩
  | some window =>
    rw [held, Option.getD_some] at keeps
    have pruned : Agrees { g with clients := g.clients.insert client (prune clientWindow now window) } past now := by
      refine ⟨agrees.streaks, fun other => ?_, agrees.budgets, agrees.admitted, agrees.soon⟩
      by_cases same : other = client
      · subst same
        simp only [AList.lookup_insert, Option.getD_some]
        exact keeps.prune
      · simp only [AList.lookup_insert_ne same]
        exact agrees.clients other
    obtain ⟨enough, last⟩ := keeps_tells keeps le_rfl (by decide)
    simp only
    by_cases full : clientWindowFailures ≤ (prune clientWindow now window).length
    · rw [if_pos (enough.mp full), last full]
      cases (past.failures (Past.ofClient client)).getLast? with
      | none => exact ⟨by simp, pruned⟩
      | some t =>
        simp only [full, true_and, Option.map_some, Option.getD_some]
        split
        · exact ⟨by rw [if_pos (by omega)], pruned⟩
        · exact ⟨by rw [if_neg (by omega)], pruned⟩
    · rw [if_neg fun many => full (enough.mpr many)]
      cases (prune clientWindow now window).getLast? with
      | none => exact ⟨by simp, pruned⟩
      | some t => exact ⟨by simp [full], by simpa [full] using pruned⟩

@[simp] theorem budget_setBudget_self (g : Guard) (origin : Origin) (b : OriginBudget) :
    (g.setBudget origin b).budget origin = b := by
  cases origin <;> rfl

theorem budget_setBudget_ne (g : Guard) {origin other : Origin} (b : OriginBudget) (apart : other ≠ origin) :
    (g.setBudget origin b).budget other = g.budget other := by
  cases origin <;> cases other <;> first | rfl | exact absurd rfl apart

theorem setBudget_maps (g : Guard) (origin : Origin) (b : OriginBudget) :
    (g.setBudget origin b).streaks = g.streaks ∧ (g.setBudget origin b).clients = g.clients := by
  cases origin <;> exact ⟨rfl, rfl⟩

/-- The record after an admission that was let through. -/
def Past.after (past : Past) (client : ClientKey) (now : ℕ) : Except ℕ Unit → Past
  | .ok () => .admitted client now :: past
  | .error _ => past

/-- The guard with another budget of an origin. -/
theorem Agrees.budget (agrees : Agrees g past now) {past' : Past} {origin : Origin} {b : OriginBudget}
    (streaks : ∀ key later, past'.streak key later = past.streak key later)
    (failures : ∀ mine, past'.failures mine = past.failures mine)
    (keeps : Keeps engineerWindow (engineerWindowFailures + 1) now (past.failures (Past.ofOrigin origin)) b.failures)
    (admitted : b.lastAdmitted = past'.lastAdmitted origin) (soon : ∀ t ∈ b.lastAdmitted, t ≤ now)
    (others : ∀ other, other ≠ origin → past'.lastAdmitted other = past.lastAdmitted other) :
    Agrees (g.setBudget origin b) past' now := by
  obtain ⟨sameStreaks, sameClients⟩ := setBudget_maps g origin b
  refine ⟨fun key => ?_, fun client => ?_, fun other => ?_, fun other => ?_, fun other => ?_⟩
  · have kept := agrees.streaks key
    rw [sameStreaks]
    cases held : g.streaks.lookup key with
    | none =>
      rw [held] at kept
      exact fun later after => (streaks key later).trans (kept later after)
    | some s =>
      rw [held] at kept
      simpa only [StreakKept, streaks, failures] using kept
  · rw [sameClients, failures]
    exact agrees.clients client
  · rw [failures]
    by_cases same : other = origin
    · subst same
      rw [budget_setBudget_self]
      exact keeps
    · rw [budget_setBudget_ne g b same]
      exact agrees.budgets other
  · by_cases same : other = origin
    · subst same
      rw [budget_setBudget_self]
      exact admitted
    · rw [budget_setBudget_ne g b same, others other same]
      exact agrees.admitted other
  · by_cases same : other = origin
    · subst same
      rw [← admitted]
      exact soon
    · rw [others other same]
      exact agrees.soon other

theorem checkOrigin_spec (agrees : Agrees g past now) (client : ClientKey) :
    (g.checkOrigin client.origin now).1 = (if 0 < past.originWait client.origin now then
        .error (past.originWait client.origin now) else .ok ()) ∧
      Agrees (g.checkOrigin client.origin now).2 (past.after client now (g.checkOrigin client.origin now).1) now := by
  have keeps := agrees.budgets client.origin
  have held := agrees.admitted client.origin
  have enough : engineerWindowFailures < (prune engineerWindow now (g.budget client.origin).failures).length ↔
      engineerWindowFailures < count engineerWindow now (past.failures (Past.ofOrigin client.origin)) :=
    (keeps_tells keeps le_rfl (Nat.succ_pos _)).1
  have refused : ∀ wait, Agrees (g.setBudget client.origin { g.budget client.origin with
      failures := prune engineerWindow now (g.budget client.origin).failures }) (past.after client now (.error wait)) now :=
    fun _ => agrees.budget (fun _ _ => rfl) (fun _ => rfl) keeps.prune held
      (by rw [held]; exact agrees.soon client.origin) fun _ _ => rfl
  have admitted : Agrees (g.setBudget client.origin
      { failures := prune engineerWindow now (g.budget client.origin).failures, lastAdmitted := some now })
      (past.after client now (.ok ())) now := by
    refine agrees.budget (fun _ _ => rfl) (fun _ => rfl) keeps.prune ?_ (by simp) ?_
    · simp [Past.after, Past.lastAdmitted, Deed.admission]
    · intro other apart
      simp [Past.after, Past.lastAdmitted, Deed.admission, Ne.symm apart]
  unfold Guard.checkOrigin Past.originWait Past.wait
  rw [held]
  cases last : past.lastAdmitted client.origin with
  | none => exact ⟨by simp, admitted⟩
  | some t =>
    simp only [Option.map_some, Option.getD_some]
    by_cases many : engineerWindowFailures < (prune engineerWindow now (g.budget client.origin).failures).length
    · rw [if_pos (enough.mp many)]
      simp only [many, true_and]
      split
      · exact ⟨by rw [if_pos (by omega)], refused _⟩
      · exact ⟨by rw [if_neg (by omega)], admitted⟩
    · rw [if_neg fun more => many (enough.mpr more)]
      simp only [many, false_and, if_false]
      exact ⟨by simp, admitted⟩

/-- An admission is decided as on the whole record. -/
theorem check_spec (agrees : Agrees g past now) (client : ClientKey) (member : String) :
    (g.check client member now).1 = past.verdict client member now ∧
      Agrees (g.check client member now).2 (past.after client now (g.check client member now).1) now := by
  obtain ⟨first, kept⟩ := checkStreak_spec agrees (client, member)
  unfold Guard.check Past.verdict
  rcases streak : g.checkStreak (client, member) now with ⟨outcome, g₁⟩
  rw [streak] at first kept
  by_cases owes : 0 < past.streakWait (client, member) now
  · simp only [if_pos owes] at first ⊢
    subst first
    exact ⟨rfl, kept⟩
  · simp only [if_neg owes] at first ⊢
    subst first
    obtain ⟨second, kept⟩ := checkClient_spec kept client
    rcases budget : g₁.checkClient client now with ⟨outcome, g₂⟩
    rw [budget] at second kept
    simp only [budget]
    by_cases owes : 0 < past.clientWait client now
    · simp only [if_pos owes] at second ⊢
      subst second
      exact ⟨rfl, kept⟩
    · simp only [if_neg owes] at second ⊢
      subst second
      exact checkOrigin_spec kept client

theorem failures_failed (past : Past) (mine : ClientKey → String → Bool) (client : ClientKey) (member : String)
    (now : ℕ) : Past.failures (.failed client member now :: past) mine =
      past.failures mine ++ if mine client member then [now] else [] := by
  unfold Past.failures
  by_cases hers : mine client member = true <;> simp [Deed.failure, hers]

/-- No table is full for `client` and `member`. -/
def Room (g : Guard) (client : ClientKey) (member : String) : Prop :=
  ((g.streaks.lookup (client, member)).isSome ∨ g.streaks.entries.length < maxTracked) ∧
    ((g.clients.lookup client).isSome ∨ g.clients.entries.length < maxTracked)

/-- A bumped streak counts one more. -/
theorem bumped (kept : StreakKept past key now (g.streaks.lookup key)) :
    (g.bumpStreak key now).streaks.lookup key = some ⟨min (past.streak key now + 1) u32Max, now⟩ := by
  simp only [Guard.bumpStreak, AList.lookup_insert, Option.some.injEq, Streak.mk.injEq, and_true]
  cases held : g.streaks.lookup key with
  | none =>
    rw [held] at kept
    rw [kept now le_rfl]
    rfl
  | some s =>
    rw [held] at kept
    obtain ⟨-, -, n, -, count, ends⟩ := kept
    simp only [ends now le_rfl, count]
    split
    · omega
    · rfl

theorem bumpStreak_spec (agrees : Agrees g past now) (room : Room g client member) :
    (∀ key, StreakKept (.failed client member now :: past) key now
      ((g.bumpStreak (client, member) now).streaks.lookup key)) ∧
    (g.bumpStreak (client, member) now).clients = g.clients ∧
    (∀ origin, (g.bumpStreak (client, member) now).budget origin = g.budget origin) := by
  refine ⟨fun key => ?_, rfl, fun origin => by cases origin <;> rfl⟩
  have spared : ((g.streaks.lookup (client, member)).isNone && decide (maxTracked ≤ g.streaks.entries.length)) = false := by
    rcases room.1 with tracked | fits
    · simp [Option.isNone_eq_false_iff.mpr tracked]
    · simp only [Bool.and_eq_false_imp, decide_eq_false_iff_not]
      omega
  have kept := agrees.streaks key
  by_cases same : key = (client, member)
  · subst same
    rw [bumped kept]
    refine ⟨le_rfl, ?_, past.streak (client, member) now + 1, Nat.succ_pos _, rfl, fun later after => ?_⟩
    · rw [failures_failed]
      simp [Past.ofKey]
    · simp [Past.streak]
  · simp only [Guard.bumpStreak, spared, Bool.false_eq_true, if_false]
    rw [AList.lookup_insert_ne same]
    have apart : ¬ (client, member) = key := fun he => same he.symm
    have told : ∀ later, Past.streak key (.failed client member now :: past) later = past.streak key later := by
      intro later
      simp only [Past.streak, apart, if_false]
    cases held : g.streaks.lookup key with
    | none =>
      rw [held] at kept
      exact fun later after => (told later).trans (kept later after)
    | some s =>
      rw [held] at kept
      simpa only [StreakKept, told, failures_failed, Past.ofKey, apart, decide_false, Bool.false_eq_true, if_false,
        List.append_nil] using kept

theorem bumpClient_spec (g : Guard) (member : String) (agrees : ∀ client, Keeps clientWindow clientWindowFailures now
      (past.failures (Past.ofClient client)) ((g.clients.lookup client).getD []))
    (room : (g.clients.lookup client).isSome ∨ g.clients.entries.length < maxTracked) (other : ClientKey) :
    Keeps clientWindow clientWindowFailures now (Past.failures (.failed client member now :: past) (Past.ofClient other))
      (((g.bumpClient client now).clients.lookup other).getD []) := by
  have spared : ((g.clients.lookup client).isNone && decide (maxTracked ≤ g.clients.entries.length)) = false := by
    rcases room with tracked | fits
    · simp [Option.isNone_eq_false_iff.mpr tracked]
    · simp only [Bool.and_eq_false_imp, decide_eq_false_iff_not]
      omega
  simp only [Guard.bumpClient, spared, Bool.false_eq_true, if_false, failures_failed]
  by_cases same : other = client
  · subst same
    simp only [AList.lookup_insert, Option.getD_some, Past.ofClient, decide_true, if_true]
    exact (agrees other).prune.push (Nat.succ_pos _)
  · simp only [AList.lookup_insert_ne same, Past.ofClient, Ne.symm same, decide_false, Bool.false_eq_true, if_false,
      List.append_nil]
    exact agrees other

/-- What a failure does to each table. -/
theorem recordFailure_tables (g : Guard) (client : ClientKey) (member : String) (now : ℕ) :
    (g.recordFailure client member now).2.streaks = (g.bumpStreak (client, member) now).streaks ∧
      (g.recordFailure client member now).2.clients =
        ((g.bumpStreak (client, member) now).bumpClient client now).clients ∧
      ∀ origin, (g.recordFailure client member now).2.budget origin =
        if origin = client.origin then
          { g.budget client.origin with
            failures := push (engineerWindowFailures + 1) now
              (prune engineerWindow now (g.budget client.origin).failures) }
        else g.budget origin := by
  unfold Guard.recordFailure
  cases client.origin <;> simp only <;> split <;> refine ⟨rfl, rfl, fun origin => ?_⟩ <;> cases origin <;> rfl

/-- A failure is counted as the record grows. -/
theorem recordFailure_spec (agrees : Agrees g past now) (room : Room g client member) :
    Agrees (g.recordFailure client member now).2 (.failed client member now :: past) now := by
  obtain ⟨streaks, clients, -⟩ := bumpStreak_spec agrees room
  have windows := bumpClient_spec (g.bumpStreak (client, member) now) member
    (by rw [clients]; exact agrees.clients) (by rw [clients]; exact room.2)
  obtain ⟨heldStreaks, heldClients, heldBudgets⟩ := recordFailure_tables g client member now
  refine ⟨?_, ?_, fun origin => ?_, fun origin => ?_, agrees.soon⟩
  · rw [heldStreaks]
    exact streaks
  · rw [heldClients]
    exact windows
  · rw [heldBudgets, failures_failed]
    by_cases same : origin = client.origin
    · subst same
      simp only [Past.ofOrigin, decide_true, if_true]
      exact (agrees.budgets client.origin).prune.push (Nat.succ_pos _)
    · simp only [if_neg same, Past.ofOrigin, Ne.symm same, decide_false, Bool.false_eq_true, if_false, List.append_nil]
      exact agrees.budgets origin
  · rw [heldBudgets]
    split
    · rename_i same
      subst same
      exact agrees.admitted client.origin
    · exact agrees.admitted origin

/-- The failure that fills an origin's budget says so. -/
theorem recordFailure_tells (agrees : Agrees g past now) (client : ClientKey) (member : String) :
    (g.recordFailure client member now).1 = .engineerBudgetExhausted ↔
      count engineerWindow now (past.failures (Past.ofOrigin client.origin)) = engineerWindowFailures := by
  have counted : (((g.bumpStreak (client, member) now).bumpClient client now).bumpStats
      client.origin).budget client.origin = g.budget client.origin := by
    cases client.origin <;> rfl
  have length := (agrees.budgets client.origin).length_prune
  unfold Guard.recordFailure
  simp only [counted]
  split <;> simp <;> omega

theorem recordSuccess_spec (agrees : Agrees g past now) (client : ClientKey) (member : String) :
    Agrees (g.recordSuccess client member) (.succeeded client member :: past) now := by
  refine ⟨fun key => ?_, agrees.clients, agrees.budgets, agrees.admitted, agrees.soon⟩
  have kept := agrees.streaks key
  unfold Guard.recordSuccess
  by_cases same : key = (client, member)
  · subst same
    simp only [AList.lookup_erase]
    intro later after
    simp [Past.streak]
  · rw [AList.lookup_erase_ne same]
    have apart : ¬ (client, member) = key := fun he => same he.symm
    have told : ∀ later, Past.streak key (.succeeded client member :: past) later = past.streak key later := by
      intro later
      simp only [Past.streak, apart, if_false]
    cases held : g.streaks.lookup key with
    | none =>
      rw [held] at kept
      exact fun later after => (told later).trans (kept later after)
    | some s =>
      rw [held] at kept
      obtain ⟨soon, last, n, some, count, ends⟩ := kept
      exact ⟨soon, last, n, some, count, fun later after => (told later).trans (ends later after)⟩

theorem wait_le (delay now : ℕ) (start : Option ℕ) : Past.wait delay now start ≤ delay := by
  cases start with
  | none => exact Nat.zero_le _
  | some t => exact Nat.sub_le _ _

theorem wait_ends {delay : ℕ} {start : Option ℕ} (long : ∀ t ∈ start, t + delay ≤ now) : Past.wait delay now start = 0 := by
  cases start with
  | none => rfl
  | some t =>
    have far := long t rfl
    simp only [Past.wait, Option.map_some, Option.getD_some]
    omega

theorem Past.wait_of_verdict {wait : ℕ} (refused : past.verdict client member now = .error wait) :
    0 < wait ∧ wait ≤ maxDelay := by
  have streak : past.streakWait (client, member) now ≤ maxDelay := (wait_le _ _ _).trans (streakDelay_le _)
  have spacing : past.clientWait client now ≤ maxDelay := by
    unfold Past.clientWait
    split
    · exact wait_le _ _ _
    · exact Nat.zero_le _
  have engineer : past.originWait client.origin now ≤ maxDelay := by
    unfold Past.originWait
    split
    · exact (wait_le _ _ _).trans (by simp [engineerSpacing, maxDelay, seconds])
    · exact Nat.zero_le _
  unfold Past.verdict at refused
  split_ifs at refused with owes owes owes <;> cases refused
  · exact ⟨owes, streak⟩
  · exact ⟨owes, spacing⟩
  · exact ⟨owes, engineer⟩

/-- A minute after the last call everyone is let through. -/
theorem Agrees.admits (agrees : Agrees g past now) (later_enough : now + maxDelay ≤ later) (client : ClientKey)
    (member : String) : past.verdict client member later = .ok () := by
  have streak : past.streakWait (client, member) later = 0 := by
    have kept := agrees.streaks (client, member)
    cases held : g.streaks.lookup (client, member) with
    | none =>
      rw [held] at kept
      rw [Past.streakWait, kept later (by omega)]
      exact Nat.le_zero.mp (wait_le 0 _ _)
    | some s =>
      rw [held] at kept
      refine wait_ends fun t last => ?_
      have bound := streakDelay_le (past.streak (client, member) later)
      obtain rfl : s.lastFailure = t := Option.some.inj (kept.2.1.symm.trans last)
      have soon := kept.1
      omega
  have spacing : past.clientWait client later = 0 := by
    unfold Past.clientWait
    split
    · refine wait_ends fun t last => ?_
      have soon := (agrees.clients client).past t (List.mem_of_getLast? last)
      simp only [clientSpacing, maxDelay] at later_enough ⊢
      omega
    · rfl
  have engineer : past.originWait client.origin later = 0 := by
    unfold Past.originWait
    split
    · refine wait_ends fun t last => ?_
      have soon := agrees.soon client.origin t last
      simp only [engineerSpacing, maxDelay, seconds] at later_enough ⊢
      omega
    · rfl
  simp [Past.verdict, streak, spacing, engineer]

/-- A guard in use, what happened to it, and when. -/
inductive Reaches : Guard → Past → ℕ → Prop where
  | new (now : ℕ) : Reaches {} [] now
  | wait {g : Guard} {past : Past} {now later : ℕ} (reached : Reaches g past now) (wait : now ≤ later) : Reaches g past later
  | check {g : Guard} {past : Past} {now : ℕ} (reached : Reaches g past now) (client : ClientKey) (member : String) :
    Reaches (g.check client member now).2 (past.after client now (g.check client member now).1) now
  | failure {g : Guard} {past : Past} {now : ℕ} (reached : Reaches g past now) (client : ClientKey) (member : String)
    (room : Room g client member) :
    Reaches (g.recordFailure client member now).2 (.failed client member now :: past) now
  | success {g : Guard} {past : Past} {now : ℕ} (reached : Reaches g past now) (client : ClientKey) (member : String) :
    Reaches (g.recordSuccess client member) (.succeeded client member :: past) now

theorem agrees_new (now : ℕ) : Agrees {} [] now where
  streaks := fun _ _ _ => rfl
  clients := fun _ => keeps_nil ..
  budgets := fun origin => by cases origin <;> exact keeps_nil ..
  admitted := fun origin => by cases origin <;> rfl
  soon := fun _ _ never => by cases never

theorem Reaches.agrees (reached : Reaches g past now) : Agrees g past now := by
  induction reached with
  | new now => exact agrees_new now
  | wait _ wait ih => exact ih.wait wait
  | check _ client member ih => exact (check_spec ih client member).2
  | failure _ client member room ih => exact recordFailure_spec ih room
  | success _ client member ih => exact recordSuccess_spec ih client member

/-- **The guard decides by the true history.** Whatever was tried on a clock that does not
go back, with every table large enough, an admission is decided as on all that happened, the
budget's end is told when it comes, nobody is told to wait for more than a minute, and after
a quiet minute everyone is let through. -/
theorem login_guard_tells_history (reached : Reaches g past now) (client : ClientKey) (member : String) :
    (g.check client member now).1 = past.verdict client member now ∧
      ((g.recordFailure client member now).1 = .engineerBudgetExhausted ↔
        count engineerWindow now (past.failures (Past.ofOrigin client.origin)) = 30 ∧
        count engineerWindow now (Past.failures (.failed client member now :: past) (Past.ofOrigin client.origin)) = 31) ∧
      (∀ wait, (g.check client member now).1 = .error wait → 0 < wait ∧ wait ≤ seconds 60) ∧
      (∀ later, now + seconds 60 ≤ later → (g.check client member later).1 = .ok ()) := by
  have agrees := reached.agrees
  have decided := fun later (after : now ≤ later) => (check_spec (agrees.wait after) client member).1
  refine ⟨decided now le_rfl, ?_, fun wait refused => ?_, fun later enough => ?_⟩
  · have one_more : count engineerWindow now (Past.failures (.failed client member now :: past)
        (Past.ofOrigin client.origin)) = count engineerWindow now (past.failures (Past.ofOrigin client.origin)) + 1 := by
      rw [failures_failed]
      simp [count, Past.ofOrigin, engineerWindow, seconds]
    rw [recordFailure_tells agrees, one_more, engineerWindowFailures]
    omega
  · exact Past.wait_of_verdict ((decided now le_rfl).symm.trans refused)
  · exact (decided later (by omega)).trans (agrees.admits enough client member)

end

/-! A member's phone, three times wrong. -/

def phone : ClientKey := ⟨.lan, 1⟩

def mistyped : Guard :=
  let g := (({} : Guard).recordFailure phone "ada" 0).2
  let g := (g.recordFailure phone "ada" 1).2
  (g.recordFailure phone "ada" 2).2

theorem mistyped_reached :
    Reaches mistyped [.failed phone "ada" 2, .failed phone "ada" 1, .failed phone "ada" 0] 2 := by
  have first := (Reaches.new 0).failure phone "ada" ⟨.inr (by simp [maxTracked]), .inr (by simp [maxTracked])⟩
  have second := (first.wait (Nat.zero_le 1)).failure phone "ada" ⟨.inl rfl, .inl rfl⟩
  exact (second.wait (Nat.le_succ 1)).failure phone "ada" ⟨.inl rfl, .inl rfl⟩

/-- The next try waits a second, the one after a minute does not. -/
theorem login_guard_tells_history_mistyped :
    (mistyped.check phone "ada" 2).1 = .error (seconds 1) ∧
      (mistyped.check phone "ada" (seconds 61)).1 = .ok () :=
  have told := login_guard_tells_history mistyped_reached phone "ada"
  ⟨told.1.trans rfl, told.2.2.2 (seconds 61) (by simp [seconds])⟩

end IemMixer.Server.LoginGuard
