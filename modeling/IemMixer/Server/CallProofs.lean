import IemMixer.Server.Barrier
import IemMixer.Server.ClientProofs

/-! What becomes of a client's calls. The requests of one connection are handled in the order they
were queued, so whatever was queued before one that is in the mirror is there too; a call of a
connection that ends is lost, and stays lost. -/
namespace IemMixer.Server
open Lib Proto Control MirrorProofs

section
variable [Libm]

/-! ### The order of requests -/

namespace Net
variable {past : List Core} {s s' : Net}

/-- Requests are numbered in the order they are queued, and handled at rising revisions. -/
structure Ordered (s : Net) : Prop where
  rising : s.ids.Pairwise (· < ·)
  revs : s.client.out = true → s.made.Pairwise (fun a b => a.2.rev ≤ b.2.rev) ∧
    ∀ p ∈ s.made, p.2.rev ≤ s.loop.control.core.rev

theorem meet_rises (inv : s.Inv past) {loop : Loop} {env : Outside} {act : Act}
    (met : meet s.loop env act = some loop) : s.loop.control.core.rev ≤ loop.control.core.rev := by
  obtain ⟨past', uttered⟩ := step_uttered env (meet_step met) inv.heard inv.sane inv.numbered
  exact uttered.onward.2.1

omit [Libm] in
theorem Ordered.ask (ordered : s.Ordered) (below : ∀ id ∈ s.ids, id < s.client.nextId) (client : Client)
    (read : ℕ) (asks : List ClientMsg) (out : client.out = s.client.out)
    (fresh : asks = [] ∨ asked asks = [s.client.nextId]) :
    ({ s with client, toEngine := s.toEngine ++ asks, read } : Net).Ordered := by
  refine ⟨?_, fun up => ordered.revs (out.symm.trans up)⟩
  have same : ({ s with client, toEngine := s.toEngine ++ asks, read } : Net).ids = s.ids ++ asked asks := by
    simp only [ids, asked_append, List.append_assoc]
  rw [same]
  rcases fresh with rfl | one
  · simpa [asked] using ordered.rising
  · rw [one]
    refine List.pairwise_append.mpr ⟨ordered.rising, by simp, fun id held other new => ?_⟩
    rw [List.mem_singleton.mp new]
    exact below id held

theorem Ordered.step (ordered : s.Ordered) (inv : s.Inv past) {m : Move} (step : s.Step m s') : s'.Ordered := by
  obtain ⟨-, moved⟩ := step
  cases m with
  | send cmd origin =>
    simp only [move, Client.send] at moved
    split at moved
    · cases moved
      exact ordered.ask inv.distinct.below _ s.read [.request s.client.nextId origin cmd] rfl (.inr rfl)
    · cases moved
  | serve env =>
    simp only [move] at moved
    split at moved
    · cases moved
    · rename_i msg rest head
      obtain ⟨loop, met, rfl⟩ := Option.map_eq_some_iff.mp moved
      have rises := meet_rises inv met
      refine ⟨?_, fun up => ?_⟩
      · have same : ({ s with loop, toEngine := rest, made := s.made ++ (asked [msg]).map (·, loop.control.core) } :
            Net).ids = s.ids := by
          rw [ids, ids, head, List.map_append, List.append_assoc,
            show asked (msg :: rest) = asked [msg] ++ asked rest from asked_append [msg] rest]
          simp [Function.comp_def]
        rw [same]
        exact ordered.rising
      · obtain ⟨revs, under⟩ := ordered.revs up
        constructor
        · refine List.pairwise_append.mpr ⟨revs, ?_, fun p held q new => ?_⟩
          · cases msg <;> simp [asked]
          · obtain ⟨id, -, rfl⟩ := List.mem_map.mp new
            exact Nat.le_trans (under p held) rises
        · intro p member
          rcases List.mem_append.mp member with held | new
          · exact Nat.le_trans (under p held) rises
          · obtain ⟨id, -, rfl⟩ := List.mem_map.mp new
            exact Nat.le_refl _
  | engine env act =>
    simp only [move] at moved
    split at moved
    · obtain ⟨loop, met, rfl⟩ := Option.map_eq_some_iff.mp moved
      have rises := meet_rises inv met
      exact ⟨ordered.rising, fun up => ⟨(ordered.revs up).1, fun p held => Nat.le_trans ((ordered.revs up).2 p held) rises⟩⟩
    · cases moved
  | read =>
    simp only [move] at moved
    split at moved
    · rename_i msg rest out next
      cases moved
      obtain ⟨same, -, -, asks⟩ := handle_asks s.client msg
      exact ordered.ask inv.distinct.below _ _ _ same (asks.imp_right (·.1))
    · cases moved
  | skip =>
    simp only [move] at moved
    split at moved
    · cases moved
      exact ⟨ordered.rising, ordered.revs⟩
    · cases moved
  | finish id =>
    cases moved
    exact ⟨ordered.rising, ordered.revs⟩
  | drop =>
    cases moved
    refine ⟨?_, fun up => by cases up⟩
    have all := ordered.rising
    simp only [ids, asked, List.filterMap_nil, List.append_nil]
    exact (List.pairwise_append.mp all).1
  | boot loop =>
    simp only [move] at moved
    split at moved
    · cases moved
    · rename_i off
      cases moved
      refine ⟨ordered.rising, fun up => ?_⟩
      exact absurd up off
  | connect env =>
    simp only [move] at moved
    split at moved
    · cases moved
    · obtain ⟨loop, met, rfl⟩ := Option.map_eq_some_iff.mp moved
      exact ⟨by simp [ids, asked], fun _ => ⟨.nil, by simp⟩⟩

theorem reaches_ordered {loop : Loop} (boots : Boots loop) (run : Reaches Calm { loop } s) : s.Ordered := by
  induction run with
  | refl => exact ⟨by simp [ids, asked], fun up => by cases up⟩
  | tail earlier last ih =>
    obtain ⟨past, inv⟩ := reaches_inv boots earlier
    obtain ⟨m, -, step⟩ := last
    exact ih.step inv step

omit [Libm] in
/-- Of two in a list one comes first. -/
theorem pairwise_mem {α : Type} {R : α → α → Prop} {xs : List α} (all : xs.Pairwise R) {a b : α} (first : a ∈ xs)
    (second : b ∈ xs) : a = b ∨ R a b ∨ R b a := by
  induction all with
  | nil => cases first
  | @cons x rest here _ ih =>
    rcases List.mem_cons.mp first with rfl | later <;> rcases List.mem_cons.mp second with rfl | later'
    · exact .inl rfl
    · exact .inr (.inl (here b later'))
    · exact .inr (.inr (here a later))
    · exact ih later later'

/-- What was queued before a request that is in the mirror is there too. -/
theorem Inv.before (inv : s.Inv past) (ordered : s.Ordered) {id ping : ℕ} (there : s.InMirror ping)
    (queued : id ∈ s.ids) (earlier : id < ping) : s.InMirror id := by
  obtain ⟨out, synced, core, now, held, -, reached, -⟩ := there
  have handled : id ∈ s.made.map (·.1) := by
    rcases List.mem_append.mp queued with made | waiting
    · exact made
    · have after := (List.pairwise_append.mp ordered.rising).2.2 ping (List.mem_map.mpr ⟨_, held, rfl⟩) id waiting
      omega
  obtain ⟨⟨i, c⟩, member, rfl⟩ := List.mem_map.mp handled
  have rising := (List.pairwise_append.mp ordered.rising).1
  have both := List.Pairwise.and (List.pairwise_map.mp rising) (ordered.revs out).1
  refine inv.in_mirror out synced member (Nat.le_trans ?_ reached)
  rcases pairwise_mem both member held with same | first | later
  · cases same
    exact Nat.le_refl _
  · exact first.2
  · exact absurd later.1 (by simp only; omega)

/-! ### What becomes of a call -/

/-- The call ends in an error. -/
def Lost (s : Net) (id : ℕ) : Prop :=
  s.client.calls[id]? = some .dropped ∨ ∃ body, s.client.calls[id]? = some (.replied (.error body))

omit [Libm] in
theorem lost_iff (id : ℕ) : s.Lost id ↔ ∃ e, s.client.applied id = some (.error e) := by
  unfold Lost Client.applied
  constructor
  · rintro (gone | ⟨body, refused⟩)
    · exact ⟨_, by rw [gone]⟩
    · exact ⟨_, by rw [refused]⟩
  · rintro ⟨e, failed⟩
    split at failed
    · split at failed <;> cases failed
    · rename_i body refused
      exact .inr ⟨body, refused⟩
    · rename_i gone
      exact .inl gone
    · cases failed
    · cases failed

/-- The client moved on, the callers of `gone` apart: a lost call stays lost, and a connection that
ends loses every call there is. -/
structure Later (gone : List ℕ) (s s' : Net) : Prop where
  next : s.client.nextId ≤ s'.client.nextId
  held : ∀ id < s.client.nextId, id ∉ gone → s.client.calls[id]?.isSome → s'.client.calls[id]?.isSome
  lost : ∀ id < s.client.nextId, id ∉ gone → s.Lost id → s'.Lost id
  conn : ∀ id ∈ s.ids, s.client.out = true → (s'.client.out = true ∧ id ∈ s'.ids) ∨
    ∀ x < s.client.nextId, x ∉ gone → s.client.calls[x]?.isSome → s'.Lost x

omit [Libm] in
/-- The calls of old requests are as they were. -/
theorem Later.of_calls {gone : List ℕ} (next : s.client.nextId ≤ s'.client.nextId)
    (calls : ∀ id < s.client.nextId, id ∉ gone → s'.client.calls[id]? = s.client.calls[id]?)
    (out : s'.client.out = s.client.out) (ids : ∀ id ∈ s.ids, s.client.out = true → id ∈ s'.ids) : Later gone s s' := by
  refine ⟨next, fun id old kept some => ?_, fun id old kept lost => ?_, fun id queued up =>
    .inl ⟨out.trans up, ids id queued up⟩⟩
  · rw [calls id old kept]
    exact some
  · unfold Lost
    rw [calls id old kept]
    exact lost

omit [Libm] in
theorem later_refl (s : Net) : Later [] s s :=
  .of_calls (Nat.le_refl _) (fun _ _ _ => rfl) rfl fun _ queued _ => queued

omit [Libm] in
theorem Later.trans {gone : List ℕ} {s'' : Net} (first : Later gone s s') (second : Later gone s' s'') :
    Later gone s s'' := by
  have still : ∀ id < s.client.nextId, id < s'.client.nextId := fun id old => Nat.lt_of_lt_of_le old first.next
  refine ⟨Nat.le_trans first.next second.next,
    fun id old kept some => second.held id (still id old) kept (first.held id old kept some),
    fun id old kept lost => second.lost id (still id old) kept (first.lost id old kept lost),
    fun id queued up => ?_⟩
  rcases first.conn id queued up with ⟨up', queued'⟩ | all
  · rcases second.conn id queued' up' with open' | all
    · exact .inl open'
    · exact .inr fun x old kept some => all x (still x old) kept (first.held x old kept some)
  · exact .inr fun x old kept some => second.lost x (still x old) kept (all x old kept some)

omit [Libm] in
theorem mem_ids_append {asks : List ClientMsg} {client : Client} {read : ℕ} {id : ℕ} (queued : id ∈ s.ids) :
    id ∈ ({ s with client, toEngine := s.toEngine ++ asks, read } : Net).ids := by
  simp only [ids, asked_append, List.mem_append] at queued ⊢
  exact queued.imp_right .inl

omit [Libm] in
/-- A message read answers a pending call at most. -/
theorem handle_calls (c : Client) (msg : EngineMsg) (x : ℕ) : (c.handle msg).1.calls[x]? = c.calls[x]? ∨
    c.calls[x]? = some .pending ∧ ∃ reply, (c.handle msg).1.calls[x]? = some (.replied reply) := by
  have followed : ∀ msg, (c.follow msg).1.calls = c.calls := by
    intro msg
    simp only [Client.follow]
    split <;> rfl
  unfold Client.handle
  split
  · rename_i r
    split
    · rename_i waiting
      by_cases same : r.id = x
      · subst same
        exact .inr ⟨waiting, _, Std.ExtTreeMap.getElem?_insert_self⟩
      · left
        simp only [BTreeMap.getElem?_insert_eq]
        exact if_neg same
    · exact .inl rfl
  all_goals first
    | exact .inl rfl
    | exact .inl (by rw [followed])

/-- What the engine's end, the pipe and the reader make of the calls. -/
theorem later_step {m : Server.Move} (calm : s.Calm m) (own : ∀ id, m ≠ .finish id)
    (moved : s.move m = some s') (gone : List ℕ) : Later gone s s' := by
  cases m with
  | send cmd origin =>
    simp only [move, Client.send] at moved
    split at moved
    · cases moved
      refine .of_calls (Nat.le_succ _) (fun id old _ => ?_) rfl fun id queued _ => mem_ids_append queued
      simp only [BTreeMap.getElem?_insert_eq]
      exact if_neg (by omega)
    · cases moved
  | serve env =>
    simp only [move] at moved
    split at moved
    · cases moved
    · rename_i msg rest head
      obtain ⟨loop, met, rfl⟩ := Option.map_eq_some_iff.mp moved
      refine .of_calls (Nat.le_refl _) (fun _ _ _ => rfl) rfl fun id queued _ => ?_
      rw [ids, head, show asked (msg :: rest) = asked [msg] ++ asked rest from asked_append [msg] rest] at queued
      simp only [ids, List.map_append, List.mem_append, List.map_map] at queued ⊢
      rcases queued with made | now | later
      · exact .inl (.inl made)
      · exact .inl (.inr (by simpa using now))
      · exact .inr later
  | engine env act =>
    simp only [move] at moved
    split at moved
    · obtain ⟨loop, met, rfl⟩ := Option.map_eq_some_iff.mp moved
      exact .of_calls (Nat.le_refl _) (fun _ _ _ => rfl) rfl fun id queued _ => queued
    · cases moved
  | read =>
    simp only [move] at moved
    split at moved
    · rename_i msg rest out next
      cases moved
      have calls := handle_calls s.client msg
      obtain ⟨same, -, later, -⟩ := handle_asks s.client msg
      refine ⟨later, fun id _ _ some => ?_, fun id _ _ lost => ?_, fun id queued up =>
        .inl ⟨same.trans up, mem_ids_append queued⟩⟩
      · rcases calls id with kept | ⟨-, reply, now⟩
        · rw [← kept] at some
          exact some
        · exact Option.isSome_iff_exists.mpr ⟨_, now⟩
      · rcases calls id with kept | ⟨waiting, -⟩
        · unfold Lost at lost ⊢
          rw [← kept] at lost
          exact lost
        · rcases lost with gone | ⟨body, refused⟩
          · cases waiting.symm.trans gone
          · cases waiting.symm.trans refused
    · cases moved
  | skip =>
    simp only [move] at moved
    split at moved
    · cases moved
      exact .of_calls (Nat.le_refl _) (fun _ _ _ => rfl) rfl fun id queued _ => queued
    · cases moved
  | finish id => exact absurd rfl (own id)
  | drop =>
    cases moved
    have all : ∀ x : ℕ, s.client.calls[x]?.isSome → s.client.teardown.calls[x]? = some Call.dropped ∨
        ∃ body, s.client.teardown.calls[x]? = some (Call.replied (.error body)) := by
      intro x some
      obtain ⟨call, held⟩ := Option.isSome_iff_exists.mp some
      simp only [Client.teardown, Std.ExtTreeMap.getElem?_map, held, Option.map_some]
      cases call with
      | pending => exact .inl rfl
      | replied reply =>
        cases reply with
        | ok rev => exact absurd held (calm x rev)
        | error body => exact .inr ⟨body, rfl⟩
      | dropped => exact .inl rfl
    refine ⟨Nat.le_refl _, fun id _ _ some => ?_, fun id _ _ lost => ?_, fun id _ _ => .inr fun x _ _ some => all x some⟩
    · rcases all id some with gone | ⟨body, refused⟩
      · exact Option.isSome_iff_exists.mpr ⟨_, gone⟩
      · exact Option.isSome_iff_exists.mpr ⟨_, refused⟩
    · refine all id ?_
      rcases lost with gone | ⟨body, refused⟩
      · exact Option.isSome_iff_exists.mpr ⟨_, gone⟩
      · exact Option.isSome_iff_exists.mpr ⟨_, refused⟩
  | boot loop =>
    simp only [move] at moved
    split at moved
    · cases moved
    · cases moved
      exact .of_calls (Nat.le_refl _) (fun _ _ _ => rfl) rfl fun id queued _ => queued
  | connect env =>
    simp only [move] at moved
    split at moved
    · cases moved
    · rename_i off
      obtain ⟨loop, met, rfl⟩ := Option.map_eq_some_iff.mp moved
      exact ⟨Nat.le_refl _, fun _ _ _ some => some, fun _ _ _ lost => lost, fun _ _ up => absurd up off⟩

omit [Libm] in
theorem later_forget (ids : List ℕ) (s : Net) : Later ids s (Barrier.forget ids s) := by
  have calls : ∀ (ids : List ℕ) (calls : BTreeMap ℕ Call) (id : ℕ), id ∉ ids →
      (ids.foldl (·.erase ·) calls)[id]? = calls[id]? := by
    intro ids
    induction ids with
    | nil => exact fun _ _ _ => rfl
    | cons first rest ih =>
      intro calls id kept
      simp only [List.mem_cons, not_or] at kept
      obtain ⟨apart, kept⟩ := kept
      rw [List.foldl_cons, ih _ _ kept, BTreeMap.getElem?_erase_eq, if_neg (Ne.symm apart)]
  exact .of_calls (Nat.le_refl _) (fun id _ kept => calls ids _ id kept) rfl fun id queued _ => queued

/-- Requests leave their callers one by one. -/
theorem reaches_forget (ids : List ℕ) (s : Net) : Reaches Calm s (Barrier.forget ids s) := by
  induction ids generalizing s with
  | nil => exact .refl
  | cons id rest ih =>
    exact .head ⟨.finish id, trivial, trivial, rfl⟩ (ih { s with client := { s.client with calls := s.client.calls.erase id } })

/-- What one `apply` queued: new requests of this connection, each with its call. -/
structure Queued (s : Net) (ids : List ℕ) (s' : Net) : Prop where
  moved : Reaches Calm s s'
  later : ∀ gone, Later gone s s'
  out : s'.client.out = s.client.out
  more : ∀ id ∈ s.ids, id ∈ s'.ids
  rising : ids.Pairwise (· < ·)
  fresh : ∀ id ∈ ids, s.client.nextId ≤ id
  below : ∀ id ∈ ids, id < s'.client.nextId
  there : ∀ id ∈ ids, s'.client.out = true ∧ id ∈ s'.ids ∧ s'.client.calls[id]?.isSome

theorem send_some {next : Net} {cmd : Cmd} {origin : Option ℕ} (moved : s.move (.send cmd origin) = some next) :
    s.client.out = true ∧ next = { s with
      client := { s.client with
        nextId := s.client.nextId + 1
        calls := s.client.calls.insert s.client.nextId .pending }
      toEngine := s.toEngine ++ [.request s.client.nextId origin cmd] } := by
  simp only [move, Client.send] at moved
  split at moved
  · rename_i up
    cases moved
    exact ⟨up, rfl⟩
  · cases moved

theorem later_send {next : Net} {cmd : Cmd} {origin : Option ℕ} (moved : s.move (.send cmd origin) = some next)
    (gone : List ℕ) : Later gone s next :=
  later_step (m := .send cmd origin) trivial (fun _ other => Move.noConfusion other) moved gone

theorem queued_none (s : Net) : Queued s [] s :=
  ⟨.refl, fun _ => .of_calls (Nat.le_refl _) (fun _ _ _ => rfl) rfl fun _ queued _ => queued, rfl,
    fun _ queued => queued, .nil, by simp, by simp, by simp⟩

theorem queued (origin : Option ℕ) (cmds : List Cmd) (s : Net) :
    Queued s (Barrier.queue origin cmds s).1 (Barrier.queue origin cmds s).2.2 := by
  induction cmds generalizing s with
  | nil => exact queued_none s
  | cons cmd rest ih =>
    unfold Barrier.queue
    cases moved : s.move (.send cmd origin) with
    | none => exact queued_none s
    | some next =>
      have later := later_send moved
      obtain ⟨up, rfl⟩ := send_some moved
      simp only
      generalize sent : ({ s with
        client := { s.client with
          nextId := s.client.nextId + 1
          calls := s.client.calls.insert s.client.nextId .pending }
        toEngine := s.toEngine ++ [.request s.client.nextId origin cmd] } : Net) = next at moved later ⊢
      obtain ⟨ran, follows, out, more, rising, fresh, below, there⟩ := ih next
      have id : next.client.nextId = s.client.nextId + 1 := by rw [← sent]
      have up' : next.client.out = true := by rw [← sent]; exact up
      have first : s.client.nextId ∈ next.ids := by
        rw [← sent]
        simp [ids, asked]
      have call : next.client.calls[s.client.nextId]?.isSome := by
        rw [← sent]
        simp
      refine ⟨.head ⟨.send cmd origin, trivial, trivial, moved⟩ ran, fun gone => (later gone).trans (follows gone),
        ?_, ?_, ?_, ?_, ?_, ?_⟩
      · rw [out, up', up]
      · intro x queued
        refine more x ?_
        rw [← sent]
        exact mem_ids_append queued
      · refine List.pairwise_cons.mpr ⟨fun x later => ?_, rising⟩
        have := fresh x later
        omega
      · intro x member
        rcases List.mem_cons.mp member with rfl | later
        · exact Nat.le_refl _
        · have := fresh x later
          omega
      · intro x member
        rcases List.mem_cons.mp member with rfl | later
        · exact Nat.lt_of_lt_of_le (by omega) (follows []).next
        · exact below x later
      · intro x member
        rcases List.mem_cons.mp member with rfl | later
        · exact ⟨out.trans up', more _ first, (follows []).held _ (by omega) (by simp) call⟩
        · exact there x later

end Net
end
end IemMixer.Server
