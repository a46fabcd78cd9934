import IemMixer.Server.CallProofs

/-! What becomes of the pages' calls of `apply`, beside a freeze: each request of one is of the
connection there is, or the call fails, or it was confirmed. -/
namespace IemMixer.Server
open Lib Proto Control MirrorProofs

section
variable [Libm]

namespace Barrier

/-- Its page was told that it failed, or the answer it waits for is that. -/
def Failed (s : Net) (run : Applying) : Prop :=
  (∃ e, run.result = some (.error e)) ∨ ∃ id, run.left.head? = some id ∧ ∃ e, s.client.applied id = some (.error e)

/-- Each of its requests is one of this connection, or failed, or was confirmed. -/
structure Tracks (s : Net) (run : Applying) : Prop where
  known : ∀ id ∈ run.ids, id < s.client.nextId
  left : ∀ id ∈ run.left, id ∈ run.ids
  once : run.left.Nodup
  settled : (∃ e, run.result = some (.error e)) → run.left = []
  held : ∀ id ∈ run.left, s.client.calls[id]?.isSome
  fate : ∀ id ∈ run.ids, (s.client.out = true ∧ id ∈ s.ids) ∨ Failed s run ∨ id ∉ run.left

section
variable {s s' : Net} {run : Applying}

omit [Libm] in
theorem Tracks.later (tracks : Tracks s run) {gone : List ℕ} (later : Net.Later gone s s')
    (apart : ∀ id ∈ run.left, id ∉ gone) : Tracks s' run := by
  have old : ∀ id ∈ run.left, id < s.client.nextId := fun id member => tracks.known id (tracks.left id member)
  refine ⟨fun id member => Nat.lt_of_lt_of_le (tracks.known id member) later.next, tracks.left, tracks.once,
    tracks.settled, fun id member => later.held id (old id member) (apart id member) (tracks.held id member),
    fun id member => ?_⟩
  rcases tracks.fate id member with ⟨up, queued⟩ | (told | ⟨first, head, lost⟩) | confirmed
  · rcases later.conn id queued up with here | all
    · exact .inl here
    · cases waiting : run.left with
      | nil => exact .inr (.inr (by simp))
      | cons first rest =>
        have inside : first ∈ run.left := by simp [waiting]
        have lost := all first (old first inside) (apart first inside) (tracks.held first inside)
        exact .inr (.inl (.inr ⟨first, by simp [waiting], (Net.lost_iff first).mp lost⟩))
  · exact .inr (.inl (.inl told))
  · have inside : first ∈ run.left := List.mem_of_mem_head? head
    have lost := later.lost first (old first inside) (apart first inside) ((Net.lost_iff first).mpr lost)
    exact .inr (.inl (.inr ⟨first, head, (Net.lost_iff first).mp lost⟩))
  · exact .inr (.inr confirmed)

omit [Libm] in
/-- It ended: nothing is awaited any more. -/
theorem Tracks.ended (tracks : Tracks s run) (s' : Net) (same : s'.client.nextId = s.client.nextId)
    (result : Option (Except ChangeError Unit)) : Tracks s' { run with left := [], result } :=
  ⟨fun id member => same ▸ tracks.known id member, by simp, .nil, fun _ => rfl, by simp,
    fun _ _ => .inr (.inr (by simp))⟩

end

/-- A held section of `apply`. -/
structure Gated (h : Barrier) (run : Applying) (s : Net) : Prop where
  moved : Net.Reaches Net.Calm h.net s
  later : Net.Later run.ids h.net s
  fresh : ∀ id ∈ run.ids, h.net.client.nextId ≤ id
  tracks : Tracks s run

theorem gated (h : Barrier) (page : Page) (cmds : List Cmd) (origin : Option ℕ) :
    Gated h (h.applyGate page cmds origin).1 (h.applyGate page cmds origin).2 := by
  unfold applyGate
  split
  · exact ⟨.refl, .of_calls (Nat.le_refl _) (fun _ _ _ => rfl) rfl fun _ queued _ => queued, by simp,
      ⟨by simp, by simp, .nil, fun _ => rfl, by simp, by simp⟩⟩
  · have queued := Net.queued origin cmds h.net
    rcases sent : queue origin cmds h.net with ⟨ids, all, net⟩
    rw [sent] at queued
    obtain ⟨moved, later, -, -, rising, fresh, below, there⟩ := queued
    cases all with
    | true =>
      refine ⟨moved, later ids, fresh, below, fun _ member => member, ?_, fun told => ?_, fun id member => ?_,
        fun id member => ?_⟩
      · exact rising.imp fun less => Nat.ne_of_lt less
      · obtain ⟨e, told⟩ := told
        simp only at told
        split at told <;> cases told
      · exact (there id member).2.2
      · exact .inl ⟨(there id member).1, (there id member).2.1⟩
    | false =>
      refine ⟨moved.trans (Net.reaches_forget ids net), (later ids).trans (Net.later_forget ids net), fresh, below,
        by simp, .nil, fun _ => rfl, by simp, fun _ _ => .inr (.inl (.inl ⟨_, rfl⟩))⟩

/-- While the pages are frozen nothing is queued. -/
theorem gate_shut {h : Barrier} (frozen : h.app.frozen = true) (page : Page) (cmds : List Cmd) (origin : Option ℕ) :
    (h.applyGate page cmds origin).1.ids = [] ∧ (h.applyGate page cmds origin).2 = h.net := by
  simp [applyGate, App.mayChange, frozen]

/-- The engine's end, the pipe and the reader move as they do, connections ending calmly. -/
def Calm (h : Barrier) : Move → Prop
  | .net m => Net.Real m ∧ h.net.Calm m
  | _ => True

def Reaches : Barrier → Barrier → Prop := Relation.ReflTransGen fun h h' => ∃ m, h.Calm m ∧ h.move m = some h'

/-- A freeze that found `was` is on its way. -/
def Busy (was : Bool) (h : Barrier) : Prop := h.freezing = .gate was ∨ ∃ id, h.freezing = .ping was id

/-- What each move does. -/
inductive Does (h : Barrier) : Move → Barrier → Prop where
  | applies {n : ℕ} {page : Page} {cmds : List Cmd} {origin : Option ℕ} (new : h.applying[n]? = none) :
      Does h (.apply n page cmds origin) { h with
        net := (h.applyGate page cmds origin).2
        applying := h.applying.insert n (h.applyGate page cmds origin).1 }
  | confirms {n id : ℕ} {rest : List ℕ} {run : Applying} (held : h.applying[n]? = some run) (head : run.left = id :: rest)
      (ok : h.net.client.applied id = some (.ok ())) : Does h (.wake n) { h with
        net := forget [id] h.net
        applying := h.applying.insert n
          { run with left := rest, result := if rest.isEmpty then some (.ok ()) else none } }
  | fails {m : Move} {n : ℕ} {run : Applying} {e : ChangeError} (held : h.applying[n]? = some run) : Does h m { h with
      net := forget run.left h.net
      applying := h.applying.insert n { run with left := [], result := some (.error e) } }
  | freezes (rest : h.freezing = .rest) :
      Does h .freeze { h with app := h.app.freezeGate.2, freezing := .gate h.app.frozen }
  | pings {was : Bool} {net : Net} (gate : h.freezing = .gate was) (sent : h.net.move (.send .ping none) = some net) :
      Does h .ping { h with net, freezing := .ping was h.net.client.nextId }
  | unsent {was : Bool} (gate : h.freezing = .gate was) : Does h .ping (h.fail was)
  | returns {was : Bool} {id : ℕ} (pinged : h.freezing = .ping was id) (ok : h.net.client.applied id = some (.ok ())) :
      Does h .answer { h with net := forget [id] h.net, freezing := .frozen was }
  | unanswered {m : Move} {was : Bool} {id : ℕ} (pinged : h.freezing = .ping was id) :
      Does h m (({ h with net := forget [id] h.net } : Barrier).fail was)
  | thaws {m : Move} (changed : Bool) (thaw : m = .thaw ∨ m = .thawUnchanged)
      (idle : h.freezing = .rest ∨ ∃ was, h.freezing = .frozen was) :
      Does h m { h with app := (h.app.thawAfter changed).2, freezing := .rest }
  | stays {was : Bool} (held : h.freezing = .frozen was) : Does h .stay { h with freezing := .rest }
  | other {cmd : Cmd} {origin : Option ℕ} {net : Net} (sent : h.net.move (.send cmd origin) = some net) :
      Does h (.other cmd origin) { h with net }
  | otherDone {id : ℕ} (free : h.awaited id = false) : Does h (.otherDone id) { h with net := forget [id] h.net }
  | net {m : Server.Move} {net : Net} (own : ∀ id, m ≠ .finish id) (ran : h.net.move m = some net) :
      Does h (.net m) { h with net }
  | sets {m : Move} {app : App} (frozen : app.frozen = h.app.frozen) : Does h m { h with app }

theorem does {h h' : Barrier} {m : Move} (moved : h.move m = some h') : h.Does m h' := by
  cases m with
  | apply n page cmds origin =>
    simp only [move] at moved
    split at moved
    · cases moved
    · rename_i new
      cases moved
      exact .applies (Std.ExtTreeMap.getElem?_eq_none (by rwa [← Std.ExtTreeMap.contains_iff_mem]))
  | wake n =>
    obtain ⟨run, held, woken⟩ := Option.bind_eq_some_iff.mp moved
    unfold wake at woken
    split at woken
    · cases woken
    · rename_i id rest head
      split at woken
      · cases woken
      · rename_i ok
        cases woken
        exact .confirms held head ok
      · cases woken
        exact .fails held
  | timeout n =>
    obtain ⟨run, held, ended⟩ := Option.bind_eq_some_iff.mp moved
    split at ended
    · cases ended
    · cases ended
      exact .fails held
  | freeze =>
    simp only [move] at moved
    split at moved
    · rename_i rest
      cases moved
      exact .freezes rest
    · cases moved
  | ping =>
    simp only [move] at moved
    split at moved
    · rename_i was gate
      split at moved
      · rename_i sent
        cases moved
        exact .pings gate sent
      · cases moved
        exact .unsent gate
    · cases moved
  | answer =>
    simp only [move] at moved
    split at moved
    · rename_i was id pinged
      split at moved
      · cases moved
      · rename_i ok
        cases moved
        exact .returns pinged ok
      · cases moved
        exact .unanswered pinged
    · cases moved
  | pingTimeout =>
    simp only [move] at moved
    split at moved
    · rename_i was id pinged
      cases moved
      exact .unanswered pinged
    · cases moved
  | thaw =>
    simp only [move] at moved
    split at moved
    · rename_i rest
      cases moved
      exact .thaws true (.inl rfl) (.inl rest)
    · rename_i was held
      cases moved
      exact .thaws true (.inl rfl) (.inr ⟨was, held⟩)
    · cases moved
  | thawUnchanged =>
    simp only [move] at moved
    split at moved
    · rename_i was held
      cases moved
      exact .thaws false (.inr rfl) (.inr ⟨was, held⟩)
    · cases moved
  | stay =>
    simp only [move] at moved
    split at moved
    · rename_i was held
      cases moved
      exact .stays held
    · cases moved
  | other cmd origin =>
    obtain ⟨net, sent, rfl⟩ := Option.map_eq_some_iff.mp moved
    exact .other sent
  | otherDone id =>
    simp only [move] at moved
    split at moved
    · cases moved
    · rename_i free
      cases moved
      exact .otherDone (by simpa using free)
  | net m =>
    simp only [move] at moved
    split at moved
    · cases moved
    · cases moved
    · rename_i own
      obtain ⟨net, ran, rfl⟩ := Option.map_eq_some_iff.mp moved
      exact .net (fun id same => own id same) ran
  | setRoster roster =>
    cases moved
    exact .sets rfl
  | setSettling settling =>
    cases moved
    exact .sets rfl

structure Inv (h : Barrier) : Prop where
  tracks : ∀ (n : ℕ) run, h.applying[n]? = some run → Tracks h.net run
  apart : ∀ (n n' : ℕ) run run' id, h.applying[n]? = some run → h.applying[n']? = some run' → id ∈ run.left →
    id ∈ run'.left → n = n'
  frozen : ∀ was, h.Busy was → h.app.frozen = true
  ping : ∀ was id, h.freezing = .ping was id → id < h.net.client.nextId ∧
    ∀ (n : ℕ) run, h.applying[n]? = some run → ∀ x ∈ run.ids, x < id

section
variable {h h' : Barrier}

omit [Libm] in
/-- The net moved without the pages' requests. -/
theorem Inv.aside (inv : h.Inv) {gone : List ℕ} (later : Net.Later gone h.net h'.net)
    (free : ∀ (n : ℕ) run, h.applying[n]? = some run → ∀ id ∈ run.left, id ∉ gone)
    (applying : h'.applying = h.applying) (frozen : ∀ was, h'.Busy was → h'.app.frozen = true)
    (ping : ∀ was id, h'.freezing = .ping was id → (h.freezing = .ping was id ∨ id = h.net.client.nextId) ∧
      id < h'.net.client.nextId) : h'.Inv := by
  refine ⟨fun n run there => ?_, fun n n' run run' id there there' => ?_, frozen, fun was id pinged => ?_⟩
  · rw [applying] at there
    exact (inv.tracks n run there).later later (free n run there)
  · rw [applying] at there there'
    exact inv.apart n n' run run' id there there'
  · obtain ⟨before, below⟩ := ping was id pinged
    refine ⟨below, fun n run there x member => ?_⟩
    rw [applying] at there
    rcases before with same | rfl
    · exact (inv.ping was id same).2 n run there x member
    · exact (inv.tracks n run there).known x member

omit [Libm] in
/-- One `apply` moved on, its requests `gone` returned. -/
theorem Inv.goes (inv : h.Inv) {n : ℕ} {run run' : Applying} (there : h.applying[n]? = some run) {gone : List ℕ}
    (own : ∀ id ∈ gone, id ∈ run.left) (ids : run'.ids = run.ids) (left : ∀ id ∈ run'.left, id ∈ run.left)
    (tracks : Tracks (forget gone h.net) run') :
    ({ h with net := forget gone h.net, applying := h.applying.insert n run' } : Barrier).Inv := by
  refine ⟨fun k other found => ?_, fun k k' other other' id found found' member member' => ?_, inv.frozen,
    fun was id pinged => ⟨(inv.ping was id pinged).1, fun k other found x member => ?_⟩⟩
  · simp only [BTreeMap.getElem?_insert_eq] at found
    split at found
    · cases found
      exact tracks
    · rename_i apart
      refine (inv.tracks k other found).later (Net.later_forget gone h.net) fun id member inside => apart ?_
      exact inv.apart n k run other id there found (own id inside) member
  · simp only [BTreeMap.getElem?_insert_eq] at found found'
    have before : ∀ {k : ℕ} {other : Applying}, (if n = k then some run' else h.applying[k]?) = some other →
        id ∈ other.left → ∃ old, h.applying[k]? = some old ∧ id ∈ old.left := by
      intro k other found member
      split at found
      · rename_i same
        cases found
        exact ⟨run, same ▸ there, left id member⟩
      · exact ⟨other, found, member⟩
    obtain ⟨old, was, inside⟩ := before found member
    obtain ⟨old', was', inside'⟩ := before found' member'
    exact inv.apart k k' old old' id was was' inside inside'
  · simp only [BTreeMap.getElem?_insert_eq] at found
    split at found
    · cases found
      exact (inv.ping was id pinged).2 n run there x (ids ▸ member)
    · exact (inv.ping was id pinged).2 k other found x member

omit [Libm] in
/-- A failed freeze leaves the pages as it found them. -/
theorem fail_frozen (frozen : h.app.frozen = true) (was : Bool) : (h.fail was).app.frozen = was := by
  cases was with
  | true => exact frozen
  | false => rfl

omit [Libm] in
theorem Inv.fails (inv : h.Inv) (was : Bool) : (h.fail was).Inv := by
  refine inv.aside (Net.later_refl h.net) (by simp) rfl (fun was' busy => ?_) fun was' id pinged => ?_
  · rcases busy with same | ⟨id, same⟩ <;> cases same
  · cases pinged

omit [Libm] in
/-- A freeze's own request returns. -/
theorem Inv.pinged (inv : h.Inv) {was : Bool} {id : ℕ} (pinged : h.freezing = .ping was id) (next : Freezing)
    (rest : ∀ was, next ≠ .gate was ∧ ∀ id, next ≠ .ping was id) :
    ({ h with net := forget [id] h.net, freezing := next } : Barrier).Inv := by
  refine inv.aside (Net.later_forget [id] h.net) (fun n run there x member inside => ?_) rfl (fun was' busy => ?_)
    fun was' id' again => ?_
  · have := (inv.ping was id pinged).2 n run there x ((inv.tracks n run there).left x member)
    rw [List.mem_singleton.mp inside] at this
    omega
  · rcases busy with same | ⟨other, same⟩
    · exact absurd same (rest was').1
    · exact absurd same ((rest was').2 other)
  · exact absurd again ((rest was').2 id')

theorem Inv.apply (inv : h.Inv) {n : ℕ} {run : Applying} {s : Net}
    (gated : Gated h run s) (quiet : h.app.frozen = true → run.ids = []) :
    ({ h with net := s, applying := h.applying.insert n run } : Barrier).Inv := by
  obtain ⟨moved, later, fresh, tracks⟩ := gated
  have old : ∀ {k : ℕ} {other : Applying}, h.applying[k]? = some other → ∀ id ∈ other.left, id ∉ run.ids := by
    intro k other found id member inside
    have below := (inv.tracks k other found).known id ((inv.tracks k other found).left id member)
    have above := fresh id inside
    omega
  refine ⟨fun k other found => ?_, fun k k' other other' id found found' member member' => ?_, inv.frozen,
    fun was id pinged => ⟨Nat.lt_of_lt_of_le (inv.ping was id pinged).1 later.next, fun k other found x member => ?_⟩⟩
  · simp only [BTreeMap.getElem?_insert_eq] at found
    split at found
    · cases found
      exact tracks
    · exact (inv.tracks k other found).later later (old found)
  · simp only [BTreeMap.getElem?_insert_eq] at found found'
    split at found <;> split at found'
    · omega
    · cases found
      exact absurd (tracks.left id member) (old found' id member')
    · cases found'
      exact absurd (tracks.left id member') (old found id member)
    · exact inv.apart k k' other other' id found found' member member'
  · simp only [BTreeMap.getElem?_insert_eq] at found
    split at found
    · cases found
      rw [quiet (inv.frozen was (.inr ⟨id, pinged⟩))] at member
      cases member
    · exact (inv.ping was id pinged).2 k other found x member

omit [Libm] in
/-- An `apply` goes on past a request that was confirmed. -/
theorem Inv.confirms (inv : h.Inv) {n id : ℕ} {rest : List ℕ} {run : Applying} (held : h.applying[n]? = some run)
    (head : run.left = id :: rest) (ok : h.net.client.applied id = some (.ok ())) : ({ h with
      net := forget [id] h.net
      applying := h.applying.insert n
        { run with left := rest, result := if rest.isEmpty then some (.ok ()) else none } } : Barrier).Inv := by
  have tracks := inv.tracks n run held
  have first : id ∈ run.left := by simp [head]
  have later : ∀ x ∈ rest, x ∈ run.left := fun x member => by simp [head, member]
  have once : id ∉ rest ∧ rest.Nodup := List.nodup_cons.mp (head ▸ tracks.once)
  refine inv.goes held (by simp [first]) rfl later ?_
  have rested : ∀ x ∈ rest, x ∉ [id] := fun x member inside => once.1 (List.mem_singleton.mp inside ▸ member)
  have forgot := Net.later_forget [id] h.net
  refine ⟨tracks.known, fun x member => tracks.left x (later x member), once.2, fun told => ?_,
    fun x member => ?_, fun x member => ?_⟩
  · obtain ⟨e, told⟩ := told
    simp only at told
    split at told <;> cases told
  · exact forgot.held x (tracks.known x (tracks.left x (later x member))) (rested x member)
      (tracks.held x (later x member))
  · rcases tracks.fate x member with ⟨up, queued⟩ | (told | ⟨first, same, e, lost⟩) | confirmed
    · exact .inl ⟨up, queued⟩
    · rw [tracks.settled told] at head
      cases head
    · rw [head] at same
      cases same
      rw [ok] at lost
      cases lost
    · exact .inr (.inr fun member => confirmed (later x member))

omit [Libm] in
/-- The freeze rests, or holds: none is on its way. -/
theorem idle_busy {was : Bool} (idle : h.freezing = .rest ∨ ∃ was, h.freezing = .frozen was) : ¬h.Busy was := by
  rintro (same | ⟨id, same⟩) <;> rcases idle with rest | ⟨held, rest⟩ <;> cases same.symm.trans rest

theorem Inv.step (inv : h.Inv) {m : Move} (calm : h.Calm m) (moved : h.move m = some h') : h'.Inv := by
  have still : Net.Later [] h.net h.net := Net.later_refl _
  cases does moved with
  | applies => exact inv.apply (gated h _ _ _) fun frozen => (gate_shut frozen _ _ _).1
  | confirms held head ok => exact inv.confirms held head ok
  | @fails _ n run _ held =>
    exact inv.goes held (fun _ member => member) rfl (by simp) ((inv.tracks n run held).ended (forget run.left h.net) rfl _)
  | freezes => exact inv.aside still (by simp) rfl (fun _ _ => rfl) fun was id pinged => by cases pinged
  | @pings was net gate sent =>
    have next : h.net.client.nextId < net.client.nextId := by
      obtain ⟨-, rfl⟩ := Net.send_some sent
      exact Nat.lt_succ_self _
    refine inv.aside (Net.later_send sent []) (by simp) rfl (fun _ _ => inv.frozen was (.inl gate)) fun was' id pinged => ?_
    cases pinged
    exact ⟨.inr rfl, next⟩
  | @unsent was => exact inv.fails was
  | @returns was _ pinged => exact inv.pinged pinged (.frozen was) (by simp)
  | @unanswered _ was _ pinged => exact (inv.pinged pinged .rest (by simp)).fails was
  | thaws | stays =>
    refine inv.aside still (by simp) rfl (fun was busy => absurd busy (idle_busy (.inl rfl))) fun was id pinged => ?_
    cases pinged
  | other sent =>
    have later := Net.later_send sent []
    exact inv.aside later (by simp) rfl inv.frozen fun was id pinged =>
      ⟨.inl pinged, Nat.lt_of_lt_of_le (inv.ping was id pinged).1 later.next⟩
  | @otherDone id free =>
    refine inv.aside (Net.later_forget [id] h.net) (fun n run there x member inside => ?_) rfl inv.frozen
      fun was id pinged => ⟨.inl pinged, (inv.ping was id pinged).1⟩
    rw [List.mem_singleton.mp inside] at member
    refine Bool.eq_false_iff.mp free ?_
    simp only [awaited, Bool.or_eq_true, List.any_eq_true]
    exact .inl ⟨(n, run), Std.ExtTreeMap.mem_toList_iff_getElem?_eq_some.mpr there, by simpa using member⟩
  | net own ran =>
    have later := Net.later_step calm.2 own ran []
    exact inv.aside later (by simp) rfl inv.frozen fun was id pinged =>
      ⟨.inl pinged, Nat.lt_of_lt_of_le (inv.ping was id pinged).1 later.next⟩
  | sets frozen =>
    exact inv.aside still (by simp) rfl (fun was busy => frozen.trans (inv.frozen was busy)) fun was id pinged =>
      ⟨.inl pinged, (inv.ping was id pinged).1⟩

omit [Libm] in
theorem inv_start (app : App) (loop : Loop) : ({ app, net := { loop } } : Barrier).Inv := by
  refine ⟨by simp, by simp, fun was busy => ?_, by simp⟩
  rcases busy with same | ⟨id, same⟩ <;> cases same

theorem reaches_inv (run : Reaches h h') (inv : h.Inv) : h'.Inv := by
  induction run with
  | refl => exact inv
  | tail _ last ih =>
    obtain ⟨m, calm, moved⟩ := last
    exact ih.step calm moved

/-- The net moves as a client's does. -/
theorem net_reaches {m : Move} (calm : h.Calm m) (moved : h.move m = some h') : Net.Reaches Net.Calm h.net h'.net := by
  have sends : ∀ {cmd : Cmd} {origin : Option ℕ} {net : Net}, h.net.move (.send cmd origin) = some net →
      Net.Reaches Net.Calm h.net net := fun sent => .single ⟨.send _ _, trivial, trivial, sent⟩
  cases does moved with
  | applies => exact (gated h _ _ _).moved
  | confirms | fails | returns | unanswered | otherDone => exact Net.reaches_forget _ _
  | pings _ sent | other sent => exact sends sent
  | @net m _ _ ran => exact .single ⟨m, calm.2, calm.1, ran⟩
  | freezes | unsent | thaws | stays | sets => exact .refl

theorem reaches_net (run : Reaches h h') : Net.Reaches Net.Calm h.net h'.net := by
  induction run with
  | refl => exact .refl
  | tail _ last ih =>
    obtain ⟨m, calm, moved⟩ := last
    exact ih.trans (net_reaches calm moved)

/-- What one move makes of the `apply` of number `n`. -/
inductive Goes (h : Barrier) (n : ℕ) (run : Applying) : Prop where
  | starts (absent : h.applying[n]? = none) (begun : run.left = run.ids ∨ ∃ e, run.result = some (.error e))
      (quiet : h.app.frozen = true → run.ids = []) : Goes h n run
  | confirms (old : Applying) (id : ℕ) (held : h.applying[n]? = some old) (head : old.left = id :: run.left)
      (ok : h.net.client.applied id = some (.ok ())) (ids : run.ids = old.ids) : Goes h n run
  | fails (old : Applying) (e : ChangeError) (held : h.applying[n]? = some old) (ids : run.ids = old.ids)
      (told : run.result = some (.error e)) : Goes h n run

theorem gate_begun (h : Barrier) (page : Page) (cmds : List Cmd) (origin : Option ℕ) :
    (h.applyGate page cmds origin).1.left = (h.applyGate page cmds origin).1.ids ∨
      ∃ e, (h.applyGate page cmds origin).1.result = some (.error e) := by
  unfold applyGate
  split
  · exact .inr ⟨_, rfl⟩
  · split
    · exact .inl rfl
    · exact .inr ⟨_, rfl⟩

theorem goes {m : Move} (moved : h.move m = some h') :
    h'.applying = h.applying ∨ ∃ n run, h'.applying = h.applying.insert n run ∧ h.Goes n run := by
  cases does moved with
  | @applies n page cmds origin new =>
    exact .inr ⟨n, _, rfl, .starts new (gate_begun h page cmds origin) fun frozen => (gate_shut frozen page cmds origin).1⟩
  | @confirms n id _ run held head ok => exact .inr ⟨n, _, rfl, .confirms run id held head ok rfl⟩
  | @fails _ n run e held => exact .inr ⟨n, _, rfl, .fails run e held rfl rfl⟩
  | freezes | pings | unsent | returns | unanswered | thaws | stays | other | otherDone | net | sets => exact .inl rfl

/-- Any move. -/
def Moves (a b : Barrier) : Prop := ∃ m, a.move m = some b

/-- An `apply` queues once: what its requests are never changes. -/
theorem queues_once (run : Relation.ReflTransGen Moves h h') {n : ℕ} {before : Applying}
    (held : h.applying[n]? = some before) : ∃ after, h'.applying[n]? = some after ∧ after.ids = before.ids := by
  induction run with
  | refl => exact ⟨before, held, rfl⟩
  | @tail a b _ last ih =>
    obtain ⟨mid, there, same⟩ := ih
    obtain ⟨m, moved⟩ := last
    rcases goes moved with kept | ⟨k, next, inserted, goes⟩
    · exact ⟨mid, kept ▸ there, same⟩
    · rw [inserted]
      simp only [BTreeMap.getElem?_insert_eq]
      split
      · rename_i own
        subst own
        refine ⟨next, rfl, Eq.trans ?_ same⟩
        cases goes with
        | starts absent => cases absent.symm.trans there
        | confirms old _ held _ _ ids =>
          cases held.symm.trans there
          exact ids
        | fails old _ held ids =>
          cases held.symm.trans there
          exact ids
      · exact ⟨mid, there, same⟩

end

end Barrier
end
end IemMixer.Server
