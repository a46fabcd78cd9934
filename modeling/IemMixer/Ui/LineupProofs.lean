import IemMixer.Ui.Lineup

/-! A page follows the band that plays, however late, out of order or lost its answers are: what it
shows after the last answer is what the server says, no older answer comes back, and it never
waits for good. -/
namespace IemMixer.Ui
open Lib Proto Server

namespace LineupView

/-- The view an answer gives a page that knew nothing. -/
def of (answer : LineupAnswer) : LineupView := LineupView.reading.apply answer

/-- An answer that leaves nothing of what the page knew. -/
def Decides (answer : LineupAnswer) : Prop := ∀ v : LineupView, v.apply answer = of answer

end LineupView

theorem decides_ok (known : Option LineupInfo) : LineupView.Decides (.ok known) := fun _ => rfl

theorem decides_error {e : LineupError} (refused : e.status = 401 ∨ e.status = 403 ∨ e.status = 404) :
    LineupView.Decides (.error e) := by
  intro v
  simp only [LineupView.of, LineupView.apply]
  by_cases out : e.status = 401
  · rw [if_pos out, if_pos out]
  · rw [if_neg out, if_neg out, if_pos (refused.resolve_left out), if_pos (refused.resolve_left out)]

theorem bearer_refused {s : App} {token : Token} {refusal : Reject} (refused : s.bearer token = .error refusal) :
    refusal.status = 401 := by
  cases token with
  | invalid =>
    cases refused
    rfl
  | expired =>
    cases refused
    rfl
  | valid claims =>
    simp only [App.bearer, claimsOf, bind, Except.bind] at refused
    split at refused
    · cases refused
    · cases refused
      rfl

theorem pagePlays_refused {roster : Roster} {active : Lineup} {claims : AuthClaims} {page : String} {there : Bool}
    {refusal : Reject} (refused : pagePlays roster active claims page there = .error refusal) :
    refusal.status = 403 ∨ refusal.status = 404 := by
  unfold pagePlays at refused
  split at refused
  · cases refused
    exact .inl rfl
  · split at refused
    · cases refused
    · split at refused
      · cases refused
      · cases refused
        exact .inr rfl

theorem lineup_refused {s : App} {mirror : Mirror} {token : Token} {id : String} {refusal : Reject}
    (refused : getLineup s mirror token (some id) = some (.error refusal)) :
    refusal.status = 401 ∨ refusal.status = 403 ∨ refusal.status = 404 := by
  unfold getLineup at refused
  split at refused
  · rename_i other taken
    cases refused
    exact .inl (bearer_refused taken)
  · split at refused
    · cases refused
    · obtain ⟨l, -, answer⟩ := Option.map_eq_some_iff.mp refused
      simp only at answer
      cases plays : pagePlays _ l _ id _ with
      | error other =>
        rw [plays] at answer
        cases answer
        exact .inr (pagePlays_refused plays)
      | ok playing =>
        rw [plays] at answer
        cases answer

theorem received_error {refusal : Reject} (bad : refusal.status ≠ 200) (empty : refusal.status ≠ 204) :
    received (.error refusal) = if refusal.status = 404 ∧ refusal.code = "NOT_CONFIGURED" then .ok none
      else .error ⟨refusal.status, refusal.code⟩ := by
  show lineupAnswer refusal.status (.error refusal.code) = _
  unfold lineupAnswer
  rw [if_neg bad, if_neg empty]

/-- Whatever the server answers decides the view. -/
theorem received_decides {s : App} {mirror : Mirror} {token : Token} {id : String}
    {answer : Except Reject (Option LineupInfo)} (made : getLineup s mirror token (some id) = some answer) :
    LineupView.Decides (received answer) := by
  cases answer with
  | ok known => cases known <;> exact decides_ok _
  | error refusal =>
    have status := lineup_refused made
    rw [received_error (by omega) (by omega)]
    split
    · exact decides_ok _
    · exact decides_error status

namespace Link

/-- The writes of an answer make its view; no connection shows on a page that does not connect. -/
theorem written (l : Link) (answer : LineupAnswer) :
    (lineupWrites l.view answer l.connected).foldl write l =
      { l with view := l.view.apply answer, connected := l.connected && (l.view.apply answer).connects } := by
  unfold lineupWrites
  obtain ⟨next, applied⟩ : ∃ next, l.view.apply answer = next := ⟨_, rfl⟩
  rw [applied]
  obtain ⟨view, reads, connected⟩ := l
  by_cases same : next = view <;> cases connected <;> cases shows : next.connects <;> simp_all [write]

theorem answered_eq (l : Link) (seq : ℕ) (answer : LineupAnswer) :
    l.answered seq answer = if l.reads.applied < seq then
      { l with
        reads := { l.reads with applied := seq }, view := l.view.apply answer,
        connected := l.connected && (l.view.apply answer).connects }
    else l := by
  unfold answered LineupReads.take
  split
  · rename_i fresh reads took
    split at took
    · rename_i newer
      cases took
      rw [if_pos newer]
      exact written { l with reads := { l.reads with applied := seq } } answer
    · rename_i older
      cases took
      rw [if_neg older]
      rfl

/-- What the page does, step by step: nothing the server hears of, a read of the band whatever
becomes of the view, a new socket. -/
inductive Did : Link → List Ask → Link → Prop where
  | quiet {l l' : Link} (view : l'.view = l.view) (reads : l'.reads = l.reads)
      (acted : l'.acted = l.acted ∨ l'.acted = some false)
      (socket : l'.socket = l.socket ∨ l'.socket = some .closed ∨ l'.socket = some .closing) : Did l [] l'
  | check {l : Link} : Did l [.checkToken] l
  | read {l l' : Link} {now : ℤ} (reads : l'.reads = (l.reads.start now).2) (acted : l'.acted = l.acted)
      (socket : l'.socket = l.socket ∨ l'.socket = some .closed) : Did l [.read (l.reads.issued + 1)] l'
  | connect {l l' : Link} (view : l'.view = l.view) (reads : l'.reads = l.reads)
      (socket : l'.socket = some .connecting) : Did l [.connect] l'
  | trans {l l' l'' : Link} {asked more : List Ask} (first : Did l asked l') (second : Did l' more l'') :
      Did l (asked ++ more) l''

theorem did_nothing (l : Link) : Did l [] l := .quiet rfl rfl (.inl rfl) (.inl rfl)

theorem effect_did (l : Link) (now : ℤ) : Did l (l.effect now).2 (l.effect now).1 := by
  unfold effect
  simp only
  split
  · exact did_nothing l
  · split
    · exact .connect rfl rfl rfl
    · rename_i stays
      exact .quiet rfl rfl (.inr (by simpa using stays)) (.inl rfl)

theorem reconnect_did (l : Link) (now : ℤ) : Did l (l.reconnect now).2 (l.reconnect now).1 := by
  unfold reconnect
  simp only
  split
  · exact .read rfl rfl (.inl rfl)
  · exact .connect rfl rfl rfl

theorem tick_did (l : Link) (now : ℤ) : Did l (l.tick now).2 (l.tick now).1 := by
  obtain ⟨after, asked, rechecked, first⟩ : ∃ after asked,
      (if l.view.recheckDue now l.reads.lastAt then l.readLineup now else (l, [])) = (after, asked) ∧
        Did l asked after := by
    by_cases due : l.view.recheckDue now l.reads.lastAt = true
    · exact ⟨_, _, if_pos due, .read rfl rfl (.inl rfl)⟩
    · exact ⟨_, _, if_neg due, did_nothing l⟩
  unfold tick
  rw [rechecked]
  simp only
  split
  · exact first
  · refine .trans (.trans first ?_) (reconnect_did after now)
    split
    · exact .check
    · exact did_nothing after

theorem watch_did (l : Link) (now : ℤ) : Did l [] (l.watch now) := by
  unfold watch
  split
  · exact .quiet rfl rfl (.inl rfl) (.inr (.inr rfl))
  · exact did_nothing l

theorem onMessage_did (l : Link) (now : ℤ) (msg : ServerMsg) :
    Did l (l.onMessage now msg).2 (l.onMessage now msg).1 := by
  cases msg with
  | lineupChanged id name => exact .read rfl rfl (.inl rfl)
  | state | connectionChanged | channelUpdate | globalVolumeUpdate | stemsVolumeUpdate | soloUpdate | eqParams | meters
  | inputUpdate => exact .quiet rfl rfl (.inl rfl) (.inl rfl)

theorem onClosed_did (l : Link) (now : ℤ) (code : ℕ) : Did l (l.onClosed now code).2 (l.onClosed now code).1 := by
  unfold onClosed
  cases onClose code with
  | lineup => exact .read rfl rfl (.inr rfl)
  | reload => exact .quiet rfl rfl (.inl rfl) (.inr (.inl rfl))
  | failed => exact .quiet rfl rfl (.inl rfl) (.inr (.inl rfl))

end Link

/-- The item tells the page to read the band again, or ends its socket. -/
def Item.tells : Item → Bool
  | .msg (.lineupChanged ..) | .closed _ => true
  | .opened | .msg _ => false

namespace Net

/-- The page knows what the server says now. -/
def Right (id : String) (n : Net) : Prop :=
  ∃ answer, getLineup n.face.app n.face.engine.mirror n.face.token (some id) = some answer ∧
    n.link.view = LineupView.of (received answer)

/-- The read started last was answered by the server, and the page took the answer. -/
def Answered (n : Net) (since : ℕ) : Prop :=
  ∃ read v answer rest, n.taken = (read, .made v answer) :: rest ∧ read.seq = n.link.reads.issued ∧ read.since = since

/-- An open socket with nothing on its way, whose session told the band, and the last read
answered. -/
structure Settled (n : Net) : Prop where
  socket : n.link.socket = some .opened
  told : n.untold = false
  wire : n.wire = []
  answered : ∃ since, n.Answered since

/-- No answer taken is older than the start of a read whose answer was taken before. -/
def InOrder (n : Net) : Prop := n.taken.Pairwise fun later earlier =>
  earlier.1.seq < later.1.seq ∧ ∀ v answer, later.2 = .made v answer → earlier.1.since ≤ v

/-- A page that does not connect reads the band again in time; one that does has its socket, opens
one now, or does so or reads the band once its backoff has passed. -/
structure Moving (l : Link) : Prop where
  reads : l.view.isFinal = false → l.view.connects = false →
    ∀ now, l.reads.lastAt + lineupRecheckMs ≤ now → ∃ seq, .read seq ∈ (l.tick now).2
  connects : l.view.connects = true →
    (∀ now, .connect ∈ (l.effect now).2) ∨ (∃ state, l.socket = some state ∧ state ≠ .closed) ∨
      ∀ now, l.attemptAt + 30000 ≤ now → ∃ ask ∈ (l.tick now).2, ask ≠ .checkToken

/-- What is known of an answer. -/
def Knows (id : String) (n : Net) (since : ℕ) : Answer → Prop
  | .made v answer => since ≤ v ∧ v ≤ n.version ∧ LineupView.Decides answer ∧
    (v = n.version → ∃ made, getLineup n.face.app n.face.engine.mirror n.face.token (some id) = some made ∧
      answer = received made)
  | .failed _ => True

/-- The numbers and starts of all reads. -/
def begun (n : Net) : List (ℕ × ℕ) :=
  n.reads.map (fun r => (r.seq, r.since)) ++ n.taken.map fun t => (t.1.seq, t.1.since)

structure Inv (id : String) (n : Net) : Prop where
  bound : ∀ b ∈ n.begun, b.1 ≤ n.link.reads.issued ∧ b.2 ≤ n.version ∧
    (b.1 = n.link.reads.issued → n.fresh = true → b.2 = n.version)
  order : ∀ a ∈ n.begun, ∀ b ∈ n.begun, a.1 ≤ b.1 → a.2 ≤ b.2
  waiting : ∀ r ∈ n.reads, ∀ answer ∈ r.answer, n.Knows id r.since answer
  took : ∀ t ∈ n.taken, n.Knows id t.1.since t.2
  applied : n.link.reads.applied = (n.taken.head?.map (·.1.seq)).getD 0
  view : ∀ read v answer rest, n.taken = (read, .made v answer) :: rest → read.seq = n.link.reads.issued →
    n.link.view = LineupView.of answer
  sorted : n.InOrder
  acted : n.link.acted = some true → n.link.socket ≠ none

/-- A live socket's page was told and will hear it, or read the band since. -/
def Heard (n : Net) : Prop :=
  n.link.socket = some .connecting ∨ n.link.socket = some .opened → n.untold = false →
    (∃ item ∈ n.wire, item.tells = true) ∨ n.fresh = true

section
variable {id : String} {n : Net}

theorem ask_link (n : Net) (l : Link) (ask : Ask) : { n.ask ask with link := l } = { n with link := l }.ask ask := by
  cases ask <;> rfl

theorem asks_link (n : Net) (l : Link) (asked : List Ask) :
    { asked.foldl Net.ask n with link := l } = asked.foldl Net.ask { n with link := l } := by
  induction asked generalizing n with
  | nil => rfl
  | cons ask rest ih => rw [List.foldl_cons, List.foldl_cons, ih, ask_link]

theorem does_link (n : Net) (did : Link × List Ask) : (n.does did).link = did.1 := by
  have kept : ∀ (asked : List Ask) (n : Net), (asked.foldl Net.ask n).link = n.link := by
    intro asked
    induction asked with
    | nil => exact fun _ => rfl
    | cons ask rest ih =>
      intro n
      rw [List.foldl_cons, ih]
      cases ask <;> rfl
  exact kept did.2 _

theorem does_append (n : Net) (l l' : Link) (asked more : List Ask) :
    n.does (l', asked ++ more) = (n.does (l, asked)).does (l', more) := by
  simp only [does, List.foldl_append, asks_link]

theorem Inv.did {l l' : Link} {asked : List Ask} (did : Link.Did l asked l') (here : n.link = l) (inv : n.Inv id) :
    (n.does (l', asked)).Inv id := by
  induction did generalizing n with
  | quiet view reads acted socket =>
    subst here
    refine ⟨?_, inv.order, inv.waiting, inv.took, ?_, fun read v answer rest took last => ?_, inv.sorted, fun did => ?_⟩
    · simp only [does, List.foldl_nil, reads]
      exact inv.bound
    · simp only [does, List.foldl_nil, reads]
      exact inv.applied
    · simp only [does, List.foldl_nil, reads, view] at last ⊢
      exact inv.view read v answer rest took last
    · simp only [does, List.foldl_nil] at did ⊢
      rcases acted with same | off
      · rcases socket with still | ended | ended
        · rw [still]
          exact inv.acted (same ▸ did)
        · simp [ended]
        · simp [ended]
      · rw [off] at did
        cases did
  | check =>
    subst here
    exact inv
  | @read l l' now reads acted socket =>
    subst here
    have issued : l'.reads.issued = n.link.reads.issued + 1 := by
      rw [reads]
      rfl
    have begun : ∀ b ∈ (n.does (l', [.read (n.link.reads.issued + 1)])).begun,
        b ∈ n.begun ∨ b = (n.link.reads.issued + 1, n.version) := by
      intro b member
      simp only [Net.begun, does, List.foldl_cons, List.foldl_nil, ask, List.map_append, List.map_cons, List.map_nil,
        List.mem_append, List.mem_singleton] at member ⊢
      tauto
    refine ⟨fun b member => ?_, fun a first b second before => ?_, fun r member answer held => ?_, inv.took, ?_,
      fun read v answer rest took last => ?_, inv.sorted, fun did => ?_⟩
    · rw [does_link, issued]
      rcases begun b member with old | rfl
      · obtain ⟨seq, since, -⟩ := inv.bound b old
        exact ⟨by omega, since, fun last => by omega⟩
      · exact ⟨le_rfl, le_rfl, fun _ _ => rfl⟩
    · rcases begun a first with old | rfl <;> rcases begun b second with old' | rfl
      · exact inv.order a old b old' before
      · exact (inv.bound a old).2.1
      · have small := (inv.bound b old').1
        omega
      · exact le_rfl
    · rcases List.mem_append.mp member with old | new
      · exact inv.waiting r old answer held
      · rw [List.mem_singleton.mp new] at held
        cases held
    · rw [does_link, reads]
      exact inv.applied
    · have member : (read.seq, read.since) ∈ n.begun := by
        refine List.mem_append_right _ (List.mem_map.mpr ⟨(read, .made v answer), ?_, rfl⟩)
        rw [show n.taken = _ from took]
        exact List.mem_cons_self
      have small := (inv.bound _ member).1
      rw [does_link, issued] at last
      omega
    · rw [does_link] at did ⊢
      rw [acted] at did
      rcases socket with still | ended
      · rw [still]
        exact inv.acted did
      · simp [ended]
  | @connect l l' view reads socket =>
    subst here
    refine ⟨?_, inv.order, inv.waiting, inv.took, ?_, fun read v answer rest took last => ?_, inv.sorted, fun _ => ?_⟩
    · rw [does_link, reads]
      exact inv.bound
    · rw [does_link, reads]
      exact inv.applied
    · rw [does_link, reads] at last
      rw [does_link, view]
      exact inv.view read v answer rest took last
    · simp [does_link, socket]
  | trans first second ih ih' =>
    rw [does_append]
    exact ih' (does_link _ _) (ih here inv)

theorem does_fresh {asked : List Ask} (l : Link) (reads : n.fresh = true ∨ ∃ seq, .read seq ∈ asked) :
    (n.does (l, asked)).fresh = true := by
  have kept : ∀ (asked : List Ask) (n : Net), (n.fresh = true ∨ ∃ seq, .read seq ∈ asked) →
      (asked.foldl Net.ask n).fresh = true := by
    intro asked
    induction asked with
    | nil =>
      rintro n (fresh | ⟨seq, none⟩)
      · exact fresh
      · cases none
    | cons ask rest ih =>
      rintro n (fresh | ⟨seq, member⟩)
      · refine ih _ (.inl ?_)
        cases ask
        · rfl
        · exact fresh
        · exact fresh
      · rcases List.mem_cons.mp member with rfl | later
        · exact ih _ (.inl rfl)
        · exact ih _ (.inr ⟨seq, later⟩)
  exact kept asked _ reads

theorem Heard.did {l l' : Link} {asked : List Ask} (did : Link.Did l asked l') (here : n.link = l) (heard : n.Heard) :
    (n.does (l', asked)).Heard := by
  induction did generalizing n with
  | quiet view reads acted socket =>
    subst here
    intro live told
    rw [does_link] at live
    rcases socket with still | ended | ended
    · rw [still] at live
      exact heard live told
    · simp [ended] at live
    · simp [ended] at live
  | check =>
    subst here
    exact heard
  | read => exact fun _ _ => .inr rfl
  | connect =>
    intro _ told
    cases told
  | trans first second ih ih' =>
    rw [does_append]
    exact ih' (does_link _ _) (ih here heard)

/-- What passes between the page and the server is not the page's knowledge. -/
theorem Inv.aside (inv : n.Inv id) (arriving session : Option (Page × Viewer)) (untold : Bool) (wire : List Item) :
    { n with arriving, session, untold, wire }.Inv id :=
  ⟨inv.bound, inv.order, inv.waiting, inv.took, inv.applied, inv.view, inv.sorted, inv.acted⟩

/-- The same reads, or fewer, with answers that are known. -/
theorem Inv.reads (inv : n.Inv id) {reads : List Reading}
    (same : ∀ r ∈ reads, ∃ held ∈ n.reads, held.seq = r.seq ∧ held.since = r.since)
    (waiting : ∀ r ∈ reads, ∀ answer ∈ r.answer, n.Knows id r.since answer) : { n with reads }.Inv id := by
  have begun : ∀ b ∈ { n with reads }.begun, b ∈ n.begun := by
    intro b member
    rcases List.mem_append.mp member with waits | taken
    · obtain ⟨r, inside, rfl⟩ := List.mem_map.mp waits
      obtain ⟨held, before, seq, since⟩ := same r inside
      exact List.mem_append_left _ (List.mem_map.mpr ⟨held, before, by rw [seq, since]⟩)
    · exact List.mem_append_right _ taken
  exact ⟨fun b member => inv.bound b (begun b member),
    fun a first b second => inv.order a (begun a first) b (begun b second), waiting, inv.took, inv.applied, inv.view,
    inv.sorted, inv.acted⟩

/-- The server changed: no answer made before is known to be right. -/
theorem Inv.change (inv : n.Inv id) (face : Face) :
    { n with face, version := n.version + 1, untold := true, fresh := false }.Inv id := by
  have later : ∀ (since : ℕ) (a : Answer), n.Knows id since a →
      { n with face, version := n.version + 1, untold := true, fresh := false }.Knows id since a := by
    intro since a knows
    cases a with
    | failed => trivial
    | made v answer =>
      obtain ⟨start, made, decides, -⟩ := knows
      exact ⟨start, made.trans (Nat.le_succ _), decides, fun now => by
        have last : v = n.version + 1 := now
        omega⟩
  refine ⟨fun b member => ?_, inv.order, fun r member answer held => later _ _ (inv.waiting r member answer held),
    fun t member => later _ _ (inv.took t member), inv.applied, inv.view, inv.sorted, inv.acted⟩
  obtain ⟨seq, since, -⟩ := inv.bound b member
  exact ⟨seq, since.trans (Nat.le_succ _), fun _ fresh => by cases fresh⟩

theorem Inv.taken_le (inv : n.Inv id) : ∀ t ∈ n.taken, t.1.seq ≤ n.link.reads.applied := by
  rw [inv.applied]
  have sorted := inv.sorted
  unfold InOrder at sorted
  intro t member
  cases taken : n.taken with
  | nil =>
    rw [taken] at member
    cases member
  | cons last rest =>
    rw [taken] at member sorted
    rcases List.mem_cons.mp member with rfl | earlier
    · exact le_rfl
    · exact ((List.pairwise_cons.mp sorted).1 t earlier).1.le

/-- The page gets the answer of a read. -/
theorem Inv.answer (inv : n.Inv id) {read : Reading} {a : Answer} (member : read ∈ n.reads)
    (held : read.answer = some a) {reads : List Reading} (fewer : ∀ r ∈ reads, r ∈ n.reads) :
    { n with
      link := n.link.answered read.seq a.ends, reads,
      taken := if (n.link.reads.take read.seq).1 then (read, a) :: n.taken else n.taken }.Inv id := by
  have waiting := fun r inside => inv.waiting r (fewer r inside)
  rw [Link.answered_eq]
  unfold LineupReads.take
  by_cases newer : n.link.reads.applied < read.seq
  · simp only [if_pos newer, if_true]
    have knows := inv.waiting read member a held
    have own : (read.seq, read.since) ∈ n.begun := List.mem_append_left _ (List.mem_map_of_mem member)
    have begun : ∀ b ∈ reads.map (fun r => (r.seq, r.since)) ++
        ((read, a) :: n.taken).map (fun t => (t.1.seq, t.1.since)), b ∈ n.begun := by
      intro b inside
      rcases List.mem_append.mp inside with waits | took
      · obtain ⟨r, rest, rfl⟩ := List.mem_map.mp waits
        exact List.mem_append_left _ (List.mem_map_of_mem (fewer r rest))
      · rcases List.mem_cons.mp took with rfl | earlier
        · exact own
        · exact List.mem_append_right _ earlier
    refine ⟨fun b inside => inv.bound b (begun b inside),
      fun x first y second => inv.order x (begun x first) y (begun y second), waiting, fun t inside => ?_, rfl,
      fun read' v answer rest took _ => ?_, List.pairwise_cons.mpr ⟨fun t earlier => ?_, inv.sorted⟩, inv.acted⟩
    · rcases List.mem_cons.mp inside with rfl | earlier
      · exact knows
      · exact inv.took t earlier
    · obtain ⟨same, -⟩ := List.cons.inj took
      cases same
      exact knows.2.2.1 n.link.view
    · have before : t.1.seq < read.seq := (inv.taken_le t earlier).trans_lt newer
      refine ⟨before, ?_⟩
      rintro v answer rfl
      have begun' : (t.1.seq, t.1.since) ∈ n.begun := List.mem_append_right _ (List.mem_map_of_mem earlier)
      exact (inv.order _ begun' _ own before.le).trans knows.1
  · simp only [if_neg newer, Bool.false_eq_true, if_false]
    exact inv.reads (fun r inside => ⟨r, fewer r inside, rfl, rfl⟩) waiting

theorem lineupMsg_tells {s : App} {msg : ServerMsg} (said : lineupMsg s = some msg) : (Item.msg msg).tells = true := by
  obtain ⟨l, -, rfl⟩ := Option.map_eq_some_iff.mp said
  rfl

theorem told_reads (l : Link) (now : ℤ) {msg : ServerMsg} (told : (Item.msg msg).tells = true) :
    ∃ seq, .read seq ∈ (l.onMessage now msg).2 := by
  cases msg with
  | lineupChanged => exact ⟨_, List.mem_singleton.mpr rfl⟩
  | state | connectionChanged | channelUpdate | globalVolumeUpdate | stemsVolumeUpdate | soloUpdate | eqParams | meters
  | inputUpdate => cases told

/-- More on the wire: the band is told there, or as untold as before. -/
theorem Heard.tell (heard : n.Heard) {n' : Net} (link : n'.link = n.link) (fresh : n'.fresh = n.fresh)
    {told : List ServerMsg} (wire : ∃ more, n'.wire = n.wire ++ told.map .msg ++ more)
    (names : ∀ msg, lineupMsg n.face.app = some msg → msg ∈ told) (untold : n'.untold = (n.untold && !n.names)) :
    n'.Heard := by
  obtain ⟨more, wire⟩ := wire
  intro live quiet
  rw [link] at live
  rw [wire, fresh]
  cases named : lineupMsg n.face.app with
  | some msg =>
    refine .inl ⟨.msg msg, ?_, lineupMsg_tells named⟩
    exact List.mem_append_left _ (List.mem_append_right _ (List.mem_map_of_mem (names msg named)))
  | none =>
    have before : n.untold = false := by
      rw [untold] at quiet
      simpa [Net.names, named] using quiet
    rcases heard live before with ⟨item, member, tells⟩ | fresh
    · exact .inl ⟨item, List.mem_append_left _ (List.mem_append_left _ member), tells⟩
    · exact .inr fresh

/-- The first item is heard. -/
theorem step_hear (inv : n.Inv id) (heard : n.Heard) {item : Item} {rest : List Item} (wire : n.wire = item :: rest)
    {now : ℤ} {n' : Net} (moved : { n with wire := rest }.hear now item = some n') : n'.Inv id ∧ n'.Heard := by
  have aside : { n with wire := rest }.Inv id := inv.aside n.arriving n.session n.untold rest
  -- What does not tell the band leaves on the wire what does.
  have left : item.tells = false → { n with wire := rest }.Heard := by
    intro silent live quiet
    rcases heard live quiet with ⟨other, member, tells⟩ | fresh
    · rw [wire] at member
      rcases List.mem_cons.mp member with rfl | later
      · rw [silent] at tells
        cases tells
      · exact .inl ⟨other, later, tells⟩
    · exact .inr fresh
  cases item with
  | opened =>
    simp only [Net.hear] at moved
    split at moved
    · rename_i connecting
      cases moved
      refine ⟨⟨inv.bound, inv.order, inv.waiting, inv.took, inv.applied, inv.view, inv.sorted,
        fun _ => by simp [Link.onOpen]⟩, fun _ quiet => ?_⟩
      exact left rfl (.inl connecting) quiet
    · cases moved
  | msg msg =>
    simp only [Net.hear] at moved
    split at moved
    · cases moved
      refine ⟨aside.did (n.link.onMessage_did now msg) rfl, ?_⟩
      cases told : (Item.msg msg).tells with
      | true => exact fun _ _ => .inr (does_fresh _ (.inr (told_reads n.link now told)))
      | false => exact (left told).did (n.link.onMessage_did now msg) rfl
    · rename_i closing
      cases moved
      exact ⟨aside, fun live => by simp [closing] at live⟩
    all_goals cases moved
  | closed code =>
    cases moved
    refine ⟨aside.did (n.link.onClosed_did now code) rfl, fun live => ?_⟩
    rw [does_link] at live
    have ended : (n.link.onClosed now code).1.socket = some .closed := by
      unfold Link.onClosed
      cases onClose code <;> rfl
    simp [ended] at live

theorem step_inv (inv : n.Inv id) (heard : n.Heard) {m : Move} {n' : Net} (moved : n.step id m = some n') :
    n'.Inv id ∧ n'.Heard := by
  cases m with
  | change face =>
    cases moved
    exact ⟨inv.change face, fun _ told => by cases told⟩
  | serve i =>
    simp only [step, Option.bind_eq_bind, Option.bind_eq_some_iff, Option.guard_eq_some', Option.pure_def,
      Option.some.injEq] at moved
    obtain ⟨read, there, answer, made, -, -, rfl⟩ := moved
    refine ⟨inv.reads (fun r member => ?_) fun r member a held => ?_, heard⟩
    · rcases List.mem_or_eq_of_mem_set member with old | rfl
      · exact ⟨r, old, rfl, rfl⟩
      · exact ⟨read, List.mem_of_getElem? there, rfl, rfl⟩
    · rcases List.mem_or_eq_of_mem_set member with old | rfl
      · exact inv.waiting r old a held
      · cases held
        have begun : (read.seq, read.since) ∈ n.begun :=
          List.mem_append_left _ (List.mem_map_of_mem (List.mem_of_getElem? there))
        exact ⟨(inv.bound _ begun).2.1, le_rfl, received_decides made, fun _ => ⟨answer, made, rfl⟩⟩
  | lose i e =>
    simp only [step, Option.bind_eq_bind, Option.bind_eq_some_iff, Option.pure_def, Option.some.injEq] at moved
    obtain ⟨read, there, rfl⟩ := moved
    refine ⟨inv.reads (fun r member => ?_) fun r member a held => ?_, heard⟩
    · rcases List.mem_or_eq_of_mem_set member with old | rfl
      · exact ⟨r, old, rfl, rfl⟩
      · exact ⟨read, List.mem_of_getElem? there, rfl, rfl⟩
    · rcases List.mem_or_eq_of_mem_set member with old | rfl
      · exact inv.waiting r old a held
      · cases held
        trivial
  | answer i =>
    simp only [step, Option.bind_eq_bind, Option.bind_eq_some_iff, Option.pure_def, Option.some.injEq] at moved
    obtain ⟨read, there, a, held, rfl⟩ := moved
    refine ⟨inv.answer (List.mem_of_getElem? there) held fun r member => List.mem_of_mem_eraseIdx member, ?_⟩
    intro live told
    refine heard ?_ told
    rw [Link.answered_eq] at live
    split at live <;> exact live
  | tick now =>
    cases moved
    exact ⟨inv.did (n.link.tick_did now) rfl, heard.did (n.link.tick_did now) rfl⟩
  | effect now =>
    cases moved
    exact ⟨inv.did (n.link.effect_did now) rfl, heard.did (n.link.effect_did now) rfl⟩
  | watch now =>
    cases moved
    exact ⟨inv.did (n.link.watch_did now) rfl, heard.did (n.link.watch_did now) rfl⟩
  | enter =>
    simp only [step, Option.bind_eq_bind, Option.bind_eq_some_iff, Option.guard_eq_some', Option.pure_def,
      Option.some.injEq] at moved
    obtain ⟨-, ⟨-, -, -, -, bare⟩, claims, -, page, -, rfl⟩ := moved
    refine ⟨inv.aside _ _ _ _, fun live told => ?_⟩
    rcases heard live told with ⟨item, member, -⟩ | fresh
    · rw [List.isEmpty_iff.mp bare] at member
      cases member
    · exact .inr fresh
  | subscribe =>
    simp only [step, Option.bind_eq_bind, Option.bind_eq_some_iff, Option.pure_def, Option.some.injEq] at moved
    obtain ⟨⟨page, viewer⟩, -, rfl⟩ := moved
    refine ⟨inv.aside _ _ _ _, heard.tell rfl rfl ⟨[], (List.append_nil _).symm⟩ (fun msg said => ?_) rfl⟩
    exact List.mem_append_left _ (Option.mem_toList.mpr said)
  | tell =>
    simp only [step, Option.bind_eq_bind, Option.bind_eq_some_iff, Option.pure_def, Option.some.injEq] at moved
    obtain ⟨⟨page, viewer⟩, -, rfl⟩ := moved
    unfold Net.tell onLineup
    cases page.isPerson with
    | true =>
      refine ⟨inv.aside _ _ _ _, heard.tell rfl rfl ⟨[.closed closeLineup], rfl⟩ (fun msg said => ?_) rfl⟩
      exact Option.mem_toList.mpr said
    | false =>
      refine ⟨inv.aside _ _ _ _, heard.tell rfl rfl ⟨[], (List.append_nil _).symm⟩ (fun msg said => ?_) rfl⟩
      exact List.mem_append_left _ (Option.mem_toList.mpr said)
  | speak msg =>
    simp only [step, Option.bind_eq_bind, Option.bind_eq_some_iff, Option.guard_eq_some', Option.pure_def,
      Option.some.injEq] at moved
    obtain ⟨page, -, -, -, rfl⟩ := moved
    refine ⟨inv.aside _ _ _ _, fun live told => ?_⟩
    exact (heard live told).imp_left fun ⟨item, member, tells⟩ => ⟨item, List.mem_append_left _ member, tells⟩
  | drop kept code =>
    simp only [step, Option.bind_eq_bind, Option.bind_eq_some_iff, Option.guard_eq_some', Option.pure_def,
      Option.some.injEq] at moved
    obtain ⟨-, -, rfl⟩ := moved
    exact ⟨inv.aside _ _ _ _, fun _ _ => .inl ⟨.closed code, List.mem_append_right _ (List.mem_singleton.mpr rfl), rfl⟩⟩
  | hear now =>
    simp only [step] at moved
    split at moved
    · cases moved
    · rename_i item rest wire
      exact step_hear inv heard wire moved

/-- The last answer is the server's of now when its read began after the last change. -/
theorem Inv.right (inv : n.Inv id) (answered : n.Answered n.version) : n.Right id := by
  obtain ⟨read, v, answer, rest, took, last, since⟩ := answered
  have member : (read, .made v answer) ∈ n.taken := by
    rw [took]
    exact List.mem_cons_self
  obtain ⟨start, made, -, now⟩ := inv.took _ member
  obtain ⟨said, spoke, rfl⟩ := now (le_antisymm made (since ▸ start))
  exact ⟨said, spoke, inv.view read v _ rest took last⟩

theorem Settled.answered_now (settled : n.Settled) (inv : n.Inv id) (heard : n.Heard) : n.Answered n.version := by
  obtain ⟨since, read, v, answer, rest, took, last, rfl⟩ := settled.answered
  refine ⟨read, v, answer, rest, took, last, ?_⟩
  have fresh : n.fresh = true := by
    rcases heard (.inr settled.socket) settled.told with ⟨item, member, -⟩ | fresh
    · rw [settled.wire] at member
      cases member
    · exact fresh
  have begun : (read.seq, read.since) ∈ n.begun := by
    refine List.mem_append_right _ (List.mem_map.mpr ⟨(read, .made v answer), ?_, rfl⟩)
    rw [took]
    exact List.mem_cons_self
  exact (inv.bound _ begun).2.2 last fresh

theorem start_inv (id : String) (face : Face) (now : ℤ) : (Net.start face now).Inv id ∧ (Net.start face now).Heard := by
  have bare : ({ face, link := { frameAt := now } } : Net).Inv id :=
    ⟨by simp [begun], by simp [begun], by simp, by simp, rfl, fun _ _ _ _ took => by simp at took, .nil,
      fun did => by simp at did⟩
  have did : Link.Did { frameAt := now } [.read 1] ({ frameAt := now : Link }.readLineup now).1 :=
    .read (show _ = (LineupReads.start {} now).2 from rfl) rfl (.inl rfl)
  have inv := bare.did did rfl
  exact ⟨inv, fun _ told => by cases told⟩

end

end Net

namespace Link
variable {l : Link} {now : ℤ}

theorem backoff_le (attempt : ℕ) : backoffDelayMs attempt ≤ 30000 := by
  unfold backoffDelayMs
  split <;> decide

theorem recheck_due (unsettled : l.view.isFinal = false) (quiet : l.view.connects = false)
    (late : l.reads.lastAt + lineupRecheckMs ≤ now) : l.view.recheckDue now l.reads.lastAt = true := by
  have due : lineupRecheckMs ≤ now - l.reads.lastAt := by omega
  unfold LineupView.recheckDue
  rw [decide_eq_true due, Bool.and_true]
  cases view : l.view with
  | roster info =>
    rw [view] at quiet
    have out : info.playing = false := quiet
    simp [LineupView.notice, LineupView.unsure, out]
  | reading | rereading => rfl
  | legacy | unknown =>
    rw [view] at quiet
    cases quiet
  | signedOut | noPage =>
    rw [view] at unsettled
    cases unsettled

theorem tick_reads (due : l.view.recheckDue now l.reads.lastAt = true) : ∃ seq, .read seq ∈ (l.tick now).2 := by
  refine ⟨l.reads.issued + 1, ?_⟩
  unfold tick
  simp only [due, if_true, readLineup, LineupReads.start]
  split
  · exact List.mem_singleton.mpr rfl
  · exact List.mem_append_left _ (List.mem_append_left _ (List.mem_singleton.mpr rfl))

theorem reconnect_asks (l : Link) (now : ℤ) : ∃ ask ∈ (l.reconnect now).2, ask ≠ .checkToken := by
  unfold reconnect
  simp only
  split <;> exact ⟨_, List.mem_singleton.mpr rfl, by simp⟩

theorem tick_reconnects (connects : l.view.connects = true) (closed : l.socket = some .closed)
    (late : l.attemptAt + 30000 ≤ now) : ∃ ask ∈ (l.tick now).2, ask ≠ .checkToken := by
  have short := backoff_le l.attempt
  have due : reconnectStep now l.attemptAt l.attempt l.failures ≠ .wait := by
    unfold reconnectStep
    rw [if_neg (by omega)]
    split <;> simp
  unfold tick
  simp only [connects, closed, Bool.not_true, decide_eq_false due, ne_eq, not_true, decide_false, Bool.or_self,
    Bool.false_eq_true, if_false]
  obtain ⟨ask, member, acts⟩ := reconnect_asks
    (if l.view.recheckDue now l.reads.lastAt then l.readLineup now else (l, [])).1 now
  exact ⟨ask, List.mem_append_right _ member, acts⟩

end Link

theorem moving_of {l : Link} (acted : l.acted = some true → l.socket ≠ none) : Net.Moving l where
  reads unsettled quiet _ late := Link.tick_reads (Link.recheck_due unsettled quiet late)
  connects connects := by
    by_cases did : l.acted = some true
    · obtain ⟨state, socket⟩ := Option.ne_none_iff_exists'.mp (acted did)
      by_cases closed : state = .closed
      · exact .inr (.inr fun _ late => Link.tick_reconnects connects (closed ▸ socket) late)
      · exact .inr (.inl ⟨state, socket, closed⟩)
    · refine .inl fun now => ?_
      simp only [Link.effect, connects, if_neg did, if_true]
      exact List.mem_singleton.mpr rfl

/-- A page follows the band. In every run, with answers late, out of order or lost, sockets dropped
anywhere and the server changing at any time: once the read started last began after the last change
and was answered, the page shows what the server says now, which is so wherever an open socket's
page has nothing left to hear; no answer older than the start of a read taken before is ever taken;
and a page always has something to wait for. -/
theorem page_follows_band (id : String) (face : Face) (now : ℤ) {n : Net}
    (run : Leads (Net.step id) (fun _ _ => True) (Net.start face now) n) :
    (n.Answered n.version → n.Right id) ∧ (n.Settled → n.Right id) ∧ n.InOrder ∧ Net.Moving n.link := by
  obtain ⟨inv, heard⟩ : n.Inv id ∧ n.Heard :=
    run.invariant (I := fun n => n.Inv id ∧ n.Heard) (fun _ _ _ held _ moved => Net.step_inv held.1 held.2 moved)
      (Net.start_inv id face now)
  exact ⟨inv.right, fun settled => inv.right (settled.answered_now inv heard), inv.sorted, moving_of inv.acted⟩

def youth : Lineup := { Pages.wearing "anna" with id := "youth", main := false, name := "Youth" }

/-- Anna plays in both bands. -/
def twoBands (active : String) : Face where
  app :=
    { siteConfig := {}
      roster := some ⟨{ lineups := [Pages.wearing "anna", youth], people := [⟨"anna", "Anna", none⟩] }, "", active⟩ }
  engine := { mirror := .start }
  token := .valid ⟨"anna", false⟩

/-- A read the server answered before the switch is taken after it, by a page that reads anew; the
answer of the newer read puts that right. -/
def annasMoves : List Net.Move :=
  [.effect 0, .serve 0, .answer 0, .effect 1, .enter, .subscribe, .hear 2, .hear 3, .hear 4, .hear 5,
    .serve 0, .change (twoBands "youth"), .tell, .hear 6, .hear 7, .effect 8,
    .answer 0, .effect 9, .serve 1, .answer 1, .enter, .subscribe, .hear 10, .hear 11, .hear 12, .hear 13,
    .serve 0, .answer 0, .serve 0, .answer 0]

def annasRun : Option Net :=
  runThrough (Net.step "anna") (fun _ _ => true) (Net.start (twoBands "band") 0) annasMoves

/-- Whether the server's answer to the read started last was taken. -/
def Net.lastMade (n : Net) : Bool := n.taken.head?.any fun t => t.1.seq == n.link.reads.issued && match t.2 with
  | .made .. => true
  | .failed _ => false

theorem answered_of_lastMade {n : Net} (made : n.lastMade = true) : ∃ since, n.Answered since := by
  unfold Net.lastMade at made
  cases taken : n.taken with
  | nil => simp [taken] at made
  | cons t rest =>
    obtain ⟨read, answer⟩ := t
    rw [taken] at made
    cases answer with
    | failed e => simp at made
    | made v answer =>
      have last : read.seq = n.link.reads.issued := by simpa using made
      exact ⟨read.since, read, v, answer, rest, taken, last, rfl⟩

theorem page_follows_band_anna : ∃ n, annasRun = some n ∧ n.version = 1 ∧ n.Settled ∧ n.Right "anna" := by
  have ran : annasRun.isSome = true := by decide +kernel
  obtain ⟨n, ended⟩ := Option.isSome_iff_exists.mp ran
  have told : annasRun.map (fun n => (n.version, n.link.socket, n.untold, n.wire.isEmpty, n.lastMade)) =
      some (1, some .opened, false, true, true) := by decide +kernel
  rw [ended] at told
  simp only [Option.map_some, Option.some.injEq, Prod.mk.injEq, List.isEmpty_iff] at told
  obtain ⟨version, socket, untold, wire, made⟩ := told
  have settled : n.Settled := ⟨socket, untold, wire, answered_of_lastMade made⟩
  have run : Leads (Net.step "anna") (fun _ _ => True) (Net.start (twoBands "band") 0) n :=
    runThrough_leads (fun _ _ _ => trivial) ended
  exact ⟨n, ended, version, settled, (page_follows_band "anna" (twoBands "band") 0 run).2.1 settled⟩

end IemMixer.Ui
