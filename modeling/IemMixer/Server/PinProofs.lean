import IemMixer.Server.Auth

/-! Removed people and the PIN changes under way while they are removed. -/
namespace IemMixer.Server
open Lib

namespace PinStore

/-- The file on the disk has the members' hashes in use. -/
def Saved (s : PinStore) : Prop := s.disk.members = s.file.members

variable {s s' : PinStore} {id : String} {write : Write}

theorem withMember_back (phc : Option String) : (s.withMember id phc).withMember id (s.memberHash id) = s := by
  have same : ((s.withMember id phc).withMember id (s.memberHash id)).file.members = s.file.members := by
    refine Std.ExtTreeMap.ext_getElem? fun k => ?_
    unfold withMember memberHash
    cases old : s.file.members[id]? <;> cases phc <;>
      simp only [BTreeMap.getElem?_insert_eq, BTreeMap.getElem?_erase_eq] <;> grind
  cases s
  simp only [withMember, PinStore.mk.injEq, and_true] at same ⊢
  rw [same]

/-- A write that failed leaves the store as it was. -/
theorem removeMember_error {e : PinError} (failed : (s.removeMember id write).1 = .error e) :
    (s.removeMember id write).2 = s := by
  unfold removeMember at failed ⊢
  split
  · rfl
  · cases old : s.memberHash id with
    | none => rfl
    | some phc =>
      simp only
      split
      · rename_i written
        simp [*] at failed
      · rw [← old]
        exact withMember_back none

/-- Fewer hashes, and the file on the disk with them. -/
structure Fewer (s s' : PinStore) : Prop where
  saved : s'.Saved
  hashes : ∀ id, s.memberHash id = none → s'.memberHash id = none

theorem Fewer.refl (saved : s.Saved) : s.Fewer s := ⟨saved, fun _ => id⟩

theorem Fewer.trans {s'' : PinStore} (first : s.Fewer s') (next : s'.Fewer s'') : s.Fewer s'' :=
  ⟨next.saved, fun id none => next.hashes id (first.hashes id none)⟩

theorem removeMember_spec (id : String) (write : Write) (saved : s.Saved) :
    s.Fewer (s.removeMember id write).2 ∧
      ∀ was, (s.removeMember id write).1 = .ok was → (s.removeMember id write).2.memberHash id = none := by
  cases result : (s.removeMember id write).1 with
  | error e =>
    rw [removeMember_error result]
    exact ⟨.refl saved, nofun⟩
  | ok was =>
    unfold removeMember at result ⊢
    split
    · simp [*] at result
    · cases old : s.memberHash id with
      | none => exact ⟨.refl saved, fun _ _ => old⟩
      | some phc =>
        cases write with
        | error text => simp_all [save]
        | ok =>
          refine ⟨⟨rfl, fun other none => ?_⟩, fun _ _ => ?_⟩
          · simp only [save, withMember, memberHash] at none ⊢
            rw [BTreeMap.getElem?_erase_eq, none, ite_self]
          · simp [save, withMember, memberHash]

theorem dropArchived_spec (write : Write) (saved : s.Saved) : s.Fewer (s.dropArchived write).2 := by
  unfold dropArchived
  split
  · exact .refl saved
  · cases write with
    | error text => exact .refl saved
    | ok => exact ⟨rfl, fun _ => id⟩

/-- Another member's hash is as it was. -/
theorem setMemberHash_spec (id phc : String) (write : Write) (saved : s.Saved) :
    (s.setMemberHash id phc write).2.Saved ∧
      ∀ other ≠ id, (s.setMemberHash id phc write).2.memberHash other = s.memberHash other := by
  unfold setMemberHash
  split
  · exact ⟨saved, fun _ _ => rfl⟩
  · cases write with
    | error text =>
      have back : (s.withMember id (some phc)).withMember id (s.memberHash id) = s := withMember_back (some phc)
      simp only [save, back]
      exact ⟨saved, fun _ _ => trivial⟩
    | ok =>
      refine ⟨rfl, fun other apart => ?_⟩
      simp only [save, withMember, memberHash]
      rw [BTreeMap.getElem?_insert_eq, if_neg (Ne.symm apart)]

theorem setEngineerHash_spec (phc : String) (write : Write) (saved : s.Saved) :
    (s.setEngineerHash phc write).2.Saved ∧ ∀ id, (s.setEngineerHash phc write).2.memberHash id = s.memberHash id := by
  unfold setEngineerHash
  split
  · exact ⟨saved, fun _ => rfl⟩
  · cases write with
    | error text => exact ⟨saved, fun _ => rfl⟩
    | ok => exact ⟨rfl, fun _ => rfl⟩

end PinStore

section
variable {pins : PinStore} {id : String} {d : Deletion}

/-- A removal that ended well left no hash, and was not the engineer's. -/
theorem removePerson_spec (id : String) (d : Deletion) (saved : pins.Saved) :
    pins.Fewer (removePerson pins id d).2 ∧
      ∀ was, (removePerson pins id d).1 = .ok was → (removePerson pins id d).2.memberHash id = none ∧ id ≠ engineerId := by
  have spec := PinStore.removeMember_spec id d.write saved
  unfold removePerson
  split
  · exact ⟨.refl saved, nofun⟩
  · cases removal : pins.removeMember id d.write with
    | mk result pins' =>
      rw [removal] at spec
      cases result with
      | error e => exact ⟨spec.1, nofun⟩
      | ok was =>
        have human : id ≠ engineerId := by
          rintro rfl
          unfold PinStore.removeMember at removal
          have refused : ∃ e, checkMember engineerId = .error e := ⟨_, by rfl⟩
          obtain ⟨e, refused⟩ := refused
          rw [refused] at removal
          cases removal
        cases d.files with
        | error text => exact ⟨spec.1, nofun⟩
        | ok found => exact ⟨spec.1, fun _ _ => ⟨spec.2 was rfl, human⟩⟩

/-- The ids of `gone` have no hash and are nobody of `r`. -/
structure Departed (r : Roster) (pins : PinStore) (gone : List String) : Prop where
  hashes : ∀ id ∈ gone, pins.memberHash id = none
  human : ∀ id ∈ gone, id ≠ engineerId
  out : ∀ id ∈ gone, r.person id = none

private theorem Departed.fewer {r : Roster} {pins' : PinStore} {gone : List String} (left : Departed r pins gone)
    (fewer : pins.Fewer pins') : Departed r pins' gone :=
  ⟨fun id member => fewer.hashes id (left.hashes id member), left.human, left.out⟩

private theorem Departed.add {r : Roster} {gone : List String} (left : Departed r pins gone) (none : pins.memberHash id = none)
    (human : id ≠ engineerId) (out : r.person id = .none) : Departed r pins (gone ++ [id]) := by
  refine ⟨fun x member => ?_, fun x member => ?_, fun x member => ?_⟩ <;>
    rcases List.mem_append.mp member with before | last
  · exact left.hashes x before
  · exact List.mem_singleton.mp last ▸ none
  · exact left.human x before
  · exact List.mem_singleton.mp last ▸ human
  · exact left.out x before
  · exact List.mem_singleton.mp last ▸ out

private theorem followPerson_spec {r : Roster} (work : Work) {out : People} (id : String) (saved : pins.Saved)
    (left : Departed r pins out.gone) :
    pins.Fewer (followPerson r work (out, pins) id).2 ∧
      Departed r (followPerson r work (out, pins) id).2 (followPerson r work (out, pins) id).1.gone := by
  unfold followPerson
  dsimp only
  split
  · exact ⟨.refl saved, left⟩
  rename_i nobody
  obtain ⟨human, out⟩ := not_or.mp nobody
  split
  · exact ⟨.refl saved, left⟩
  have spec := removePerson_spec id (work.deletion id) saved
  cases removal : removePerson pins id (work.deletion id) with
  | mk result pins' =>
    rw [removal] at spec
    cases result with
    | error e => exact ⟨spec.1, left.fewer spec.1⟩
    | ok any =>
      exact ⟨spec.1, (left.fewer spec.1).add (spec.2 any rfl).1 human (by simpa using out)⟩

/-- Whoever is removed has no hash and is nobody of the roster. -/
theorem followPeople_spec {r : Roster} (removed : List String) (work : Work) (saved : pins.Saved) :
    pins.Fewer (followPeople r pins removed work).2 ∧
      Departed r (followPeople r pins removed work).2 (followPeople r pins removed work).1.gone := by
  have dropped := PinStore.dropArchived_spec work.archived saved
  unfold followPeople
  dsimp only
  generalize (lookedThrough removed _ _) = ids
  generalize hout : ({ problems := _ } : People) = out
  have none : Departed r (pins.dropArchived work.archived).2 out.gone := by
    subst hout
    exact ⟨nofun, nofun, nofun⟩
  generalize (pins.dropArchived work.archived).2 = between at dropped none
  clear hout
  induction ids generalizing out between with
  | nil => exact ⟨dropped, none⟩
  | cons id rest ih =>
    obtain ⟨fewer, left⟩ := followPerson_spec work id dropped.saved none
    exact ih _ _ (dropped.trans fewer) left

theorem removeFormer_spec {r : Roster} (deletion : String → Deletion) (former : List String) {gone : List String}
    (saved : pins.Saved)
    (left : Departed r pins gone) :
    pins.Fewer (Auth.removeFormer r deletion former (gone, pins)).2.2 ∧
      Departed r (Auth.removeFormer r deletion former (gone, pins)).2.2
        (Auth.removeFormer r deletion former (gone, pins)).2.1 := by
  induction former generalizing gone pins with
  | nil => exact ⟨.refl saved, left⟩
  | cons id rest ih =>
    unfold Auth.removeFormer
    split
    · exact ih saved left
    rename_i out
    have spec := removePerson_spec id (deletion id) saved
    cases removal : removePerson pins id (deletion id) with
    | mk result pins' =>
      rw [removal] at spec
      cases result with
      | error e => exact ⟨spec.1, left.fewer spec.1⟩
      | ok any =>
        obtain ⟨none, human⟩ := spec.2 any rfl
        obtain ⟨fewer, after⟩ := ih spec.1.saved ((left.fewer spec.1).add none human (by simpa using out))
        exact ⟨spec.1.trans fewer, after⟩

end

/-- The target of a PIN change that was found to be somebody, and when. -/
def Phase.target : Phase → Option (String × ℕ)
  | .oldRead c _ checked | .oldHash c _ checked _ | .oldDone c _ checked _ => some (c.claims.sub, checked)
  | .newHash target _ checked | .newDone target _ checked => some (target, checked)
  | _ => none

namespace Auth

/-- Whom the requests' targets were checked against: the roster in use, or one before. -/
structure Inv (a : Auth) : Prop where
  saved : a.pins.Saved
  lost : ∀ id ∈ a.lost, a.pins.memberHash id = none
  human : ∀ id ∈ a.lost, id ≠ engineerId
  out : ∀ r, a.roster = some r → ∀ id ∈ a.lost, r.person id = none
  checked : ∀ (n : ℕ) (phase : Phase), a.requests[n]? = some phase → ∀ target k, phase.target = some (target, k) →
    k ≤ a.rosters ∧ (k = a.rosters → target = engineerId ∨ a.memberExists target = true)

/-- No request is under way, and nobody was removed yet. -/
structure Starts (a : Auth) : Prop where
  saved : a.pins.Saved
  requests : a.requests = ∅
  lost : a.lost = []

/-- A PIN change that stores the hash of somebody whose removal ended well, whom no roster put in
use since holds, found its target to be somebody of the roster in use. -/
def Fair (a : Auth) : Move → Prop
  | .store n _ => ∀ target phc k, a.requests[n]? = some (.newDone target phc k) → target ∈ a.lost →
    a.roster.isSome = true ∧ k = a.rosters
  | _ => True

variable {a a' : Auth} {n : ℕ} {out : Option Response}

theorem Starts.inv (starts : a.Starts) : a.Inv where
  saved := starts.saved
  lost id member := by rw [starts.lost] at member; cases member
  human id member := by rw [starts.lost] at member; cases member
  out r _ id member := by rw [starts.lost] at member; cases member
  checked n phase found := by
    rw [starts.requests] at found
    simp at found

/-- Fewer requests, or other phases of the same targets. -/
private theorem Inv.of (inv : a.Inv) (pins : a'.pins = a.pins) (lost : a'.lost = a.lost) (roster : a'.roster = a.roster)
    (site : a'.site = a.site) (rosters : a'.rosters = a.rosters)
    (requests : ∀ (n : ℕ) (phase : Phase), a'.requests[n]? = some phase → ∀ target k, phase.target = some (target, k) →
      (∃ before, a.requests[n]? = some before ∧ before.target = some (target, k)) ∨
        k = a.rosters ∧ (target = engineerId ∨ a.memberExists target = true)) : a'.Inv where
  saved := by rw [pins]; exact inv.saved
  lost := by rw [pins, lost]; exact inv.lost
  human := by rw [lost]; exact inv.human
  out := by rw [roster, lost]; exact inv.out
  checked n phase found target k aims := by
    have same : a'.memberExists target = a.memberExists target := by
      unfold memberExists
      rw [roster, site]
    rw [rosters, same]
    rcases requests n phase found target k aims with ⟨before, held, was⟩ | ⟨rfl, somebody⟩
    · exact inv.checked n before held target k was
    · exact ⟨le_rfl, fun _ => somebody⟩

private theorem Inv.goes (inv : a.Inv) {phase : Phase}
    (aims : ∀ target k, phase.target = some (target, k) →
      (∃ before, a.requests[n]? = some before ∧ before.target = some (target, k)) ∨
        k = a.rosters ∧ (target = engineerId ∨ a.memberExists target = true))
    (moved : a.goes n phase = some (a', out)) : a'.Inv := by
  cases moved
  refine inv.of rfl rfl rfl rfl rfl fun m p found target k was => ?_
  rw [BTreeMap.getElem?_insert_eq] at found
  split at found
  · cases found
    rename_i same
    rw [← same]
    exact aims target k was
  · exact .inl ⟨p, found, was⟩

private theorem Inv.answers (inv : a.Inv) {reply : Response} (moved : a.answers n reply = some (a', out)) : a'.Inv := by
  cases moved
  refine inv.of rfl rfl rfl rfl rfl fun m p found target k was => ?_
  rw [BTreeMap.getElem?_erase_eq] at found
  split at found
  · cases found
  · exact .inl ⟨p, found, was⟩

/-- The guard, the gate and the failures counted are nothing to it. -/
private theorem Inv.aside (inv : a.Inv) (guard : LoginGuard.Guard) (gate : HashGate) (counted : List (LoginGuard.ClientKey × ℕ))
    (clock : ℕ) : { a with guard, gate, counted, clock }.Inv :=
  ⟨inv.saved, inv.lost, inv.human, inv.out, inv.checked⟩

private theorem Inv.login (inv : a.Inv) {client : LoginGuard.ClientKey} {member pin : String}
    (moved : a.login n client member pin = some (a', out)) : a'.Inv := by
  have checked (guard : LoginGuard.Guard) := inv.aside guard a.gate a.counted a.clock
  unfold Auth.login at moved
  cases verdict : a.guard.check client member a.clock with
  | mk result guard =>
    rw [verdict] at moved
    cases result with
    | error wait => exact (checked guard).answers moved
    | ok =>
      dsimp only at moved
      split at moved
      · exact (checked guard).answers moved
      · refine (checked guard).goes ?_ moved
        rintro _ _ ⟨⟩

private theorem Inv.admission (inv : a.Inv) {c : ChangePin} (moved : a.admission n c = some (a', out)) : a'.Inv := by
  unfold Auth.admission at moved
  split at moved
  · exact inv.answers moved
  rename_i known
  split at moved
  · exact inv.answers moved
  split at moved
  · dsimp only at moved
    split at moved
    · exact inv.answers moved
    split at moved
    · exact inv.answers moved
    rename_i somebody
    refine inv.goes (fun target k aims => .inr ?_) moved
    cases aims
    exact ⟨rfl, by simpa [imp_iff_not_or] using somebody⟩
  · rename_i member
    split at moved
    · exact inv.answers moved
    cases verdict : a.guard.check c.client c.claims.sub a.clock with
    | mk result guard =>
      have checked := inv.aside guard a.gate a.counted a.clock
      rw [verdict] at moved
      cases result with
      | error wait => exact checked.answers moved
      | ok =>
        refine checked.goes (fun target k aims => .inr ?_) moved
        cases aims
        simp only [subjectKnown, member, Bool.false_or, Bool.not_eq_true', Bool.not_eq_false] at known
        exact ⟨rfl, .inr known⟩

private theorem Inv.read (inv : a.Inv) {phase : Phase} (held : a.requests[n]? = some phase)
    (moved : a.read n phase = some (a', out)) : a'.Inv := by
  cases phase with
  | loginRead r =>
    refine inv.goes ?_ moved
    rintro _ _ ⟨⟩
  | oldRead c arrived checked =>
    refine inv.goes ?_ moved
    exact fun target k aims => .inl ⟨_, held, aims⟩
  | _ => cases moved

private theorem Inv.finish (inv : a.Inv) {phase : Phase} (held : a.requests[n]? = some phase)
    (moved : a.finish n phase = some (a', out)) : a'.Inv := by
  have counts (guard : LoginGuard.Guard) (counted : List (LoginGuard.ClientKey × ℕ)) :=
    inv.aside guard a.gate counted a.clock
  cases phase with
  | loginDone r matched => cases matched <;> exact (counts _ _).answers moved
  | oldDone c arrived checked ok =>
    cases ok with
    | false => exact (counts _ _).answers moved
    | true =>
      refine (counts _ a.counted).goes ?_ moved
      exact fun target k aims => .inl ⟨_, held, aims⟩
  | _ => cases moved

variable [Argon2]

private theorem target_hashed (salt : String) (phase : Phase) : (hashed salt phase).target = phase.target := by
  cases phase <;> rfl

private theorem Inv.hash (inv : a.Inv) (gate : HashGate) (n : ℕ) (salt : String) :
    { a with gate, requests := a.requests.modify n (hashed salt) }.Inv := by
  refine inv.of rfl rfl rfl rfl rfl fun m p found target k was => .inl ?_
  rw [Std.ExtTreeMap.getElem?_modify] at found
  split at found
  · obtain ⟨before, held, rfl⟩ := Option.map_eq_some_iff.mp found
    rename_i same
    rw [Std.compare_eq_iff_eq] at same
    subst same
    exact ⟨before, held, target_hashed salt before ▸ was⟩
  · exact ⟨p, found, was⟩

omit [Argon2] in
/-- A stored hash is nobody's who was removed. -/
private theorem Inv.store (inv : a.Inv) {write : Write} {phase : Phase} (held : a.requests[n]? = some phase)
    (fair : a.Fair (.store n write)) (moved : a.store n write phase = some (a', out)) : a'.Inv := by
  cases phase with
  | newDone target phc k =>
    -- The new hashes: the target's own, which is not among those removed.
    have stored {pins : PinStore} (saved : pins.Saved) (same : ∀ id ∈ a.lost, pins.memberHash id = a.pins.memberHash id) :
        { a with pins }.Inv :=
      ⟨saved, fun id lost => (same id lost).trans (inv.lost id lost), inv.human, inv.out, inv.checked⟩
    refine Inv.answers ?_ moved
    split
    · have spec := PinStore.setEngineerHash_spec phc write inv.saved
      exact stored spec.1 fun id _ => spec.2 id
    · rename_i member
      have spec := PinStore.setMemberHash_spec target phc write inv.saved
      refine stored spec.1 fun id lost => spec.2 id ?_
      rintro rfl
      obtain ⟨some, rfl⟩ := fair id phc k held lost
      obtain ⟨r, inUse⟩ := Option.isSome_iff_exists.mp some
      have somebody := ((inv.checked n _ held id _ rfl).2 rfl).resolve_left member
      have nobody := inv.out r inUse id lost
      simp [memberExists, inUse, nobody, member] at somebody
  | _ => cases moved

omit [Argon2] in
private theorem Inv.setRoster (inv : a.Inv) (r : Roster) (watch : Watch) : { a.setRoster r with watch }.Inv where
  saved := inv.saved
  lost id member := inv.lost id (List.mem_of_mem_filter member)
  human id member := inv.human id (List.mem_of_mem_filter member)
  out r' same id member := by
    cases same
    simpa using (List.mem_filter.mp member).2
  checked n phase found target k aims := by
    have before := (inv.checked n phase found target k aims).1
    refine ⟨Nat.le_succ_of_le before, fun now => ?_⟩
    change k = a.rosters + 1 at now
    omega

omit [Argon2] in
/-- More people are removed, with nobody of a roster in use among them. -/
private theorem Inv.removes (inv : a.Inv) {pins : PinStore} {gone : List String} {r : Roster} (watch : Watch)
    (fewer : a.pins.Fewer pins) (left : Departed r pins gone) (inUse : ∀ r', a.roster = some r' → r' = r) :
    { a with pins, lost := a.lost ++ gone, watch }.Inv where
  saved := fewer.saved
  lost id member := (List.mem_append.mp member).elim (fun old => fewer.hashes id (inv.lost id old)) (left.hashes id)
  human id member := (List.mem_append.mp member).elim (inv.human id) (left.human id)
  out r' now id member := by
    obtain rfl := inUse r' now
    exact (List.mem_append.mp member).elim (inv.out r' now id) (left.out id)
  checked := inv.checked

omit [Argon2] in
private theorem Inv.adopt (inv : a.Inv) {r : Roster} {former : List String} {deletion : String → Deletion} {fine : Bool}
    {work : Work} (noneInUse : a.roster = none) : (a.adopt r former deletion fine work).Inv := by
  have inUse : ∀ r', a.roster = some r' → r' = r := by simp [noneInUse]
  obtain ⟨fewer, left⟩ := removeFormer_spec (r := r) deletion former inv.saved
    (⟨nofun, nofun, nofun⟩ : Departed r _ [])
  unfold Auth.adopt
  generalize removeFormer r deletion former ([], a.pins) = migration at fewer left
  obtain ⟨migrated, gone, pins⟩ := migration
  have former := inv.removes a.watch fewer left inUse
  dsimp only
  split
  · exact former
  · obtain ⟨fewer', left'⟩ := followPeople_spec (r := r) [] work fewer.saved
    exact former.removes (.adopted r) fewer' left' inUse

theorem Inv.move (inv : a.Inv) {m : Move} (fair : a.Fair m) (moved : a.move m = some (a', out)) : a'.Inv := by
  cases m with
  | pass time =>
    cases moved
    exact inv.aside a.guard a.gate a.counted _
  | login n client member pin =>
    simp only [Auth.move] at moved
    split at moved
    · exact inv.login moved
    · cases moved
  | change n c =>
    simp only [Auth.move] at moved
    split at moved
    · refine inv.goes ?_ moved
      rintro _ _ ⟨⟩
    · cases moved
  | admission n =>
    simp only [Auth.move] at moved
    split at moved
    · exact inv.admission moved
    · cases moved
  | read n =>
    obtain ⟨phase, held, moved⟩ := Option.bind_eq_some_iff.mp moved
    exact inv.read held moved
  | acquire n =>
    obtain ⟨phase, held, moved⟩ := Option.bind_eq_some_iff.mp moved
    split at moved
    · split at moved
      · cases moved
        exact inv.aside a.guard _ a.counted a.clock
      · exact inv.answers moved
    · cases moved
  | grant n =>
    obtain ⟨gate, -, same⟩ := Option.map_eq_some_iff.mp moved
    cases same
    exact inv.aside a.guard gate a.counted a.clock
  | hash n salt =>
    simp only [Auth.move] at moved
    split at moved
    · cases moved
      exact inv.hash _ n salt
    · cases moved
  | crash n =>
    simp only [Auth.move] at moved
    split at moved
    · exact (inv.aside a.guard _ a.counted a.clock).answers moved
    · cases moved
  | finish n =>
    obtain ⟨phase, held, moved⟩ := Option.bind_eq_some_iff.mp moved
    exact inv.finish held moved
  | store n write =>
    obtain ⟨phase, held, moved⟩ := Option.bind_eq_some_iff.mp moved
    exact inv.store held fair moved
  | leave n =>
    cases moved
    exact ((inv.aside a.guard (a.gate.cancel n) a.counted a.clock).answers (rfl : Auth.answers _ n .ok = _))
  | adopt r former deletion fine work =>
    simp only [Auth.move] at moved
    split at moved
    · rename_i noneInUse
      cases moved
      exact inv.adopt noneInUse
    · cases moved
  | takeFirst =>
    simp only [Auth.move] at moved
    split at moved
    · cases moved
      exact inv.setRoster _ _
    · cases moved
  | reload r =>
    simp only [Auth.move] at moved
    split at moved
    · cases moved
      exact inv.setRoster _ _
    · cases moved
  | follow work =>
    simp only [Auth.move] at moved
    split at moved
    · rename_i removed r _ inUse
      cases moved
      obtain ⟨fewer, left⟩ := followPeople_spec (r := r) removed work inv.saved
      exact inv.removes .rest fewer left fun r' now => by rw [inUse] at now; exact (Option.some.inj now).symm
    · cases moved

/-- In a run where every PIN change that stores the hash of a removed person was checked against
the roster in use, the store has no hash of anybody whose removal ended well and whom no roster
put in use since holds, in memory or on the disk. -/
theorem removed_people_own_no_pin (start a : Auth) (starts : start.Starts) (run : Reaches Fair start a) (id : String)
    (lost : id ∈ a.lost) : a.pins.memberHash id = none ∧ a.pins.disk.members[id]? = none := by
  have inv : a.Inv := by
    clear lost
    induction run with
    | refl => exact starts.inv
    | tail _ last ih =>
      obtain ⟨m, out, fair, moved⟩ := last
      exact ih.move fair moved
  have none := inv.lost id lost
  exact ⟨none, by rw [inv.saved]; exact none⟩

omit [Argon2] in
/-- `Fair`, to evaluate. -/
private theorem fair_of {a : Auth} {m : Move} (fine : (match m with
    | .store n _ => match a.requests[n]? with
      | some (.newDone target _ k) => !a.lost.contains target || (a.roster.isSome && k == a.rosters)
      | _ => true
    | _ => true) = true) : a.Fair m := by
  cases m with
  | store n write =>
    intro target phc k held lost
    simp only [held] at fine
    simpa [lost] using fine
  | _ => exact trivial

end Auth

def withAna : Roster := { lineups := [], people := [⟨"ana", "Ana", none⟩, ⟨"ben", "Ben", none⟩] }

def withoutAna : Roster := { lineups := [], people := [⟨"ben", "Ben", none⟩] }

/-- A band with Ana, who has a PIN. -/
def anasBand : Auth where
  site := ["engineer", "ana", "ben"]
  roster := some withAna
  pins := ⟨{ members := .ofList [("ana", "$argon2id$1111")] }, { members := .ofList [("ana", "$argon2id$1111")] }⟩

/-- The engineer's change of Ana's PIN. -/
def anasPin : ChangePin :=
  { client := ⟨.lan, 1⟩, claims := ⟨"engineer", true⟩, oldPin := none, newPin := "2222", member := some "ana" }

namespace Auth

attribute [local instance] plainArgon2

/-- A change that was answered before Ana was removed. -/
theorem removed_people_own_no_pin_ana : ∃ a, Reaches Fair anasBand a ∧ "ana" ∈ a.lost ∧ a.pins.memberHash "ana" = none := by
  have ran : (anasBand.run (fun a m => match m with
      | .store n _ => match a.requests[n]? with
        | some (.newDone target _ k) => !a.lost.contains target || (a.roster.isSome && k == a.rosters)
        | _ => true
      | _ => true) [.change 1 anasPin, .admission 1, .acquire 1, .hash 1 "s", .store 1 (.ok ()), .reload withoutAna,
      .follow {}]).any (fun a => a.lost.contains "ana") = true := by decide +kernel
  obtain ⟨a, reached, lost⟩ := (Option.any_eq_true _ _).mp ran
  rw [List.contains_iff_mem] at lost
  have run : Reaches Fair anasBand a := reaches_run (fun _ _ => fair_of) reached
  have starts : anasBand.Starts := ⟨rfl, rfl, rfl⟩
  exact ⟨a, run, lost, (removed_people_own_no_pin anasBand a starts run "ana" lost).1⟩

/-- The change is checked, Ana is removed, and then the new hash is stored: it stays. -/
theorem hash_stored_after_removal : ¬ ∀ a, Reaches (fun _ _ => True) anasBand a → a.requests.isEmpty = true →
    ∀ id ∈ a.lost, a.pins.memberHash id = none := by
  intro none
  have ran : (anasBand.run (fun _ _ => true) [.change 1 anasPin, .admission 1, .acquire 1, .reload withoutAna, .follow {},
      .hash 1 "s", .store 1 (.ok ())]).any (fun a => a.requests.isEmpty && a.lost.contains "ana" &&
        (a.pins.memberHash "ana").isSome) = true := by decide +kernel
  obtain ⟨a, reached, facts⟩ := (Option.any_eq_true _ _).mp ran
  simp only [Bool.and_eq_true, List.contains_iff_mem] at facts
  obtain ⟨⟨answered, lost⟩, held⟩ := facts
  rw [none a (reaches_run (fun _ _ _ => trivial) reached) answered "ana" lost] at held
  cases held

end Auth

end IemMixer.Server
