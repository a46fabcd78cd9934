import IemMixer.Persist.Store

/-! The load chain: which file holds the state (`current.json`, an interrupted save
in `save.tmp`, a generation, the baseline), the revision past a live file that
could not be read, and the boot's recovery, which normalizes the directory to what
was loaded. -/
namespace IemMixer.Persist
open Lib Lib.Files Proto

inductive Source where
  | current
  /-- `save.tmp`: a save a crash cut off before its renames. -/
  | interrupted
  | generation (seq : UInt64)
  | baseline
  | defaults
  deriving DecidableEq, Repr

/-- What the chain found at a state file. -/
inductive FileState where
  | missing
  | unreadable
  | damaged
  | valid
  deriving DecidableEq, Repr

/-- How `readState` treats a file it cannot read: the boot rejects it and goes on,
the seed fails. -/
inductive Reading where
  | tolerant
  | strict
  deriving DecidableEq, Repr

/-- One state file, read and decoded. -/
inductive Read where
  | missing
  | unreadable
  | damaged
  | valid (p : Persisted)
  deriving DecidableEq

def Read.state : Read → FileState
  | .missing => .missing
  | .unreadable => .unreadable
  | .damaged => .damaged
  | .valid _ => .valid

/-- What a pick gathers besides its choice. -/
structure Pick where
  rejected : List (String × String) := []
  alarms : List String := []
  currentJson : FileState := .missing
  saveTmp : FileState := .missing
  /-- Live files that could not be read: the load continues above them. -/
  passedOver : List String := []
  /-- Pauses between read tries so far. -/
  paused : ℕ := 0

structure Loaded where
  persisted : Persisted
  source : Source
  /-- Files that exist but could not be used, and why. -/
  rejected : List (String × String)
  /-- Ids the topology no longer has. -/
  dropped : List String
  /-- Why the state loaded may be older than one the directory holds. -/
  alarms : List String
  currentJson : FileState
  saveTmp : FileState

/-- A live state, its source and its file. -/
structure Live where
  persisted : Persisted
  source : Source
  file : String

/-- How far a boot past an unreadable live file continues above the highest
revision the state loaded or any name shows. -/
def revJump : UInt64 := 1000000

/-- Reads of a file that fail with an error that may pass, before it counts as
unreadable. -/
def readTries : ℕ := 5

/-- Pauses between read tries in one load, all files together. -/
def readPauses : ℕ := 10

section
variable {β : Type} [Json β]

/-- `read_tried` with `left` tries after this one: the file's bytes (nothing: it
does not exist), and the pauses so far. -/
def readAgain (name : String) (left paused : ℕ) :
    StoreM β (Except IoError (Option β) × ℕ) := do
  match ← attempt (read name) with
  | .ok bytes => return (.ok (some bytes), paused)
  | .error e =>
    if e.kind = .notFound then return (.ok none, paused)
    else match left with
      | left + 1 =>
        if e.kind = .transient ∧ paused < readPauses then readAgain name left (paused + 1)
        else return (.error e, paused)
      | 0 => return (.error e, paused)

def readTried (name : String) (paused : ℕ) : StoreM β (Except IoError (Option β) × ℕ) :=
  readAgain name (readTries - 1) paused

/-- Reads and decodes a file. One that does not decode is rejected with the reason;
one that cannot be read too when tolerant, and is the error when strict. -/
def Store.readState (s : Store) (name : String) (pick : Pick) (reading : Reading) :
    StoreM β (Except IoError Read × Pick) := do
  let (bytes, paused) ← readTried (β := β) name pick.paused
  let pick := { pick with paused }
  match bytes with
  | .ok (some bytes) =>
    match decode bytes with
    | .ok p => return (.ok (.valid p), pick)
    | .error why =>
      return (.ok .damaged, { pick with rejected := pick.rejected ++ [(s.path name, why)] })
  | .ok none => return (.ok .missing, pick)
  | .error e =>
    if reading = .strict then return (.error ⟨e.kind, s!"{name} cannot be read: {e.text}"⟩, pick)
    else return (.ok .unreadable, { pick with
      alarms := pick.alarms ++ [s!"{name} cannot be read ({e.text}): the state loaded may be older"]
      rejected := pick.rejected ++ [(s.path name, e.text)] })

/-- Whether an interrupted save supersedes the state it competes with: a tie goes
to `save.tmp`. -/
def supersedes (interrupted other : Persisted) : Bool := other.rev ≤ interrupted.rev

/-- A `save.tmp` passed over for a lower revision: rejected, and named in an alarm. -/
def Store.passTmp (s : Store) (pick : Pick) (why alarm : String) : Pick :=
  { pick with
    rejected := pick.rejected ++ [(s.path Persist.saveTmp, why)]
    alarms := pick.alarms ++ [alarm] }

/-- `save.tmp` against a valid `current.json`. -/
def Store.againstCurrent (s : Store) (current : Persisted) (tmp : Read) (pick : Pick) :
    Live × Pick :=
  match tmp with
  | .valid tmp =>
    if supersedes tmp current then (⟨tmp, .interrupted, Persist.saveTmp⟩, pick)
    else
      (⟨current, .current, Persist.currentJson⟩, s.passTmp pick
        s!"revision {tmp.rev} is not newer than current.json's {current.rev}"
        (s!"{Persist.saveTmp} (revision {tmp.rev}) is older than {Persist.currentJson}'s " ++
          s!"{current.rev} and is not loaded"))
  | .missing | .unreadable | .damaged => (⟨current, .current, Persist.currentJson⟩, pick)

/-- The newest valid generation; the unreadable ones before it are passed over. -/
def Store.newestValid (s : Store) (reading : Reading) :
    List (UInt64 × String) → Pick →
      StoreM β (Except IoError (Option (Persisted × UInt64 × String)) × Pick)
  | [], pick => return (.ok none, pick)
  | (seq, name) :: older, pick => do
    let (found, pick) ← s.readState name pick reading
    match found with
    | .error e => return (.error e, pick)
    | .ok (.valid p) => return (.ok (some (p, seq, name)), pick)
    | .ok .unreadable =>
      s.newestValid reading older { pick with passedOver := pick.passedOver ++ [name] }
    | .ok _ => s.newestValid reading older pick

/-- `save.tmp` against the newest valid generation, `current.json` not being valid. -/
def Store.againstGeneration (s : Store) (tmp : Read) (newest : Option (Persisted × UInt64 × String))
    (unlisted : Option IoError) (pick : Pick) : Option Live × Pick :=
  match tmp, newest with
  | .valid tmp, some (generation, seq, file) =>
    if supersedes tmp generation then (some ⟨tmp, .interrupted, Persist.saveTmp⟩, pick)
    else
      (some ⟨generation, .generation seq, file⟩, s.passTmp pick
        s!"revision {tmp.rev} is not newer than generation {seq}'s {generation.rev}"
        (s!"{Persist.saveTmp} (revision {tmp.rev}) is older than generation {seq}'s " ++
          s!"{generation.rev} and is not loaded"))
  | .valid tmp, none =>
    -- Compared with nothing when the listing failed.
    let unsure := unlisted.toList.map fun e =>
      s!"save.tmp is loaded without comparing it with the generations, which cannot be listed ({e.text})"
    (some ⟨tmp, .interrupted, Persist.saveTmp⟩, { pick with alarms := pick.alarms ++ unsure })
  | _, some (generation, seq, file) => (some ⟨generation, .generation seq, file⟩, pick)
  | _, none => (none, pick)

/-- `current.json` is missing, unreadable or damaged. -/
def Store.pickFallback (s : Store) (tmp : Read) (pick : Pick) (reading : Reading) :
    StoreM β (Except IoError (Option Live) × Pick) := do
  match ← attempt s.generations with
  | .ok gens =>
    let (newest, pick) ← s.newestValid (β := β) reading gens.reverse pick
    match newest with
    | .error e => return (.error e, pick)
    | .ok newest =>
      let (live, pick) := s.againstGeneration tmp newest none pick
      return (.ok live, pick)
  | .error e =>
    if reading = .strict then return (.error e, pick)
    else
      let (live, pick) := s.againstGeneration tmp none (some e) { pick with
        rejected := pick.rejected ++ [(s.dir, s!"the generations cannot be listed: {e.text}")] }
      return (.ok live, pick)

/-- The live state, shared by `load` (tolerant) and the seed's `live` (strict). -/
def Store.pickLive (s : Store) (pick : Pick) (reading : Reading) :
    StoreM β (Except IoError (Option Live) × Pick) := do
  let (current, pick) ← s.readState (β := β) Persist.currentJson pick reading
  match current with
  | .error e => return (.error e, pick)
  | .ok current =>
    let pick := { pick with
      currentJson := current.state
      passedOver :=
        if current.state = .unreadable then pick.passedOver ++ [Persist.currentJson]
        else pick.passedOver }
    let (tmp, pick) ← s.readState (β := β) Persist.saveTmp pick reading
    match tmp with
    | .error e => return (.error e, pick)
    | .ok tmp =>
      let pick := { pick with saveTmp := tmp.state }
      match current with
      | .valid current =>
        let (live, pick) := s.againstCurrent current tmp pick
        return (.ok (some live), pick)
      | .missing | .unreadable | .damaged => s.pickFallback tmp pick reading

/-- The strict pick's source and file: the state the seed must keep. -/
def Store.live (s : Store) : StoreM β (Option (Source × String)) := do
  let (picked, _) ← s.pickLive (β := β) {} .strict
  let live ← lift picked
  return live.map fun live => (live.source, live.file)

/-- The live state the seed must keep, if any. -/
def Store.liveState (s : Store) : StoreM β (Option Source) := do
  let live ← s.live (β := β)
  return live.map (·.1)

/-- The name of the file it is in. -/
def Store.liveFile (s : Store) : StoreM β (Option String) := do
  let live ← s.live (β := β)
  return live.map (·.2)

/-- A loaded state, reconciled against the topology. -/
def settle (topo : Topology) (p : Persisted) (source : Source) (pick : Pick) : Loaded :=
  let (r, dropped) := reconcile topo p.state
  { persisted := { p with state := toState topo r }
    source
    rejected := pick.rejected
    dropped
    alarms := pick.alarms
    currentJson := pick.currentJson
    saveTmp := pick.saveTmp }

/-- The end of the chain: muted defaults. -/
def fresh (topo : Topology) (pick : Pick) : Loaded where
  persisted := { topologyHash := topo.hash, state := defaultsMuted topo }
  source := .defaults
  rejected := pick.rejected
  dropped := []
  alarms := pick.alarms
  currentJson := pick.currentJson
  saveTmp := pick.saveTmp

/-- The chain itself, and the live files it passed over. -/
def Store.loadChain (s : Store) (topo : Topology) : StoreM β (Loaded × List String) := do
  let (picked, pick) ← s.pickLive (β := β) {} .tolerant
  let (live, pick) := match picked with
    | .ok live => (live, pick)
    | .error e => (none, { pick with rejected := pick.rejected ++ [(s.dir, e.text)] })
  let passedOver := pick.passedOver
  match live with
  | some live => return (settle topo live.persisted live.source pick, passedOver)
  | none =>
    let (found, pick) ← s.readState (β := β) baselineJson pick .tolerant
    match found with
    | .ok (.valid p) => return (settle topo p .baseline pick, passedOver)
    | _ => return (fresh topo pick, passedOver)

/-- `saturating_add`. -/
def satAdd (a b : UInt64) : UInt64 := UInt64.ofNat (min (a.toNat + b.toNat) (2 ^ 64 - 1))

/-- `[one]` is itself, more are joined. -/
def namesOf : List String → String × String
  | [one] => (one, "it")
  | more => (" and ".intercalate more, "they")

/-- Continues the loaded revision above the highest one the state loaded or any
name shows, past the live files that could not be read, with an alarm. -/
def continueAbove (loaded : Loaded) (passedOver : List String) (listed : Except IoError Listing) :
    Loaded :=
  let (floor, unlisted) := match listed with
    | .ok listed => (listed.floor, [])
    | .error e =>
      (none, [s!"the revisions the state files' names show cannot be listed ({e.text})"])
  let base := floor.getD 0
  let rev := satAdd (if loaded.persisted.rev < base then base else loaded.persisted.rev) revJump
  let (names, it) := namesOf passedOver
  let shown := match floor with
    | some floor => s!" (the names show revision {floor} at most)"
    | none => ""
  { loaded with
    persisted := { loaded.persisted with rev }
    alarms := loaded.alarms ++ unlisted ++ [s!"{names} cannot be read, so the revision continues at " ++
        s!"{rev}, above anything {it} can hold{shown}"] }

/-- Names in an alarm each orphan that holds a revision above `own`. -/
def orphanAlarms (own : UInt64) : List (UInt32 × String) → StoreM β (List String)
  | [] => return []
  | (_, name) :: rest => do
    -- Each is read once, without the chain's pauses.
    let (bytes, _) ← readTried (β := β) name readPauses
    let alarms := match bytes with
      | .ok (some bytes) =>
        match decode bytes with
        | .ok orphan =>
          if own < orphan.rev then
            [s!"{name} (revision {orphan.rev}) is above the state loaded (revision {own}): " ++
                s!"a {Persist.saveTmp} moved aside, kept but never loaded"]
          else []
        | .error _ => []
      | .ok none => []
      | .error e =>
        [s!"{name} cannot be read ({e.text}): a {Persist.saveTmp} moved aside, it may hold " ++
            "a state above the one loaded"]
    return alarms ++ (← orphanAlarms own rest)

def orphansAbove (own : UInt64) (listed : Except IoError Listing) : StoreM β (List String) :=
  match listed with
  | .ok listed => orphanAlarms own listed.orphans
  | .error e =>
    return [s!"the state directory cannot be listed to look for a {Persist.saveTmp} moved aside " ++
        s!"above the state loaded ({e.text})"]

/-- The load chain: the live state, else the baseline, else muted defaults. -/
def Store.load (s : Store) (topo : Topology) : StoreM β Loaded := do
  let (loaded, passedOver) ← s.loadChain (β := β) topo
  -- An orphan is compared with the state loaded's own revision, never the jumped one.
  let own := loaded.persisted.rev
  let listed ← attempt s.list
  let loaded := if passedOver.isEmpty then loaded else continueAbove loaded passedOver listed
  let orphans ← orphansAbove own listed
  return { loaded with alarms := loaded.alarms ++ orphans }

/-- What the recovery did to the state directory at boot. -/
structure Recovery where
  quarantined : Option String := none
  finished : Bool := false
  failed : List String := []
  warnings : List String := []
  deriving DecidableEq

/-- A damaged `current.json` is moved aside. -/
def Store.quarantine (s : Store) (loaded : Loaded) : StoreM β Recovery :=
  if loaded.currentJson = .damaged then do
    match ← attempt (s.moveAside Persist.currentJson "damaged") with
    | .ok (aside, synced) =>
      return {
        quarantined := some aside
        failed := match synced with
          | .ok () => []
          | .error e => [s!"the damaged {Persist.currentJson} was moved aside to {s.path aside}, " ++
                s!"but the directory sync failed: {e.text}"] }
    | .error e =>
      return { failed := [s!"the damaged {Persist.currentJson} could not be moved aside: {e.text}"] }
  else return {}

/-- `save`'s commit of the `save.tmp` the boot loaded at `rev`. -/
def Store.finishInterrupted (s : Store) (rev : UInt64) : StoreM β Committed := do
  syncFile Persist.saveTmp
  s.commitTmp rev

/-- A boot on `save.tmp` finishes that save, unless `current.json` cannot be read. -/
def Store.finish (s : Store) (loaded : Loaded) (done : Recovery) : StoreM β Recovery :=
  if loaded.source = .interrupted ∧ loaded.currentJson = .unreadable then
    return { done with warnings := done.warnings ++
      [s!"the interrupted save stays in {Persist.saveTmp}: {Persist.currentJson} cannot be read, " ++
          "and recovery never moves it"] }
  else if loaded.source = .interrupted then do
    match ← attempt (s.finishInterrupted loaded.persisted.rev) with
    | .ok committed =>
      return { done with
        finished := true
        warnings := done.warnings ++
          committed.pruning.toList.map fun why => s!"old generations were not removed: {why}" }
    | .error e =>
      return { done with
        failed := done.failed ++ [s!"finishing the interrupted save failed: {e.text}"] }
  else return done

/-- Normalizes the state directory to `loaded` before the engine runs. -/
def Store.recover (s : Store) (loaded : Loaded) : StoreM β Recovery := do
  -- `save.tmp` is this store's to replace only when it is the state loaded, or there is none.
  remember (loaded.saveTmp = .missing || loaded.source = .interrupted)
  let done ← s.quarantine loaded
  s.finish loaded done

end

end IemMixer.Persist
