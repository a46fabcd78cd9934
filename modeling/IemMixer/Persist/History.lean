import IemMixer.Persist.SaveProofs
import IemMixer.TopologyProofs

/-! Histories of a state directory: processes one after another, each loading,
recovering and saving until it ends or crashes, every step failing as it may. -/
namespace IemMixer.Persist
open Lib Lib.Files Proto

/-- What a process does with its store. A boot is a load and the recovery to it. -/
inductive Act where
  | boot
  | load
  | save (p : Persisted)

section
variable {β : Type} [Json β]

def Store.act (s : Store) (topo : Topology) : Act → StoreM β Unit
  | .boot => do
    let loaded ← s.load topo
    let _ ← s.recover loaded
  | .load => do
    let _ ← s.load topo
  | .save p => do
    let _ ← s.save p

/-- A directory with the process on it, and the state of the last save whose rename
over `save.tmp` succeeded. -/
structure Session (β : Type) where
  world : World β Bool
  accepted : Option Persisted

/-- Whether a save's rename over `save.tmp` succeeds. -/
def Store.accepts (s : Store) (o : Oracle β) (w : World β Bool) (p : Persisted) : Bool :=
  match s.place p o w with
  | .ok _ _ => true
  | .error _ _ => false

def Session.after (x : Session β) (s : Store) (topo : Topology) (o : Oracle β) (a : Act) :
    Session β where
  world := Files.world (s.act topo a o x.world)
  accepted := match a with
    | .save p => if s.accepts o x.world p then some p else x.accepted
    | .boot | .load => x.accepted

/-- One process: an error ends an act, a crash the process. -/
def Session.life (x : Session β) (s : Store) (topo : Topology) (o : Oracle β) : List Act → Session β
  | [] => x
  | a :: rest =>
    if crashed (s.act topo a o x.world) then x.after s topo o a
    else (x.after s topo o a).life s topo o rest

/-- A new process knows no `save.tmp` as its own. -/
def Session.restart (x : Session β) : Session β := { x with world := { x.world with mem := false } }

/-- Processes one after another. -/
def Session.history (x : Session β) (s : Store) (topo : Topology) (o : Oracle β) :
    List (List Act) → Session β
  | [] => x
  | acts :: rest => (x.restart.life s topo o acts).history s topo o rest

variable {o : Oracle β} {s : Store} {topo : Topology}

/-- What every act keeps is kept by a life. -/
theorem life_keeps {I : Assertion β Bool} {acts : List Act}
    (each : ∀ a ∈ acts, Keeps o I (s.act topo a)) {x : Session β} (start : I x.world.dir x.world.mem) :
    I (x.life s topo o acts).world.dir (x.life s topo o acts).world.mem := by
  induction acts generalizing x with
  | nil => exact start
  | cons a rest ih =>
    have step : I (x.after s topo o a).world.dir (x.after s topo o a).world.mem :=
      triple_world (each a (by simp)) start
    unfold Session.life
    split
    · exact step
    · exact ih (fun a held => each a (by simp [held])) step

/-- What every act keeps of the directory is kept by a history. -/
theorem history_keeps {I : Dir β → Prop} (each : ∀ a, Keeps o (fun d _ => I d) (s.act topo a))
    {lives : List (List Act)} {x : Session β} (start : I x.world.dir) :
    I (x.history s topo o lives).world.dir := by
  induction lives generalizing x with
  | nil => exact start
  | cons acts rest ih => exact ih (life_keeps (I := fun d _ => I d) (x := x.restart) (fun a _ => each a) start)

/-- A boot is a load and the recovery to what it found. -/
theorem triple_boot {P Q : Assertion β Bool} {E : Stop → Assertion β Bool}
    {A : Dir β → Loaded → Prop} (load : ∀ d m, P d m → Looks o d (s.load topo) (A d))
    (recover : ∀ loaded, Triple o (fun d m => P d m ∧ A d loaded) (s.recover loaded) (fun _ => Q) E)
    (before : ∀ d m, P d m → E .crash d m) : Triple o P (s.act topo .boot) (fun _ => Q) E :=
  triple_look load (fun loaded => triple_bind (recover loaded) fun _ => triple_pure fun _ _ => id) before

/-- A boot whose load is cut leaves what it found. -/
theorem boot_cut {w w' : World β Bool} {e : Stop} (run : s.load topo o w = .error e w') :
    s.act topo .boot o w = .error e w' := by
  simp only [Store.act, bind, ReaderT.bind, EStateM.bind, run]

/-- A boot whose load ended goes on with the recovery. -/
theorem boot_loaded {w w' : World β Bool} {loaded : Loaded} (run : s.load topo o w = .ok loaded w') :
    Files.world (s.act topo .boot o w) = Files.world (s.recover loaded o w') := by
  simp only [Store.act, bind, ReaderT.bind, EStateM.bind, run]
  cases s.recover loaded o w' <;> rfl

/-- A save that is not placed ends there. -/
theorem save_unplaced {w w' : World β Bool} {p : Persisted} {e : Stop}
    (run : s.place p o w = .error e w') : s.act topo (.save p) o w = .error e w' := by
  simp only [Store.act, Store.save, bind, ReaderT.bind, EStateM.bind, run]

/-- A save that is placed goes on with the commit. -/
theorem save_placed {w w' : World β Bool} {p : Persisted} {aside : Option String}
    (run : s.place p o w = .ok aside w') :
    Files.world (s.act topo (.save p) o w) = Files.world (s.commitTmp p.rev o w') := by
  simp only [Store.act, Store.save, bind, ReaderT.bind, EStateM.bind, run, mapErr]
  cases s.commitTmp p.rev o w' with
  | ok r w'' => rfl
  | error e w'' => cases e <;> rfl

/-- The recovery: what `save.tmp` is, a damaged `current.json` moved aside, and an
interrupted save finished. -/
theorem triple_recover {P R Q E : Assertion β Bool} {loaded : Loaded}
    (start : ∀ d m, P d m → R d (loaded.saveTmp = .missing || loaded.source = .interrupted))
    (moved : loaded.currentJson = .damaged → ∀ d m b n, R d m → d[currentJson]? = some b →
      R (move d currentJson (asideName currentJson "damaged" n) b) m)
    (finished : loaded.source = .interrupted →
      Triple o R (s.finishInterrupted loaded.persisted.rev) (fun _ => Q) fun _ => Q)
    (kept : ∀ d m, R d m → Q d m) (stop : ∀ d m, Q d m → E d m) :
    Triple o P (s.recover loaded) (fun _ => Q) fun _ => E := by
  unfold Store.recover
  refine triple_bind (triple_remember (Q := fun _ => R) start) fun _ => ?_
  refine triple_bind (Q := fun _ => R) ?_ fun done => ?_
  · unfold Store.quarantine
    refine triple_ite (fun damaged => ?_) fun _ => triple_pure fun _ _ => id
    have aside : Keeps o R (s.moveAside currentJson "damaged") :=
      triple_moveAside s _ _ (fun d m b n _ _ pre _ held => moved damaged d m b n pre held)
        (fun _ _ => id) fun _ _ => id
    refine triple_bind ((keeps_attempt aside).triple fun d m pre => stop d m (kept d m pre)) fun r => ?_
    cases r <;> exact triple_pure fun _ _ => id
  unfold Store.finish
  refine triple_ite (fun _ => triple_pure kept) fun _ =>
    triple_ite (fun interrupted => ?_) fun _ => triple_pure kept
  refine triple_bind (Q := fun _ => Q) (triple_conseq (triple_attempt (finished interrupted))
    (fun _ _ => id) (fun r _ _ post => by cases r <;> exact post) fun _ => stop) fun r => ?_
  cases r <;> exact triple_pure fun _ _ => id

end

def duetStore : Store := ⟨"/var/lib/iemmixer"⟩

/-- The bytes of a state that holds only its revision. -/
def plainBytes (rev : UInt64) : PlainBytes :=
  some ⟨formatName, schemaVersion, toString rev, { rev }⟩

/-- Every step is done. -/
def calm : Oracle PlainBytes := fun _ _ => .done

/-- Every step is done but reads of one file. -/
def locked (name : String) : Oracle PlainBytes
  | _, .read other =>
    if other = name then .failed false "Permission denied (os error 13)" none else .done
  | _, _ => .done

/-- What a load on the duet's site says, and of what revision. -/
def loadsAs (o : Oracle PlainBytes) (w : World PlainBytes Bool) : Option (Source × UInt64) :=
  match duetStore.load TopologyProofs.duetCompiled.topo o w with
  | .ok loaded _ => some (loaded.source, loaded.persisted.rev)
  | .error _ _ => none

theorem loadsAs_ok {o : Oracle PlainBytes} {w : World PlainBytes Bool} {source : Source} {rev : UInt64}
    (evaluated : loadsAs o w = some (source, rev)) :
    ∃ loaded w', duetStore.load TopologyProofs.duetCompiled.topo o w = .ok loaded w' ∧
      loaded.source = source ∧ loaded.persisted.rev = rev := by
  unfold loadsAs at evaluated
  split at evaluated
  · rename_i loaded w' run
    cases evaluated
    exact ⟨loaded, w', run, rfl, rfl⟩
  · cases evaluated

end IemMixer.Persist
