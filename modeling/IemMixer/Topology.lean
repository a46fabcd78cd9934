import Mathlib.Data.List.Sort
import IemMixer.Proto.Shape

/-! The site's `[engine]` table and the topology compiled from it once per run:
validated, inputs with their group, groups with their inputs, mixes in
declaration order with the earlier mixes each one hears whole and the peers it
hears as their own mix. `compile` makes the source's passes in the source's
order; a set or a map filled in a loop is the loop's accumulator. -/
namespace IemMixer
open Lib Proto

/-- The only rate the engine runs at. -/
def sampleRate : ℕ := 96000

structure SiteInput where
  id : String
  rx : List UInt16
  talkback : Bool := false

structure SiteGroup where
  id : String
  inputs : List String

structure SiteMix where
  id : String
  tx : List UInt16
  mixes : List String := []
  peers : List String := []

structure Site where
  channels : UInt16
  engineer : String
  inputs : List SiteInput
  groups : List SiteGroup := []
  mixes : List SiteMix

/-- What `compile` and `hilOutputs` refuse. -/
inductive SiteError where
  | badId (id : String)
  | duplicateId (id : String)
  | channelCount (id : String) (expected : String) (got : ℕ)
  | channelRange (id : String) (ch : UInt16)
  | channelReused (ch : UInt16)
  | unknownInput (group input : String)
  | emptyGroup (group : String)
  | secondGroup (input : String)
  | heardMix (mix heard : String)
  | peer (mix peer : String)
  | peersOnNonSet (mix : String)
  | hearsItselfBack (mix heard : String)
  | secondTalkback
  | engineer (id : String)
  | hilTx (why : String)
  deriving DecidableEq, Repr

/-- `rx` indexes `Topology.rx`; a mono input has the same index twice. -/
structure InputNode where
  id : InputId
  rx : ℕ × ℕ
  stereo : Bool
  talkback : Bool
  group : Option ℕ
  deriving DecidableEq

structure GroupNode where
  id : GroupId
  inputs : List ℕ
  deriving DecidableEq

/-- `mixes` are the mixes it hears whole, `peers` the sets it hears as their own
output. With `shadow` the processor renders its own output a second time for the
mixes that hear it as a peer. -/
structure MixNode where
  id : MixId
  tx : Option ℕ × Option ℕ
  mono : Bool
  mixes : List ℕ
  peers : List ℕ
  shadow : Bool
  deriving DecidableEq

/-- Whether it hears no other mix, whole or as a peer. -/
def MixNode.hearsNothing (n : MixNode) : Bool := n.mixes.isEmpty && n.peers.isEmpty

structure Topology where
  inputs : List InputNode
  groups : List GroupNode
  mixes : List MixNode
  order : List ℕ
  direct : List ℕ
  rx : List UInt16
  tx : List UInt16
  engineer : ℕ
  hash : String
  inputIndexMap : BTreeMap InputId ℕ
  groupIndexMap : BTreeMap GroupId ℕ
  mixIndexMap : BTreeMap MixId ℕ

/-- `check_id` over every id of the site, in one namespace. -/
def checkIds : List String → List String → Except SiteError Unit
  | [], _ => .ok ()
  | id :: rest, seen =>
    if !validId id then .error (.badId id)
    else if seen.contains id then .error (.duplicateId id)
    else checkIds rest (id :: seen)

/-- Card channels from 1 to `map`, none used twice; returns the channels used. -/
def checkChannels (id : String) (map : UInt16) :
    List UInt16 → List UInt16 → Except SiteError (List UInt16)
  | [], used => .ok used
  | ch :: rest, used =>
    if ch == 0 || map < ch then .error (.channelRange id ch)
    else if used.contains ch then .error (.channelReused ch)
    else checkChannels id map rest (ch :: used)

structure InputsAcc where
  rx : List UInt16 := []
  used : List UInt16 := []
  talkback : Bool := false
  inputs : List InputNode := []

def compileInputs (map : UInt16) : List SiteInput → InputsAcc → Except SiteError InputsAcc
  | [], acc => .ok acc
  | input :: rest, acc =>
    if ¬ (input.rx.length = 1 ∨ input.rx.length = 2) then
      .error (.channelCount input.id "1 or 2" input.rx.length)
    else do
      let used ← checkChannels input.id map input.rx acc.used
      if input.talkback && acc.talkback then .error .secondTalkback
      else
        let first := acc.rx.length
        let stereo := input.rx.length == 2
        compileInputs map rest
          { rx := acc.rx ++ input.rx
            used
            talkback := acc.talkback || input.talkback
            inputs := acc.inputs ++ [{ id := input.id
                                       rx := (first, if stereo then first + 1 else first)
                                       stereo
                                       talkback := input.talkback
                                       group := none }] }

/-- One group's members: each a known input in no group yet. -/
def groupMembers (pos : BTreeMap String ℕ) (g : ℕ) (group : SiteGroup) :
    List String → List InputNode → List ℕ → Except SiteError (List InputNode × List ℕ)
  | [], inputs, members => .ok (inputs, members)
  | name :: rest, inputs, members =>
    match pos[name]? with
    | none => .error (.unknownInput group.id name)
    | some i =>
      match inputs[i]? with
      | none => groupMembers pos g group rest inputs members
      | some node =>
        if node.group.isSome then .error (.secondGroup name)
        else groupMembers pos g group rest (inputs.set i { node with group := some g })
          (members ++ [i])

def compileGroups (pos : BTreeMap String ℕ) :
    ℕ → List SiteGroup → List InputNode → List GroupNode →
      Except SiteError (List InputNode × List GroupNode)
  | _, [], inputs, groups => .ok (inputs, groups)
  | g, group :: rest, inputs, groups =>
    if group.inputs.isEmpty then .error (.emptyGroup group.id)
    else do
      let (inputs, members) ← groupMembers pos g group group.inputs inputs []
      compileGroups pos (g + 1) rest inputs
        (groups ++ [{ id := group.id, inputs := members.insertionSort (· ≤ ·) }])

/-- The mixes one mix hears whole: declared before it, each once. -/
def heardMixes (declared : BTreeMap String ℕ) (mix : SiteMix) :
    List String → List ℕ → Except SiteError (List ℕ)
  | [], heard => .ok heard
  | name :: rest, heard =>
    match declared[name]? with
    | none => .error (.heardMix mix.id name)
    | some s =>
      if heard.contains s then .error (.heardMix mix.id name)
      else heardMixes declared mix rest (heard ++ [s])

structure MixesAcc where
  tx : List UInt16 := []
  used : List UInt16 := []
  declared : BTreeMap String ℕ := ∅
  mixes : List MixNode := []

def compileMixes (map : UInt16) : ℕ → List SiteMix → MixesAcc → Except SiteError MixesAcc
  | _, [], acc => .ok acc
  | m, mix :: rest, acc =>
    if ¬ (mix.tx.length = 1 ∨ mix.tx.length = 2) then
      .error (.channelCount mix.id "1 or 2" mix.tx.length)
    else do
      let used ← checkChannels mix.id map mix.tx acc.used
      let heard ← heardMixes acc.declared mix mix.mixes []
      let first := acc.tx.length
      let mono := mix.tx.length == 1
      compileMixes map (m + 1) rest
        { tx := acc.tx ++ mix.tx
          used
          declared := acc.declared.insert mix.id m
          mixes := acc.mixes ++ [{ id := mix.id
                                   tx := (some first, if mono then none else some (first + 1))
                                   mono
                                   mixes := heard
                                   peers := []
                                   shadow := false }] }

/-- The engineer's mix: declared and stereo. -/
def findEngineer (id : String) (outs : MixesAcc) : Except SiteError ℕ :=
  match outs.declared[id]? with
  | some m => if outs.mixes[m]?.any (!·.mono) then .ok m else .error (.engineer id)
  | none => .error (.engineer id)

/-- Whether mix `m` may hear mix `s` as a peer, with `peers` resolved so far. -/
def peerAllowed (mixes : List MixNode) (engineer m s : ℕ) (peers : List ℕ) : Bool :=
  s != m && s != engineer && mixes[s]?.any (!·.mono) &&
    mixes[m]?.any (!·.mixes.contains s) && !peers.contains s

def resolvePeers (declared : BTreeMap String ℕ) (mixes : List MixNode) (engineer m : ℕ)
    (mix : SiteMix) : List String → List ℕ → Except SiteError (List ℕ)
  | [], peers => .ok peers
  | name :: rest, peers =>
    match declared[name]?.filter fun s => peerAllowed mixes engineer m s peers with
    | none => .error (.peer mix.id name)
    | some s => resolvePeers declared mixes engineer m mix rest (peers ++ [s])

/-- Peers may be declared anywhere, so they are resolved once every mix is. -/
def compilePeers (declared : BTreeMap String ℕ) (engineer : ℕ) :
    ℕ → List SiteMix → List MixNode → Except SiteError (List MixNode)
  | _, [], mixes => .ok mixes
  | m, mix :: rest, mixes =>
    if !mix.peers.isEmpty && (m == engineer || mixes[m]?.all (·.mono)) then
      .error (.peersOnNonSet mix.id)
    else do
      let peers ← resolvePeers declared mixes engineer m mix mix.peers []
      compilePeers declared engineer (m + 1) rest (mixes.modify m fun node => { node with peers })

/-- What the mixes one mix hears whole bring: refused when one brings the mix's
own output back. -/
def bring (name : ℕ → String) (carries : List (List ℕ)) (m : ℕ) :
    List ℕ → List ℕ → Except SiteError (List ℕ)
  | [], own => .ok own
  | h :: rest, own =>
    match carries[h]? with
    | none => bring name carries m rest own
    | some brought =>
      if brought.contains m then .error (.hearsItselfBack (name m) (name h))
      else bring name carries m rest (own ++ brought)

/-- Every mix's `carries`, in declaration order: the own outputs its whole
output holds. -/
def compileCarries (name : ℕ → String) :
    ℕ → List MixNode → List (List ℕ) → Except SiteError (List (List ℕ))
  | _, [], carries => .ok carries
  | m, node :: rest, carries => do
    let own ← bring name carries m node.mixes (node.peers ++ [m])
    compileCarries name (m + 1) rest (carries ++ [own])

/-- A mix that hears something and is some mix's peer gets a shadow. -/
def markShadows (mixes : List MixNode) : List MixNode :=
  mixes.zipIdx.map fun (node, m) =>
    { node with shadow := mixes.any (·.peers.contains m) && !node.hearsNothing }

/-- Every mix that hears nothing, then every other, each in declaration order. -/
def renderOrder (mixes : List MixNode) : List ℕ :=
  (List.range mixes.length).filter (fun m => mixes[m]?.any (·.hearsNothing)) ++
    (List.range mixes.length).filter (fun m => mixes[m]?.any (!·.hearsNothing))

/-- An index by id, from a list of ids. -/
def indexOf (ids : List String) : BTreeMap String ℕ := .collect ids.zipIdx

namespace Topology

/-- The topology as the protocol describes it. -/
def info (t : Topology) : TopologyInfo where
  hash := t.hash
  sampleRate := sampleRate
  engineer := (t.mixes[t.engineer]?.map (·.id)).getD ""
  inputs := t.inputs.map fun n =>
    { id := n.id
      channels := if n.stereo then 2 else 1
      talkback := n.talkback
      group := (n.group.bind fun g => t.groups[g]?).map (·.id) }
  groups := t.groups.map fun g =>
    { id := g.id, inputs := g.inputs.filterMap fun i => t.inputs[i]?.map (·.id) }
  mixes := t.mixes.map fun n =>
    { id := n.id
      channels := if n.mono then 1 else 2
      mixes := n.mixes.filterMap fun m => t.mixes[m]?.map (·.id)
      peers := n.peers.filterMap fun m => t.mixes[m]?.map (·.id) }

end Topology

/-- The site with its names resolved: what `compile` has before it looks at what
each mix brings. -/
structure Arranged where
  inputs : List InputNode
  groups : List GroupNode
  direct : List ℕ
  mixes : List MixNode
  rx : List UInt16
  tx : List UInt16
  engineer : ℕ

def arrange (site : Site) : Except SiteError Arranged := do
  checkIds (site.inputs.map (·.id) ++ site.groups.map (·.id) ++ site.mixes.map (·.id)) []
  let ins ← compileInputs site.channels site.inputs {}
  let (inputs, groups) ← compileGroups (indexOf (site.inputs.map (·.id))) 0 site.groups ins.inputs []
  let direct := (inputs.zipIdx.filter fun p => p.1.group.isNone).map (·.2)
  let outs ← compileMixes site.channels 0 site.mixes {}
  let engineer ← findEngineer site.engineer outs
  let mixes ← compilePeers outs.declared engineer 0 site.mixes outs.mixes
  return { inputs, groups, direct, mixes, rx := ins.rx, tx := outs.tx, engineer }

/-- The topology of an arranged site: the shadows, the render order, the indices
and the hash. -/
def Arranged.topology (digest : TopologyInfo → String) (a : Arranged) : Topology :=
  let mixes := markShadows a.mixes
  let topo : Topology :=
    { inputs := a.inputs
      groups := a.groups
      mixes
      order := renderOrder mixes
      direct := a.direct
      rx := a.rx
      tx := a.tx
      engineer := a.engineer
      hash := ""
      inputIndexMap := indexOf (a.inputs.map (·.id))
      groupIndexMap := indexOf (a.groups.map (·.id))
      mixIndexMap := indexOf (mixes.map (·.id)) }
  { topo with hash := digest topo.info }

/-- Validates the site and compiles its topology. `digest` is the SHA-256 of the
description's JSON. -/
def compile (digest : TopologyInfo → String) (site : Site) : Except SiteError Topology := do
  let arranged ← arrange site
  let name := fun i => (site.mixes[i]?.map (·.id)).getD ""
  let _ ← compileCarries name 0 arranged.mixes []
  return arranged.topology digest

namespace Topology

def inputIndex (t : Topology) (id : InputId) : Option ℕ := t.inputIndexMap[id]?
def groupIndex (t : Topology) (id : GroupId) : Option ℕ := t.groupIndexMap[id]?
def mixIndex (t : Topology) (id : MixId) : Option ℕ := t.mixIndexMap[id]?

/-- Level slots of mix `m`: every input, then the mixes it hears, then its peers. -/
def levels (t : Topology) (m : ℕ) : ℕ :=
  t.inputs.length + (t.mixes[m]?.map fun n => n.mixes.length + n.peers.length).getD 0

/-- The level slot of `source` in mix `m`; `none` when the mix does not hear it. -/
def slot (t : Topology) (m : ℕ) (source : Source) : Option ℕ := do
  let node ← t.mixes[m]?
  match source with
  | .input id => t.inputIndex id
  | .mix id =>
    let s ← t.mixIndex id
    let k ← match node.mixes.findIdx? (· == s) with
      | some k => some k
      | none => (node.peers.findIdx? (· == s)).map (node.mixes.length + ·)
    return t.inputs.length + k

/-- The source of level slot `k` in mix `m`: an input, a heard mix or a peer. -/
def source (t : Topology) (m k : ℕ) : Option Source := do
  let node ← t.mixes[m]?
  match t.inputs[k]? with
  | some n => some (.input n.id)
  | none =>
    if k < t.inputs.length then none
    else
      let j := k - t.inputs.length
      let s ← match node.mixes[j]? with
        | some s => some s
        | none => if j < node.mixes.length then none else node.peers[j - node.mixes.length]?
      t.mixes[s]?.map fun n => .mix n.id

/-- The mix whose TX is card channel `ch`, if any. -/
def mixOnTx (t : Topology) (ch : UInt16) : Option MixNode := do
  let slot ← t.tx.findIdx? (· == ch)
  t.mixes.find? fun m => m.tx.1 == some slot || m.tx.2 == some slot

/-- Why card channel `ch` may not carry the HIL signal: a mix sends on it. -/
def mixTxRefusal (t : Topology) (ch : UInt16) : Option String :=
  (t.mixOnTx ch).map fun m =>
    "card output " ++ toString ch ++ " is mix " ++ m.id ++
      "'s TX: the HIL signal goes only to spare outputs"

/-- HIL's spare card outputs: channels from 1 that no mix sends on and no input reads, each
once, in the given order. -/
def hilOutputsFrom (t : Topology) : List UInt16 → List UInt16 → Except SiteError (List UInt16)
  | [], outputs => .ok outputs
  | ch :: rest, outputs =>
    if ch == 0 then .error (.hilTx ("card output " ++ toString ch ++ ": card channels count from 1"))
    else match t.mixTxRefusal ch with
      | some why => .error (.hilTx why)
      | none =>
        if t.rx.contains ch then .error (.hilTx ("card channel " ++ toString ch ++
          " is a topology input: its loopback return would read the band"))
        else if outputs.contains ch then
          .error (.hilTx ("card output " ++ toString ch ++ " is listed twice"))
        else hilOutputsFrom t rest (outputs ++ [ch])

def hilOutputs (t : Topology) (hilTx : List UInt16) : Except SiteError (List UInt16) :=
  if 8 < hilTx.length then
    .error (.hilTx (toString hilTx.length ++ " card outputs: at most " ++ toString 8))
  else t.hilOutputsFrom hilTx []

end Topology
end IemMixer
