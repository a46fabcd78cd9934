import IemMixer.Lib.Float64
import IemMixer.Lib.OrdMap

/-! The mix state the engine owns and its transient state, with the ids that name
inputs, groups and mixes. A derived `PartialEq` compares floats as `f64` does
(`peq`), never as bits. -/
namespace IemMixer.Proto
open Lib

abbrev InputId := String
abbrev GroupId := String
abbrev MixId := String

/-- Longest id in bytes. -/
def maxIdLen : ℕ := 64

/-- `a-z` or `0-9`. -/
def isIdStart (c : Char) : Bool := ('a' ≤ c && c ≤ 'z') || ('0' ≤ c && c ≤ '9')

/-- An id is 1–64 bytes of `a-z`, `0-9`, `_`, `.`, `-`, starting with a letter
or digit. -/
def validId (s : String) : Bool :=
  s.toList.head?.any isIdStart && s.utf8ByteSize ≤ maxIdLen &&
    s.toList.all fun c => isIdStart c || c == '_' || c == '.' || c == '-'

/-- What a level in a mix reads. -/
inductive Source where
  | input (id : InputId)
  | mix (id : MixId)
  deriving DecidableEq, Repr

/-- `Display for Source`: the bare id. -/
def Source.text : Source → String
  | .input id => id
  | .mix id => id

/-- Whose EQ a command addresses. -/
inductive EqTarget where
  | input (id : InputId)
  | mix (id : MixId)
  | group (mix : MixId) (group : GroupId)
  deriving DecidableEq, Repr

/-- Gains at or below this many dB are silence. -/
def dbOff : F64 := .fin (-150)

inductive BandKind where
  | highPass
  | lowShelf
  | peak
  | highShelf
  deriving DecidableEq, Repr

structure EqBand where
  kind : BandKind := .peak
  enabled : Bool := false
  freqHz : F64 := .fin 1000
  gainDb : F64 := .fin 0
  bwOct : F64 := .fin 1
  deriving DecidableEq, Repr

def off (kind : BandKind) (freqHz bwOct : F64) : EqBand :=
  { kind, enabled := false, freqHz, gainDb := .fin 0, bwOct }

/-- ReaEQ's standard flat layout. -/
def defaultBands : Vector EqBand 5 :=
  #v[off .highPass (.ofRat 80.20834168547682) (.fin 2),
     off .lowShelf (.ofRat 200.3077623397404) (.fin 2),
     off .peak (.ofRat 801.9398157380639) (.fin 1),
     off .peak (.ofRat 2996.2342070275295) (.fin 1),
     off .highShelf (.ofRat 8016.061124722856) (.fin 2)]

/-- A five-band EQ with its global gain (the protocol's `Eq`). -/
structure EqState where
  gainDb : F64 := .fin 0
  bands : Vector EqBand 5 := defaultBands
  deriving DecidableEq

structure Limiter where
  enabled : Bool := true
  limitDb : F64 := .fin (-6)
  deriving DecidableEq

/-- An input strip: trim and EQ run only with `processing`. -/
structure InputState where
  trimDb : F64 := .fin 0
  processing : Bool := true
  muted : Bool := false
  eq : EqState := {}
  deriving DecidableEq

/-- The level of one source in a mix: off by default. -/
structure Level where
  gainDb : F64 := dbOff
  pan : F64 := .fin 0
  muted : Bool := false
  deriving DecidableEq

/-- A group's strip in one mix. -/
structure MixGroup where
  gainDb : F64 := .fin 0
  muted : Bool := false
  eq : EqState := {}
  deriving DecidableEq

/-- A mix's output: EQ → limiter → volume → mute. -/
structure MixOut where
  volumeDb : F64 := .fin 0
  muted : Bool := false
  eq : EqState := {}
  limiter : Limiter := {}
  deriving DecidableEq

/-- One listener's mix. -/
@[ext] structure Mix where
  out : MixOut := {}
  inputs : BTreeMap InputId Level := ∅
  groups : BTreeMap GroupId MixGroup := ∅
  mixes : BTreeMap MixId Level := ∅
  deriving DecidableEq

/-- The level of `source`, if this mix holds one. -/
def Mix.level (x : Mix) : Source → Option Level
  | .input id => x.inputs[id]?
  | .mix id => x.mixes[id]?

/-- Everything the engine persists about the mix. -/
@[ext] structure MixState where
  inputs : BTreeMap InputId InputState := ∅
  mixes : BTreeMap MixId Mix := ∅
  deriving DecidableEq

/-- The soloed sources of one mix. -/
structure Solo where
  mix : MixId
  sources : List Source
  deriving DecidableEq

structure TestSignal where
  input : InputId
  hz : F64
  dbfs : F64
  ttlS : F64
  deriving DecidableEq

/-- Engine state that is never persisted. Slot 0 of `listen` is the engineer's
tap, slot 1 one other mix's. -/
structure Transient where
  solo : List Solo := []
  listen : Vector (Option MixId) 2 := #v[none, none]
  testSignal : Option TestSignal := none
  deriving DecidableEq

def EqBand.peq (a b : EqBand) : Bool :=
  a.kind == b.kind && a.enabled == b.enabled && a.freqHz.peq b.freqHz &&
    a.gainDb.peq b.gainDb && a.bwOct.peq b.bwOct

def EqState.peq (a b : EqState) : Bool :=
  a.gainDb.peq b.gainDb && (a.bands.toList.zip b.bands.toList).all fun p => p.1.peq p.2

def Limiter.peq (a b : Limiter) : Bool := a.enabled == b.enabled && a.limitDb.peq b.limitDb

def InputState.peq (a b : InputState) : Bool :=
  a.trimDb.peq b.trimDb && a.processing == b.processing && a.muted == b.muted && a.eq.peq b.eq

def Level.peq (a b : Level) : Bool :=
  a.gainDb.peq b.gainDb && a.pan.peq b.pan && a.muted == b.muted

def MixGroup.peq (a b : MixGroup) : Bool :=
  a.gainDb.peq b.gainDb && a.muted == b.muted && a.eq.peq b.eq

def MixOut.peq (a b : MixOut) : Bool :=
  a.volumeDb.peq b.volumeDb && a.muted == b.muted && a.eq.peq b.eq && a.limiter.peq b.limiter

def Mix.peq (a b : Mix) : Bool :=
  a.out.peq b.out && BTreeMap.peq Level.peq a.inputs b.inputs && BTreeMap.peq MixGroup.peq a.groups b.groups &&
    BTreeMap.peq Level.peq a.mixes b.mixes

def MixState.peq (a b : MixState) : Bool :=
  BTreeMap.peq InputState.peq a.inputs b.inputs && BTreeMap.peq Mix.peq a.mixes b.mixes

def EqState.finite (e : EqState) : Bool :=
  e.gainDb.isFinite && e.bands.toList.all fun b =>
    b.freqHz.isFinite && b.gainDb.isFinite && b.bwOct.isFinite

def InputState.finite (x : InputState) : Bool := x.trimDb.isFinite && x.eq.finite

def Level.finite (l : Level) : Bool := l.gainDb.isFinite && l.pan.isFinite

def MixGroup.finite (g : MixGroup) : Bool := g.gainDb.isFinite && g.eq.finite

def MixOut.finite (x : MixOut) : Bool :=
  x.volumeDb.isFinite && x.eq.finite && x.limiter.limitDb.isFinite

structure Mix.Finite (x : Mix) : Prop where
  out : x.out.finite
  inputs : ∀ (id : InputId) (l : Level), x.inputs[id]? = some l → l.finite
  groups : ∀ (id : GroupId) (g : MixGroup), x.groups[id]? = some g → g.finite
  mixes : ∀ (id : MixId) (l : Level), x.mixes[id]? = some l → l.finite

/-- Every number of the state is finite: the states JSON can hold. -/
structure MixState.Finite (state : MixState) : Prop where
  inputs : ∀ (id : InputId) (x : InputState), state.inputs[id]? = some x → x.finite
  mixes : ∀ (id : MixId) (x : Mix), state.mixes[id]? = some x → x.Finite

end IemMixer.Proto
