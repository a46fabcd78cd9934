import IemMixer.Proto.Shape

/-! Protocol values as DSP parameters, the test signal's caps and the commands to
the RT thread. The transcendental functions are the platform's: the engine's own
code never looks inside them. -/
namespace IemMixer
open Lib Proto

/-- The math library's functions on `f64`. -/
class Libm where
  powf : F64 → F64 → F64
  sin : F64 → F64
  log2 : F64 → F64
  log10 : F64 → F64

namespace Proto.Range

def testHz : Range := ⟨.fin 20, .fin 20000⟩
def testDbfs : Range := ⟨.fin (-120), .fin (-20)⟩
def testTtlS : Range := ⟨.ofRat 0.001, .fin 120⟩

end Proto.Range

structure Band where
  kind : BandKind
  enabled : Bool
  freqHz : F64
  gainLin : F64
  bwOct : F64
  deriving DecidableEq

/-- Finite and not negative. -/
def isGain (x : F64) : Bool := x.isFinite && (F64.fin 0).le x

/-- A band's values must be finite and not negative. -/
def Band.isValid (b : Band) : Bool := isGain b.freqHz && isGain b.gainLin && isGain b.bwOct

structure EqParams where
  bands : Vector Band 5
  globalGain : F64
  deriving DecidableEq

structure InputParams where
  trim : F64
  muted : Bool
  processing : Bool
  deriving DecidableEq

section
variable [Libm]

/-- The linear gain of `db`; at or below `dbOff` (and for NaN) silence. -/
def dbToLin (db : F64) : F64 :=
  if dbOff.lt db then Libm.powf (.fin 10) (db.div (.fin 20)) else .fin 0

def eqParams (e : EqState) : EqParams where
  bands := e.bands.map fun b =>
    { kind := b.kind, enabled := b.enabled, freqHz := b.freqHz, gainLin := dbToLin b.gainDb
      bwOct := b.bwOct }
  globalGain := dbToLin e.gainDb

def inputParams (s : InputState) : InputParams where
  trim := dbToLin s.trimDb
  muted := s.muted
  processing := s.processing

end

/-- HIL's spare card outputs an engine opens at most. -/
def maxHil : ℕ := 8

/-- The spare outputs a HIL test signal sounds on, by HIL slot. -/
abbrev HilMask := Vector Bool 8

inductive RtOp where
  | nop
  | input (i : ℕ) (p : InputParams)
  | inputEq (i : ℕ) (eq : EqParams)
  | mixOut (m : ℕ) (volume : F64) (muted : Bool)
  | mixEq (m : ℕ) (eq : EqParams)
  | limiter (m : ℕ) (enabled : Bool) (limitDb : F64)
  | resetLimiter (m : ℕ)
  | level (m k : ℕ) (gain pan : F64) (muted : Bool)
  | group (m g : ℕ) (gain : F64) (muted : Bool)
  | groupEq (m g : ℕ) (eq : EqParams)
  | listen (slot : ℕ) (mix : Option ℕ)
  | testSignal (i : ℕ) (hz amp : F64) (ttl : ℕ)
  | hilTestSignal (i : ℕ) (hz amp : F64) (ttl : ℕ) (mask : HilMask) (listen : Bool)
  | stopTestSignal
  | fadeOut
  | panic
  | arm
  deriving DecidableEq

/-- `u16::try_from(i).unwrap_or(u16::MAX)`. -/
def ix (i : ℕ) : ℕ := if i < 2 ^ 16 then i else 2 ^ 16 - 1

theorem ix_of_lt (small : i < 65536) : ix i = i := if_pos small

end IemMixer
