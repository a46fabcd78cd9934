import IemMixer.Server.Restore
import IemMixer.Server.View

/-! The preview of a restore: the running state beside the backup, value by value in the pages'
names and texts. -/
namespace IemMixer.Server
open Lib Proto

namespace Preview

/-- `|q|` to `digits` decimals, ties to even. -/
def decimals (digits : ℕ) (q : ℚ) : String :=
  let units := (F64.roundEven (|q| * 10 ^ digits)).toNat
  let whole := toString (units / 10 ^ digits)
  let rest := Nat.toDigits 10 (units % 10 ^ digits)
  if digits = 0 then whole
  else whole ++ "." ++ String.ofList (List.replicate (digits - rest.length) '0' ++ rest)

/-- `{v:.digits}` -/
def fixed (digits : ℕ) : F64 → String
  | .nan => "NaN"
  | .inf neg => if neg then "-inf" else "inf"
  | v => (if v.neg then "-" else "") ++ decimals digits v.val

/-- `{v:+.digits}` -/
def signed (digits : ℕ) (v : F64) : String := match v with
  | .nan => "NaN"
  | v => (if v.neg then "" else "+") ++ fixed digits v

def db (v : F64) : String := if v.le dbOff then "off" else fixed 1 v ++ " dB"

def pan (p : F64) : String :=
  let pct := (p.abs.mul (.fin 100)).round
  if pct.lt (.fin 1) then "C"
  else if p.lt (.fin 0) then "L" ++ fixed 0 pct
  else "R" ++ fixed 0 pct

def level (l : Level) : String := db l.gainDb ++ " " ++ pan l.pan ++ if l.muted then " muted" else ""

def on (b : Bool) : String := if b then "on" else "off"

/-- The enabled bands of an EQ, e.g. `1000 Hz +3.0 dB 1.00 oct`. -/
def eqSummary (e : EqState) : String :=
  let bands := (e.bands.toList.filter (·.enabled)).map fun b =>
    fixed 0 b.freqHz ++ " Hz " ++ signed 1 b.gainDb ++ " dB " ++ fixed 2 b.bwOct ++ " oct"
  if bands.isEmpty then "flat" else ", ".intercalate bands

def limiter (l : Limiter) : String := on l.enabled ++ " " ++ db l.limitDb

def strip (s : MixGroup) : String := db s.gainDb ++ if s.muted then " muted" else ""

/-- A value a line shows. -/
inductive Field where
  | trim (input : InputId)
  | processing (input : InputId)
  | inputMute (input : InputId)
  | inputEq (input : InputId)
  | volume (mix : MixId)
  | volumeMute (mix : MixId)
  | volumeEq (mix : MixId)
  | limiter (mix : MixId)
  | level (mix : MixId) (source : Source)
  | strip (mix : MixId) (group : GroupId)
  | stripEq (mix : MixId) (group : GroupId)
  deriving DecidableEq

/-- A part of a backup: an entry of its state, or a member's pins and hides. -/
inductive Part (α : Type) where
  | state (x : α)
  | customization (member : String)
  deriving DecidableEq

structure Line where
  what : Part Field
  current : String
  backup : String
  deriving DecidableEq

/-- The lists of a preview; they only grow, at the end. -/
structure Diff where
  changes : List Line := []
  unchanged : ℕ := 0
  skipped : List (Part Entry) := []
  notInBackup : List Entry := []

namespace Diff

def value (what : Field) (cur new : String) : Diff :=
  if cur = new then { unchanged := 1 } else { changes := [⟨.state what, cur, new⟩] }

def eq (what : Field) (cur new : EqState) : Diff :=
  if cur.peq new then { unchanged := 1 } else { changes := [⟨.state what, eqSummary cur, eqSummary new⟩] }

def skip (part : Part Entry) : Diff := { skipped := [part] }

def keep (e : Entry) : Diff := { notInBackup := [e] }

/-- One after the other. -/
def all (pieces : List Diff) : Diff where
  changes := pieces.flatMap (·.changes)
  unchanged := (pieces.map (·.unchanged)).sum
  skipped := pieces.flatMap (·.skipped)
  notInBackup := pieces.flatMap (·.notInBackup)

end Diff

/-- A member's pins and hides. -/
structure Customization where
  pinned : List Source := []
  hidden : List Source := []
  deriving DecidableEq

def Customization.text (c : Customization) : String :=
  toString c.pinned.length ++ " pinned, " ++ toString c.hidden.length ++ " hidden"

section
variable (view : SiteView) (current : MixState) (customizations : String → Option Customization)

def inputDiff (id : InputId) (cur new : InputState) : Diff := .all [
  .value (.trim id) (db cur.trimDb) (db new.trimDb),
  .value (.processing id) (on cur.processing) (on new.processing),
  .value (.inputMute id) (on cur.muted) (on new.muted),
  .eq (.inputEq id) cur.eq new.eq]

def inputPart (id : InputId) (new : InputState) : Diff :=
  if (view.input id).isNone then .skip (.state (.input id)) else inputDiff id (current.inputs[id]?.getD {}) new

def levelPart (mix : MixId) (cur : Mix) (src : Source) (l : Level) : Diff :=
  let known := match src with
    | .input i => (view.input i).isSome
    | .mix m => (view.mix m).isSome
  if known then .value (.level mix src) (level ((cur.level src).getD {})) (level l)
  else .skip (.state (.level mix src))

def stripPart (mix : MixId) (cur : Mix) (g : GroupId) (new : MixGroup) : Diff :=
  if view.group ≠ some g then .skip (.state (.group mix g))
  else
    let c := cur.groups[g]?.getD {}
    .all [.value (.strip mix g) (strip c) (strip new), .eq (.stripEq mix g) c.eq new.eq]

def mixPart (mix : MixId) (new : Mix) : Diff :=
  if (view.mix mix).isNone then .skip (.state (.out mix))
  else
    let cur := current.mixes[mix]?.getD {}
    .all [.value (.volume mix) (db cur.out.volumeDb) (db new.out.volumeDb),
      .value (.volumeMute mix) (on cur.out.muted) (on new.out.muted),
      .eq (.volumeEq mix) cur.out.eq new.out.eq,
      .value (.limiter mix) (limiter cur.out.limiter) (limiter new.out.limiter),
      .all (new.inputs.toList.map fun p => levelPart view mix cur (.input p.1) p.2),
      .all (new.mixes.toList.map fun p => levelPart view mix cur (.mix p.1) p.2),
      .all (new.groups.toList.map fun p => stripPart view mix cur p.1 p.2)]

def customizationPart (member : String) (c : Customization) : Diff :=
  if (view.member member).isNone then .skip (.customization member)
  else
    let cur := (customizations member).getD {}
    if cur = c then { unchanged := 1 } else { changes := [⟨.customization member, cur.text, c.text⟩] }

/-- One entry for each input or mix the backup does not know at all, and one for each other
missing level or group strip. -/
def notInBackup (backup : MixState) : Diff :=
  let unknownInput (i : InputId) := !backup.inputs.contains i
  let unknownMix (m : MixId) := !backup.mixes.contains m
  .all [.all ((current.inputs.keys.filter unknownInput).map fun id => .keep (.input id)),
    .all (current.mixes.toList.map fun (mix, cur) => match backup.mixes[mix]? with
      | none => .keep (.out mix)
      | some old => .all [
        .all ((cur.inputs.keys.filter fun i => !old.inputs.contains i && !unknownInput i).map fun id =>
          .keep (.level mix (.input id))),
        .all ((cur.mixes.keys.filter fun m => !old.mixes.contains m && !unknownMix m).map fun m =>
          .keep (.level mix (.mix m))),
        .all ((cur.groups.keys.filter fun g => !old.groups.contains g).map fun g => .keep (.group mix g))])]

/-- What restoring `backup`, with the pins and hides of `held`, over `current` would change. -/
def diff (backup : MixState) (held : BTreeMap String Customization) : Diff := .all [
  .all (backup.inputs.toList.map fun p => inputPart view current p.1 p.2),
  .all (backup.mixes.toList.map fun p => mixPart view current p.1 p.2),
  .all (held.toList.map fun p => customizationPart view customizations p.1 p.2),
  notInBackup current backup]

end

inductive RestoreCategory where
  | level
  | group
  | output
  | eq
  | limiter
  | input
  | customization
  deriving DecidableEq

def groupName : String := "STEMS"

section
variable (view : SiteView)

def inputName (id : InputId) : String := ((view.input id).map (·.name)).getD id

def sourceName : Source → String
  | .input i => inputName view i
  | .mix m => view.mixName m

def Field.category : Field → RestoreCategory
  | .trim _ | .processing _ | .inputMute _ => .input
  | .volume _ | .volumeMute _ => .output
  | .limiter _ => .limiter
  | .level .. => .level
  | .strip .. => .group
  | .inputEq _ | .volumeEq _ | .stripEq .. => .eq

def Field.description : Field → String
  | .trim id => inputName view id ++ ": trim"
  | .processing id => inputName view id ++ ": processing"
  | .inputMute id => inputName view id ++ ": mute"
  | .inputEq id => inputName view id ++ " EQ"
  | .volume mix => view.mixName mix ++ ": IEM VOL"
  | .volumeMute mix => view.mixName mix ++ ": IEM VOL mute"
  | .volumeEq mix => view.mixName mix ++ ": IEM VOL EQ"
  | .limiter mix => view.mixName mix ++ ": limiter"
  | .level mix src => sourceName view src ++ " → " ++ view.mixName mix
  | .strip mix _ => groupName ++ " → " ++ view.mixName mix
  | .stripEq mix _ => groupName ++ " → " ++ view.mixName mix ++ " EQ"

def entryCategory : Entry → RestoreCategory
  | .input _ => .input
  | .out _ => .output
  | .level .. => .level
  | .group .. => .group

def skippedDescription : Entry → String
  | .input id => id
  | .out mix => mix
  | .level mix src => src.text ++ " → " ++ view.mixName mix
  | .group mix g => g ++ " → " ++ view.mixName mix

def keptDescription : Entry → String
  | .input id => inputName view id
  | .out mix => view.mixName mix
  | .level mix src => sourceName view src ++ " → " ++ view.mixName mix
  | .group mix g => (if view.group = some g then groupName else g) ++ " → " ++ view.mixName mix

structure RestoreChange where
  category : RestoreCategory
  description : String
  currentValue : String
  backupValue : String

structure SkippedEntry where
  category : RestoreCategory
  description : String
  reason : String

structure RestorePreview where
  changes : List RestoreChange := []
  unchangedCount : ℕ := 0
  skipped : List SkippedEntry := []
  notInBackup : List SkippedEntry := []

def Line.change (l : Line) : RestoreChange := match l.what with
  | .state f => ⟨f.category, f.description view, l.current, l.backup⟩
  | .customization member =>
    ⟨.customization, ((view.member member).map (·.name)).getD member ++ ": pins and hides", l.current, l.backup⟩

def skippedEntry : Part Entry → SkippedEntry
  | .state e => ⟨entryCategory e, skippedDescription view e, "not in the running topology"⟩
  | .customization member => ⟨.customization, member, "not in the running topology"⟩

def keptEntry (e : Entry) : SkippedEntry :=
  ⟨entryCategory e, keptDescription view e, "not in the backup; stays as it is"⟩

/-- The preview as it is sent. -/
def preview (current : MixState) (customizations : String → Option Customization) (backup : MixState)
    (held : BTreeMap String Customization) : RestorePreview :=
  let d := diff view current customizations backup held
  { changes := d.changes.map (Line.change view), unchangedCount := d.unchanged
    skipped := d.skipped.map (skippedEntry view), notInBackup := d.notInBackup.map (keptEntry view) }

end

end Preview
end IemMixer.Server
