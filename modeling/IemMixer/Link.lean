import IemMixer.Core.Run
import IemMixer.Mirror

/-! What the control thread sends a client of one core's run: a delta for the
changes of each outcome, and the whole state where it sends one (an import, an
answer to `GetState`, a client's hello at any moment). -/
namespace IemMixer.Core
open Lib Proto

/-- The whole state, as `state_msg` sends it. -/
def stateMsg (c : Core) : EngineMsg := .state c.rev c.state c.transient

/-- `publish` and the answer to the outcome's effect, with the core after it. -/
def messages (c : Core) (origin : Option ℕ) (out : Outcome) : List EngineMsg :=
  (if out.changes.isEmpty then [] else [.delta out.rev origin out.changes]) ++
  match out.effect with
  | .sendState | .imported => [c.stateMsg]
  | _ => []

/-- What can happen on the engine's side of the link. -/
inductive Tick where
  | event (event : Event) (origin : Option ℕ)
  | snapshot

section
variable [Libm]

def tick (c : Core) : Tick → List EngineMsg × Core
  | .event event origin =>
    match c.handle event with
    | (none, c') => ([], c')
    | (some out, c') => (c'.messages origin out, c')
  | .snapshot => ([c.stateMsg], c)

/-- Everything sent along a run. -/
def sent (c : Core) : List Tick → List EngineMsg
  | [] => []
  | t :: rest => (c.tick t).1 ++ sent (c.tick t).2 rest

/-- Every core a run passes through, the first one included. -/
def cores (c : Core) : List Tick → List Core
  | [] => [c]
  | t :: rest => c :: cores (c.tick t).2 rest

end
end IemMixer.Core
