import IemMixer.Core.Commands

/-! The command ring to the RT thread: groups of commands, each written as one
chunk or not at all, and what waits for room. -/
namespace IemMixer.Rt
open Lib

/-- Commands the ring holds. -/
def cmdRing : ℕ := 4096

/-- `stamp`: the sample time to apply at; commands due earlier apply at once.
`group`: on the first command of a group the group's length, 0 on the rest. -/
structure RtCmd where
  stamp : ℕ
  group : ℕ
  op : RtOp
  deriving DecidableEq

/-- The commands of one group: its length on the head, 0 on the rest. -/
def groupCmds (stamp : ℕ) : List RtOp → List RtCmd
  | [] => []
  | op :: rest => ⟨stamp, rest.length + 1, op⟩ :: rest.map fun op => ⟨stamp, 0, op⟩

/-- `ops` written as one group; `none` (nothing written) when the ring lacks room or
the group is empty or longer than a `u16` counts. -/
def pushGroup (ring : List RtCmd) (stamp : ℕ) (ops : List RtOp) : Option (List RtCmd) :=
  if 2 ^ 16 ≤ ops.length then none
  else if ops.length = 0 then none
  else if cmdRing < ring.length + ops.length then none
  else some (ring ++ groupCmds stamp ops)

/-- `slice::chunks`, at most `fuel` of them. -/
def chunksUpTo (n : ℕ) : ℕ → List α → List (List α)
  | _, [] => []
  | 0, _ => []
  | fuel + 1, xs => xs.take n :: chunksUpTo n fuel (xs.drop n)

/-- `slice::chunks`: consecutive slices of `n`, the last one shorter. -/
def chunks (n : ℕ) (xs : List α) : List (List α) := chunksUpTo n xs.length xs

end IemMixer.Rt
