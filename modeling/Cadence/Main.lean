import Cadence.Command.Agent
import Cadence.Command.Plans

/-!
The commands on real files.

What a command may read is read beforehand; the command itself then only looks
at the files that were found.
-/

namespace Cadence.Main

/-- A path and every path on the way to it. -/
def onTheWay (path : String) : List String :=
  let names := FileTree.splitPath path
  (List.range names.length).map (fun n => "/".intercalate (names.take (n + 1)))

/-- What is found at these paths and on the way to them. -/
def gather (paths : List String) : IO FileTree :=
  (paths.flatMap onTheWay).foldlM (fun (tree : FileTree) (path : String) => do
    try
      let content ← IO.FS.readBinFile path
      return { tree with files := tree.files.insert path content }
    catch e =>
      match e with
      | .inappropriateType .. => return { tree with directories := path :: tree.directories }
      | _ => return tree) {}

def finish (outcome : Outcome) : IO UInt32 := do
  IO.print outcome.stdout
  for line in outcome.stderr do
    IO.eprintln line
  return outcome.code.toUInt32

def plans (args : List String) : IO UInt32 := do
  finish (PlansCommand.run (← gather args) args)

def agent (args : List String) : IO UInt32 := do
  let path := AgentCommand.configPath args
  let tree ← gather [path]
  let files := match Config.load tree path with
    | .ok config => config.plans
    | .error _ => []
  match AgentCommand.run (← gather (path :: files)) args with
  | some outcome => finish outcome
  | none => return 0

end Cadence.Main

def main : List String → IO UInt32
  | "plans" :: args => Cadence.Main.plans args
  | "agent" :: args => Cadence.Main.agent args
  | _ => do
      IO.eprintln "expected a command: plans or agent"
      return 2
