import Lakehouse.Command.Arguments
import Lakehouse.Command.Run

namespace Lakehouse

structure Report where
  code : UInt32
  stdout : String
  stderr : String
  deriving DecidableEq, Repr, Inhabited

namespace Report

def version : String := "lakestack 0.1.0"

def usage : String := unlines [
  "Resource graph compiler — lakehouse stacks to Pulumi and Terraform documents",
  "",
  "Usage: lakestack [-v] <COMMAND>",
  "",
  "Commands:",
  "  init [PATH]",
  "  validate [-f FILE]",
  "  graph [-f FILE] [--json]",
  "  emit [-f FILE] [-b BACKEND] [-o DIRECTORY] [--stdout] [--check]"]

def ofOutcome : Except Failure String → Report
  | .ok text => ⟨0, text, ""⟩
  | .error f => ⟨1, "", unlines (f.details ++ ["error: " ++ f.message])⟩

variable {m : Type → Type} [Monad m]

-- The report on a command line. Where it cannot be understood, the usage is shown.
def ofArguments (files : FileAccess m) (args : List String) : m Report := do
  match Invocation.ofArguments? args with
  | some (.run c) => return ofOutcome (← (c.run files).run)
  | some .version => return ⟨0, version ++ "\n", ""⟩
  | some .help => return ⟨0, usage, ""⟩
  | none => return ⟨2, "", usage⟩

end Report

end Lakehouse
