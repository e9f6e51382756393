import FirmwareDebug.Command.Report

/-! # From a command line to what is written and the exit code -/

namespace FirmwareDebug

/-- What a run of the program leaves behind. -/
structure Outcome where
  code : UInt32
  output : String := ""
  errors : String := ""
  deriving DecidableEq, Repr

namespace Outcome

def usage : String :=
  "Usage: emdbg [OPTIONS] <COMMAND>\n\nCommands:\n  units <ELF>\n  line <ELF> <ADDRESS>\n" ++
  "  breakpoints <ELF> <FILE> <LINE>\n  context <ELF> <ADDRESS>\n  type <ELF> <DIE_OFFSET>\n" ++
  "  unwind-code <ELF> <ADDRESS>\n  backtrace <ELF> --registers <REGISTERS> --ram <RAM>\n" ++
  "  locals <ELF> --registers <REGISTERS> --ram <RAM>\n  coverage <ELF>\n"

def ofStop : Arguments.Stop → Outcome
  | .help => { code := 0, output := usage }
  | .version => { code := 0, output := "emdbg 0.0.0\n" }
  | .misuse => { code := 2, errors := usage }

def ofReport (report : Report Unit) : Outcome :=
  match report {} with
  | .ok _ console => { code := 0, output := console.output }
  | .error fault console => { code := 1, output := console.output, errors := "Error: " ++ fault.message ++ "\n" }

/-- The outcome of a command when the environment may name the format of the log. -/
def ofCommand (logFormat : Option String) (files : Files) (command : Command) : Outcome :=
  match logFormat.mapM LogFormat.ofText with
  | .ok _ => ofReport (Report.run files command)
  | .error fault => { code := 1, errors := "Failed to initialize logging: " ++ fault.message ++ "\n" }

def ofArguments (logFormat : Option String) (files : Files) (arguments : List String) : Outcome :=
  match Arguments.parse arguments with
  | .ok command => ofCommand logFormat files command
  | .error stop => ofStop stop

end Outcome

end FirmwareDebug
