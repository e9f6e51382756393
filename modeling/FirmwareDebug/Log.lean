import FirmwareDebug.Text.Quoted

/-! # How much is logged and in which form -/

namespace FirmwareDebug

/-- How much is logged. -/
inductive LogLevel
  | error | warn | info | debug | trace
  deriving DecidableEq, Repr

/-- How lines of the log are written. -/
inductive LogFormat
  | pretty | json
  deriving DecidableEq, Repr

/-- A word that names no level or no format. -/
inductive LogFault
  | unknownLevel (word : String)
  | unknownFormat (word : String)
  deriving DecidableEq, Repr

def LogFault.message : LogFault → String
  | unknownLevel word =>
    "Unknown log level " ++ Text.quoted word ++ ", use 'error', 'warn', 'info', 'debug' or 'trace'"
  | unknownFormat word => "Unknown log format " ++ Text.quoted word ++ ", use 'pretty' or 'json'"

def LogLevel.ofText (word : String) : Except LogFault LogLevel :=
  match word.toLower with
  | "error" | "err" => .ok .error
  | "warn" | "warning" => .ok .warn
  | "info" => .ok .info
  | "debug" | "dbg" => .ok .debug
  | "trace" => .ok .trace
  | _ => .error (.unknownLevel word)

def LogFormat.ofText (word : String) : Except LogFault LogFormat :=
  match word.toLower with
  | "pretty" | "text" => .ok .pretty
  | "json" => .ok .json
  | _ => .error (.unknownFormat word)

end FirmwareDebug
