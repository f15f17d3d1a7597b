import Montage.Service.Address
import Montage.Text.Blank
import Montage.Text.Integer

/-!
# Configuration

The service is configured by variables, looked up by name.  Each has a default; a value that makes
no sense is an error, and the first one counts.
-/

namespace Montage

/-- How much is logged. -/
inductive LogLevel where
  | off
  | error
  | warn
  | info
  | debug
  | trace
  deriving Repr, DecidableEq

namespace LogLevel

def all : List LogLevel := [.off, .error, .warn, .info, .debug, .trace]

def name : LogLevel → String
  | .off => "off"
  | .error => "error"
  | .warn => "warn"
  | .info => "info"
  | .debug => "debug"
  | .trace => "trace"

/-- The level that a text stands for: its number, or its name in any case; errors only for an empty
text. -/
def ofText? (s : String) : Option LogLevel :=
  if s.isEmpty then some .error
  else
    match (Text.unsigned? UInt64.size s.toList).bind (all[·]?) with
    | some level => some level
    | none => all.find? fun level => Text.sameLetters level.name s

end LogLevel

/-- The configuration of the service. -/
structure Config where
  bind : SocketAddress
  cacheDir : String
  outputDir : String
  encoder : String
  prober : String
  /-- Keep the intermediate files of every job. -/
  debug : Bool
  logLevel : LogLevel
  /-- How many seconds an ended job is kept. -/
  retention : Nat
  deriving Repr, DecidableEq

namespace Config

/-- The variables. -/
inductive Variable where
  | bind
  | debug
  | log
  | retention
  | cacheDir
  | outputDir
  | encoder
  | prober
  deriving Repr, DecidableEq

def Variable.name : Variable → String
  | .bind => "CUTLINE_BIND"
  | .debug => "CUTLINE_DEBUG"
  | .log => "CUTLINE_LOG"
  | .retention => "CUTLINE_JOB_RETENTION_SECS"
  | .cacheDir => "CUTLINE_CACHE_DIR"
  | .outputDir => "CUTLINE_OUTPUT_DIR"
  | .encoder => "CUTLINE_FFMPEG"
  | .prober => "CUTLINE_FFPROBE"

/-- What a variable has to be; a variable that may be any text has to be nothing. -/
def Variable.expected : Variable → String
  | .bind => "a socket address"
  | .debug => "a boolean"
  | .log => "a log level"
  | .retention => "a number of seconds"
  | .cacheDir | .outputDir | .encoder | .prober => ""

/-- A variable with a value that makes no sense. -/
structure Misfit where
  subject : Variable
  value : String
  deriving Repr, DecidableEq

def Misfit.message (m : Misfit) : String :=
  m.subject.name ++ " is not " ++ m.subject.expected ++ ": " ++ m.value

/-- The truth value that a text stands for. -/
def flag? (s : String) : Option Bool :=
  let word := Text.lower (Text.trim s)
  if ["1", "true", "yes", "on"].contains word then some true
  else if ["0", "false", "no", "off", ""].contains word then some false
  else none

/-- The number of seconds that a text stands for. -/
def seconds? (s : String) : Option Nat := Text.unsigned? UInt64.size (Text.trimChars s.toList)

/-- The value of a variable, or its default. -/
def read {α : Type} (lookup : String → Option String) (v : Variable) (parse : String → Option α)
    (default : α) : Except Misfit α :=
  match lookup v.name with
  | none => .ok default
  | some value =>
    match parse value with
    | some x => .ok x
    | none => .error ⟨v, value⟩

/-- Where the service listens if nothing else is said: on port 7777 of the machine itself. -/
def defaultBind : SocketAddress := .v4 ⟨127, 0, 0, 1⟩ 7777

/-- The configuration that the variables say. -/
def ofLookup (lookup : String → Option String) : Except Misfit Config := do
  let bind ← read lookup .bind SocketAddress.ofText? defaultBind
  let debug ← read lookup .debug flag? false
  let logLevel ← read lookup .log LogLevel.ofText? .info
  let retention ← read lookup .retention seconds? 3600
  let text (v : Variable) (default : String) : String := (lookup v.name).getD default
  return {
    bind, debug, logLevel, retention
    cacheDir := text .cacheDir ".cache/cutline"
    outputDir := text .outputDir "output"
    encoder := text .encoder "ffmpeg"
    prober := text .prober "ffprobe" }

end Config

end Montage
