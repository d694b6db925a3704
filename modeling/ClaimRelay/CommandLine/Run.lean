import ClaimRelay.Arguments
import ClaimRelay.Binary.Token
import ClaimRelay.Binary.TokenWriter
import ClaimRelay.CommandLine.Options
import ClaimRelay.Json.TextWriter

/-!
# Running a command line

Nothing is written before all of the output is there.
-/

namespace ClaimRelay.CommandLine

inductive Failure
  /-- The system refuses to read or write. -/
  | system (report : String)
  | argument (error : ArgumentError)
  | transcoding (error : Error)
  deriving DecidableEq

def Failure.message : Failure → String
  | system report => "IO error: " ++ report
  | argument error => error.message
  | transcoding error => error.message

namespace Options

/-- What a reader serves, in the chosen format; JSON text ends in a line break. -/
def encode {σ : Type} (o : Options) (r : Reader σ) (s : σ) : Except Failure (List UInt8) :=
  Except.mapError .transcoding <|
    match o.format with
    | .binary => Binary.render o.maxDepth r s
    | .json => do
      let text ← Json.render (if o.pretty then .pretty else .compact) o.maxDepth r s
      return text ++ [0x0a]

def encodeToken (o : Options) (bytes : List UInt8) : Except Failure (List UInt8) := do
  let cursor ← (Binary.open? bytes).mapError fun refusal => .transcoding refusal.toError
  o.encode Cursor.reader cursor

def encodeClaims (o : Options) (arguments : List String) : Except Failure (List UInt8) := do
  let claims ← (Arguments.parse arguments).mapError .argument
  o.encode Arguments.reader claims

end Options

/-- What a command line reads from and writes to. A refusal is reported in the system's words. -/
structure Host (m : Type → Type) where
  read : Place → m (Except String (List UInt8))
  write : Place → List UInt8 → m (Except String Unit)
  /-- Puts a line on the standard error. -/
  complain : String → m Unit

variable {m : Type → Type} [Monad m]

def output (host : Host m) (o : Options) : m (Except Failure (List UInt8)) := do
  match o.source with
  | .claims arguments => return o.encodeClaims arguments
  | .token place =>
    match ← host.read place with
    | .error report => return .error (.system report)
    | .ok bytes => return o.encodeToken bytes

def fail (host : Host m) (failure : Failure) : m Nat := do
  host.complain ("error: " ++ failure.message)
  return 1

def usage : String :=
  "Usage: claim-relay (--in FILE | -c LABEL:VALUE...) [-f tlv|json] [-o FILE] [--max-depth N] [--pretty] [-v]"

/-- Says how much has been written, if that is asked for. -/
def report (host : Host m) (o : Options) (bytes : List UInt8) : m Unit :=
  if o.verbose then host.complain s!"{bytes.length} bytes written" else pure ()

def run (host : Host m) (args : List String) : m Nat := do
  match Options.parse args with
  | .error .help =>
    let _ ← host.write .standard (Text.utf8 (usage ++ "\n"))
    return 0
  | .error .usage =>
    host.complain usage
    return 2
  | .ok o =>
    match ← output host o with
    | .error failure => fail host failure
    | .ok bytes =>
      match ← host.write o.destination bytes with
      | .error report => fail host (.system report)
      | .ok () =>
        report host o bytes
        return 0

end ClaimRelay.CommandLine
