import ClaimRelay.Walk

/-!
# Options

The command line names what to read, either a token or a list of claims, and how and where to write it.
-/

namespace ClaimRelay.CommandLine

inductive Format
  | binary
  | json
  deriving DecidableEq

def Format.ofName? : String → Option Format
  | "tlv" => some .binary
  | "json" => some .json
  | _ => none

/-- A file, or the standard input or output. -/
inductive Place
  | standard
  | file (path : String)
  deriving DecidableEq

def Place.ofName (name : String) : Place := if name = "-" then standard else file name

inductive Source
  | token (place : Place)
  | claims (arguments : List String)
  deriving DecidableEq

structure Options where
  source : Source
  format : Format
  destination : Place
  maxDepth : Nat
  pretty : Bool
  verbose : Bool
  deriving DecidableEq

inductive Stop
  | usage
  | help
  deriving DecidableEq

inductive Key
  | input
  | claim
  | format
  | output
  | maxDepth
  deriving DecidableEq

inductive Switch
  | pretty
  | verbose
  | help
  deriving DecidableEq

def Key.ofLong? : String → Option Key
  | "in" => some .input
  | "claim" => some .claim
  | "out-format" => some .format
  | "out" => some .output
  | "max-depth" => some .maxDepth
  | _ => none

def Key.ofShort? : Char → Option Key
  | 'c' => some .claim
  | 'f' => some .format
  | 'o' => some .output
  | _ => none

def Switch.ofLong? : String → Option Switch
  | "pretty" => some .pretty
  | "verbose" => some .verbose
  | "help" => some .help
  | _ => none

def Switch.ofShort? : Char → Option Switch
  | 'v' => some .verbose
  | 'h' => some .help
  | _ => none

/-- What has been given so far, and whether the argument to come is the value of an option. -/
structure Given where
  input : Option String := none
  claims : List String := []
  format : Option Format := none
  output : Option String := none
  maxDepth : Option Nat := none
  pretty : Bool := false
  verbose : Bool := false
  awaiting : Option Key := none
  /-- After a double hyphen there are only operands, and none is taken. -/
  ended : Bool := false
  deriving DecidableEq

namespace Given

/-- A natural of 64 bits, with a plus sign or without. -/
def size? (s : String) : Option Nat :=
  let digits := match s.toList with
    | '+' :: cs => cs
    | cs => cs
  if digits.isEmpty || !digits.all Char.isDigit then none
  else
    let n := digits.foldl (fun n c => n * 10 + (c.toNat - '0'.toNat)) 0
    if n < UInt64.size then some n else none

/-- Claims add up; all else is given once. -/
def put (g : Given) : Key → String → Except Stop Given
  | .input, v => if g.input.isSome then throw .usage else pure { g with input := some v }
  | .claim, v => pure { g with claims := g.claims ++ [v] }
  | .format, v =>
    match g.format, Format.ofName? v with
    | none, some f => pure { g with format := some f }
    | _, _ => throw .usage
  | .output, v => if g.output.isSome then throw .usage else pure { g with output := some v }
  | .maxDepth, v =>
    match g.maxDepth, size? v with
    | none, some n => pure { g with maxDepth := some n }
    | _, _ => throw .usage

def turnOn (g : Given) : Switch → Except Stop Given
  | .pretty => if g.pretty then throw .usage else pure { g with pretty := true }
  | .verbose => if g.verbose then throw .usage else pure { g with verbose := true }
  | .help => throw .help

/-- An argument after two hyphens: a name, with a value after an equals sign or without. -/
def long (g : Given) (cs : List Char) : Except Stop Given :=
  let (name, attached) := cs.span (· != '=')
  let name := String.ofList name
  match Key.ofLong? name, Switch.ofLong? name, attached with
  | some key, _, [] => pure { g with awaiting := some key }
  | some key, _, _ :: value => g.put key (String.ofList value)
  | none, some switch, [] => g.turnOn switch
  | none, _, _ => throw .usage

/-- An argument after one hyphen: switches, then perhaps an option with its value. -/
def short (g : Given) : List Char → Except Stop Given
  | [] => pure g
  | c :: cs =>
    match Switch.ofShort? c, Key.ofShort? c, cs with
    | some switch, _, _ => do short (← g.turnOn switch) cs
    | none, some key, [] => pure { g with awaiting := some key }
    | none, some key, '=' :: value => g.put key (String.ofList value)
    | none, some key, value => g.put key (String.ofList value)
    | none, none, _ => throw .usage

def argument (g : Given) (arg : String) : Except Stop Given :=
  if g.ended then throw .usage
  else
    match g.awaiting, arg.toList with
    | some _, ['-', '-'] => throw .usage
    | none, ['-', '-'] => pure { g with ended := true }
    | some _, '-' :: _ :: _ => throw .usage
    | some key, _ => { g with awaiting := none }.put key arg
    | none, '-' :: '-' :: cs => g.long cs
    | none, '-' :: c :: cs => g.short (c :: cs)
    | none, _ => throw .usage

/-- Either a token or claims are read, and not both. -/
def options (g : Given) : Except Stop Options := do
  if g.awaiting.isSome then throw .usage
  let source ←
    match g.input, g.claims with
    | some name, [] => pure (.token (.ofName name))
    | none, _ :: _ => pure (.claims g.claims)
    | _, _ => throw .usage
  return {
    source
    format := g.format.getD .json
    destination := (g.output.map Place.ofName).getD .standard
    maxDepth := g.maxDepth.getD Walk.defaultLimit
    pretty := g.pretty
    verbose := g.verbose }

end Given

def Options.parse (args : List String) : Except Stop Options := do
  (← args.foldlM Given.argument {}).options

end ClaimRelay.CommandLine
