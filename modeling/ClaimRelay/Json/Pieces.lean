import ClaimRelay.Json.Value
import ClaimRelay.Text.Hex

/-!
# The pieces JSON text is written in

Text goes out in pieces, each of which is written whole or not at all: punctuation marks, numbers and names,
and within a string the quotes, the escapes and the runs between them.
-/

namespace ClaimRelay.Json

/-- The escape of a character that cannot stand for itself in a string. -/
def escape? (c : Char) : Option (List Char) :=
  match c with
  | '"' => some ['\\', '"']
  | '\\' => some ['\\', '\\']
  | '\x08' => some ['\\', 'b']
  | '\x0c' => some ['\\', 'f']
  | '\n' => some ['\\', 'n']
  | '\r' => some ['\\', 'r']
  | '\t' => some ['\\', 't']
  | c => if c < ' ' then some ('\\' :: 'u' :: '0' :: '0' :: Text.hexPair (UInt8.ofNat c.toNat)) else none

def runPiece (run : List Char) : List (List Char) := if run.isEmpty then [] else [run]

/-- The runs and escapes of a text; `run` is what is already read of the current run, backwards. -/
def textPieces (run : List Char) : List Char → List (List Char)
  | [] => runPiece run.reverse
  | c :: rest =>
    match escape? c with
    | none => textPieces (c :: run) rest
    | some e => runPiece run.reverse ++ e :: textPieces [] rest

def stringPieces (s : String) : List (List Char) := ['"'] :: textPieces [] s.toList ++ [['"']]

/-- Doubles are written to their shortest digits, of two equally near the even one, with an exponent below
`1e-5` and from `1e16` on. -/
def doubleLayout : Decimal.Layout := ⟨.toEven, fun e => -5 ≤ e ∧ e < 16, true⟩

def scalarPieces : Json → List (List Char)
  | null => ["null".toList]
  | bool true => ["true".toList]
  | bool false => ["false".toList]
  | int v => [(toString v).toList]
  | double v => [(doubleLayout.text v).toList]
  | string v => stringPieces v
  | object _ => []

end ClaimRelay.Json
