import ClaimRelay.CommandLine.Run

/-!
# The program
-/

namespace ClaimRelay

open CommandLine

def describe : IO.Error → String
  | .noFileOrDirectory _ code details | .permissionDenied _ code details
  | .inappropriateType _ code details | .invalidArgument _ code details
  | .resourceExhausted _ code details | .alreadyExists _ code details
  | .noSuchThing _ code details => s!"{details} (os error {code})"
  | .otherError code details | .hardwareFault code details | .illegalOperation code details
  | .resourceBusy code details | .resourceVanished code details => s!"{details} (os error {code})"
  | e => toString e

def attempt {α : Type} (act : IO α) : IO (Except String α) := do
  match ← act.toBaseIO with
  | .ok a => return .ok a
  | .error e => return .error (describe e)

partial def readAll (stream : IO.FS.Stream) (read : ByteArray) : IO ByteArray := do
  let chunk ← stream.read 65536
  if chunk.isEmpty then return read else readAll stream (read ++ chunk)

def system : Host IO where
  read
    | .standard => attempt do return (← readAll (← IO.getStdin) .empty).data.toList
    | .file path => attempt do
      let file ← IO.FS.Handle.mk path .read
      return (← file.readBinToEnd).data.toList
  write
    | .standard, bytes => attempt do
      let out ← IO.getStdout
      out.write ⟨bytes.toArray⟩
      out.flush
    | .file path, bytes => attempt (IO.FS.writeBinFile path ⟨bytes.toArray⟩)
  complain := IO.eprintln

end ClaimRelay

def main (args : List String) : IO UInt32 :=
  return UInt32.ofNat (← ClaimRelay.CommandLine.run ClaimRelay.system args)
