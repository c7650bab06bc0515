import LossWatch.CommandLine

/-!
The program's outer layer: arguments, files and streams.
-/

namespace LossWatch

open CommandLine

def reasonOf : IO.Error → String
  | .noFileOrDirectory .. => "No such file or directory (os error 2)"
  | .permissionDenied .. => "Permission denied (os error 13)"
  | e => toString e

def leave (e : Exit) : IO UInt32 := do
  IO.print e.output
  IO.eprint e.errors
  return e.code.toUInt32

def perform : Job → IO UInt32
  | .exit e => leave e
  | .write path text andThen => do
    match ← (IO.FS.writeFile path text).toBaseIO with
    | .ok () => leave (andThen none)
    | .error e => leave (andThen (some (reasonOf e)))
  | .read path andThen => do
    match ← (IO.FS.readFile path).toBaseIO with
    | .ok text => leave (andThen (.ok text))
    | .error e => leave (andThen (.error (reasonOf e)))

end LossWatch

def main (args : List String) : IO UInt32 := do
  let bytes ← IO.getRandomBytes 8
  LossWatch.perform (LossWatch.CommandLine.job args (bytes.foldl (fun n b => n * 256 + b.toNat) 0))
