import Arcade.Command.Run

/-! The command line. A run is repeated until all that it reads is at hand, so every place is
read once and in the order in which it is needed. -/

namespace Arcade.Command

/-- What has been read so far. -/
abbrev Inputs := List (Input × Except ReadFailure (List UInt8))

/-- The number of a system error, which is negated by some operations. -/
def errorNumber (code : UInt32) : UInt32 := if code.toNat < Nat.pow 2 31 then code else 0 - code

/-- The failure that an error of the system stands for. -/
def readFailure : IO.Error → ReadFailure
  | .noFileOrDirectory .. => .notFound
  | .inappropriateType _ code _ => if errorNumber code = 20 then .notDirectory else .isDirectory
  | .invalidArgument _ code details =>
    match errorNumber code with
    | 22 => .nulInName
    | 36 => .nameTooLong
    | _ => .other details
  | .permissionDenied .. => .other "Permission denied (os error 13)"
  | error => .other (toString error)

def readInput (input : Input) : IO (Except ReadFailure (List UInt8)) := do
  try
    let bytes ← match input with
      | .standard => (← IO.getStdin).readBinToEnd
      | .file path => IO.FS.readBinFile path
    return .ok bytes.toList
  catch error => return .error (readFailure error)

partial def runReading (arguments : List String) (logging : Option String) (inputs : Inputs) :
    IO Outcome := do
  let read input := (inputs.lookup input).getD (.error .notFound)
  let outcome := run arguments { read, logging }
  match outcome.asked.find? fun input => (inputs.lookup input).isNone with
  | none => return outcome
  | some input => runReading arguments logging (inputs ++ [(input, ← readInput input)])

end Arcade.Command

def main (arguments : List String) : IO UInt32 := do
  let outcome ← Arcade.Command.runReading arguments (← IO.getEnv "RUST_LOG") []
  IO.print outcome.stdout
  IO.eprint outcome.stderr
  return outcome.code.toUInt32
