import DisplayFile.Program

/-!
# The command line

Carries out the plan that the arguments give, on real files and streams.
-/

namespace DisplayFile

/-- The failure with the error code of the operating system. -/
def refusedWith (code : UInt32) (details : String) : ReadFailure :=
  match code with
  | 2 => .missing
  | 13 => .refused "Permission denied" 13
  | 20 => .notDirectory
  | 21 => .directory
  | 36 => .nameTooLong
  | code => .refused details code.toNat

def readFailure : IO.Error → ReadFailure
  | .noFileOrDirectory _ code details => refusedWith code details
  | .inappropriateType _ code details => refusedWith code details
  | .invalidArgument _ code details => refusedWith code details
  | .permissionDenied _ code details => refusedWith code details
  | error => .refused error.toString 5

def readFile (path : String) : IO (Except ReadFailure ByteArray) := do
  try
    return .ok (← IO.FS.readBinFile path)
  catch error => return .error (readFailure error)

def finishWith (result : Finish) : IO UInt32 := do
  IO.print result.stdout
  IO.eprint result.stderr
  return .ofNat result.exit

/-- Reads header lines up to the empty one; `none` at the end of the stream. -/
partial def readHeader (input : IO.FS.Stream) (header : String) : IO (Option String) := do
  let line ← input.getLine
  if line.isEmpty then return none
  else if line = "\r\n" || line = "\n" then return some header
  else readHeader input (header ++ line)

/-- Reads bytes until there are enough of them or the stream ends. -/
partial def readBody (input : IO.FS.Stream) (length : Nat) (body : ByteArray) : IO ByteArray := do
  if length ≤ body.size then return body
  let more ← input.read (.ofNat (length - body.size))
  if more.isEmpty then return body else readBody input length (body ++ more)

partial def serveStreams (input output : IO.FS.Stream) (service : Service) : IO Unit := do
  match ← readHeader input "" with
  | none => return
  | some header =>
    match headerLength? header.toList with
    | none => serveStreams input output service
    | some length =>
      let body ← readBody input length .empty
      let (sent, next) := service.serveBytes .standard body.toList
      output.putStr sent
      output.flush
      match next with
      | none => return
      | some service => serveStreams input output service

end DisplayFile

open DisplayFile in
def main (arguments : List String) : IO UInt32 := do
  match Plan.ofArguments arguments with
  | .finish result => finishWith result
  | .query path answer => finishWith (.ofQuery (answer ⟨path, ← readFile path⟩))
  | .serve =>
    serveStreams (← IO.getStdin) (← IO.getStdout) .initial
    return 0
