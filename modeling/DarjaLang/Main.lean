import DarjaLang.CommandLine.Program

/-!
# The program at work

Reads the input that the options ask for, runs the program on it and writes what comes of it.
-/

set_option autoImplicit false

namespace DarjaLang

namespace CommandLine

/-- Far more passes than any loop can make. -/
def practicallyUnbounded : Nat := Nat.pow 2 62

/-- The failure to find a file. -/
def notFound : StreamError := ⟨.other, "No such file or directory (os error 2)"⟩

/-- The failure to read a folder. -/
def isAFolder : StreamError := ⟨.other, "Is a directory (os error 21)"⟩

/-- Reads a stream to its end. -/
partial def readStream (stream : IO.FS.Stream) (read : ByteArray) : IO ByteArray := do
  let chunk ← stream.read 65536
  if chunk.isEmpty then return read else readStream stream (read ++ chunk)

/-- Opens a file for reading.  A folder can be opened, but not read. -/
def openFile (path : String) : IO (Except StreamError Input) := do
  try
    return .ok (Lines.ofBytes (← IO.FS.readBinFile path))
  catch
    | .noFileOrDirectory _ _ _ => return .error notFound
    | .inappropriateType _ _ _ => return .ok [.error isAFolder]
    | e => return .error ⟨.other, toString e⟩

/-- What the program does with some options. -/
def exitOf (o : Options) : IO (Option Exit) := do
  match o.file with
  | none =>
    let stdin ← readStream (← IO.getStdin) .empty
    return execute practicallyUnbounded o (Lines.ofBytes stdin) fun _ => .ok []
  | some path =>
    let opened ← openFile path
    return execute practicallyUnbounded o [] fun _ => opened

/-- Runs the program and gives the code to exit with. -/
def perform (o : Options) : IO UInt32 := do
  match ← exitOf o with
  | none => return 1
  | some exit =>
    IO.print exit.stdout
    IO.eprint exit.stderr
    return exit.code.toUInt32

end CommandLine

end DarjaLang
