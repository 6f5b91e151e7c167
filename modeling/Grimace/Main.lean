import Grimace.CommandLine.Run

/-!
# Grimace.Main

The program: reads the files that its command line names, prints, and saves.
-/

namespace Grimace.CommandLine

/-- Reads a file. -/
def readFile (path : String) : IO FileContent := do
  try
    return .ok (← IO.FS.readBinFile path)
  catch e =>
    match e with
    | .noFileOrDirectory .. => return .error .notFound
    | .inappropriateType .. => return .error .isDirectory
    | e => return .error (.other (toString e))

/-- Reads the frames: a dash stands for the standard input. -/
def readFrames : Option String → IO FileContent
  | none => return .error .notFound
  | some "-" => return .ok (← (← IO.getStdin).readBinToEnd)
  | some path => readFile path

/-- The directory part of a path, empty if there is none. -/
def directoryOf (path : String) : String :=
  String.ofList ((path.toList.reverse.dropWhile (· != '/')).drop 1).reverse

/-- Writes a text to a file, in a directory that is made if it is not there; tells
whether that worked. -/
def writeFile (path text : String) : IO Bool := do
  try
    if directoryOf path != "" then IO.FS.createDirAll (directoryOf path)
    IO.FS.writeFile path text
    return true
  catch _ => return false

/-- The output is to be in colour: that is asked for, or someone looks at it. -/
def wantsColour : IO Bool := do
  match ← IO.getEnv "CLICOLOR_FORCE" with
  | some value => return value != "0"
  | none => (← IO.getStdout).isTty

/-- Carries out an effect. -/
def carryOut (profiles : String) (e : Effect) : IO UInt32 := do
  IO.print e.stdout
  match e.save with
  | none => return e.code.toUInt32
  | some text => return if ← writeFile profiles text then e.code.toUInt32 else 1

end Grimace.CommandLine

open Grimace.CommandLine in
/-- The program. -/
def main (args : List String) : IO UInt32 := do
  match parse args with
  | .error stop => carryOut "" (stopped stop)
  | .ok o =>
    let frames ← if o.check || o.serve then pure (.error .notFound) else readFrames o.frames
    let inputs : Inputs :=
      { profiles := ← readFile o.profiles
        settings := ← readFile o.settings
        frames
        colour := ← wantsColour }
    carryOut o.profiles (run o inputs)
