import Grimace.CommandLine.Options
import Grimace.Http.Service
import Grimace.Text.Lines

/-!
# Grimace.CommandLine.Run

What the program prints and with which code it ends, given what is in the files it
reads.

* *Check* reports everything there is to say about the texts of all rules.
* *Serve* starts the service; here it is only its heading.
* *Replay* puts the frames of a file, one on each line, to the selected profile.
  Blank lines are passed over, and a line that is no text ends the replay.

Check comes before serve and serve before replay, and with none of them there is
nothing to do.
-/

namespace Grimace.CommandLine

/-- What the program reads. -/
structure Inputs where
  profiles : FileContent
  settings : FileContent
  /-- The frames, from a file or from the standard input. -/
  frames : FileContent
  /-- The output is to be in colour unless the command line forbids it. -/
  colour : Bool

/-- What the program does. -/
structure Effect where
  stdout : String
  code : UInt8
  /-- The text to write to the profile file at the end; where that fails the code
  is 1. -/
  save : Option String

/-- An effect that saves nothing. -/
def print (stdout : String) (code : UInt8) : Effect := ⟨stdout, code, none⟩

/-- Texts as lines. -/
def unlines (lines : List String) : String := String.join (lines.map (· ++ "\n"))

/-- What the program prints of its version. -/
def versionLine : String := "facebind " ++ Http.version

/-- What the program prints when it is asked for help. -/
def helpText : String := unlines
  ["Usage: facebind [OPTIONS]", "",
    "  -p, --profiles <FILE>   Profile file", "      --settings <FILE>   Settings file",
    "  -f, --frames <FILE>     Frames to replay, one on each line ('-' for standard input)",
    "  -s, --serve             Run as HTTP service", "      --addr <ADDR>       Address to serve",
    "      --json              Print JSON", "      --no-color          Print without colours",
    "  -v, --verbose           Log more", "      --check             Check every rule",
    "  -h, --help              Print help", "  -V, --version           Print version"]

/-- How many bindings a set has. -/
def bindingCount {π : Type} (set : ProfileSet π) : Nat :=
  set.profiles.foldl (fun n p => n + p.bindings.length) 0

/-- The last line of a check. -/
def summary {π : Type} (set : ProfileSet π) (problems : Nat) : String :=
  s!"{set.size} profile(s), {bindingCount set} binding(s), {problems} problem(s)"

/-- Reports everything there is to say about the texts of all rules. -/
def check (o : Options) (colour : Bool) (set : ProfileSet Condition) : Effect :=
  let findings := set.findings .expressions
  let problems := (findings.filter fun d => d.code.isFailure).length
  let code := if problems = 0 then 0 else 1
  if o.json then print ((Json.array (findings.map Diagnostic.toJson)).pretty ++ "\n") code
  else
    let tint := if problems = 0 then Tint.green else Tint.red
    let last := tint.paint colour (summary set problems)
    print (unlines (findings.map Diagnostic.line ++ [last])) code

/-- The heading of the service, and that it could not be started. -/
def serve (colour : Bool) : Effect :=
  print (unlines [Tint.heading.paint colour s!"Facebind v{Http.version} - API Server", ""]) 1

/-- What a replay prints of a frame. -/
def reportLines (o : Options) (colour : Bool) (r : FrameReport) : List String :=
  if o.json then [r.toJson.compact]
  else if r.status = .evaluated then
    r.transitions.map fun t => if o.noColor then t.line else t.display colour
  else []

/-- The lines that a replay reads: up to the first that is no text, without the blank
ones. -/
def frameLines (bytes : ByteArray) : List String :=
  (((Text.lines bytes).takeWhile Option.isSome).filterMap id).filter fun s => !Text.isBlankText s

/-- Puts lines to the selected profile, one after the other: the reports and the set
after them. -/
def feed (allow : Bool) (set : ProfileSet Condition) :
    List String → List FrameReport × ProfileSet Condition
  | [] => ([], set)
  | line :: rest =>
    let result := set.evaluateReading .expressions (.gated allow .console) ()
      set.selection.toNat (DetectorFrame.ofText line)
    let (reports, set) := feed allow result.set rest
    (result.report :: reports, set)

/-- Puts the frames of a file to the selected profile. -/
def replay (o : Options) (colour : Bool) (settings : Settings) (set : ProfileSet Condition)
    (frames : FileContent) : Effect :=
  let run (bytes : ByteArray) : Effect :=
    let (reports, set) :=
      feed settings.allowInputSimulation (set.normalize .expressions) (frameLines bytes)
    ⟨unlines (reports.flatMap (reportLines o colour)), 0,
      if settings.autoSaveProfiles then some set.fileText else none⟩
  match frames with
  | .ok bytes => run bytes
  | .error .isDirectory => run ByteArray.empty
  | .error _ => print "" 1

/-- What the program does with the options of a command line. -/
def run (o : Options) (inputs : Inputs) : Effect :=
  let colour := inputs.colour && !o.noColor
  let set := ProfileSet.loadOrEmpty inputs.profiles
  if o.check then check o colour set
  else if o.serve then serve colour
  else if o.frames.isSome then replay o colour (.load inputs.settings) set inputs.frames
  else print "" 2

/-- What the program does when no options come of its command line. -/
def stopped : Stop → Effect
  | .mistake => print "" 2
  | .help => print helpText 0
  | .version => print (versionLine ++ "\n") 0

end Grimace.CommandLine
