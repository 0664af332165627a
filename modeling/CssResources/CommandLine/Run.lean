import CssResources.CommandLine.Arguments
import CssResources.Host

/-!
# Running the command line

`CssResources.run` is the whole program, for any system with files: it reads the arguments
and the configuration, converts one file into another, and says what it did. It changes
no file but the document, and that one only as its last step.
-/

namespace CssResources

/-- **What a run of the program leaves** beside its files. -/
structure Report where
  /-- The exit code: 0 for success, 1 for an error, 2 for arguments that cannot be read. -/
  exitCode : Nat
  /-- What is printed. -/
  output : Text := []
  /-- What is printed as an error. -/
  errors : Text := []
  deriving DecidableEq, Repr

/-! ### Wording -/

/-- The name and version of the program. -/
def versionLine : Text := "css2android 0.1.0\n".toList

/-- The lines of a summary of the command line. -/
def helpLines : List String :=
  ["Usage: css2android [OPTIONS] <input> <output>",
   "",
   "  -c, --config <FILE>        configuration in JSON or TOML",
   "  -p, --prefix <PREFIX>      what every name of a style begins with",
   "  -D, --define <NAME=VALUE>  a custom property",
   "      --colors               write colors",
   "  -d, --debug                give details",
   "      --stats                print statistics",
   "  -w, --watch                accepted; a run converts once",
   "  -v, --verbose              report more",
   "  -h, --help                 print this summary",
   "  -V, --version              print the version"]

/-- A summary of the command line. -/
def helpText : Text := helpLines.flatMap fun line => line.toList ++ ['\n']

/-- The statistics as JSON, on lines of their own, with the milliseconds that the
conversion took. -/
def Statistics.json (s : Statistics) (milliseconds : Nat) : Text :=
  let field (f : Text × Nat) : Text :=
    "  \"".toList ++ f.1 ++ "\": ".toList ++ natText f.2
  let lines := (s.fields ++ [("convert_time_ms".toList, milliseconds)]).map field
  ['{', '\n'] ++ (lines.intersperse [',', '\n']).flatten ++ ['\n', '}', '\n']

/-- What is printed after a conversion. -/
def successText (mode : Mode) (output : Text) (s : Statistics) : Text :=
  "Android ".toList ++ mode.name ++ " XML file generated: ".toList ++ output ++ ['\n']
    ++ if s.diagnosticCount = 0 then []
      else "   ".toList ++ natText s.diagnosticCount
        ++ " diagnostics (run with -v for details)\n".toList

/-- What is printed of an error: of a missing file its own wording alone. -/
def ConvertError.report (e : ConvertError) : Text :=
  (match e with
    | .fileNotFound file => file.message
    | e => "Conversion failed: ".toList ++ e.message) ++ ['\n']

/-- What is left by arguments that do not ask for a conversion. -/
def Ending.report : Ending → Report
  | version => { exitCode := 0, output := versionLine }
  | help => { exitCode := 0, output := helpText }
  | unknownSwitch argument =>
    { exitCode := 2, errors := "unexpected argument '".toList ++ argument ++ "'\n".toList }
  | repeated => { exitCode := 2, errors := "argument used more than once\n".toList }
  | unexpectedValue => { exitCode := 2, errors := "unexpected value\n".toList }
  | missingValue => { exitCode := 2, errors := "missing value\n".toList }
  | tooManyFiles => { exitCode := 2, errors := "too many files\n".toList }
  | missingFiles => { exitCode := 2, errors := "an input and an output are required\n".toList }

/-! ### The program -/

variable {m : Type → Type} [Monad m] [Host m]

/-- The configuration that the arguments name, or one that sets nothing. -/
def Arguments.loadConfig (args : Arguments) : m (Except ConvertError Config) :=
  match args.config? with
  | some path => CssResources.loadConfig path
  | none => return .ok {}

/-- **Converts as the arguments say**: the configuration comes first, then the stylesheet
has to be there, then the definitions have to be right. The result is the mode and the
statistics. -/
def Arguments.convert (args : Arguments) : m (Except ConvertError (Mode × Statistics)) := do
  match ← args.loadConfig (m := m) with
  | .error e => return .error e
  | .ok config =>
    if ← Host.hasPath args.input then
      match args.options config with
      | .error fault => return .error (.invalidFormat fault)
      | .ok options =>
        match ← convertFile (m := m) options args.input args.output with
        | .error e => return .error e
        | .ok statistics => return .ok (options.mode, statistics)
    else return .error (.fileNotFound (.input args.input))

/-- **Runs the program.** -/
def run (args : List Text) : m Report := do
  match Arguments.ofList args with
  | .error e => return e.report
  | .ok args =>
    let start ← Host.clock
    match ← args.convert (m := m) with
    | .error e => return { exitCode := 1, errors := e.report }
    | .ok (mode, statistics) =>
      let stop ← Host.clock
      return {
        exitCode := 0
        output :=
          successText mode args.output statistics
            ++ if .stats ∈ args.flags then statistics.json (stop - start) else [] }

end CssResources
