import ClassMachine.CommandLine.Options
import ClassMachine.CommandLine.Report
import ClassMachine.Files.ClassPath
import ClassMachine.Machine.Interpreter
import ClassMachine.Native.Bootstrap

/-!
# Running a command line

The class file is defined first, whatever class it holds. Its method gets null for every parameter
of the given descriptor. Other classes are found on the class path, which ends with the directory
of the class file.
-/

namespace ClassMachine.CommandLine

/-- What a run leaves behind. -/
structure Outcome where
  exit : Nat
  stdout : Bytes := []
  stderr : String := ""
  /-- The names of the classes that were looked for, in order. -/
  asked : List String := []
deriving Repr, DecidableEq, Inhabited

def versionText : String := "cortado 0.1.0\n"

def usageText : String :=
  "Usage: cortado [OPTIONS] <CLASS_FILE>\n\n" ++
  "Options:\n" ++
  "  -c, --class-path <DIR[:DIR..]>  Directories searched for referenced classes\n" ++
  "      --method <NAME>             Name of the static method to run [default: main]\n" ++
  "      --descriptor <TEXT>         Descriptor of the method to run\n" ++
  "  -h, --help                      Print help\n" ++
  "  -V, --version                   Print version\n"

/-- Why a run fails: the failure that is reported, and its causes. -/
inductive Failure where
  | report (failure : String) (causes : List String)
  | tooDeep
deriving Repr, DecidableEq, Inhabited

/-- A fault by itself. -/
def Failure.ofFault (fault : Fault) : Failure :=
  match fault.chain with
  | [] => .report "" []
  | failure :: causes => .report failure causes

/-- A fault as the cause of a failure. -/
def Failure.because (failure : String) : Stop → Failure
  | .fault fault => .report failure fault.chain
  | .tooDeep => .tooDeep

def classPath (options : Options) : ClassPath :=
  ⟨options.classPath ++ [Path.directory options.classFile]⟩

/-- Reads and defines the class file. -/
def defineFile (read : String → Except IoError Bytes) (path : String) : Run ClassFile := do
  match read path with
  | .error e => Run.fail (.io e)
  | .ok content =>
    Run.link do
      let name ← Linking.define content
      return (← Linking.lookup name).file

/-- The whole run: what stopped it, if anything, and the machine at its end. -/
def execute (read : String → Except IoError Bytes) (depth : Nat) (options : Options)
    (address : ObjectId → Nat := Heap.spaced) : Option Failure × Machine :=
  let machine := Bootstrap.machine ((classPath options).source read) {} address
  match EStateM.run (defineFile read options.classFile) machine with
  | .error stop machine =>
    (some (.because ("cannot load " ++ options.classFile) stop), machine)
  | .ok file machine =>
    let descriptor := Utf8.encode options.descriptor
    match MethodSignature.parse descriptor with
    | .error e => (some (.ofFault (.structural e)), machine)
    | .ok signature =>
      let args := signature.params.map fun _ => Slot.null
      let call := do
        let name ← Run.structural file.name
        Machine.invoke depth name (Utf8.encode options.method) descriptor args
      match EStateM.run call machine with
      | .ok _ machine => (none, machine)
      | .error stop machine =>
        let failure := file.displayName ++ "." ++ options.method ++ " failed"
        (some (.because failure stop), machine)

def outcome (result : Option Failure × Machine) : Outcome :=
  let stdout := result.2.console.output
  let asked := result.2.table.asked.reverse
  match result.1 with
  | none => { exit := 0, stdout, asked }
  | some (.report failure causes) =>
    { exit := 1, stdout, stderr := Report.render failure causes, asked }
  | some .tooDeep => { exit := 134, stdout, stderr := "calls are nested too deep\n", asked }

/-- Runs a command line over the files that `read` gives. -/
def run (read : String → Except IoError Bytes) (depth : Nat) (arguments : List String) : Outcome :=
  match parse arguments with
  | .error e => { exit := 2, stderr := "error: " ++ e.message ++ "\n\n" ++ usageText }
  | .ok .version => { exit := 0, stdout := Utf8.encode versionText }
  | .ok .help => { exit := 0, stdout := Utf8.encode usageText }
  | .ok (.run options) => outcome (execute read depth options)

/-- The files that may hold a class that was looked for, in the order of the search. -/
def files (arguments : List String) (asked : List String) : List String :=
  match parse arguments with
  | .ok (.run options) => options.classFile :: asked.flatMap (classPath options).candidates
  | _ => []

end ClassMachine.CommandLine
