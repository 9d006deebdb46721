import Mos6502.CommandLine.Arguments
import Mos6502.CommandLine.Console
import Mos6502.Description.Build
import Mos6502.Machine.Run
import Mos6502.Registers.Json

/-! One run of the program: a machine is built as the options say, runs, and is written down. -/
namespace Mos6502

def Fault.failure (f : Fault) : CommandLine.Failure := ⟨f.message, f.cause?.toList.map (·.message)⟩

def DescriptionError.failure : DescriptionError → CommandLine.Failure
  | .file path e => ⟨"failed to read " ++ path ++ ": " ++ e.message, [e.message]⟩
  | .json (.mismatch m) => ⟨"invalid machine description: " ++ m.message, [m.message]⟩
  | .json (.flaw .truncated) => ⟨"invalid machine description: unexpected end", ["unexpected end"]⟩
  | .json (.flaw .malformed) => ⟨"invalid machine description: not JSON", ["not JSON"]⟩
  | .bus e => ⟨e.message, []⟩
  | .memoryExhausted => ⟨"memory exhausted", []⟩

namespace CommandLine

namespace Options

/-- The description of the machine: loaded from a file, or made for the ROM. -/
def description (o : Options) (fs : Files) : Except Failure Description :=
  match o.config, o.rom with
  | some path, _ =>
    match Description.load fs path with
    | .ok d => .ok d
    | .error e => .error (e.failure.within ("loading machine description " ++ path))
  | none, some path =>
    match fs.size path with
    | .ok n => .ok (.ofRom path n)
    | .error e => .error (Failure.within ⟨e.message, []⟩ ("reading " ++ path))
  | none, none => .error ⟨"a ROM image or --config is required", []⟩

def breakpoints (o : Options) (lines : List String) : Breakpoints :=
  o.points.foldl .add { handler := if o.noPrompt then .unattended else .terminal lines }

/-- The monitors that the options ask for, in the order in which they observe. -/
def monitors (o : Options) (lines : List String) (now : Duration) : List Monitor :=
  (if o.speedometer then [.speedometer { started := now }] else []) ++
    (if o.traceLog then [.logTracer] else if o.trace then [.tracer .working] else []) ++
    (if o.points.isEmpty then [] else [.breakpoints (o.breakpoints lines)])

/-- Attaches the monitors, if there are any, and connects an exit channel for one code. -/
def equip (o : Options) (lines : List String) (now : Duration) (m : Machine) : Machine :=
  let ms := o.monitors lines now
  { m with
    monitor := if ms.isEmpty then m.monitor else some (.chain ms)
    channel := some { capacity := 1 } }

end Options

namespace Description

/-- The name of the first region that is RAM. -/
def ramName? (d : Mos6502.Description) : Option String :=
  d.regions.findSome? fun r =>
    match r.kind with
    | .ram _ => some r.name
    | .rom _ => none

def reset (d : Mos6502.Description) (m : Machine) : Machine.Outcome Failure Unit :=
  match d.resetVector with
  | some a => .ok () (m.resetTo a)
  | none =>
    match m.reset with
    | .ok _ m => .ok () m
    | .error f m => .error (f.failure.within "reset") m

end Description

/-- A machine that is ready to run; the value is the name of the RAM to write down. -/
def start (o : Options) (fs : Files) (lines : List String) (now : Duration) :
    Machine.Outcome Failure (Option String) :=
  match o.description fs with
  | .error failure => .error failure { logging := o.logging }
  | .ok d =>
    match Machine.build fs o.logging d with
    | .error e m => .error e.failure m
    | .ok _ m =>
      match Description.reset d m with
      | .error failure m => .error failure m
      | .ok _ m => .ok (Description.ramName? d) (o.equip lines now m)

def Options.run (o : Options) (m : Machine) : Machine.Outcome Fault (Option Byte) :=
  match o.maxSteps with
  | some n => Machine.runFor n m
  | none => m.run

/-- What a run leaves: exit status, printed text, and files. -/
structure Result where
  status : Byte
  console : Console
  files : Files

def failureStatus : Byte := 1

def usageStatus : Byte := 2

def Result.fail (c : Console) (fs : Files) (failure : Failure) : Result :=
  ⟨failureStatus, c.complain failure.text, fs⟩

def warn (o : Options) (c : Console) (text : String) : Console :=
  if .warn ≤ o.logging.maxLevel then c.complain (logLine ⟨"emu6502", .warn, text⟩ ++ "\n") else c

def dump (o : Options) (ram : Option Image) (c : Console) (fs : Files) :
    Except Failure (Console × Files) :=
  match o.dumpRam, ram with
  | none, _ => .ok (c, fs)
  | some _, none => .ok (warn o c "no RAM region to dump", fs)
  | some path, some image =>
    match fs.write path image with
    | .ok fs => .ok (c, fs)
    | .error e => .error (Failure.within ⟨e.message, []⟩ ("dumping RAM to " ++ path))

def save (o : Options) (r : Registers) (fs : Files) : Except Failure Files :=
  match o.save with
  | none => .ok fs
  | some path =>
    match fs.write path r.toJson.prettyText.toUTF8.data with
    | .ok fs => .ok fs
    | .error e => .error (Failure.within ⟨e.message, []⟩ ("creating " ++ path))

/-- How a run ends, after all has been written: with a status, or with a failure. -/
def conclude (o : Options) (c : Console) (fs : Files) (m : Machine) :
    Except Fault (Option Byte) → Result
  | .ok (some code) => ⟨m.receive.1.getD code, c, fs⟩
  | .ok none =>
    let text := "stopped after " ++ toString m.instructions ++ " instructions without halting"
    ⟨failureStatus, warn o c text, fs⟩
  | .error f => .fail c fs (f.failure.within "emulation aborted")

/-- Ends a run: shuts the machine down, shows what it has let others see, and writes it down. -/
def finish (o : Options) (fs : Files) (now : Duration) (ramName : Option String)
    (ran : Machine.Outcome Fault (Option Byte)) : Result :=
  let (result, m) : Except Fault (Option Byte) × Machine :=
    match ran with
    | .ok code m => (.ok code, m)
    | .error f m => (.error f, m)
  let m := m.shutdown now
  let c := (Console.events {} m.journal).print (m.registers.text ++ "\n")
  match dump o (ramName.bind m.bus.contents?) c fs with
  | .error failure => .fail c fs failure
  | .ok (c, fs) =>
    match save o m.registers fs with
    | .error failure => .fail c fs failure
    | .ok fs => conclude o c fs m result

/-- The whole run. The clock is read when the machine is ready and when it has stopped. -/
def execute (o : Options) (fs : Files) (lines : List String) (started stopped : Duration) : Result :=
  match start o fs lines started with
  | .error failure m => .fail (Console.events {} m.journal) fs failure
  | .ok ramName m => finish o fs stopped ramName (o.run m)

/-- The lines of a text; what follows the last line end is a line if it is not empty. -/
def linesOf (text : String) : List String :=
  let parts := text.splitOn "\n"
  if parts.getLast? = some "" then parts.dropLast else parts

end CommandLine
end Mos6502
