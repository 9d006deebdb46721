import Mos6502.CommandLine.Run

/-! The program at a terminal. It takes the files it needs off the disk, runs the machine a slice at a
time, shows what each slice lets others see, and puts the files it has made on the disk. -/
namespace Mos6502.CommandLine

def clock : IO Duration := return .ofNanoseconds (← IO.monoNanosNow)

def display (c : Console) : IO Unit := do
  IO.eprint c.err
  IO.print c.out
  (← IO.getStdout).flush

/-- Adds what the disk has at a place. A file whose content is not wanted counts as empty, unless it
has been added before. -/
def fetchPlace (fs : Files) (p : Place) (wanted : Bool) : IO Files := do
  if !wanted && (fs.entry? p).isSome then return fs
  try
    let path ← IO.FS.realPath ("/" ++ "/".intercalate p)
    if ← path.isDir then return fs.putDirectory p
    let content ← if wanted then IO.FS.readBinFile path else pure .empty
    return fs.put p content.data
  catch _ => return fs

/-- Adds what the disk has at a path and on the way to it. -/
def fetch (wanted : Bool) (fs : Files) (path : String) : IO Files := do
  let p := fs.locate (fs.start path) (path.splitOn "/")
  let mut fs := fs
  for n in [1 : p.length] do
    fs ← fetchPlace fs (p.take n) false
  if p = [] then return fs else fetchPlace fs p wanted

/-- The files that a run reads, and the places of those it writes. -/
def fetchAll (o : Options) : IO Files := do
  let home := (toString (← IO.currentDir)).splitOn "/"
  let fs : Files := { home := home.filter (· != "") }
  let fs ← (o.config.toList ++ o.rom.toList).foldlM (fetch true) fs
  let fs ← (o.dumpRam.toList ++ o.save.toList).foldlM (fetch false) fs
  match o.description fs with
  | .error _ => return fs
  | .ok d =>
    let roms := d.regions.filterMap fun r =>
      match r.kind with
      | .rom path => some path
      | .ram _ => none
    roms.foldlM (fetch true) fs

def deliver (before after : Files) (path : String) : IO Unit :=
  match before.read path, after.read path with
  | .ok old, .ok new => if old = new then return else IO.FS.writeBinFile path ⟨new⟩
  | .error _, .ok new => IO.FS.writeBinFile path ⟨new⟩
  | _, .error _ => return

/-- The machine with a line ready at its prompt. -/
def typed (line : String) (m : Machine) : Machine :=
  let ready (b : Breakpoints) : Breakpoints := { b with handler := .terminal [line] }
  { m with monitor := m.monitor.map (Monitor.changeBreakpoints 0 ready) }

/-- Shows what has been seen from an event on, and forgets it. -/
def displayFrom (n : Nat) (ran : Machine.Outcome Fault (Option Byte)) :
    IO (Machine.Outcome Fault (Option Byte)) := do
  match ran with
  | .ok code m =>
    display (Console.events {} (m.journal.drop n))
    return .ok code { m with journal := #[] }
  | .error f m =>
    display (Console.events {} (m.journal.drop n))
    return .error f { m with journal := #[] }

def journalOf : Machine.Outcome Fault (Option Byte) → Array Event
  | .ok _ m => m.journal
  | .error _ m => m.journal

def isPrompt : Event → Bool
  | .prompted _ _ => true
  | _ => false

/-- Runs a slice with at most one prompt. The slice runs once to find the prompt, and again, from the
same machine, with the line typed there. -/
def runSlice (n : Nat) (m : Machine) : IO (Machine.Outcome Fault (Option Byte)) := do
  let ran := Machine.runFor n m
  let seen := journalOf ran
  match seen.findIdx? isPrompt with
  | none => displayFrom 0 ran
  | some k =>
    display (Console.events {} (seen.take (k + 1)))
    let line ← (← IO.getStdin).getLine
    displayFrom (k + 1) (if line = "" then ran else Machine.runFor n (typed line m))

/-- Runs slices until the machine stops, or for as many instructions as are left. -/
partial def drive (slice : Nat) (left : Option Nat) (m : Machine) :
    IO (Machine.Outcome Fault (Option Byte)) := do
  let n := (left.map (min slice)).getD slice
  match ← runSlice n m with
  | .ok none m =>
    if left = some n then return .ok none m
    else drive slice (left.map (· - n)) m
  | ended => return ended

/-- How many instructions run at a time. Where there are prompts, each runs on its own. -/
def sliceLength (o : Options) : Nat := if o.points.isEmpty || o.noPrompt then 4096 else 1

def runProgram (o : Options) : IO Byte := do
  let fs ← fetchAll o
  match start o fs [] (← clock) with
  | .error failure m =>
    let r := Result.fail (Console.events {} m.journal) fs failure
    display r.console
    return r.status
  | .ok ramName m =>
    display (Console.events {} m.journal)
    let ran ← drive (sliceLength o) o.maxSteps { m with journal := #[] }
    let r := finish o fs (← clock) ramName ran
    display r.console
    (o.dumpRam.toList ++ o.save.toList).forM (deliver fs r.files)
    return r.status

end Mos6502.CommandLine

def main (arguments : List String) : IO UInt32 := do
  match Mos6502.CommandLine.Options.parse arguments with
  | .ok o => return (← Mos6502.CommandLine.runProgram o).toUInt32
  | .error e =>
    IO.eprintln e.message
    return Mos6502.CommandLine.usageStatus.toUInt32
