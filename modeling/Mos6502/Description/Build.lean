import Mos6502.Description.Reader
import Mos6502.Files.Basic
import Mos6502.Machine.Access

/-! From a description to a machine: loading the description from a file, and attaching the regions
that it lists. -/
namespace Mos6502

inductive DescriptionError
  | file (path : String) (error : FileError)
  | json (error : Json.Error)
  | bus (error : BusError)
  /-- More RAM than there can be. -/
  | memoryExhausted
  deriving Inhabited

def RegionKind.within (directory : String) : RegionKind → RegionKind
  | .ram size => .ram size
  | .rom path => .rom (Path.join directory path)

namespace Description

def within (d : Description) (directory : String) : Description :=
  { d with regions := d.regions.map fun r => { r with kind := r.kind.within directory } }

def load (fs : Files) (path : String) : Except DescriptionError Description :=
  match fs.readText path with
  | .error e => .error (.file path e)
  | .ok text =>
    match parse text with
    | .error e => .error (.json e)
    | .ok d => .ok (d.within (Path.directory path))

end Description

namespace Machine

/-- Attaches a region as it is described. RAM that cannot be mapped is not made. -/
def attachDescribed (fs : Files) (m : Machine) (r : RegionDescription) :
    Outcome DescriptionError Unit :=
  let attach (backend : Backend) : Outcome DescriptionError Unit :=
    match m.attach r.name r.base backend with
    | .ok _ m => .ok () m
    | .error e m => .error (.bus e) m
  match r.kind with
  | .ram size =>
    if Image.sizeLimit ≤ size then .error .memoryExhausted m
    else
      match Bus.refusal? r.name r.base size with
      | some e => .error (.bus e) m
      | none => attach (.ram (.zeros size))
  | .rom path =>
    match fs.read path with
    | .error e => .error (.file path e) m
    | .ok image => attach (.rom path image)

/-- Attaches regions in order, up to the first that cannot be attached. -/
def attachAll (fs : Files) : List RegionDescription → Machine → Outcome DescriptionError Unit
  | [], m => .ok () m
  | r :: rest, m =>
    match m.attachDescribed fs r with
    | .ok _ m => attachAll fs rest m
    | .error e m => .error e m

/-- A new machine as described. -/
def build (fs : Files) (logging : Log.Config) (d : Description) : Outcome DescriptionError Unit :=
  match attachAll fs d.regions { logging } with
  | .ok _ m => .ok () (m.emit (.log (.layout m.bus.extents)))
  | .error e m => .error e m

end Machine
end Mos6502
