import RecordCompat.Command.Check

/-! Reads what the arguments name from the real file system, runs the command line on it,
writes what the run has written, and ends with its exit code. -/
namespace RecordCompat.Program

open Files Command

def realPath (place : Place) : String :=
  "/" ++ Path.joined place

/-- Adds what lies at a place, and below it if `deep`. -/
partial def load (deep : Bool) (disk : Disk) (place : Place) : IO Disk := do
  let real := (← IO.currentDir) / realPath place
  if ← real.isDir then
    let disk := disk.makeDirectory place
    if deep then
      (← real.readDir).foldlM (fun disk entry => load true disk (place ++ [entry.fileName])) disk
    else return disk
  else if ← real.pathExists then
    return disk.putFile place (← IO.FS.readBinFile (realPath place)).toList
  else return disk

/-- Adds what lies along a path, and everything below its end if `deep`. -/
def loadPath (deep : Bool) (disk : Disk) (path : Path) : IO Disk := do
  let mut disk := disk
  let mut place := if path.slashes = 0 then disk.here else []
  for part in path.parts do
    place := Disk.move place part
    disk ← load false disk place
  if deep then load true disk place else return disk

def loadDisk (arguments : List String) : IO Disk := do
  let here := Path.components (← IO.currentDir).toString.toList
  let empty : Disk := ⟨[], [], here⟩
  match Options.read arguments with
  | .error _ => return empty
  | .ok options =>
    let disk ← loadPath true empty (.ofString (options.old?.getD ""))
    let disk ← loadPath true disk (.ofString (options.new?.getD ""))
    loadPath false disk (.ofString (options.output?.getD ""))

/-- Makes the directories and writes the files that a run has added or changed. -/
def save (before after : Disk) : IO Unit := do
  for place in after.directories do
    if !before.isDirectory place then IO.FS.createDirAll (realPath place)
  for (place, bytes) in after.files do
    if before.file? place ≠ some bytes then
      IO.FS.writeBinFile (realPath place) (ByteArray.mk bytes.toArray)

end RecordCompat.Program

def main (arguments : List String) : IO UInt32 := do
  let disk ← RecordCompat.Program.loadDisk arguments
  let done := RecordCompat.Command.run disk arguments
  RecordCompat.Program.save disk done.disk
  for e in done.events do
    IO.eprintln e.line
  IO.eprint (done.usageErr ++ done.err)
  IO.print (done.usageOut ++ done.out)
  match done.exit with
  | .ok code => return UInt32.ofNat code
  | .error fault =>
    IO.eprintln (fault.message?.getD "Invalid range in a bracket expression")
    return 1
