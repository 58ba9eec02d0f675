import ArtifactCache.CommandLine.Supplies
import ArtifactCache.Disk

namespace ArtifactCache.CommandLine

def execute (args : List String) : IO UInt32 := do
  match Request.parse args with
  | .error .help =>
      IO.print usageText
      return UInt32.ofNat Usage.help.exitCode
  | .error u =>
      IO.eprint usageText
      return UInt32.ofNat u.exitCode
  | .ok request =>
      let home := (← IO.getEnv "HOME").getD ""
      let supplies := Supplies.standard
      let ((), fs) ← (Disk.survey supplies.reader home request).run .empty
      let serial ← IO.rand 0 0xfffffffffffffffffffffffffffffffe
      let r ← Disk.settle (fun faults => run supplies faults fs home serial request) .never 0
      IO.print r.stdout
      IO.eprint (r.stderr supplies)
      if let .broken b := r.outcome then IO.eprintln b.message
      return UInt32.ofNat r.outcome.exitCode

end ArtifactCache.CommandLine

def main (args : List String) : IO UInt32 := ArtifactCache.CommandLine.execute args
