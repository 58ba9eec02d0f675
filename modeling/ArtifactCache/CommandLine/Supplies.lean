import ArtifactCache.CommandLine.Run
import ArtifactCache.Toml.Document

namespace ArtifactCache.CommandLine

def coloured (code text : String) : String := "\x1b[" ++ code ++ "m" ++ text ++ "\x1b[0m"

def Supplies.standard : Supplies := ⟨Toml.parse, coloured "32", coloured "31"⟩

end ArtifactCache.CommandLine
