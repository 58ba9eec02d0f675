import ArtifactCache.Text.Word

namespace ArtifactCache.SourceRoots

inductive Kind where
  | main
  | test
  deriving DecidableEq, Repr

namespace Kind

def all : List Kind := [.main, .test]

def option : Kind → String
  | .main => "main"
  | .test => "test"

def parse (text : String) : Except Text.UnknownWord Kind :=
  match all.find? fun k => Text.sameWord text k.option with
  | some k => .ok k
  | none => .error ⟨"sources kind", text, all.map option⟩

end Kind

structure Descriptor where
  mainSources : List String
  testSources : List String
  mainResources : List String
  testResources : List String
  deriving DecidableEq, Repr

def Descriptor.sources (d : Descriptor) : Kind → List String
  | .main => d.mainSources
  | .test => d.testSources

def Descriptor.resources (d : Descriptor) : Kind → List String
  | .main => d.mainResources
  | .test => d.testResources

end ArtifactCache.SourceRoots
