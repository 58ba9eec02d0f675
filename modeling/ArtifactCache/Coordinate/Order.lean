import ArtifactCache.Coordinate.Basic

namespace ArtifactCache.Coordinate

def variantKey (c : Coordinate) : String :=
  String.ofList (c.version.toList ++ nul :: c.classifier.toList)

def orderKey (c : Coordinate) : String × String × String :=
  (c.group, c.artifact, c.variantKey)

def compareKeys (k l : String × String × String) : Ordering :=
  (compare k.1 l.1).then ((compare k.2.1 l.2.1).then (compare k.2.2 l.2.2))

def order (a b : Coordinate) : Ordering := compareKeys a.orderKey b.orderKey

def sort (cs : List Coordinate) : List Coordinate :=
  cs.mergeSort fun a b => (order a b).isLE

end ArtifactCache.Coordinate
