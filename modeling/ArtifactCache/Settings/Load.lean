import ArtifactCache.FileSystem.Directories
import ArtifactCache.Log.Record
import ArtifactCache.Settings.Basic
import ArtifactCache.Text.Newline
import ArtifactCache.Value.Basic

namespace ArtifactCache

inductive ConfigurationError where
  | unreadable (path : Path) (failure : Failure)
  | notToml (path : Path)
  | defect (source : String) (d : Settings.Defect)

def ConfigurationError.message : ConfigurationError → String
  | .unreadable p f => "Config file " ++ p.toText ++ " could not be read: " ++ f.message
  | .notToml p => "Config file " ++ p.toText ++ " could not be parsed as TOML:"
  | .defect source d => d.message source

/-- Beyond the errors of the configuration: the path has a NUL in it, the bytes are no UTF-8, the
working directory is gone, a value cannot be shown, or the section is no table. If it is none, it
either does not even stand for names of options, or it does but holds no values for them. -/
inductive LoadFault where
  | nulInPath
  | notUtf8
  | noWorkingDirectory
  | overlongInteger (e : OverlongInteger)
  | sectionWithoutNames
  | sectionWithoutValues
  deriving DecidableEq, Repr

def LoadFault.message : LoadFault → String
  | .nulInPath => CallError.nulInPath.message
  | .notUtf8 => "the config file is not encoded in UTF-8"
  | .noWorkingDirectory => Failure.message ⟨.noEntry, []⟩
  | .overlongInteger e => e.message
  | .sectionWithoutNames => "the section [GLOBAL] names no options"
  | .sectionWithoutValues => "the section [GLOBAL] gives its options no values"

inductive LoadError where
  | config (e : ConfigurationError)
  | fault (f : LoadFault)

def LoadError.ofRefusal (source : String) : Settings.Refusal → LoadError
  | .defect d => .config (.defect source d)
  | .overlong e => .fault (.overlongInteger e)

namespace Settings

def logger : String := "j2clbuild.option.config"

def sectionName : String := "GLOBAL"

def loadedRecord (path : Path) : Log.Record :=
  ⟨.debug, logger, "Loaded config from " ++ path.toText⟩

abbrev Reader : Type := String → Option (List (String × Value))

def readDocument (reader : Reader) (fs : FileSystem) (path : Path) :
    Except LoadError (List (String × Value)) :=
  let p := path.toPathname
  if p.hasNul then .error (.fault .nulInPath)
  else match fs.read p with
    | .error e => .error (.config (.unreadable path ⟨e, [p]⟩))
    | .ok bytes =>
        match Text.decodeLines bytes with
        | none => .error (.fault .notUtf8)
        | some s =>
            match reader s with
            | none => .error (.config (.notToml path))
            | some values => .ok values

def text? : Value → Option String
  | .text s => some s
  | _ => none

def sectionOf (document : List (String × Value)) : Value :=
  (option? document sectionName).getD (.table [])

def sectionNames? : Value → Option (List String)
  | .table es => some (es.map (·.1))
  | .text s => some (s.toList.map String.singleton)
  | .list vs => vs.mapM text?
  | _ => none

def ofSection (v : Value) (buildroot home source : String) : Except LoadError Settings :=
  match v, sectionNames? v with
  | .table es, _ => (ofValues es buildroot home).mapError (.ofRefusal source)
  | _, none => .error (.fault .sectionWithoutNames)
  | _, some names =>
      match checkNames names with
      | .error d => .error (.config (.defect source d))
      | .ok () => .error (.fault .sectionWithoutValues)

structure Loading where
  log : List Log.Record
  result : Except LoadError Settings

def load (reader : Reader) (fs : FileSystem) (home : String) (path : Path)
    (buildroot : Option String) : Loading :=
  match readDocument reader fs path with
  | .error e => ⟨[], .error e⟩
  | .ok document =>
      ⟨[loadedRecord path],
        ofSection (sectionOf document) (buildroot.getD path.parent.toText) home path.toText⟩

end Settings

end ArtifactCache
