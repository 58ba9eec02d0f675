import ArtifactCache.Exclusion
import ArtifactCache.Log.Level
import ArtifactCache.Path
import ArtifactCache.Template
import ArtifactCache.Value.Basic

namespace ArtifactCache

structure Settings where
  buildroot : Path
  cacheDir : Path
  level : Log.Level
  excludes : List Exclusion
  deriving DecidableEq

inductive OptionType where
  | text
  | list
  deriving DecidableEq, Repr

def OptionType.word : OptionType → String
  | .text => "str"
  | .list => "list"

inductive Settings.Defect where
  | unknownOptions (names : List String)
  | wrongType (option : String) (expected : OptionType) (shown : String)
  | unknownPlaceholder (name : String)
  | badLevel (e : Text.UnknownWord)
  | badExclude (e : Exclusion.Invalid)
  | overlongExclude (e : OverlongInteger)

/-- A value of the wrong type that cannot be shown is refused without a word on its option. -/
inductive Settings.Refusal where
  | defect (d : Defect)
  | overlong (e : OverlongInteger)

namespace Settings

def optionNames : List String := ["cache_dir", "excludes", "level"]

def Defect.message (source : String) : Defect → String
  | .unknownOptions names =>
      "Invalid option(s) in [GLOBAL] of " ++ source ++ ": " ++ String.intercalate ", " names ++
        ". Valid options are: " ++ String.intercalate ", " optionNames
  | .wrongType option expected shown =>
      "Option " ++ option ++ " in " ++ source ++ " must be a " ++ expected.word ++ ", got " ++ shown
  | .unknownPlaceholder name => "Unknown interpolation %(" ++ name ++ ")s in " ++ source
  | .badLevel e => "Invalid value in " ++ source ++ ": " ++ e.message
  | .badExclude e => "Invalid value in " ++ source ++ ": " ++ e.message
  | .overlongExclude e => "Invalid value in " ++ source ++ ": " ++ e.message

def unknownNames (names : List String) : List String :=
  ((names.filter fun n => !optionNames.contains n).eraseDups).mergeSort fun a b => a ≤ b

def checkNames (names : List String) : Except Defect Unit :=
  match unknownNames names with
  | [] => .ok ()
  | unknown => .error (.unknownOptions unknown)

def option? (values : List (String × Value)) (name : String) : Option Value :=
  (values.find? fun v => v.1 == name).map (·.2)

def misfit (name : String) (expected : OptionType) (v : Value) : Refusal :=
  match v.describe with
  | .ok shown => .defect (.wrongType name expected shown)
  | .error e => .overlong e

def textOption (values : List (String × Value)) (name default : String) : Except Refusal String :=
  match option? values name with
  | none => .ok default
  | some (.text s) => .ok s
  | some v => .error (misfit name .text v)

def listOption (values : List (String × Value)) (name : String) : Except Refusal (List Value) :=
  match option? values name with
  | none => .ok []
  | some (.list vs) => .ok vs
  | some v => .error (misfit name .list v)

def homeText (home : String) : String :=
  let cs := (home.toList.reverse.dropWhile (· == '/')).reverse
  if cs.isEmpty then "/" else String.ofList cs

def seeds (buildroot home : String) : String → Option String
  | "buildroot" => some buildroot
  | "homedir" => some (homeText home)
  | _ => none

def defaultCacheDir : String := "%(buildroot)s/target/j2clbuild-cache"

def readExclude (v : Value) : Except Defect Exclusion :=
  match v.render with
  | .ok text => (Exclusion.parse text).mapError .badExclude
  | .error e => .error (.overlongExclude e)

def readLevel (text : String) : Except Defect Log.Level :=
  (Log.Level.parse text).mapError .badLevel

def fillTemplate (buildroot home text : String) : Except Defect String :=
  (Template.expand (seeds buildroot home) text).mapError .unknownPlaceholder

def ofValues (values : List (String × Value)) (buildroot home : String) :
    Except Refusal Settings := do
  (checkNames (values.map (·.1))).mapError .defect
  let template ← textOption values "cache_dir" defaultCacheDir
  let cacheDir ← (fillTemplate buildroot home template).mapError .defect
  let levelText ← textOption values "level" Log.Level.info.option
  let excludeValues ← listOption values "excludes"
  let level ← (readLevel levelText).mapError .defect
  let excludes ← (excludeValues.mapM readExclude).mapError .defect
  return {
    buildroot := .ofText buildroot
    cacheDir := .ofText cacheDir
    level := level
    excludes := excludes }

def override (s : Settings) (cacheDir : Option Path) (level : Option Log.Level) : Settings :=
  { s with cacheDir := cacheDir.getD s.cacheDir, level := level.getD s.level }

end Settings

end ArtifactCache
