import ArtifactCache.Text.Quoted
import ArtifactCache.Value.Date

namespace ArtifactCache

inductive Value where
  | null
  | bool (b : Bool)
  | int (i : Int)
  | float (x : Float)
  | text (s : String)
  | date (d : Date)
  | time (t : TimeOfDay)
  | dateTime (d : Date) (t : TimeOfDay) (offset : Option UtcOffset)
  | list (vs : List Value)
  | table (entries : List (String × Value))
  deriving Inhabited

@[irreducible] def digitLimit : Nat := 4300

def leastOverlong : Nat := Nat.pow 10 digitLimit

structure OverlongInteger where
  deriving DecidableEq, Repr

def OverlongInteger.message (_ : OverlongInteger) : String :=
  "Exceeds the limit (" ++ toString digitLimit ++ " digits) for integer string conversion; " ++
    "use sys.set_int_max_str_digits() to increase the limit"

namespace Value

def floatLayout : Decimal.Layout :=
  { leastPositional := -4
    leastScientific := 16
    wholeEnding := ".0"
    exponentWidth := 2
    nan := "nan"
    infinity := "inf" }

def showFloat (x : Float) : String :=
  floatLayout.write (Decimal.Binary64.ofBits x.toBits.toNat)

def showFields (kind : String) (ns : List Nat) (more : List String) : String :=
  "datetime." ++ kind ++ "(" ++
    String.intercalate ", " (ns.map Decimal.Layout.digitText ++ more) ++ ")"

def showInt (i : Int) : Except OverlongInteger String :=
  if i.natAbs < leastOverlong then .ok (toString i) else .error ⟨⟩

mutual

def describe : Value → Except OverlongInteger String
  | .null => .ok "None"
  | .bool true => .ok "True"
  | .bool false => .ok "False"
  | .int i => showInt i
  | .float x => .ok (showFloat x)
  | .text s => .ok (Text.quote s)
  | .date d => .ok (showFields "date" d.fields [])
  | .time t => .ok (showFields "time" t.fields [])
  | .dateTime d t none => .ok (showFields "datetime" (d.fields ++ t.fields) [])
  | .dateTime d t (some o) =>
      .ok (showFields "datetime" (d.fields ++ t.fields) ["tzinfo=" ++ o.describe])
  | .list vs => do return "[" ++ String.intercalate ", " (← describeAll vs) ++ "]"
  | .table es => do return "\x7b" ++ String.intercalate ", " (← describeEntries es) ++ "\x7d"

def describeAll : List Value → Except OverlongInteger (List String)
  | [] => .ok []
  | v :: vs => do
      let text ← v.describe
      return text :: (← describeAll vs)

def describeEntries : List (String × Value) → Except OverlongInteger (List String)
  | [] => .ok []
  | (k, v) :: es => do
      let text ← v.describe
      return (Text.quote k ++ ": " ++ text) :: (← describeEntries es)

end

def render : Value → Except OverlongInteger String
  | .text s => .ok s
  | .date d => .ok d.render
  | .time t => .ok t.render
  | .dateTime d t o => .ok (d.render ++ " " ++ t.render ++ (o.map UtcOffset.render).getD "")
  | v => v.describe

end Value

end ArtifactCache
