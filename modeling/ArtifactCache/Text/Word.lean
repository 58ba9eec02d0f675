import ArtifactCache.Text.Blank
import ArtifactCache.Text.Quoted

namespace ArtifactCache.Text

/-- Words are compared without their blank ends and without regard to case. The words offered are
plain lower-case letters, which no letter outside ASCII has as its lower case. -/
def sameWord (text word : String) : Bool :=
  (trim text).toList.map Char.toLower == word.toList

structure UnknownWord where
  subject : String
  text : String
  offered : List String
  deriving DecidableEq, Repr

def UnknownWord.message (e : UnknownWord) : String :=
  "Unknown " ++ e.subject ++ " " ++ quote e.text ++ ", expected one of " ++
    String.intercalate ", " e.offered

end ArtifactCache.Text
