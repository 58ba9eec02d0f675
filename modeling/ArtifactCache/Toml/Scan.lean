namespace ArtifactCache.Toml

abbrev Scan : Type → Type := StateT (List Char) Option

namespace Scan

variable {α : Type}

def next : Scan Char
  | c :: cs => some (c, cs)
  | [] => none

def satisfying (ok : Char → Bool) : Scan Char := do
  let c ← next
  guard (ok c)
  return c

def char (c : Char) : Scan Unit := do guard ((← next) = c)

def word (w : String) : Scan Unit := w.toList.forM char

def atEnd : Scan Unit := do guard (← get).isEmpty

def takeWhile (ok : Char → Bool) : Scan (List Char) :=
  fun cs => some (cs.takeWhile ok, cs.dropWhile ok)

def skipWhile (ok : Char → Bool) : Scan Unit := fun cs => some ((), cs.dropWhile ok)

def exactly (ok : Char → Bool) : Nat → Scan (List Char)
  | 0 => return []
  | n + 1 => do
      let c ← satisfying ok
      return c :: (← exactly ok n)

def upToWithin (close : Scan Unit) (item : Scan α) : Nat → Scan (List α)
  | 0 => failure
  | n + 1 =>
      (do close; return []) <|> (do
        let a ← item
        return a :: (← upToWithin close item n))

def upTo (close : Scan Unit) (item : Scan α) : Scan (List α) := do
  upToWithin close item ((← get).length + 1)

end Scan

end ArtifactCache.Toml
