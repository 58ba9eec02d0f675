namespace ArtifactCache.Template

inductive Piece where
  | literal (c : Char)
  | placeholder (name : String)
  deriving DecidableEq, Repr

def isNameChar (c : Char) : Bool := c.isAlphanum || c == '_'

def placeholderAt? : List Char → Option (List Char × List Char)
  | '%' :: '(' :: cs =>
      match cs.takeWhile isNameChar, cs.dropWhile isNameChar with
      | n :: ns, ')' :: 's' :: rest => some (n :: ns, rest)
      | _, _ => none
  | _ => none

theorem eq_of_placeholderAt? {cs name rest : List Char}
    (h : placeholderAt? cs = some (name, rest)) :
    cs = '%' :: '(' :: name ++ ')' :: 's' :: rest := by
  unfold placeholderAt? at h
  split at h
  · next cs =>
      split at h
      · next n ns rest' hname hrest =>
          simp only [Option.some.injEq, Prod.mk.injEq] at h
          rw [← h.1, ← h.2, ← hname]
          simp only [List.cons_append, List.cons.injEq, true_and]
          rw [← hrest, List.takeWhile_append_dropWhile]
      · cases h
  · cases h

theorem length_lt_of_placeholderAt? {cs name rest : List Char}
    (h : placeholderAt? cs = some (name, rest)) : rest.length < cs.length := by
  rw [eq_of_placeholderAt? h]
  simp only [List.cons_append, List.length_cons, List.length_append]
  omega

def pieces (cs : List Char) : List Piece :=
  match h : placeholderAt? cs with
  | some (name, rest) =>
      have := length_lt_of_placeholderAt? h
      .placeholder (String.ofList name) :: pieces rest
  | none =>
      match cs with
      | [] => []
      | c :: cs => .literal c :: pieces cs
termination_by cs.length

namespace Piece

def spell : Piece → List Char
  | literal c => [c]
  | placeholder name => '%' :: '(' :: name.toList ++ [')', 's']

def fill (seeds : String → Option String) : Piece → Except String (List Char)
  | literal c => .ok [c]
  | placeholder name =>
      match seeds name with
      | some value => .ok value.toList
      | none => .error name

end Piece

def fillAll (seeds : String → Option String) : List Piece → Except String (List Char)
  | [] => .ok []
  | p :: ps =>
      match p.fill seeds with
      | .error name => .error name
      | .ok cs => (fillAll seeds ps).map (cs ++ ·)

def expand (seeds : String → Option String) (text : String) : Except String String :=
  (fillAll seeds (pieces text.toList)).map String.ofList

end ArtifactCache.Template
