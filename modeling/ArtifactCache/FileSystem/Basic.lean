import Std.Data.ExtTreeMap
import ArtifactCache.Pathname

/-!
File systems: a finite tree of directories, files and symbolic links, with a working directory. An
item has a location, the names on the way down to it from the top. Everything that has a location
lies in a directory, and every directory but the top one has an entry of its own. A working
directory that was removed is still where it lay, where nothing is now; `..` leads up from there.
-/

namespace ArtifactCache

abbrev Location := List String

inductive Item where
  | directory
  | file (content : List UInt8)
  | link (target : Pathname)
  deriving DecidableEq

def isStep (s : String) : Bool := s == "" || s == "." || s == ".."

def mostNameBytes : Nat := 255

def isTooLong (s : String) : Bool := mostNameBytes < s.utf8ByteSize

def isName (s : String) : Bool :=
  !isStep s && !s.toList.contains '/' && !s.toList.contains '\x00' && !isTooLong s

namespace Location

def childName? : Location → Location → Option String
  | [], [n] => some n
  | d :: ds, l :: ls => if d = l then childName? ds ls else none
  | _, _ => none

theorem childName?_eq_some_iff {dir loc : Location} {n : String} :
    childName? dir loc = some n ↔ loc = dir ++ [n] := by
  fun_induction childName? dir loc with
  | case1 m => simp
  | case2 d ds ls ih => simp [ih]
  | case3 d ds l ls h => simp [Ne.symm h]
  | case4 dir loc h1 h2 =>
      simp only [reduceCtorEq, false_iff]
      intro h
      cases dir with
      | nil => exact h1 n rfl h
      | cons d ds => exact h2 d ds d (ds ++ [n]) rfl h

end Location

structure FileSystem where
  entries : Std.ExtTreeMap Location Item
  here : Location
  rooted : ∀ {dir : Location} {name : String}, dir ++ [name] ∈ entries →
    dir = [] ∨ entries[dir]? = some .directory
  named : ∀ {dir : Location} {name : String}, dir ++ [name] ∈ entries → isName name = true
  top_free : [] ∉ entries

namespace FileSystem

def empty : FileSystem where
  entries := ∅
  here := []
  rooted h := absurd h Std.ExtTreeMap.not_mem_empty
  named h := absurd h Std.ExtTreeMap.not_mem_empty
  top_free := Std.ExtTreeMap.not_mem_empty

def item? (fs : FileSystem) (loc : Location) : Option Item :=
  if loc = [] then some .directory else fs.entries[loc]?

def workingDirectory? (fs : FileSystem) : Option Location :=
  if fs.item? fs.here = some .directory then some fs.here else none

def children (fs : FileSystem) (dir : Location) : List String :=
  fs.entries.keys.filterMap (Location.childName? dir)

def height (fs : FileSystem) : Nat := (fs.entries.keys.map List.length).foldr max 0

variable {fs : FileSystem} {loc dir : Location} {name : String} {item : Item}

@[simp] theorem item?_top (fs : FileSystem) : fs.item? [] = some .directory := rfl

@[simp] theorem item?_concat (fs : FileSystem) (dir : Location) (name : String) :
    fs.item? (dir ++ [name]) = fs.entries[dir ++ [name]]? := by simp [item?]

theorem item?_of_ne_nil (h : loc ≠ []) : fs.item? loc = fs.entries[loc]? := if_neg h

theorem mem_entries_iff : loc ∈ fs.entries ↔ loc ≠ [] ∧ (fs.item? loc).isSome := by
  cases loc with
  | nil => simp [fs.top_free]
  | cons n ns =>
      rw [item?_of_ne_nil (by simp), ← Std.ExtTreeMap.mem_iff_isSome_getElem?]
      simp

theorem mem_children : name ∈ fs.children dir ↔ (fs.item? (dir ++ [name])).isSome := by
  simp only [children, List.mem_filterMap, Location.childName?_eq_some_iff,
    Std.ExtTreeMap.mem_keys, item?_concat, ← Std.ExtTreeMap.mem_iff_isSome_getElem?]
  constructor
  · rintro ⟨loc, h, rfl⟩; exact h
  · exact fun h => ⟨_, h, rfl⟩

theorem item?_dir_of_isSome (h : (fs.item? (dir ++ [name])).isSome) :
    fs.item? dir = some .directory := by
  rw [item?_concat, ← Std.ExtTreeMap.mem_iff_isSome_getElem?] at h
  cases fs.rooted h with
  | inl h => rw [h]; rfl
  | inr h =>
      cases dir with
      | nil => rfl
      | cons d ds => exact h

theorem isName_of_isSome (h : (fs.item? (dir ++ [name])).isSome) : isName name = true := by
  rw [item?_concat, ← Std.ExtTreeMap.mem_iff_isSome_getElem?] at h
  exact fs.named h

theorem children_eq_nil_of_ne (h : fs.item? dir ≠ some .directory) : fs.children dir = [] := by
  apply List.eq_nil_iff_forall_not_mem.2
  intro n hn
  exact h (item?_dir_of_isSome (mem_children.1 hn))

theorem length_le_height (h : loc ∈ fs.entries) : loc.length ≤ fs.height := by
  have foldr_max : ∀ {ns : List Nat} {n : Nat}, n ∈ ns → n ≤ ns.foldr max 0 := by
    intro ns n hn
    induction ns with
    | nil => cases hn
    | cons m ms ih =>
        cases hn with
        | head => exact Nat.le_max_left _ _
        | tail _ hn => exact Nat.le_trans (ih hn) (Nat.le_max_right _ _)
  exact foldr_max (List.mem_map.2 ⟨loc, Std.ExtTreeMap.mem_keys.2 h, rfl⟩)

end FileSystem

end ArtifactCache
