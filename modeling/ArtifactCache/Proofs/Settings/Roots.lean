import ArtifactCache.Proofs.Settings.Placement
import ArtifactCache.Proofs.Settings.Reading

namespace ArtifactCache

section Both

variable {ε δ α α' β β' : Type} {r : α → α' → Prop} {q : β → β' → Prop}

inductive Both (r : α → α' → Prop) : Except ε α → Except ε α' → Prop where
  | fail (e : ε) : Both r (.error e) (.error e)
  | succeed {a : α} {b : α'} : r a b → Both r (.ok a) (.ok b)

theorem Both.imp {x : Except ε α} {y : Except ε α'} {q : α → α' → Prop} (h : Both r x y)
    (himp : ∀ a b, r a b → q a b) : Both q x y := by
  cases h with
  | fail e => exact .fail e
  | succeed hab => exact .succeed (himp _ _ hab)

theorem Both.bind {x : Except ε α} {y : Except ε α'} {f : α → Except ε β} {g : α' → Except ε β'}
    (h : Both r x y) (hnext : ∀ a b, r a b → Both q (f a) (g b)) : Both q (x >>= f) (y >>= g) := by
  cases h with
  | fail e => exact .fail e
  | succeed hab => exact hnext _ _ hab

theorem Both.map {x : Except ε α} {y : Except ε α'} {f : α → β} {g : α' → β'} (h : Both r x y)
    (hnext : ∀ a b, r a b → q (f a) (g b)) : Both q (x.map f) (y.map g) := by
  cases h with
  | fail e => exact .fail e
  | succeed hab => exact .succeed (hnext _ _ hab)

theorem Both.mapError {x : Except ε α} {y : Except ε α'} (h : Both r x y) (f : ε → δ) :
    Both r (x.mapError f) (y.mapError f) := by
  cases h with
  | fail e => exact .fail (f e)
  | succeed hab => exact .succeed hab

theorem Both.same {x : Except ε α} {f : α → Except ε β} {g : α → Except ε β'}
    (hnext : ∀ a, x = .ok a → Both q (f a) (g a)) : Both q (x >>= f) (x >>= g) := by
  cases x with
  | error e => exact .fail e
  | ok a => exact hnext a rfl

end Both

namespace Settings

open Outline (fillWith placed)

variable {values : List (String × Value)} {home template : String}

def outlineOf (home : String) : Template.Piece → Outline
  | .literal c => [some c]
  | .placeholder "buildroot" => [none]
  | .placeholder "homedir" => (homeText home).toList.map some
  | .placeholder _ => []

def outline (home template : String) : Outline :=
  (Template.pieces template.toList).flatMap (outlineOf home)

theorem none_mem_outlineOf_iff {p : Template.Piece} :
    none ∈ outlineOf home p ↔ p = .placeholder "buildroot" := by
  unfold outlineOf
  split <;> simp_all

theorem none_mem_outline_iff :
    none ∈ outline home template ↔ Template.Occurs "buildroot" template.toList := by
  simp only [← (Template.cut_pieces template.toList).mem_iff, outline, List.mem_flatMap,
    none_mem_outlineOf_iff, exists_eq_right]

def Spelled (root other : String) (o : Outline) (xs ys : List Char) : Prop :=
  xs = fillWith root.toList o ∧ ys = fillWith other.toList o

theorem fill_both (home root other : String) (p : Template.Piece) :
    Both (Spelled root other (outlineOf home p)) (p.fill (seeds root home))
      (p.fill (seeds other home)) := by
  unfold outlineOf
  split
  · exact .succeed ⟨rfl, rfl⟩
  · exact .succeed (by simp [Spelled])
  · exact .succeed (by simp [Spelled])
  · next name hroot hhome =>
      have hnone (r : String) : seeds r home name = none := by
        unfold seeds
        split <;> simp_all
      simp only [Template.Piece.fill, hnone]
      exact .fail name

theorem fillAll_cons (f : String → Option String) (p : Template.Piece) (ps : List Template.Piece) :
    Template.fillAll f (p :: ps) =
      p.fill f >>= fun cs => (Template.fillAll f ps).map (cs ++ ·) := by
  rw [Template.fillAll]
  cases p.fill f <;> rfl

theorem fillAll_both (home root other : String) (ps : List Template.Piece) :
    Both (Spelled root other (ps.flatMap (outlineOf home))) (Template.fillAll (seeds root home) ps)
      (Template.fillAll (seeds other home) ps) := by
  induction ps with
  | nil => exact .succeed ⟨rfl, rfl⟩
  | cons p ps ih =>
      rw [fillAll_cons, fillAll_cons]
      refine (fill_both home root other p).bind fun xs ys hfirst => ih.map fun us vs hrest => ?_
      obtain ⟨rfl, rfl⟩ := hfirst
      obtain ⟨rfl, rfl⟩ := hrest
      simp [Spelled]

theorem fillTemplate_both (home root other template : String) :
    Both (fun s t => Spelled root other (outline home template) s.toList t.toList)
      (fillTemplate root home template) (fillTemplate other home template) := by
  refine Both.mapError (.map (fillAll_both home root other _) fun xs ys h => ?_) _
  rw [String.toList_ofList, String.toList_ofList]
  exact h

structure Abreast (values : List (String × Value)) (home root other : String) (s t : Settings) :
    Prop where
  level : s.level = t.level
  excludes : s.excludes = t.excludes
  cacheDir : ∃ template, given values "cache_dir" (.text defaultCacheDir) = .text template ∧
    s.cacheDir = placed root.toList (outline home template) ∧
    t.cacheDir = placed other.toList (outline home template)

theorem ofValues_both (values : List (String × Value)) (home root other : String) :
    Both (Abreast values home root other) (ofValues values root home)
      (ofValues values other home) := by
  refine .same fun _ _ => .same fun template htemplate => ?_
  refine ((fillTemplate_both home root other template).mapError _).bind fun text text' htext => ?_
  refine .same fun _ _ => .same fun _ _ => .same fun level _ => .same fun excludes _ => ?_
  refine .succeed ⟨rfl, rfl, template, textOption_eq_ok_iff.1 htemplate, ?_, ?_⟩
  · rw [placed, ← htext.1, String.ofList_toList]
  · rw [placed, ← htext.2, String.ofList_toList]

theorem ofSection_both (v : Value) (home root other source : String) :
    Both (fun s t => ∃ values, v = .table values ∧ Abreast values home root other s t)
      (ofSection v root home source) (ofSection v other home source) := by
  unfold ofSection
  split
  · next values =>
      exact Both.mapError (.imp (ofValues_both values home root other)
        fun s t h => ⟨values, rfl, h⟩) _
  · exact .fail _
  · split <;> exact .fail _

def TemplateIn (reader : Reader) (fs : FileSystem) (path : Path) (template : String) : Prop :=
  ∃ document values, readDocument reader fs path = .ok document ∧
    sectionOf document = .table values ∧
    given values "cache_dir" (.text defaultCacheDir) = .text template

theorem load_both (reader : Reader) (fs : FileSystem) (home : String) (path : Path)
    (root other : Option String) :
    Both (fun s t => s.level = t.level ∧ s.excludes = t.excludes ∧
      ∃ template, TemplateIn reader fs path template ∧
        s.cacheDir = placed (root.getD path.parent.toText).toList (outline home template) ∧
        t.cacheDir = placed (other.getD path.parent.toText).toList (outline home template))
      (load reader fs home path root).result (load reader fs home path other).result := by
  unfold load
  cases hread : readDocument reader fs path with
  | error e => exact .fail e
  | ok document =>
      refine (ofSection_both (sectionOf document) home _ _ _).imp fun s t h => ?_
      obtain ⟨values, hvalues, hst⟩ := h
      obtain ⟨template, htemplate, hplaces⟩ := hst.cacheDir
      have htemplateIn : TemplateIn reader fs path template :=
        ⟨document, values, hread, hvalues, htemplate⟩
      exact ⟨hst.level, hst.excludes, template, htemplateIn, hplaces⟩

end Settings

end ArtifactCache
