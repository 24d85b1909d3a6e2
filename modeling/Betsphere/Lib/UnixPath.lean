import Mathlib.Tactic
set_option autoImplicit false

namespace UnixPath

inductive Component where
  | rootDir
  | curDir
  | parentDir
  | normal (name : List Char)
  deriving DecidableEq

def Component.text : Component → List Char
  | rootDir => ['/']
  | curDir => ['.']
  | parentDir => ['.', '.']
  | normal name => name

/-- A repeated slash and a dot that is not in front count for nothing. -/
def component? (s : List Char) : Option Component :=
  if s = [] ∨ s = ['.'] then none
  else if s = ['.', '.'] then some .parentDir
  else some (.normal s)

def ofSegments : List (List Char) → List Component
  | [] => []
  | first :: rest =>
    (if first = [] ∧ rest ≠ [] then [.rootDir]
      else if first = ['.'] then [.curDir]
      else (component? first).toList) ++ rest.filterMap component?

def components (path : List Char) : List Component := ofSegments (path.splitOn '/')

/-- An absolute path replaces the one it is joined to. -/
def join (root path : List Char) : List Char :=
  if path.head? = some '/' then path
  else if root = [] ∨ root.getLast? = some '/' then root ++ path
  else root ++ '/' :: path

def parent? (path : List Component) : Option (List Component) :=
  match path.getLast? with
  | none => none
  | some .rootDir => none
  | some _ => some path.dropLast

section Segments
variable {xs ys : List (List Char)} {root path : List Char}

theorem ofSegments_append (hxs : xs ≠ []) (hys : ys ≠ []) :
    ofSegments (xs ++ ys) = ofSegments (xs ++ [[]]) ++ ys.filterMap component? := by
  cases xs with
  | nil => exact absurd rfl hxs
  | cons first rest => simp [ofSegments, component?, hys]

theorem ofSegments_slash (hxs : xs ≠ []) (hempty : xs ≠ [[]]) :
    ofSegments (xs ++ [[]]) = ofSegments xs := by
  cases xs with
  | nil => exact absurd rfl hxs
  | cons first rest =>
    cases rest with
    | nil =>
      have hfirst : first ≠ [] := by simpa using hempty
      simp [ofSegments, component?, hfirst]
    | cons second rest =>
      have hlast : (second :: rest ++ [[]]).filterMap component? =
          (second :: rest).filterMap component? := by
        rw [List.filterMap_append]
        simp [component?]
      simp only [ofSegments, List.cons_append, ne_eq, reduceCtorEq, not_false_eq_true, and_true]
      rw [← List.cons_append, hlast]

theorem ofSegments_relative {first : List Char} (hroot : ¬(first = [] ∧ ys ≠ []))
    (hcur : first ≠ ['.']) : ofSegments (first :: ys) = (first :: ys).filterMap component? := by
  rw [ofSegments, if_neg hroot, if_neg hcur, List.filterMap_cons]
  cases component? first <;> rfl

theorem splitOn_injective (h : root.splitOn '/' = path.splitOn '/') : root = path :=
  calc
    root = ['/'].intercalate (root.splitOn '/') := (List.intercalate_splitOn '/').symm
    _ = ['/'].intercalate (path.splitOn '/') := by rw [h]
    _ = path := List.intercalate_splitOn '/'

theorem head?_of_splitOn {rest : List (List Char)} (h : path.splitOn '/' = [] :: rest)
    (hrest : rest ≠ []) : path.head? = some '/' := by
  have hpath : ['/'].intercalate (path.splitOn '/') = path := List.intercalate_splitOn '/'
  cases rest with
  | nil => exact absurd rfl hrest
  | cons second rest =>
    rw [h] at hpath
    rw [← hpath]
    rfl

theorem components_join (habsolute : path.head? ≠ some '/')
    (hdot : (path.splitOn '/').head? ≠ some ['.']) :
    components (join root path) = components root ++ (path.splitOn '/').filterMap component? := by
  have hpath : path.splitOn '/' ≠ [] := List.splitOn_ne_nil '/' path
  unfold join components
  rw [if_neg habsolute]
  by_cases hroot : root = []
  · rw [if_pos (.inl hroot), hroot, List.nil_append]
    cases hsplit : path.splitOn '/' with
    | nil => exact absurd hsplit hpath
    | cons first rest =>
      have hfirst : ¬(first = [] ∧ rest ≠ []) := by
        rintro ⟨rfl, hrest⟩
        exact habsolute (head?_of_splitOn hsplit hrest)
      have hcur : first ≠ ['.'] := by
        rintro rfl
        exact hdot (by rw [hsplit]; rfl)
      rw [ofSegments_relative hfirst hcur]
      rfl
  · by_cases hslash : root.getLast? = some '/'
    · obtain ⟨front, rfl⟩ := List.getLast?_eq_some_iff.mp hslash
      rw [if_pos (.inr hslash), List.append_assoc, List.singleton_append,
        List.splitOn_append_cons_self, List.splitOn_append_cons_self, List.splitOn_nil]
      exact ofSegments_append (List.splitOn_ne_nil '/' front) hpath
    · have hempty : root.splitOn '/' ≠ [[]] := fun h =>
        hroot (splitOn_injective (h.trans (List.splitOn_nil '/').symm))
      rw [if_neg (by simp [hroot, hslash]), List.splitOn_append_cons_self,
        ofSegments_append (List.splitOn_ne_nil '/' root) hpath,
        ofSegments_slash (List.splitOn_ne_nil '/' root) hempty]

end Segments

end UnixPath
