import Mathlib.Data.List.Chain
import AegisOS.Lib.Strings

/-! The file that a request opens in `services/web-hosting/src/main.rs`. -/
namespace AegisOS.WebRoot
open Strings

/-- `str::split`, for two periods -/
def splitDots : Text → List Text
  | [] => [[]]
  | '.' :: '.' :: s => [] :: splitDots s
  | c :: s =>
    match splitDots s with
    | [] => [[c]]
    | p :: ps => (c :: p) :: ps

def separator (base : Text) : Text := if base.getLast?.all (· = '/') then [] else ['/']

/-- `Path::join` -/
def join (base path : Text) : Text :=
  if path.head? = some '/' then path else base ++ separator base ++ path

/-- The path that `handle_connection` opens. The first two parts of `splitn(3, ' ')`, which are all
it reads, are those of a split at every space. -/
def openedPath (isDir : Text → Bool) (webroot requestLine : Text) : Option Text :=
  match requestLine.splitOn ' ' with
  | _ :: rawPath :: _ =>
    let safePath := (splitDots rawPath).flatten
    let filePath := join webroot (safePath.dropWhile (· = '/'))
    some (if isDir filePath then join filePath "index.html".toList else filePath)
  | _ => none

/-- The directory of a name in a directory, without symbolic links. -/
def enter (pos : List Text × Text) : List Text :=
  if pos.2 = [] ∨ pos.2 = ['.'] then pos.1
  else if pos.2 = ['.', '.'] then pos.1.dropLast
  else pos.1 ++ [pos.2]

def walk (pos : List Text × Text) (c : Char) : List Text × Text :=
  if c = '/' then (enter pos, []) else (pos.1, pos.2 ++ [c])

/-- Where a path leads from the directory `cwd`. -/
def resolve (cwd : List Text) (path : Text) : List Text :=
  enter (path.foldl walk (if path.head? = some '/' then [] else cwd, []))

/-- No two periods in a row. -/
def Apart : Text → Prop := List.IsChain fun c d => c ≠ '.' ∨ d ≠ '.'

open List

section
variable {c : Char} {s : Text} (h : ∀ t, c = '.' → s = '.' :: t → False)
include h

theorem flatten_splitDots : (splitDots (c :: s)).flatten = c :: (splitDots s).flatten := by
  rw [splitDots]
  · cases splitDots s <;> rfl
  · exact h

/-- The leftmost matches are taken, so a period before a match is part of it. -/
theorem apart_cons (ih : Apart (splitDots s).flatten) : Apart (c :: (splitDots s).flatten) := by
  refine isChain_cons.mpr ⟨fun y hy => ?_, ih⟩
  by_contra hdots
  simp only [not_or, not_not] at hdots
  cases s with
  | nil => cases hy
  | cons d s =>
    have hd : d ≠ '.' := fun hd => h s hdots.1 (by rw [hd])
    rw [flatten_splitDots fun _ hd' => absurd hd' hd] at hy
    exact hd ((Option.some.inj hy).trans hdots.2)

end

theorem apart_splitDots (s : Text) : Apart (splitDots s).flatten := by
  fun_induction splitDots s with
  | case1 => exact .nil
  | case2 s ih => exact ih
  | case3 c s h hs ih | case4 c s h p ps hs ih =>
    have hcons := apart_cons h ih
    rwa [hs] at hcons

section
variable {root dir : List Text} {name rest : Text}

theorem enter_under (hroot : root <+: dir) (hname : Apart name) : root <+: enter (dir, name) := by
  unfold enter
  split_ifs with hsame hup
  · exact hroot
  · obtain rfl : name = ['.', '.'] := hup
    simp [Apart] at hname
  · exact hroot.trans (prefix_append _ _)

theorem walk_under (hroot : root <+: dir) (hrest : Apart (name ++ rest)) :
    root <+: enter (rest.foldl walk (dir, name)) := by
  induction rest generalizing dir name with
  | nil => exact enter_under hroot (by rwa [append_nil] at hrest)
  | cons c rest ih =>
    rw [foldl_cons, walk]
    split_ifs
    · have happ := isChain_append.mp hrest
      exact ih (enter_under hroot happ.1) happ.2.1.tail
    · exact ih hroot (by rwa [append_assoc])

end

theorem walk_separator (dir : List Text) (base : Text) :
    (base ++ separator base).foldl walk (dir, []) = (enter (base.foldl walk (dir, [])), []) := by
  rcases eq_nil_or_concat base with rfl | ⟨front, c, rfl⟩
  · rfl
  · by_cases hc : c = '/' <;> simp [separator, walk, enter, hc]

theorem resolve_join (cwd : List Text) (base path : Text) (hpath : path.head? ≠ some '/')
    (hdots : Apart path) : resolve cwd base <+: resolve cwd (join base path) := by
  have hstart : (base ++ separator base ++ path).head? = some '/' ↔ base.head? = some '/' := by
    cases base with
    | nil => simpa [separator] using hpath
    | cons c base => rfl
  simp only [join, if_neg hpath, resolve, hstart]
  rw [foldl_append, walk_separator]
  exact walk_under (prefix_refl _) hdots

/-- What is opened is the web root joined with a relative path without two periods in a row, or its
`index.html`, and without symbolic links it lies under the web root. -/
theorem openedPath_under (isDir : Text → Bool) (webroot requestLine path : Text)
    (h : openedPath isDir webroot requestLine = some path) :
    ∃ part : Text, part.head? ≠ some '/' ∧ ¬['.', '.'] <:+: part ∧
      (path = join webroot part ∨ path = join (join webroot part) "index.html".toList) ∧
      ∀ cwd, resolve cwd webroot <+: resolve cwd path := by
  unfold openedPath at h
  split at h
  next rawPath _ _ =>
    dsimp only at h
    have hslash := head?_dropWhile_not (· = '/') (splitDots rawPath).flatten
    have hdots := (apart_splitDots rawPath).suffix (dropWhile_suffix (· = '/'))
    generalize (splitDots rawPath).flatten.dropWhile (· = '/') = part at h hslash hdots
    have hpart : part.head? ≠ some '/' := by
      intro hhead
      simp [hhead] at hslash
    have hunder := fun cwd => resolve_join cwd webroot part hpart hdots
    refine ⟨part, hpart, fun hin => ?_, ?_⟩
    · have hdd := IsChain.infix hdots hin
      simp at hdd
    cases h
    split_ifs
    · refine ⟨.inr rfl, fun cwd => (hunder cwd).trans (resolve_join cwd _ _ ?_ ?_)⟩
      · decide
      · simp [Apart]
    · exact ⟨.inl rfl, hunder⟩
  · cases h

theorem openedPath_dots : resolve [] "/srv".toList <+: resolve [] "/srv/a/./b".toList :=
  (openedPath_under (fun _ => false) _ "GET /a/.../b HTTP/1.1".toList _
    (by decide)).choose_spec.2.2.2 []

end AegisOS.WebRoot
