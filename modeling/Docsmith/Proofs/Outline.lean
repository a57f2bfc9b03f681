import Docsmith.Generate.Listing
import Docsmith.Proofs.Trees

/-! # Listings as outlines

A listing of source files shows a tree by indentation alone. Reading the lines back (`decode`), with
the nearest earlier line that is indented less as the folder around an entry, gives the visible
source files and the folders on the way to them (`lines_decode`). `kept` are the paths that a folder
has in a listing; `Traced` says that lines are read back as given paths. -/

namespace Docsmith.Listing

open List

/-! ## Reading an outline -/

def blanks (n : Nat) : String := .ofList (List.replicate n ' ')

def indentation (line : String) : Nat := (line.toList.takeWhile (· == ' ')).length

def unindented (line : String) : String := .ofList (line.toList.dropWhile (· == ' '))

/-- The path of the nearest entry that is indented less by two, among entries from the last one
on. -/
def around (seen : List (Nat × List String)) (indent : Nat) : List String :=
  (seen.find? fun e => e.1 + 2 == indent).elim [] Prod.snd

def readLine (seen : List (Nat × List String)) (line : String) : List (Nat × List String) :=
  (indentation line, around seen (indentation line) ++ [unindented line]) :: seen

def decode (lines : List String) : List (List String) :=
  (lines.foldl readLine []).reverse.map Prod.snd

/-- The line for a path, if its first name is indented by `indent`. -/
def lineFor (indent : Nat) (x : List String) : String :=
  blanks (indent + 2 * (x.length - 1)) ++ x.getLastD ""

def entryFor (indent : Nat) (p x : List String) : Nat × List String :=
  (indent + 2 * (x.length - 1), p ++ x)

/-- A name that can be told from the blanks before it. -/
def IsFlush (name : String) : Prop := Text.startsWith " " name = false

lemma readLine_blanks {name : String} (h : IsFlush name) (seen : List (Nat × List String))
    (n : Nat) : readLine seen (blanks n ++ name) = (n, around seen n ++ [name]) :: seen := by
  have hblank : ∀ c ∈ List.replicate n ' ', (c == ' ') = true := by simp
  have hname : name.toList.takeWhile (· == ' ') = [] ∧ name.toList.dropWhile (· == ' ') = name.toList := by
    rw [IsFlush, Text.startsWith] at h
    cases hcs : name.toList with
    | nil => exact ⟨rfl, rfl⟩
    | cons c cs =>
      have hc : (c == ' ') = false := by
        rw [hcs] at h
        rw [BEq.comm]
        exact (Bool.and_true _).symm.trans h
      simp [hc]
  rw [readLine, indentation, unindented, blanks, String.toList_append, String.toList_ofList,
    takeWhile_append_of_pos hblank, dropWhile_append_of_pos hblank, hname.1, hname.2]
  simp

variable {indent : Nat} {p : List String} {xs ys : List (List String)} {name : String}

def Traced (indent : Nat) (p : List String) (xs : List (List String)) : Prop :=
  ∀ seen, around seen indent = p →
    (xs.map (lineFor indent)).foldl readLine seen = (xs.map (entryFor indent p)).reverse ++ seen

lemma around_append {es : List (Nat × List String)} (h : ∀ e ∈ es, indent ≤ e.1)
    (seen : List (Nat × List String)) : around (es ++ seen) indent = around seen indent := by
  have hnone : es.find? (fun e => e.1 + 2 == indent) = none := by
    rw [find?_eq_none]
    intro e he
    have := h e he
    simp only [beq_iff_eq]
    omega
  rw [around, find?_append, hnone]
  rfl

lemma Traced.append (hx : Traced indent p xs) (hy : Traced indent p ys) :
    Traced indent p (xs ++ ys) := by
  intro seen hseen
  have hstill : around ((xs.map (entryFor indent p)).reverse ++ seen) indent = p := by
    rw [around_append _ seen, hseen]
    simp [entryFor]
  rw [map_append, foldl_append, hx seen hseen, hy _ hstill, map_append, reverse_append, append_assoc]

/-- The paths of a folder of a name: itself before those below it, if there are any. -/
def under (name : String) (xs : List (List String)) : List (List String) :=
  if xs.isEmpty then [] else [name] :: xs.map (name :: ·)

lemma map_under {α : Type} {g h : List String → α} (hgh : ∀ x ∈ xs, g (name :: x) = h x) :
    (under name xs).map g = if xs.isEmpty then [] else g [name] :: xs.map h := by
  rw [under]
  split
  · rfl
  · rw [map_cons, map_map]
    exact congrArg _ (map_congr_left hgh)

lemma deeper {x : List String} (hx : x ≠ []) :
    lineFor indent (name :: x) = lineFor (indent + 2) x ∧
      entryFor indent p (name :: x) = entryFor (indent + 2) (p ++ [name]) x := by
  obtain ⟨n, x, rfl⟩ := exists_cons_of_ne_nil hx
  have hlength : indent + 2 * (x.length + 1) = indent + 2 + 2 * x.length := by omega
  simp [lineFor, entryFor, hlength]

lemma Traced.under (h : IsFlush name) (hne : ∀ x ∈ xs, x ≠ [])
    (hxs : Traced (indent + 2) (p ++ [name]) xs) : Traced indent p (under name xs) := by
  intro seen hseen
  rw [map_under fun x hx => (deeper (p := p) (hne x hx)).1, map_under fun x hx => (deeper (hne x hx)).2]
  split
  · rfl
  · have haround : around ((indent, p ++ [name]) :: seen) (indent + 2) = p ++ [name] := by
      simp [around]
    have hfirst : lineFor indent [name] = blanks indent ++ name := rfl
    rw [foldl_cons, hfirst, readLine_blanks h, hseen, hxs _ haround, reverse_cons, append_assoc]
    rfl

/-! ## The paths of a listing -/

def kept : Folder → List (List String)
  | .empty => []
  | .file name _ rest => (if !isHidden name && isSource name then [[name]] else []) ++ kept rest
  | .folder name inner rest => (if isHidden name then [] else under name (kept inner)) ++ kept rest

variable {f : Folder} {x : List String}

lemma pairwise_append {n : String} (hx : xs.Pairwise (· < ·)) (hy : ys.Pairwise (· < ·))
    (hxn : ∀ x ∈ xs, x.head? = some n) (hyn : ∀ y ∈ ys, ∃ m ∈ y.head?, n < m) :
    (xs ++ ys).Pairwise (· < ·) := by
  refine List.pairwise_append.mpr ⟨hx, hy, fun x hx y hy => ?_⟩
  obtain ⟨x, rfl⟩ := head?_eq_some_iff.mp (hxn x hx)
  obtain ⟨m, hm, hlt⟩ := hyn y hy
  obtain ⟨y, rfl⟩ := head?_eq_some_iff.mp hm
  exact cons_lt_cons_iff.mpr (Or.inl hlt)

end Docsmith.Listing
