/-! # Finding, cutting and replacing

Occurrences of a pattern in a text are found from the left and do not overlap. All functions recurse
on the text alone. -/

namespace Docsmith.Chars

/-- Cuts a text around the first occurrence of a pattern: what stands before it and what stands
after it. -/
def breakOn (pat : List Char) : List Char → Option (List Char × List Char)
  | [] => if pat.isEmpty then some ([], []) else none
  | c :: cs =>
    if pat.isPrefixOf (c :: cs) then some ([], (c :: cs).drop pat.length)
    else (breakOn pat cs).map fun (before, after) => (c :: before, after)

def before (pat cs : List Char) : List Char :=
  match breakOn pat cs with
  | some (b, _) => b
  | none => cs

def contains (pat cs : List Char) : Bool :=
  (breakOn pat cs).isSome

def indexOf? (pat cs : List Char) : Option Nat :=
  (breakOn pat cs).map (·.1.length)

/-- The first `skip` characters of what is left belong to an occurrence already replaced. -/
def replaceFrom (pat rep : List Char) : List Char → Nat → List Char
  | [], _ => []
  | _ :: cs, skip + 1 => replaceFrom pat rep cs skip
  | c :: cs, 0 =>
    if pat.isPrefixOf (c :: cs) then rep ++ replaceFrom pat rep cs (pat.length - 1)
    else c :: replaceFrom pat rep cs 0

def replace (pat rep cs : List Char) : List Char :=
  if pat.isEmpty then cs else replaceFrom pat rep cs 0

/-- The first `skip` characters of what is left belong to the last occurrence. -/
def splitFrom (pat : List Char) : List Char → Nat → List (List Char)
  | [], _ => [[]]
  | _ :: cs, skip + 1 => splitFrom pat cs skip
  | c :: cs, 0 =>
    if pat.isPrefixOf (c :: cs) then [] :: splitFrom pat cs (pat.length - 1)
    else
      match splitFrom pat cs 0 with
      | [] => [[c]]
      | piece :: pieces => (c :: piece) :: pieces

def splitOn (pat cs : List Char) : List (List Char) :=
  if pat.isEmpty then [cs] else splitFrom pat cs 0

theorem eq_append_of_breakOn {pat cs b a : List Char} (h : breakOn pat cs = some (b, a)) :
    cs = b ++ pat ++ a := by
  induction cs generalizing b a with
  | nil =>
    simp only [breakOn] at h
    split at h
    · simp_all
    · simp at h
  | cons c cs ih =>
    simp only [breakOn] at h
    split at h
    · next hp =>
      obtain ⟨t, ht⟩ := List.isPrefixOf_iff_prefix.1 hp
      simp only [Option.some.injEq, Prod.mk.injEq] at h
      obtain ⟨rfl, rfl⟩ := h
      simp [← ht]
    · obtain ⟨⟨b', a'⟩, hb, he⟩ := Option.map_eq_some_iff.1 h
      simp only [Prod.mk.injEq] at he
      obtain ⟨rfl, rfl⟩ := he
      simp [ih hb]

end Docsmith.Chars
