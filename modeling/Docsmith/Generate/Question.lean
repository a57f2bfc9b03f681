import Docsmith.Chars.Digit
import Docsmith.Text

/-! # Questions and answers in a text

A question is introduced by `- Q` and a number, its answer by `- A` and a number at the start of a
line. A question can go over several lines, an answer ends with its line. -/

namespace Docsmith.Question

/-- What follows the introduction of a question or answer at the start of a text. -/
def numbered? (letter : Char) : List Char → Option (List Char)
  | '-' :: ' ' :: c :: rest =>
    if c = letter ∧ (rest.takeWhile Chars.isDigit).length ≠ 0 then
      match rest.dropWhile Chars.isDigit with
      | ':' :: ' ' :: after => some after
      | _ => none
    else none
  | _ => none

def first? : List Char → Option (List Char)
  | [] => none
  | c :: cs =>
    match numbered? 'Q' (c :: cs) with
    | some after => some after
    | none => first? cs

def breakAnswer? : List Char → Option (List Char × List Char)
  | [] => none
  | c :: cs =>
    match (if c = '\n' then numbered? 'A' cs else none) with
    | some after => some ([], after)
    | none => (breakAnswer? cs).map fun (b, a) => (c :: b, a)

theorem length_numbered? {letter : Char} {cs after : List Char}
    (h : numbered? letter cs = some after) : after.length < cs.length := by
  unfold numbered? at h
  split at h
  · next c rest =>
    split at h
    · split at h
      · next after' hd =>
        simp only [Option.some.injEq] at h
        subst h
        have := (List.dropWhile_suffix Chars.isDigit (l := rest)).length_le
        rw [hd] at this
        simp only [List.length_cons] at this ⊢
        omega
      · simp at h
    · simp at h
  · simp at h

theorem length_first? {cs after : List Char} (h : first? cs = some after) :
    after.length < cs.length := by
  induction cs with
  | nil => simp [first?] at h
  | cons c cs ih =>
    simp only [first?] at h
    split at h
    · next hn =>
      simp only [Option.some.injEq] at h
      subst h
      exact length_numbered? hn
    · have := ih h
      simp only [List.length_cons]
      omega

theorem length_breakAnswer? {cs before after : List Char}
    (h : breakAnswer? cs = some (before, after)) : after.length < cs.length := by
  induction cs generalizing before with
  | nil => simp [breakAnswer?] at h
  | cons c cs ih =>
    simp only [breakAnswer?] at h
    split at h
    · next hn =>
      simp only [Option.some.injEq, Prod.mk.injEq] at h
      obtain ⟨_, rfl⟩ := h
      split at hn
      · have := length_numbered? hn
        simp only [List.length_cons]
        omega
      · simp at hn
    · obtain ⟨⟨b, a⟩, hb, he⟩ := Option.map_eq_some_iff.1 h
      simp only [Prod.mk.injEq] at he
      obtain ⟨_, rfl⟩ := he
      have := ih hb
      simp only [List.length_cons]
      omega

def pairs (cs : List Char) : List (List Char × List Char) :=
  match _hq : first? cs with
  | none => []
  | some after =>
    match _ha : breakAnswer? after with
    | none => []
    | some (question, rest) =>
      (question, rest.takeWhile (· ≠ '\n')) :: pairs (rest.dropWhile (· ≠ '\n'))
termination_by cs.length
decreasing_by
  have h1 := length_first? _hq
  have h2 := length_breakAnswer? _ha
  have h3 := (List.dropWhile_suffix (fun c : Char => decide (c ≠ '\n')) (l := rest)).length_le
  omega

def shown (question answer : List Char) : String :=
  .ofList (Chars.strip (question ++ '(' :: answer ++ [')']))

def all (text : String) : List String :=
  (pairs text.toList).map fun (q, a) => shown q a

end Docsmith.Question
