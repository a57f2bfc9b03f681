/-! # Lines

`splitLines` cuts at every line boundary that Unicode knows and drops the boundaries; `keepLines`
cuts after line feeds only and keeps them. `unifyBreaks` turns carriage returns into line feeds, as
reading a text file does. -/

namespace Docsmith.Chars

def isLineBreak (c : Char) : Bool :=
  let n := c.toNat
  (0x0a ≤ n && n ≤ 0x0d) || (0x1c ≤ n && n ≤ 0x1e) || n == 0x85 || n == 0x2028 || n == 0x2029

/-- A carriage return and the line feed after it are one end; a text that ends in a line end has no
further empty line. -/
def splitLines : List Char → List (List Char)
  | [] => []
  | '\r' :: '\n' :: rest => [] :: splitLines rest
  | c :: rest =>
    if isLineBreak c then [] :: splitLines rest
    else
      match splitLines rest with
      | [] => [[c]]
      | line :: lines => (c :: line) :: lines

def keepLines : List Char → List (List Char)
  | [] => []
  | '\n' :: rest => ['\n'] :: keepLines rest
  | c :: rest =>
    match keepLines rest with
    | [] => [[c]]
    | line :: lines => (c :: line) :: lines

def unifyBreaks : List Char → List Char
  | [] => []
  | '\r' :: '\n' :: rest => '\n' :: unifyBreaks rest
  | '\r' :: rest => '\n' :: unifyBreaks rest
  | c :: rest => c :: unifyBreaks rest

theorem head_splitLines_prefix {cs l : List Char} {lines : List (List Char)}
    (h : splitLines cs = l :: lines) : l <+: cs := by
  fun_induction splitLines cs generalizing l lines with
  | case1 => cases h
  | case2 rest ih | case3 c rest _ hc ih =>
    rw [← (List.cons.inj h).1]
    exact List.nil_prefix
  | case4 c rest _ hc hnil ih =>
    rw [← (List.cons.inj h).1]
    exact List.cons_prefix_cons.mpr ⟨rfl, List.nil_prefix⟩
  | case5 c rest _ hc line lines hlines ih =>
    rw [← (List.cons.inj h).1]
    exact List.cons_prefix_cons.mpr ⟨rfl, ih hlines⟩

theorem flatten_keepLines (cs : List Char) : (keepLines cs).flatten = cs := by
  fun_induction keepLines cs with
  | case1 => rfl
  | case2 rest ih => simp [ih]
  | case3 c rest _ h ih => rw [h] at ih; simp at ih; simp [← ih]
  | case4 c rest _ line lines h ih => rw [h] at ih; simp at ih; simp [ih]

theorem unifyBreaks_eq_self {cs : List Char} (h : '\r' ∉ cs) : unifyBreaks cs = cs := by
  fun_induction unifyBreaks cs with
  | case1 => rfl
  | case2 rest ih => simp at h
  | case3 rest _ ih => simp at h
  | case4 c rest _ hc ih => simp at h; rw [ih h.2]

end Docsmith.Chars
