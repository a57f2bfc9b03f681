import Docsmith.Proofs.Inventory
import Docsmith.Proofs.KeptAnswers
import Docsmith.Proofs.Quoting

/-! # The text of a function

The columns of a span count the bytes of a line, but the text is cut out by characters. The start of
a function is met; its end is missed by as many characters as its last line has bytes more than
characters, as far as that line goes on (`Span.cut_of`). So a node shows just the text of its
function if that line is plain or ends the file (`code_exact_iff`). -/

namespace Docsmith

open List

/-! ## Lines -/

namespace Chars

variable {a b l : List Char}

def lastLine (cs : List Char) : List Char := cs.rtakeWhile (· ≠ '\n')

def firstLine (cs : List Char) : List Char := (keepLines cs).headD []

def byteSize (cs : List Char) : Nat := (cs.map Char.utf8Size).sum

lemma length_le_byteSize (l : List Char) : l.length ≤ byteSize l := by
  induction l with
  | nil => exact le_rfl
  | cons c l ih =>
    have hpos := c.utf8Size_pos
    simp only [byteSize, map_cons, sum_cons, length_cons] at ih ⊢
    omega

lemma byteSize_eq_length : byteSize l = l.length ↔ ∀ c ∈ l, c.utf8Size = 1 := by
  induction l with
  | nil => simp [byteSize]
  | cons c l ih =>
    have hpos := c.utf8Size_pos
    have hle := length_le_byteSize l
    rw [forall_mem_cons, ← ih]
    simp only [byteSize, map_cons, sum_cons, length_cons] at hle ⊢
    omega

lemma lastLine_eq_self (h : '\n' ∉ a) : lastLine a = a := by
  rw [lastLine, rtakeWhile_eq_self_iff]
  exact fun c hc => decide_eq_true fun heq => h (heq ▸ hc)

lemma lastLine_append_newline (a b : List Char) : lastLine (a ++ '\n' :: b) = lastLine b := by
  induction b using List.reverseRecOn with
  | nil => exact rtakeWhile_concat_neg _ _ _ (by simp)
  | append_singleton b c ih =>
    rw [← cons_append, ← append_assoc, lastLine, rtakeWhile_concat, ← lastLine, ih,
      lastLine, lastLine, rtakeWhile_concat]

lemma newline_notMem_lastLine (a : List Char) : '\n' ∉ lastLine a := fun h => by
  simpa using mem_rtakeWhile_imp h

lemma lastLine_append (h : '\n' ∉ b) : lastLine (a ++ b) = lastLine a ++ b := by
  induction b using List.reverseRecOn with
  | nil => rw [append_nil, append_nil]
  | append_singleton b c ih =>
    rw [mem_append, mem_singleton, not_or] at h
    rw [← append_assoc, lastLine, rtakeWhile_concat_pos _ _ _ (by simpa using Ne.symm h.2),
      ← lastLine, ih h.1, append_assoc]

lemma firstLine_append (h : '\n' ∉ l) (b : List Char) : firstLine (l ++ b) = l ++ firstLine b := by
  induction l with
  | nil => rfl
  | cons c l ih =>
    rw [mem_cons, not_or] at h
    have hrest := ih h.2
    rw [firstLine] at hrest ⊢
    rw [cons_append, keepLines_cons (Ne.symm h.1)]
    cases hlines : keepLines (l ++ b) with
    | nil | cons line lines =>
      rw [hlines] at hrest
      exact congrArg (c :: ·) hrest

lemma firstLine_eq_nil : firstLine b = [] ↔ b = [] := by
  rw [firstLine]
  fun_cases keepLines b with
  | case1 => exact iff_of_true rfl rfl
  | case2 rest => exact iff_of_false (cons_ne_nil _ _) (cons_ne_nil _ _)
  | case3 c rest _ _ => exact iff_of_false (cons_ne_nil _ _) (cons_ne_nil _ _)
  | case4 c rest _ _ _ _ => exact iff_of_false (cons_ne_nil _ _) (cons_ne_nil _ _)

lemma keepLines_append (a b : List Char) : ∃ closed,
    keepLines (a ++ b) = closed ++ keepLines (lastLine a ++ b) ∧ closed.length = a.count '\n' ∧
      closed.flatten ++ lastLine a = a := by
  induction hn : a.length using Nat.strong_induction_on generalizing a with
  | _ n ih =>
    by_cases hmem : '\n' ∈ a
    · obtain ⟨x, y, rfl, hx⟩ := eq_append_cons_of_mem hmem
      obtain ⟨closed, hlines, hlength, hflat⟩ := ih y.length (by simp at hn; omega) y rfl
      refine ⟨(x ++ ['\n']) :: closed, ?_, ?_, ?_⟩
      · rw [append_assoc, cons_append, keepLines_append_newline hx, hlines,
          lastLine_append_newline, cons_append]
      · simp [hlength, count_eq_zero_of_not_mem hx]
      · rw [lastLine_append_newline, flatten_cons, append_assoc, hflat]
        simp
    · exact ⟨[], by rw [lastLine_eq_self hmem]; rfl, (count_eq_zero_of_not_mem hmem).symm,
        lastLine_eq_self hmem⟩

lemma getD_keepLines (a b : List Char) :
    (keepLines (a ++ b)).getD (a.count '\n') [] = lastLine a ++ firstLine b := by
  obtain ⟨closed, hlines, hlength, -⟩ := keepLines_append a b
  rw [hlines, ← hlength, getD_eq_getElem?_getD, getElem?_append_right le_rfl, Nat.sub_self,
    ← firstLine_append (newline_notMem_lastLine a), firstLine, headD_eq_head?_getD,
    head?_eq_getElem?]

lemma between_keepLines (before : List Char) {x : List Char} (hx : '\n' ∉ x) (y after : List Char) :
    ∃ between, ((keepLines (before ++ (x ++ '\n' :: y) ++ after)).take
        ((before ++ (x ++ '\n' :: y)).count '\n')).drop (before.count '\n' + 1) = between ∧
      between.flatten ++ lastLine y = y := by
  obtain ⟨closed, hlines, hlength, -⟩ := keepLines_append before (x ++ '\n' :: (y ++ after))
  obtain ⟨between, hlines', hlength', hflat⟩ := keepLines_append y after
  have hopen : '\n' ∉ lastLine before ++ x :=
    mem_append.not.mpr (not_or.mpr ⟨newline_notMem_lastLine before, hx⟩)
  let opening := closed ++ [lastLine before ++ x ++ ['\n']]
  have hall : keepLines (before ++ (x ++ '\n' :: y) ++ after)
      = opening ++ (between ++ keepLines (lastLine y ++ after)) := by
    rw [append_assoc, append_assoc, cons_append, hlines,
      ← append_assoc (lastLine before), keepLines_append_newline hopen, hlines']
    simp [opening]
  have hstart : opening.length = before.count '\n' + 1 := by simp [opening, hlength]
  have hend : (before ++ (x ++ '\n' :: y)).count '\n' = opening.length + between.length := by
    simp [hstart, hlength', count_eq_zero_of_not_mem hx]
    omega
  refine ⟨between, ?_, hflat⟩
  rw [hall, hend, ← hstart, take_length_add_append, drop_left, take_left]

lemma take_byteSize (l r : List Char) :
    (l ++ r).take (byteSize l) = l ++ r.take (byteSize l - l.length) := by
  rw [take_append, take_of_length_le (length_le_byteSize l)]

end Chars

/-! ## What a span cuts out -/

namespace Calls

open Chars

/-- The span of a text that stands behind another one. Columns count bytes. -/
def Span.of (before code : List Char) : Span where
  line := before.count '\n' + 1
  column := byteSize (lastLine before)
  endLine := (before ++ code).count '\n' + 1
  endColumn := byteSize (lastLine (before ++ code))

def excess (before code after : List Char) : List Char :=
  (firstLine after).take (byteSize (lastLine (before ++ code)) - (lastLine (before ++ code)).length)

lemma Span.cut_of {before : List Char} (hbefore : ∀ c ∈ lastLine before, c.utf8Size = 1)
    (code after : List Char) :
    (Span.of before code).cut (Text.keepLines (.ofList (before ++ code ++ after)))
      = .ofList (code ++ excess before code after) := by
  have hcolumn : byteSize (lastLine before) = (lastLine before).length := byteSize_eq_length.mpr hbefore
  have hline : ∀ a b : List Char, before ++ code ++ after = a ++ b →
      ((Text.keepLines (.ofList (before ++ code ++ after))).getD (a.count '\n' + 1 - 1) "").toList
        = lastLine a ++ firstLine b := by
    intro a b hab
    rw [Text.keepLines, String.toList_ofList, hab, Nat.add_sub_cancel, ← String.ofList_nil,
      getD_map, String.toList_ofList, getD_keepLines]
  have hlast := hline (before ++ code) after rfl
  have hfirst := hline before (code ++ after) (append_assoc ..)
  rw [Span.cut, Span.of]
  dsimp only
  rw [hfirst, hlast, hcolumn]
  by_cases hcode : '\n' ∈ code
  · obtain ⟨x, y, rfl, hx⟩ := eq_append_cons_of_mem hcode
    obtain ⟨between, hbetween, hflat⟩ := between_keepLines before hx y after
    have hopening : firstLine (x ++ '\n' :: y ++ after) = x ++ ['\n'] := by
      rw [append_assoc, cons_append, firstLine, keepLines_append_newline hx]
      rfl
    have hending : lastLine (before ++ (x ++ '\n' :: y)) = lastLine y := by
      rw [← append_assoc, lastLine_append_newline]
    rw [if_neg (by simp), Nat.add_sub_cancel, Text.keepLines, String.toList_ofList, ← map_take,
      ← map_drop, hbetween, hopening, excess, hending, take_byteSize, drop_left,
      ← String.toList_inj]
    simp only [String.toList_append, String.toList_ofList, Text.toList_join_empty, map_map,
      Function.comp_def, map_id']
    calc
      _ = x ++ '\n' :: (between.flatten ++ lastLine y)
            ++ (firstLine after).take (byteSize (lastLine y) - (lastLine y).length) := by simp
      _ = _ := by rw [hflat]
  · have hcount : (before ++ code).count '\n' = before.count '\n' := by
      rw [count_append, count_eq_zero_of_not_mem hcode, Nat.add_zero]
    rw [if_pos (by simp [hcount]), excess, lastLine_append hcode, firstLine_append hcode,
      ← append_assoc, take_byteSize, append_assoc, drop_left]

lemma excess_eq_nil {before code after : List Char} : excess before code after = [] ↔
    (∀ c ∈ lastLine (before ++ code), c.utf8Size = 1) ∨ after = [] := by
  have hle := length_le_byteSize (lastLine (before ++ code))
  rw [excess, take_eq_nil_iff, firstLine_eq_nil, ← byteSize_eq_length]
  exact or_congr_left (by omega)

/-! ## The code of a node -/

def indentation : List Char := [' ', '\t', '\x0c']

/-- The node of a function that stands shows its text and the excess of its span, so it shows just
its text if the last line is plain up to the end of the function or the file ends there. -/
theorem code_exact_iff {p : Program} {top : String} {files : List String} {c : Catalog Routine}
    (hproper : ∀ text source, p.parse text = some source → Tree.allProper source.body = true)
    (hfiles : programs p.folder top = .ok files) (h : callGraph p top = .ok c) {d : Made}
    (hd : d.Stands (files.flatMap p.made)) {before code after : List Char}
    (htext : p.folder.readText d.file = .ok (.ofList (before ++ code ++ after)))
    (hbefore : lastLine before ⊆ indentation) (hspan : d.origin.span = some (.of before code)) :
    ∃ r, c.get d.fullName = .ok r ∧ r.code = .ofList (code ++ excess before code after) ∧
      (r.code = .ofList code ↔ (∀ c ∈ lastLine (before ++ code), c.utf8Size = 1) ∨ after = []) := by
  obtain ⟨r, hr, -, -, text, span, htext', hspan', hcode⟩ := shown_of_stands hproper hfiles h hd
  obtain rfl := Except.ok.inj (htext.symm.trans htext')
  obtain rfl := Option.some.inj (hspan.symm.trans hspan')
  have hindentation : ∀ c ∈ indentation, c.utf8Size = 1 := by
    simp only [indentation, List.forall_mem_cons]
    exact ⟨rfl, rfl, rfl, List.forall_mem_nil _⟩
  rw [Span.cut_of (fun c hc => hindentation c (hbefore hc))] at hcode
  refine ⟨r, hr, hcode, ?_⟩
  rw [hcode, String.ofList_inj, List.append_right_eq_self, excess_eq_nil]

/-- A file with a function in one line, in which one character takes two bytes. -/
def accented : Program where
  folder := .folder "res" (.file "m.py" (.text "def f(): return 'é'\n") .empty) .empty
  parse := fun _ => some {
    block := .mk "top" ["f"] [.mk "f" [] []]
    body := [.function { name := "f", span := ⟨1, 0, 1, 20⟩ } [] [] [.group [.constant "str"]]] }

lemma programs_accented : programs accented.folder "res" = .ok ["res/m.py"] :=
  programs_of_found (by rfl) (by decide)

lemma callGraph_accented : callGraph accented "res" = .ok {
    graph := Digraph.acyclic { nodes := ["m.f"] }
    known := [("m.f", { symbol := "m.f", file := "m.py", code := "def f(): return 'é'\n" })] } :=
  callGraph_of_catalog programs_accented (by decide +kernel)

theorem code_exact_iff_accented : ∃ c r, callGraph accented "res" = .ok c ∧ c.get "m.f" = .ok r ∧
    r.code = .ofList ("def f(): return 'é'".toList ++ excess [] "def f(): return 'é'".toList ['\n']) := by
  have hproper : ∀ text source, accented.parse text = some source →
      Tree.allProper source.body = true := by
    rintro text source h
    obtain rfl := Option.some.inj h
    decide
  have hstands : Made.Stands ⟨"m", "f", .ofHead { name := "f", span := ⟨1, 0, 1, 20⟩ }, "res/m.py"⟩
      (["res/m.py"].flatMap accented.made) := ⟨by decide, rfl, by decide⟩
  obtain ⟨r, hr, hcode, -⟩ := code_exact_iff hproper programs_accented callGraph_accented hstands
    (show _ = Except.ok (String.ofList ([] ++ "def f(): return 'é'".toList ++ ['\n'])) by rfl)
    (List.nil_subset _) (by rfl)
  exact ⟨_, r, callGraph_accented, hr, hcode⟩

/-- The line feed behind the function is taken for a part of it. -/
theorem accented_overrun : ∃ c, callGraph accented "res" = .ok c ∧
    (c.get "m.f").toOption.map (·.code) = some ("def f(): return 'é'" ++ "\n") :=
  ⟨_, callGraph_accented, by rfl⟩

end Calls

end Docsmith
