import Docsmith.Generate.Drafts
import Docsmith.Proofs.Documents

/-! # What prompts quote

A template that is filled holds every text that was put into a slot of it (`infix_fillAll`), so the
prompt for a revision quotes the whole document on every caller that it is given
(`revision_quotes`). -/

namespace Docsmith

open List

namespace Text

lemma toList_join_empty (ts : List String) :
    (join "" ts).toList = (ts.map String.toList).flatten := by
  induction ts with
  | nil => rfl
  | cons t ts ih =>
    cases ts with
    | nil => simp
    | cons u us =>
      rw [join_cons_cons, String.toList_append, ih]
      simp

lemma infix_join {t : String} {ts : List String} (h : t ∈ ts) :
    t.toList <:+: (join "" ts).toList := by
  rw [toList_join_empty]
  exact infix_of_mem_flatten (mem_map_of_mem h)

end Text

namespace Prompt

/-! ## Slots -/

lemma fillPiece_eq {values : List (String × String)} {name : String}
    (hname : '\x7d' ∉ name.toList) (rest : List Char) :
    fillPiece values (.ofList (name.toList ++ '\x7d' :: rest))
      = (values.lookup name).getD "" ++ .ofList rest := by
  have hclose : "\x7d".toList = ['\x7d'] := by simp
  have hcut : Chars.breakOn ['\x7d'] (name.toList ++ '\x7d' :: rest)
      = some (name.toList, rest) := by
    rw [Chars.breakOn_append]
    · rw [show Chars.breakOn ['\x7d'] ('\x7d' :: rest) = some ([], rest) from
        Chars.breakOn_of_prefix (cons_ne_nil _ [])]
      simp
    · intro z hz hne hp
      cases z with
      | nil => exact hne rfl
      | cons d z =>
        obtain ⟨rfl, -⟩ := cons_prefix_cons.mp hp
        exact hname (hz.subset mem_cons_self)
  simp only [fillPiece, Text.breakOn, hclose, String.toList_ofList, hcut, Option.map_some,
    String.ofList_toList]

lemma infix_fillAll {values : List (String × String)} {name value template : String}
    (hslot : (slot name).toList <:+: template.toList)
    (hname : '\x7b' ∉ name.toList ∧ '\x7d' ∉ name.toList)
    (hvalue : values.lookup name = some value) :
    value.toList <:+: (fillAll values template).toList := by
  obtain ⟨before, after, htemplate⟩ := hslot
  have hopen : "\x7b".toList = ['\x7b'] := by simp
  have hchars : template.toList = before ++ '\x7b' :: (name.toList ++ '\x7d' :: after) := by
    rw [← htemplate]
    simp [slot]
  obtain ⟨first, pieces, hbefore⟩ := exists_cons_of_ne_nil
    (Chars.splitOn_ne_nil (cons_ne_nil '\x7b' []) before)
  obtain ⟨piece, others, hafter⟩ := exists_cons_of_ne_nil
    (Chars.splitOn_ne_nil (cons_ne_nil '\x7b' []) ('\x7d' :: after))
  -- the piece of the slot starts with the name and goes on to the next slot
  obtain ⟨rest, rfl⟩ : ∃ rest, piece = '\x7d' :: rest := by
    obtain ⟨q, qs, hq⟩ := exists_cons_of_ne_nil
      (Chars.splitOn_ne_nil (cons_ne_nil '\x7b' []) after)
    rw [Chars.splitOn_cons (by decide) hq] at hafter
    exact ⟨q, (List.cons.inj hafter).1.symm⟩
  have hsplit : Text.splitOn "\x7b" template
      = (first :: (pieces ++ (name.toList ++ '\x7d' :: rest) :: others)).map String.ofList := by
    rw [Text.splitOn, hopen, hchars, Chars.splitOn_append_cons, hbefore,
      Chars.splitOn_append hname.1 hafter, cons_append]
  have hfilled : fillPiece values (.ofList (name.toList ++ '\x7d' :: rest))
      ∈ (pieces ++ (name.toList ++ '\x7d' :: rest) :: others).map
        (fillPiece values ∘ String.ofList) :=
    mem_map_of_mem (f := fillPiece values ∘ String.ofList)
      (mem_append_right pieces mem_cons_self)
  rw [fillAll, hsplit, map_cons, String.toList_append, map_map]
  refine List.IsInfix.trans ?_ ((Text.infix_join hfilled).trans (suffix_append _ _).isInfix)
  rw [fillPiece_eq hname.2, hvalue, Option.getD_some, String.toList_append]
  exact (prefix_append _ _).isInfix

/-! ## Quotations -/

lemma quote_ok (mark : String) {text : String} (h : text ≠ "") :
    ∃ q, quote mark text = .ok q := by
  rw [quote, Text.markLines?]
  cases hlines : Text.splitLines text with
  | nil =>
    rw [Text.splitLines, map_eq_nil_iff] at hlines
    exact absurd hlines (Chars.splitLines_ne_nil (by simpa using h))
  | cons line lines => exact ⟨_, rfl⟩

lemma quote_markdown (mark : String) (d : RoutineDoc) : ∃ q, quote mark d.markdown = .ok q := by
  refine quote_ok mark fun h => ?_
  have hlen := congrArg String.length h
  simp [RoutineDoc.markdown, Chapter.head] at hlen

lemma quoted_ok (d : RoutineDoc) : ∃ part q, DraftPrompt.quoted d = .ok part ∧
    quote mark d.markdown = .ok q ∧ q.toList <:+: part.toList := by
  obtain ⟨q, hq⟩ := quote_markdown mark d
  refine ⟨_, q, by rw [DraftPrompt.quoted, hq]; rfl, hq, ?_⟩
  simp only [String.toList_append]
  exact ⟨_, _, rfl⟩

lemma infix_append_left {s a : String} (h : s.toList <:+: a.toList) (b : String) :
    s.toList <:+: (a ++ b).toList := by
  rw [String.toList_append]
  exact h.trans (prefix_append _ _).isInfix

lemma referencer_infix : (slot "referencer").toList <:+: revisionTemplate.toList := by
  have hpiece : ∀ a, (slot "referencer").toList <:+: (a ++ "\x7breferencer\x7d\n\n").toList := by
    intro a
    rw [String.toList_append]
    exact ⟨a.toList, ['\n', '\n'], by simp [slot]⟩
  unfold revisionTemplate
  -- the pieces of the template are dropped from its end until the slot is the last
  repeat first
    | with_reducible exact hpiece _
    | refine infix_append_left ?_ _

lemma revision_quotes (lang : String) (params : List Param) (callers : List RoutineDoc)
    (draft : RoutineDoc) : ∃ text, revision lang params callers draft = .ok text ∧
      ∀ d ∈ callers, ∃ q, quote mark d.markdown = .ok q ∧ q.toList <:+: text.toList := by
  obtain ⟨own, hown⟩ := quote_markdown mark draft
  choose part q hpart hq hin using quoted_ok
  have hparts : callers.mapM DraftPrompt.quoted = .ok (callers.map part) := by
    rw [mapM_ok_iff, forall₂_map_right_iff, forall₂_same]
    exact fun d _ => hpart d
  refine ⟨_, by rw [revision, hparts, hown]; rfl, fun d hd => ⟨q d, hq d, ?_⟩⟩
  exact (hin d).trans ((Text.infix_join (mem_map_of_mem hd)).trans
    (infix_fillAll referencer_infix (by decide) rfl))

end Prompt

end Docsmith
