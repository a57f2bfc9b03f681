import Docsmith.Prompt.Record
import Docsmith.Proofs.Quoting

/-! # Passages of prompts

A prompt introduces other documents in passages: an introduction, and each document under its name
(`callees_eq`, `records_eq`). A passage with a letter on each line is never one with whole lines
(`passage_eq_iff`). -/

namespace Docsmith

open List

namespace Prompt

/-! ## Passages -/

abbrev Citation := String × String

structure IsCited (c : Citation) : Prop where
  name : '\n' ∉ c.1.toList
  text : ∃ t, c.2.toList = '#' :: '#' :: t

/-- A passage of a prompt: nothing without documents, otherwise an introduction and each of them. -/
def passage (intro title : String) (quote : String → String) (cs : List Citation) : String :=
  if cs.isEmpty then ""
  else intro ++ Text.join "" (cs.map fun c =>
    title ++ c.1 ++ "`\n\n**Document**:\n\n" ++ quote c.2 ++ rule)

lemma quoteLetters_start {text : String} {t : List Char} (h : text.toList = '#' :: '#' :: t) :
    ∃ r, (quoteLetters text).toList = '>' :: ' ' :: '#' :: '\n' :: r := by
  rw [quoteLetters, h, map_cons, map_cons, Text.join_cons_cons]
  exact ⟨_, by simp [mark]; rfl⟩

lemma quoteLines_start {text : String} {t : List Char} (h : text.toList = '#' :: '#' :: t) :
    ∃ r, (quoteLines text).toList = '>' :: ' ' :: '#' :: '#' :: r := by
  have hline : "\n".toList = ['\n'] := by simp
  obtain ⟨q, qs, hq⟩ := exists_cons_of_ne_nil
    (Chars.splitOn_ne_nil (cons_ne_nil '\n' []) t)
  have hsplit := Chars.splitOn_cons (d := '#') (by decide)
    (Chars.splitOn_cons (d := '#') (by decide) hq)
  rw [quoteLines, Text.splitOn, hline, h, hsplit, map_cons, map_cons]
  cases qs with
  | nil => exact ⟨q, by simp [mark]⟩
  | cons q' qs =>
    rw [map_cons, map_cons, Text.join_cons_cons]
    exact ⟨_, by simp [mark]; rfl⟩

lemma passage_eq_iff {intro title : String} (hintro : intro ≠ "") {cs cs' : List Citation}
    (hcs : ∀ c ∈ cs, IsCited c) (hcs' : ∀ c ∈ cs', IsCited c) :
    passage intro title quoteLetters cs = passage intro title quoteLines cs' ↔
      cs = [] ∧ cs' = [] := by
  have hsome : ∀ t : String, intro ++ t ≠ "" := by
    intro t ht
    exact hintro (String.append_eq_empty_iff.mp ht).1
  cases cs with
  | nil =>
    cases cs' with
    | nil => exact iff_of_true rfl ⟨rfl, rfl⟩
    | cons c' cs' => exact iff_of_false (fun h => hsome _ h.symm) (by simp)
  | cons c cs =>
    refine iff_of_false (fun h => ?_) (by simp)
    cases cs' with
    | nil => exact hsome _ h
    | cons c' cs' =>
      obtain ⟨hname, t, ht⟩ := hcs c mem_cons_self
      obtain ⟨hname', t', ht'⟩ := hcs' c' mem_cons_self
      obtain ⟨r, hr⟩ := quoteLetters_start ht
      obtain ⟨r', hr'⟩ := quoteLines_start ht'
      have hchars := congrArg String.toList h
      simp only [passage, isEmpty_cons, Bool.false_eq_true, if_false, map_cons,
        String.toList_append, Text.toList_join_empty, flatten_cons, append_assoc, hr,
        hr', append_cancel_left_eq] at hchars
      -- names have no line feed, so both first lines end after them
      have hmiddle : "`\n\n**Document**:\n\n".toList
          = ['`'] ++ '\n' :: "\n**Document**:\n\n".toList := by simp
      rw [hmiddle, append_assoc, append_assoc, ← append_assoc _ ['`'],
        ← append_assoc _ ['`']] at hchars
      obtain ⟨-, hrest⟩ := Chars.append_cons_inj hchars (by
        rw [count_eq_zero_of_not_mem (by simp [hname]),
          count_eq_zero_of_not_mem (by simp [hname'])])
      have hquote := append_cancel_left hrest
      simp only [cons_append, List.cons.injEq] at hquote
      exact absurd hquote.2.2.2.1 (by decide)

/-! ## Prompts with passages -/

/-- What a prompt says about the routines that the code calls, and about those that call it. -/
structure Relations where
  calls : String
  calledBy : String

def callsIntro : String :=
  "As you can see, the code calls the following methods, their docs and code are as following:\n\n"

def calledByIntro : String :=
  "Also, the code has been called by the following methods, their code and docs are as following:\n"

def holdsIntro : String :=
  "As you can see, the class holds the following class as attributes, their docs and code "
    ++ "are as following:\n\n"

lemma holdsIntro_ne : holdsIntro ≠ "" := by
  decide +kernel

def relations (quote : String → String) (callees callers : List RoutineDoc) : Relations where
  calls := passage callsIntro "**Method**: `" quote (callees.map fun d => (d.name, d.markdown))
  calledBy :=
    passage calledByIntro "**Method**: `" quoteLines (callers.map fun d => (d.name, d.markdown))

def holdings (quote : String → String) (records : List RecordDoc) : String :=
  passage holdsIntro "**Class**: `" quote (records.map fun d => (d.name, d.markdown))

def RoutinePrompt.sayCalls (p : RoutinePrompt) (t : String) : RoutinePrompt :=
  { p with text := fill "referenced" t p.text, hasCallees := p.hasCallees || !t.isEmpty }

def RoutinePrompt.sayCalledBy (p : RoutinePrompt) (t : String) : RoutinePrompt :=
  { p with text := fill "referencer" t p.text, hasCallers := p.hasCallers || !t.isEmpty }

lemma isEmpty_passage {intro : String} (hintro : intro ≠ "") (title : String)
    (quote : String → String) (cs : List Citation) :
    (passage intro title quote cs).isEmpty = cs.isEmpty := by
  cases cs with
  | nil => rfl
  | cons c cs =>
    rw [Bool.eq_iff_iff, String.isEmpty_iff]
    refine iff_of_false (fun h => hintro ?_) (by simp)
    exact (String.append_eq_empty_iff.mp h).1

lemma RoutinePrompt.callees_eq (p : RoutinePrompt) (ds es : List RoutineDoc) :
    p.callees ds = p.sayCalls (relations quoteLetters ds es).calls := by
  rw [sayCalls, relations, isEmpty_passage (by simp [callsIntro]), isEmpty_map]
  cases ds with
  | nil => simp [callees, passage]
  | cons d ds =>
    simp only [callees, passage, isEmpty_cons, Bool.false_eq_true, if_false, map_cons,
      Bool.not_false, Bool.or_true, map_map]
    rfl

lemma RoutinePrompt.callers_eq (p : RoutinePrompt) (ds es : List RoutineDoc) :
    p.callers ds = p.sayCalledBy (relations quoteLetters es ds).calledBy := by
  rw [sayCalledBy, relations, isEmpty_passage (by simp [calledByIntro]), isEmpty_map]
  cases ds with
  | nil => simp [callers, passage]
  | cons d ds =>
    simp only [callers, passage, isEmpty_cons, Bool.false_eq_true, if_false, map_cons,
      Bool.not_false, Bool.or_true, map_map]
    rfl

def RecordPrompt.sayHolds (p : RecordPrompt) (t : String) : RecordPrompt :=
  { p with text := fill "referenced" t p.text, hasRecords := p.hasRecords || !t.isEmpty }

lemma RecordPrompt.records_eq (p : RecordPrompt) (ds : List RecordDoc) :
    p.records ds = p.sayHolds (holdings quoteLetters ds) := by
  rw [sayHolds, holdings, isEmpty_passage holdsIntro_ne, isEmpty_map]
  cases ds with
  | nil => simp [records, passage]
  | cons d ds =>
    simp only [records, passage, isEmpty_cons, Bool.false_eq_true, if_false, map_cons,
      Bool.not_false, Bool.or_true, map_map]
    rfl

end Prompt

end Docsmith
