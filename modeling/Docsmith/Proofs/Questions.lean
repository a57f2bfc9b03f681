import Docsmith.Proofs.Conversations
import Docsmith.Proofs.Extracting
import Docsmith.Proofs.KeptAnswers
import Docsmith.Proofs.UnknownFunctions

/-! # Questions among other lines

A model writes each question and its answer in two numbered lines, with any other lines around the
pairs. A line that introduces no question is passed over (`pairs_line`), and a pair is read as it
was written, whatever it contains (`pairs_item`). So exactly the pairs are found, in their order
(`askQuestions_sheet`). -/

namespace Docsmith.Question

open List

/-! ## Introductions -/

def introduction (letter : Char) (number : List Char) : List Char :=
  '-' :: ' ' :: letter :: (number ++ [':', ' '])

def IsNumber (n : List Char) : Prop :=
  n ≠ [] ∧ ∀ c ∈ n, Chars.isDigit c = true

variable {letter : Char} {cs l n after t : List Char}

lemma numbered?_introduction (hn : IsNumber n) :
    numbered? letter (introduction letter n ++ after) = some after := by
  have htake : (n ++ ':' :: ' ' :: after).takeWhile Chars.isDigit = n := by
    rw [takeWhile_append_of_pos hn.2]
    simp [Chars.isDigit, Chars.digit?]
  have hdrop : (n ++ ':' :: ' ' :: after).dropWhile Chars.isDigit = ':' :: ' ' :: after := by
    rw [dropWhile_append_of_pos hn.2]
    simp [Chars.isDigit, Chars.digit?]
  simp [introduction, numbered?, htake, hdrop, hn.1]

lemma introduction_of_numbered? (h : numbered? letter cs = some after) :
    ∃ n, IsNumber n ∧ cs = introduction letter n ++ after := by
  unfold numbered? at h
  split at h
  · rename_i c rest
    split at h
    · rename_i hc
      obtain ⟨rfl, hne⟩ := hc
      split at h
      · rename_i hdrop
        obtain rfl := Option.some.inj h
        refine ⟨rest.takeWhile Chars.isDigit, ⟨by simpa using hne, fun c => mem_takeWhile_imp⟩, ?_⟩
        have hsplit := takeWhile_append_dropWhile (p := Chars.isDigit) (l := rest)
        rw [hdrop] at hsplit
        simp [introduction, hsplit]
      · cases h
    · cases h
  · cases h

/-- A text in which no question is introduced. -/
def Silent (l : List Char) : Prop :=
  ∀ n, IsNumber n → ¬ introduction 'Q' n <:+: l

/-- What can follow a line: nothing, or a line feed and more. -/
def Ends (t : List Char) : Prop :=
  ∀ c ∈ t.head?, c = '\n'

lemma prefix_of_ends (ht : Ends t) (hl : '\n' ∉ l) (h : l <+: cs ++ t) : l <+: cs := by
  cases t with
  | nil => rwa [append_nil] at h
  | cons c t =>
    obtain rfl := ht c rfl
    exact Chars.prefix_of_prefix_append_cons hl h

lemma newline_notMem_introduction (hn : IsNumber n) (hletter : letter ≠ '\n') :
    '\n' ∉ introduction letter n := by
  have hdigit : '\n' ∉ n := fun h => absurd (hn.2 _ h) (by decide)
  simp [introduction, Ne.symm hletter, hdigit]

lemma first?_append (hl : Silent l) (ht : Ends t) : first? (l ++ t) = first? t := by
  induction l with
  | nil => rfl
  | cons c l ih =>
    have hnone : numbered? 'Q' (c :: (l ++ t)) = none := by
      refine Option.eq_none_iff_forall_ne_some.mpr fun after h => ?_
      obtain ⟨n, hn, heq⟩ := introduction_of_numbered? h
      have hpre : introduction 'Q' n <+: (c :: l) ++ t := ⟨after, heq.symm⟩
      exact hl n hn (prefix_of_ends ht (newline_notMem_introduction hn (by decide)) hpre).isInfix
    rw [cons_append, first?, hnone]
    exact ih fun n hn h => hl n hn (infix_cons h)

lemma breakAnswer?_append (hq : '\n' ∉ l) (hn : IsNumber n) :
    breakAnswer? (l ++ '\n' :: (introduction 'A' n ++ after)) = some (l, after) := by
  induction l with
  | nil => rw [nil_append, breakAnswer?, if_pos rfl, numbered?_introduction hn]
  | cons c l ih =>
    rw [mem_cons, not_or] at hq
    rw [cons_append, breakAnswer?, if_neg (Ne.symm hq.1), ih hq.2]
    rfl

/-! ## Lines -/

lemma pairs_of {q rest : List Char} (hfirst : first? cs = some after)
    (hbreak : breakAnswer? after = some (q, rest)) : pairs cs
      = (q, rest.takeWhile (· ≠ '\n')) :: pairs (rest.dropWhile (· ≠ '\n')) := by
  rw [pairs.eq_def]
  split
  · rename_i hnone
    cases hnone.symm.trans hfirst
  · rename_i hsome
    obtain rfl := Option.some.inj (hsome.symm.trans hfirst)
    split
    · rename_i hnone
      cases hnone.symm.trans hbreak
    · rename_i hsome'
      obtain ⟨rfl, rfl⟩ := Prod.mk.inj (Option.some.inj (hsome'.symm.trans hbreak))
      rfl

lemma first?_newline (cs : List Char) : first? ('\n' :: cs) = first? cs := rfl

lemma pairs_congr {cs' : List Char} (h : first? cs = first? cs') : pairs cs = pairs cs' := by
  rw [pairs.eq_def, pairs.eq_def cs', h]

/-- Each line after a line feed. -/
def fed (lines : List String) : List Char :=
  lines.flatMap fun l => '\n' :: l.toList

lemma ends_fed (lines : List String) : Ends (fed lines) := by
  cases lines with
  | nil => exact nofun
  | cons l lines => exact fun c hc => (Option.some.inj hc).symm

lemma pairs_line {line : String} (h : Silent line.toList) (lines : List String) :
    pairs (fed (line :: lines)) = pairs (fed lines) :=
  pairs_congr ((first?_newline _).trans (first?_append h (ends_fed lines)))

/-- A question, its answer and the number that both are written with. -/
structure Pair where
  number : String
  question : String
  answer : String

namespace Pair

def lines (i : Pair) : List String :=
  ["- Q" ++ i.number ++ ": " ++ i.question, "- A" ++ i.number ++ ": " ++ i.answer]

def shown (i : Pair) : String :=
  Text.strip (i.question ++ "(" ++ i.answer ++ ")")

/-- The number is one, and question and answer are lines that can be written. -/
structure Fits (i : Pair) : Prop where
  number : IsNumber i.number.toList
  question : '\n' ∉ i.question.toList
  answer : '\n' ∉ i.answer.toList
  written : Folder.checkText (i.question ++ "(" ++ i.answer ++ ")") = .ok ()

end Pair

lemma pairs_item {i : Pair} (hi : i.Fits) (lines : List String) :
    pairs (fed (i.lines ++ lines)) = (i.question.toList, i.answer.toList) :: pairs (fed lines) := by
  have hfed : fed (i.lines ++ lines) = '\n' :: (introduction 'Q' i.number.toList
      ++ (i.question.toList ++ '\n' :: (introduction 'A' i.number.toList
        ++ (i.answer.toList ++ fed lines)))) := by
    simp [fed, Pair.lines, introduction]
  have hfirst : first? (fed (i.lines ++ lines)) = some (i.question.toList ++ '\n' ::
      (introduction 'A' i.number.toList ++ (i.answer.toList ++ fed lines))) := by
    rw [hfed, first?_newline]
    have hhit : numbered? 'Q' (introduction 'Q' i.number.toList ++ (i.question.toList ++ '\n' ::
      (introduction 'A' i.number.toList ++ (i.answer.toList ++ fed lines)))) = some _ :=
      numbered?_introduction hi.number
    rw [introduction, cons_append] at hhit ⊢
    rw [first?, hhit]
  have hanswer : ∀ c ∈ i.answer.toList, decide (c ≠ '\n') = true :=
    fun c hc => decide_eq_true fun h => hi.answer (h ▸ hc)
  rw [pairs_of hfirst (breakAnswer?_append hi.question hi.number),
    takeWhile_append_of_pos hanswer, dropWhile_append_of_pos hanswer]
  cases lines with
  | nil => simp [fed]
  | cons l lines => simp [fed]

lemma pairs_silent {lines : List String} (h : ∀ l ∈ lines, Silent l.toList) (more : List String) :
    pairs (fed (lines ++ more)) = pairs (fed more) := by
  induction lines with
  | nil => rfl
  | cons l lines ih =>
    obtain ⟨hl, hlines⟩ := forall_mem_cons.mp h
    exact (pairs_line hl _).trans (ih hlines)

/-! ## Sheets -/

/-- Pairs of lines, each with the lines after it, and lines before them all. -/
def sheet (before : List String) (items : List (Pair × List String)) : List String :=
  before ++ items.flatMap fun e => e.1.lines ++ e.2

lemma pairs_sheet {before : List String} {items : List (Pair × List String)}
    (hbefore : ∀ l ∈ before, Silent l.toList)
    (hitems : ∀ e ∈ items, e.1.Fits ∧ ∀ l ∈ e.2, Silent l.toList) :
    pairs (fed (sheet before items))
      = items.map fun e => (e.1.question.toList, e.1.answer.toList) := by
  rw [sheet, pairs_silent hbefore]
  induction items with
  | nil =>
    rw [pairs.eq_def]
    rfl
  | cons e items ih =>
    obtain ⟨⟨hfits, hafter⟩, hrest⟩ := forall_mem_cons.mp hitems
    rw [flatMap_cons, append_assoc, pairs_item hfits, pairs_silent hafter, ih hrest, map_cons]

lemma fed_eq (line : String) (lines : List String) :
    fed (line :: lines) = '\n' :: (Text.join "\n" (line :: lines)).toList := by
  induction lines generalizing line with
  | nil => simp [fed]
  | cons l lines ih =>
    rw [Text.join_cons_cons]
    have hrest := ih l
    simp only [fed, flatMap_cons] at hrest ⊢
    rw [hrest]
    simp

lemma all_sheet {before : List String} {items : List (Pair × List String)}
    (hbefore : ∀ l ∈ before, Silent l.toList)
    (hitems : ∀ e ∈ items, e.1.Fits ∧ ∀ l ∈ e.2, Silent l.toList) :
    all (Text.join "\n" (sheet before items)) = items.map (·.1.shown) := by
  have hpairs : pairs (Text.join "\n" (sheet before items)).toList
      = pairs (fed (sheet before items)) := by
    cases hsheet : sheet before items with
    | nil => rfl
    | cons l lines =>
      rw [fed_eq]
      exact pairs_congr rfl
  rw [all, hpairs, pairs_sheet hbefore hitems, map_map]
  refine map_congr_left fun e _ => ?_
  simp [Question.shown, Pair.shown, Text.strip]

end Docsmith.Question

namespace Docsmith.Generate

open Question List

/-- **Questions are found as they were written.** If a model answers with questions and answers in
numbered lines, and no other line introduces a question, then exactly these are returned, in their
order, and written to a file. -/
theorem askQuestions_sheet {p : Project} {draft : RepositoryDoc} {w : World} {reply : Reply}
    {rest : List Reply} {text fence : String} {place before : List String}
    {items : List (Pair × List String)} (htext : Document.markdown draft = .ok text)
    (hfence : p.fence = .ok fence) (hquiet : w.verbose = false)
    (hnew : w.folder.pathExists (questionsFile p) = false)
    (hplace : w.folder.writable (questionsFile p) = .ok place)
    (hreplies : w.replies = reply :: rest)
    (hreply : Talk.answer? reply = some (Text.join "\n" (sheet before items)))
    (hbefore : ∀ l ∈ before, Silent l.toList)
    (hitems : ∀ e ∈ items, e.1.Fits ∧ ∀ l ∈ e.2, Silent l.toList) :
    ∃ w', (askQuestions p draft).run.run w = (.ok (items.map (·.1.shown)), w') ∧
      w'.folder.Has (questionsFile p) (.text (Text.join "\n" (items.map (·.1.shown)))) := by
  have hwritten : Folder.checkText (Text.join "\n" (items.map (·.1.shown))) = .ok () := by
    refine (Talk.checkText_join rfl _).mpr fun t ht => ?_
    obtain ⟨e, he, rfl⟩ := mem_map.mp ht
    have hchecked := Folder.checkText_ok_iff.mp (hitems e he).1.written
    refine Folder.checkText_ok_iff.mpr fun c hc => hchecked c ?_
    rw [Pair.shown, Text.strip, String.toList_ofList] at hc
    exact ( Chars.trim_infix _ _).subset hc
  have hmake : (do
      let text ← Run.ofExcept (Document.markdown draft)
      let fence ← Run.ofExcept p.fence
      return all (← askUser (Prompt.questions fence text) id) : Run (List String)).run.run w
        = (.ok (items.map (·.1.shown)),
          w.told [request (Prompt.questions fence text) w.language] rest w.folder) := by
    have hask := askUser_answer (Prompt.questions fence text) id hreplies hreply hquiet
    simp only [run_bind, Run.run_ofExcept, htext, hfence, hask, id, all_sheet hbefore hitems]
    rfl
  obtain ⟨f, hf⟩ : ∃ f, (Files.write (questionsFile p)
      (Text.join "\n" (items.map (·.1.shown)))).run.run w.folder = (.ok (), f) :=
    ⟨_, Files.write_eq hplace hwritten⟩
  refine ⟨w.told [request (Prompt.questions fence text) w.language] rest f, ?_,
    Files.has_of_write hf⟩
  rw [askQuestions, linesOr, run_bind, run_inFolder, Files.run_pathExists, hnew]
  simp only [Bool.false_eq_true, if_false]
  rw [run_bind_of_ok hmake, run_bind, run_inFolder, World.told, hf]
  rfl

lemma fits_of_digit {d : Char} (hd : Chars.isDigit d = true) {q a : String} (hq : '\n' ∉ q.toList)
    (ha : '\n' ∉ a.toList) (hwritten : Folder.checkText (q ++ "(" ++ a ++ ")") = .ok ()) :
    Pair.Fits ⟨.ofList [d], q, a⟩ :=
  ⟨⟨by simp, by simpa using hd⟩, hq, ha, hwritten⟩

/-- A question that looks like an introduction, and one that is empty, as its answer is. -/
theorem askQuestions_sheet_quiz : ∃ w', (askQuestions gallery quizDraft).run.run
    { quizWorld [] with replies := [.text "x\n- Q7: - Q8: x\n- A7: y\n- A9: z\n- Q1: \n- A1: "] }
      = (.ok ["- Q8: x(y)", "()"], w') := by
  have hsilent : ∀ {l : String}, 'Q' ∉ l.toList → Silent l.toList := fun hl n _ hin =>
    hl (hin.subset (by simp [introduction]))
  obtain ⟨w', hrun, -⟩ := @askQuestions_sheet gallery quizDraft
    { quizWorld [] with
      replies := [.text "x\n- Q7: - Q8: x\n- A7: y\n- A9: z\n- Q1: \n- A1: "] }
    _ _ _ _ ["docs", "repo-q.md"] ["x"]
    [(⟨"7", "- Q8: x", "y"⟩, ["- A9: z"]), (⟨"1", "", ""⟩, [])]
    rfl rfl rfl (by decide +kernel) (by decide +kernel) rfl rfl
    (forall_mem_singleton.mpr (hsilent (by decide))) (forall_mem_cons.mpr
      ⟨⟨fits_of_digit (by decide) (by decide) (by decide) rfl,
        forall_mem_singleton.mpr (hsilent (by decide))⟩,
      forall_mem_singleton.mpr ⟨fits_of_digit (by decide) (by decide) (by decide) rfl, nofun⟩⟩)
  exact ⟨w', hrun⟩

end Docsmith.Generate
