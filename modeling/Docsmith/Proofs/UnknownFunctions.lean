import Docsmith.Proofs.Completed
import Docsmith.Proofs.Quoting

/-! # Modules with functions that there are not

When a module is improved the functions that the code base does not have are passed over, and the
documents on the others are quoted (`moduleRoutines_run`). A draft without a single function of the
code base has none to quote: the model is not asked about it, and the whole run fails, although all
other modules are improved (`enhanceModules_known`). -/

namespace Docsmith

open List

/-- The world after conversations were sent, with the replies and the folder that are left. -/
def World.told (w : World) (sent : List Prompt) (rest : List Reply) (f : Folder) : World :=
  { w with prompts := w.prompts ++ sent, replies := rest, folder := f }

lemma World.told_told (w : World) (sent more : List Prompt) (rest rest' : List Reply) (f f' : Folder) :
    (w.told sent rest f).told more rest' f' = w.told (sent ++ more) rest' f' := by
  rw [told, told, told, append_assoc]

def Generate.request (prompt language : String) : Prompt where
  messages := [.said .user (some prompt), .said .user (some (Talk.languageReminder language))]

lemma Generate.askUser_answer (prompt : String) (post : String → String) {w : World}
    {reply : Reply} {rest : List Reply} (hreplies : w.replies = reply :: rest) {text : String}
    (hanswer : Talk.answer? reply = some text) (hquiet : w.verbose = false) :
    (askUser prompt post).run.run w
      = (.ok (post text), w.told [request prompt w.language] rest w.folder) := by
  have hask := Talk.askFrom_answer post hanswer rest
    (s := { history := [.said .user (some prompt)], world := w }) hquiet
  rw [← hreplies] at hask
  have hrun : ((do
      Talk.user prompt
      Talk.ask post) : Talk String).run.run { world := w } = _ := hask
  rw [askUser, Run.run_talk, hrun]
  rfl

namespace Generate

open Project Store

/-! ## What is quoted -/

def known (p : Project) (m : ModuleDoc) : List String :=
  (m.functions.getD []).filter fun s => (p.routines.get s).toBool

def markedText (text : String) : String :=
  (Text.markLines? Prompt.mark text).getD ""

def written (m : ModuleDoc) : String :=
  (Document.markdown m).toOption.getD ""

lemma markdown_eq_written (m : ModuleDoc) : Document.markdown m = .ok (written m) := rfl

def quoting (fence : String) (m : ModuleDoc) (docs : List RoutineDoc) : String :=
  Prompt.enhanceModule fence (markedText (written m))
    (markedText (Text.join Prompt.rule (docs.map RoutineDoc.markdown)))

lemma quote_mark (text : String) : Prompt.quote Prompt.mark text
    = if text = "" then .error .nothingToQuote else .ok (markedText text) := by
  rw [Prompt.quote, markedText]
  split
  · rename_i t ht
    have hne : text ≠ "" := by
      rintro rfl
      cases ht
    rw [if_neg hne, ht]
    rfl
  · rename_i ht
    have hempty : text = "" := by
      by_contra hne
      obtain ⟨l, ls, hlines⟩ := exists_cons_of_ne_nil
        (Chars.splitLines_ne_nil fun h => hne (String.toList_eq_nil_iff.mp h))
      rw [Text.markLines?, Text.splitLines, hlines] at ht
      cases ht
    rw [if_pos hempty]

lemma head_ne (name description more : String) : Chapter.head name description ++ more ≠ "" := by
  rw [Chapter.head]
  simp

lemma join_markdown_ne (d : RoutineDoc) (ds : List RoutineDoc) :
    Text.join Prompt.rule ((d :: ds).map RoutineDoc.markdown) ≠ "" := by
  rw [map_cons]
  cases ds with
  | nil => exact head_ne _ _ _
  | cons e ds =>
    rw [map_cons, Text.join_cons_cons, Prompt.rule]
    simp

section Quoting

variable {p : Project} {w : World} {doc : String → RoutineDoc}

def AllDocumented (p : Project) (doc : String → RoutineDoc) (f : Folder) : Prop :=
  ∀ s r, p.routines.get s = .ok r → ((p.loadRoutine? s).run.run f).1 = .ok (some (doc s))

lemma moduleRoutines_run (h : AllDocumented p doc w.folder) (m : ModuleDoc) :
    (moduleRoutines p m).run.run w = (.ok ((known p m).map fun s => (doc s).markdown), w) := by
  rw [moduleRoutines, known]
  induction m.functions.getD [] with
  | nil => rfl
  | cons s names ih =>
    rw [filterMapM_cons, run_bind]
    cases hget : p.routines.get s with
    | error e =>
      rw [filter_cons_of_neg (by simp [hget, Except.toBool])]
      exact ih
    | ok r =>
      have hread : (routineDoc p s).run.run w = (.ok (doc s), w) := routineDoc_iff.mpr (h s r hget)
      have hone : (do return some (← routineDoc p s).markdown : Run (Option String)).run.run w
          = (.ok (some (doc s).markdown), w) := run_bind_of_ok hread _
      rw [filter_cons_of_pos (by simp [hget, Except.toBool]), map_cons]
      dsimp only
      rw [hone]
      dsimp only
      exact run_bind_of_ok ih _

lemma modulePrompt_known (h : AllDocumented p doc w.folder) {fence : String}
    (hfence : p.fence = .ok fence) (m : ModuleDoc) :
    (modulePrompt p m).run.run w = (if known p m = [] then .error .nothingToQuote
      else .ok (quoting fence m ((known p m).map doc)), w) := by
  have hown : (do Prompt.quote Prompt.mark (← Document.markdown m) : Except Fault String)
      = .ok (markedText (written m)) := by
    have hne : written m ≠ "" := head_ne _ _ _
    show Prompt.quote Prompt.mark (written m) = _
    rw [quote_mark, if_neg hne]
  rw [modulePrompt, run_bind_of_ok (moduleRoutines_run h m)]
  cases hknown : known p m with
  | nil =>
    rw [map_nil, run_bind, Run.run_ofExcept]
    rfl
  | cons s names =>
    have hquoted : Prompt.quote Prompt.mark
        (Text.join Prompt.rule ((s :: names).map fun s => (doc s).markdown))
        = .ok (markedText (Text.join Prompt.rule (((s :: names).map doc).map RoutineDoc.markdown))) := by
      rw [map_map, quote_mark]
      refine if_neg ?_
      have hne := join_markdown_ne (doc s) (names.map doc)
      rwa [← map_cons, map_map] at hne
    rw [hquoted, hown, hfence]
    rfl

end Quoting

/-! ## What is saved -/

def Improves (reply : Reply) (d : ModuleDoc) : Prop :=
  ∃ text, Talk.answer? reply = some text ∧ Document.ofChapter text = .ok d ∧
    Folder.checkText (written d ++ "\n") = .ok ()

/-- The file for modules holds documents as they are written, and all other files are as at the
start. -/
def Gathered (p : Project) (start : String → Option String) (f : Folder) (ds : List ModuleDoc) : Prop :=
  ∃ t, Keeps p.docs f (Function.update start Slot.modules.name t) ∧
    t.getD "" = Text.join "" (ds.map fun d => written d ++ "\n")

section Saving

variable {p : Project} {start : String → Option String} {f : Folder} {ds : List ModuleDoc}
  {doc : String → RoutineDoc}

lemma gathered_nil (hkeeps : Keeps p.docs f start) (hnew : start Slot.modules.name = none) :
    Gathered p start f [] := by
  refine ⟨none, ?_, rfl⟩
  rwa [← hnew, Function.update_eq_self]

lemma AllDocumented.save (h : AllDocumented p doc f) (d : ModuleDoc) :
    AllDocumented p doc ((p.saveModule d).run.run f).2 := by
  refine fun s r hs => loadRoutine?_kept (fun base => ?_) (h s r hs)
  have hother : base ++ suffix "function" ≠ Slot.modules.name := append_ne (by decide) base
  exact Folder.untouched_save (isFilename_suffix base) (Folder.ends_join (by decide) (by decide) p.docs)
    hother.symm d f

lemma Gathered.save (h : Gathered p start f ds) (hfits : Fits p.docs Slot.modules.name) {d : ModuleDoc}
    (hd : Folder.checkText (written d ++ "\n") = .ok ()) :
    ∃ f', (p.saveModule d).run.run f = (.ok (), f') ∧ Gathered p start f' (ds ++ [d]) := by
  obtain ⟨t, hkeeps, ht⟩ := h
  obtain ⟨r, f', t', hrun, hkeeps', hadded, -, hok⟩ :=
    save_run hkeeps (Slot.isFile (σ := .modules) trivial) (markdown_eq_written d)
  rw [Function.update_idem] at hkeeps'
  rw [Function.update_self, ht] at hadded
  obtain rfl := hok hfits hd
  refine ⟨f', hrun, t', hkeeps', ?_⟩
  rw [hadded rfl, ← String.toList_inj]
  simp [Text.toList_join_empty]

end Saving

/-! ## Improving -/

section Improving

variable {p : Project} {w : World} {fence : String} {doc : String → RoutineDoc}
  {start : String → Option String} {ds : List ModuleDoc} {m : ModuleDoc}

def questionOn (p : Project) (fence language : String) (doc : String → RoutineDoc) (m : ModuleDoc) :
    Prompt :=
  request (quoting fence m ((known p m).map doc)) language

lemma enhanceModule_of_known (hdocs : AllDocumented p doc w.folder) (hfence : p.fence = .ok fence)
    (hquiet : w.verbose = false) (hgathered : Gathered p start w.folder ds)
    (hfits : Fits p.docs Slot.modules.name) (hknown : known p m ≠ []) {reply : Reply}
    {rest : List Reply} (hreplies : w.replies = reply :: rest) {d : ModuleDoc}
    (hd : Improves reply d) :
    ∃ f', (enhanceModule p m).run.run w
        = (.ok (), w.told [questionOn p fence w.language doc m] rest f') ∧
      Gathered p start f' (ds ++ [d]) ∧ AllDocumented p doc f' := by
  obtain ⟨text, hanswer, hchapter, hstored⟩ := hd
  obtain ⟨f', hsave, hmore⟩ := hgathered.save hfits hstored
  have hprompt := modulePrompt_known hdocs hfence m
  rw [if_neg hknown] at hprompt
  have hask := askUser_answer (quoting fence m ((known p m).map doc)) id hreplies hanswer hquiet
  refine ⟨f', ?_, hmore, ?_⟩
  · have himproved : (improved p m).run.run w
        = (.ok d, w.told [questionOn p fence w.language doc m] rest w.folder) := by
      rw [improved, run_bind_of_ok hprompt, run_bind_of_ok hask, Run.run_ofExcept]
      exact congrArg (·, _) hchapter
    have hsaved : (inFolder (p.saveModule d)).run.run
        (w.told [questionOn p fence w.language doc m] rest w.folder)
        = (.ok (), w.told [questionOn p fence w.language doc m] rest f') := by
      rw [run_inFolder, World.told, hsave]
      rfl
    rw [enhanceModule_eq, run_bind_of_ok himproved, hsaved]
  · have hkept := hdocs.save d
    rwa [hsave] at hkept

lemma enhanceModule_of_unknown (hdocs : AllDocumented p doc w.folder) (hfence : p.fence = .ok fence)
    (hknown : known p m = []) :
    (enhanceModule p m).run.run w = (.error .nothingToQuote, w) := by
  have hprompt := modulePrompt_known hdocs hfence m
  rw [if_pos hknown] at hprompt
  rw [enhanceModule_eq, improved, run_bind, run_bind, hprompt]

section Collect

variable {α β : Type} {work : α → Run β} {a : α} {rest : List α} {w w₁ w₂ : World}
  {r : Except Fault (List β)}

lemma collect_cons_ok {b : β} (hfirst : (work a).run.run w = (.ok b, w₁))
    (hrest : (collect work rest).run.run w₁ = (r, w₂)) :
    (collect work (a :: rest)).run.run w = (r.map (b :: ·), w₂) := by
  rw [collect_cons, hfirst]
  dsimp only
  rw [hrest]
  cases r with
  | error e | ok bs => rfl

lemma collect_cons_error {e : Fault} (hfirst : (work a).run.run w = (.error e, w₁))
    (hrest : (collect work rest).run.run w₁ = (r, w₂)) :
    (collect work (a :: rest)).run.run w = (.error e, w₂) := by
  rw [collect_cons, hfirst]
  dsimp only
  rw [hrest]
  rfl

end Collect

def asked (p : Project) (drafts : List ModuleDoc) : List ModuleDoc :=
  drafts.filter fun m => known p m ≠ []

lemma collect_known (hfence : p.fence = .ok fence) (hfits : Fits p.docs Slot.modules.name)
    {drafts new : List ModuleDoc} (hdocs : AllDocumented p doc w.folder) (hquiet : w.verbose = false)
    (hgathered : Gathered p start w.folder ds) (hreplies : List.Forall₂ Improves w.replies new)
    (henough : (asked p drafts).length ≤ w.replies.length) :
    ∃ r f', (collect (enhanceModule p) drafts).run.run w
        = (r, w.told ((asked p drafts).map (questionOn p fence w.language doc))
          (w.replies.drop (asked p drafts).length) f') ∧
      Gathered p start f' (ds ++ new.take (asked p drafts).length) ∧
      (((∃ us, r = .ok us) ∧ ∀ m ∈ drafts, known p m ≠ []) ∨
        (r = .error .nothingToQuote ∧ ∃ m ∈ drafts, known p m = [])) := by
  -- along the drafts, with the replies and the documents that are left
  induction drafts generalizing w ds new with
  | nil =>
    refine ⟨.ok [], w.folder, ?_, ?_, ?_⟩
    · rw [asked, filter_nil, map_nil, World.told, append_nil]
      rfl
    · rwa [asked, filter_nil, length_nil, take_zero, append_nil]
    · exact Or.inl ⟨⟨[], rfl⟩, fun _ h => absurd h not_mem_nil⟩
  | cons m drafts ih =>
    by_cases hknown : known p m = []
    · have hasked : asked p (m :: drafts) = asked p drafts :=
        filter_cons_of_neg (by simp [hknown])
      rw [hasked] at henough ⊢
      obtain ⟨r, f', hrun, hmore, -⟩ := ih hdocs hquiet hgathered hreplies henough
      exact ⟨_, f', collect_cons_error (enhanceModule_of_unknown hdocs hfence hknown) hrun, hmore,
        Or.inr ⟨rfl, m, mem_cons_self, hknown⟩⟩
    · have hasked : asked p (m :: drafts) = m :: asked p drafts :=
        filter_cons_of_pos (by simp [hknown])
      rw [hasked] at henough ⊢
      cases hreply : w.replies with
      | nil =>
        rw [hreply] at henough
        cases henough
      | cons reply rest =>
        rw [hreply] at hreplies henough
        cases hreplies with
        | cons hd hrest =>
          obtain ⟨f₁, hfirst, hgathered₁, hdocs₁⟩ :=
            enhanceModule_of_known hdocs hfence hquiet hgathered hfits hknown hreply hd
          obtain ⟨r, f', hrun, hmore, hresult⟩ :=
            ih (w := w.told [questionOn p fence w.language doc m] rest f₁) hdocs₁ hquiet hgathered₁
              hrest (Nat.le_of_succ_le_succ henough)
          refine ⟨r.map (() :: ·), f', ?_, ?_, ?_⟩
          · rw [collect_cons_ok hfirst hrun, World.told_told]
            rfl
          · rwa [append_assoc, singleton_append] at hmore
          · rcases hresult with ⟨⟨us, rfl⟩, hall⟩ | ⟨rfl, m', hm', hnone⟩
            · exact Or.inl ⟨⟨_, rfl⟩, forall_mem_cons.mpr ⟨hknown, hall⟩⟩
            · exact Or.inr ⟨rfl, m', mem_cons_of_mem _ hm', hnone⟩

/-- **Names that the model has made up.** Of the drafts on modules those that list a function of the
code base are asked about in order, each with the documents on exactly these functions, and the
replies are saved in order; nothing else is asked or written. The run succeeds just if that is all
drafts, and fails otherwise because there is nothing to quote. -/
theorem enhanceModules_known (hfence : p.fence = .ok fence) (hfits : Fits p.docs Slot.modules.name)
    (hkeeps : Keeps p.docs w.folder start) (hnew : start Slot.modules.name = none)
    (hdocs : AllDocumented p doc w.folder) (hquiet : w.verbose = false) {drafts new : List ModuleDoc}
    (hreplies : List.Forall₂ Improves w.replies new)
    (henough : (asked p drafts).length ≤ w.replies.length) :
    ∃ r f', (enhanceModules p drafts).run.run w
        = (r, w.told ((asked p drafts).map (questionOn p fence w.language doc))
          (w.replies.drop (asked p drafts).length) f') ∧
      Gathered p start f' (new.take (asked p drafts).length) ∧
      (r = .ok () ↔ ∀ m ∈ drafts, known p m ≠ []) ∧ (r ≠ .ok () → r = .error .nothingToQuote) := by
  have hload := (holding_nil hkeeps hnew).load
  obtain ⟨r, f', hrun, hgathered, hresult⟩ :=
    collect_known hfence hfits hdocs hquiet (gathered_nil hkeeps hnew) hreplies henough
  refine ⟨r.map fun _ => (), f', ?_, hgathered, ?_, ?_⟩
  · have hfolder : (inFolder p.loadModules).run.run w = (.ok [], w) := by
      rw [run_inFolder, hload]
    rw [enhanceModules, run_bind_of_ok hfolder, List.isEmpty_nil, if_pos rfl, run_bind, hrun]
    cases r with
    | error e => rfl
    | ok us => rfl
  · rcases hresult with ⟨⟨us, rfl⟩, hall⟩ | ⟨rfl, m, hm, hnone⟩
    · exact iff_of_true rfl hall
    · exact iff_of_false (by rintro ⟨⟩) fun hall => hall m hm hnone
  · rcases hresult with ⟨⟨us, rfl⟩, -⟩ | ⟨rfl, -⟩
    · exact fun h => absurd rfl h
    · exact fun _ => rfl

end Improving

/-! ## A function that there is and one that there is not -/

def documentOnF : RoutineDoc where
  name := "f"
  description := "x"

lemma allDocumented_gallery : AllDocumented gallery (fun _ => documentOnF) described := by
  intro s r hr
  have hs : s = "f" := by
    by_contra hne
    have hnone : gallery.routines.get s = .error (.unknownName s) := by
      simp [Catalog.get, gallery, Assoc.get?, Ne.symm hne]
    rw [hnone] at hr
    cases hr
  rw [hs]
  decide +kernel

def replying (f : Folder) : World :=
  { folder := f, replies := [replyOn "A"] }

def mixedDraft : ModuleDoc :=
  { draftOf "A" with functions := some ["ghost", "f"] }

def ghostDraft : ModuleDoc :=
  { draftOf "A" with functions := some ["ghost"] }

theorem enhanceModules_known_mixed : ∃ start f',
    (enhanceModules gallery [mixedDraft]).run.run (replying described)
      = (.ok (), (replying described).told
          [request (quoting "c++" mixedDraft [documentOnF]) "English"] [] f') ∧
      Gathered gallery start f' [{ draftOf "A" with description := "y" }] := by
  obtain ⟨start, hkeeps, -, hnew⟩ := exists_keeps_described
  have hreplies : List.Forall₂ Improves [replyOn "A"] [{ draftOf "A" with description := "y" }] :=
    .cons ⟨_, rfl, by decide +kernel, by decide +kernel⟩ .nil
  have hknown : asked gallery [mixedDraft] = [mixedDraft] ∧ known gallery mixedDraft = ["f"] := by
    decide +kernel
  have henough : (asked gallery [mixedDraft]).length ≤ (replying described).replies.length := by
    decide +kernel
  obtain ⟨r, f', hrun, hgathered, hok, -⟩ := enhanceModules_known rfl
    ⟨by decide +kernel, by decide +kernel, by decide +kernel⟩ hkeeps hnew allDocumented_gallery rfl
    hreplies henough
  rw [hok.mpr (by decide +kernel), hknown.1] at hrun
  rw [hknown.1] at hgathered
  refine ⟨start, f', ?_, hgathered⟩
  rw [hrun, List.map_singleton, questionOn, hknown.2]
  rfl

/-- The draft with nothing else is not asked about, although a reply is there, and nothing is
saved. -/
theorem ghostDraft_not_improved :
    (let r := (enhanceModules gallery [ghostDraft]).run.run (replying described)
     (r.1, r.2.prompts.length, r.2.replies.length, (gallery.loadModules.run.run r.2.folder).1))
      = (.error .nothingToQuote, 0, 1, .ok []) := by
  decide +kernel

end Generate

end Docsmith
