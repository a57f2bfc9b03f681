import Docsmith.Proofs.DraftFiles
import Docsmith.Proofs.Quoting
import Docsmith.Proofs.Rounds

/-! # Drafting and revising all routines

A task that drafts adds one draft (`draftRoutine_new`), and a task that revises one finished
document (`reviseRoutine_called`, `reviseRoutine_uncalled`). -/

namespace Docsmith.Generate

open Project Store Chapter List

/-! ## What is asked of a project and of the model -/

/-- A project whose routines can be drafted and revised, whatever their code is. -/
structure Draftable (p : Project) : Prop where
  closed : p.routines.graph.Closed
  acyclic : ¬ ∃ s, Relation.TransGen p.routines.graph.Edge s s
  nodup : p.routines.graph.nodes.Nodup
  known : ∀ s ∈ p.routines.graph.nodes, ∃ r, p.routines.get s = .ok r ∧ IsSource r.file ∧
    Fits p.docs (draftName r.file) ∧ Fits p.docs (finalName r.file)
  titles : ∀ s ∈ p.routines.graph.nodes, IsTitle s ∧ Folder.checkText s = .ok ()
  language : ∃ l, p.language = some l

def Showable (p : Project) : Prop :=
  ∀ s ∈ p.routines.graph.nodes, ∀ r, p.routines.get s = .ok r →
    Unmarked r.code.toList ∧ Plain r.code

/-- A text that makes a document on a routine which can be stored. -/
def Readable (s text : String) : Prop :=
  ∃ d : RoutineDoc, Document.ofChapter (titled s text) = .ok d ∧ ∀ t ∈ d.texts, Plain t

def Gives (p : Project) (post : String → String) (reply : Reply) : Prop :=
  ∃ text, Talk.answer? reply = some text ∧ ∀ s ∈ p.routines.graph.nodes, Readable s (post text)

structure Finished (p : Project) (d : RoutineDoc) : Prop where
  clean : d.Clean
  writable : Folder.checkText (d.markdown ++ "\n") = .ok ()
  coded : ∃ r fence, p.routines.get d.name = .ok r ∧ p.fence = .ok fence ∧
    d.code = some (fenced fence r)

variable {p : Project} {drafts finals : List RoutineDoc} {w : World} {s : String}

lemma Draftable.exists_fence (h : Draftable p) :
    ∃ l : Language, p.fence = .ok l.markdown := by
  obtain ⟨l, hl⟩ := h.language
  exact ⟨l, by rw [fence, hl]⟩

lemma Readable.finished (h : Draftable p) (hcode : Showable p)
    (hs : s ∈ p.routines.graph.nodes) {text : String} (htext : Readable s text) {r : Routine}
    (hr : p.routines.get s = .ok r) {l : Language} (hl : p.fence = .ok l.markdown) :
    ∃ d : RoutineDoc, Document.ofChapter (titled s text) = .ok d ∧ d.name = s ∧
      Finished p { d with code := some (fenced l.markdown r) } := by
  obtain ⟨d, hread, hplain⟩ := htext
  obtain ⟨htitle, hcheck⟩ := h.titles s hs
  obtain ⟨hname, hclean⟩ := RoutineDoc.clean_of_titled htitle hread fun t ht =>
    ⟨(hplain t ht).noReturn, (hplain t ht).inner⟩
  obtain ⟨hmark, hshown⟩ := hcode s hs r hr
  refine ⟨d, hread, hname, ⟨?_, ?_, r, _, ?_, hl, rfl⟩⟩
  · -- the code is the only text that is not from the reply
    rw [RoutineDoc.clean_iff_texts] at hclean ⊢
    refine ⟨hclean.1, fun t ht => ?_⟩
    rcases RoutineDoc.mem_texts_code ht with ht | rfl
    · exact hclean.2 t ht
    · exact isText_fenced l hmark hshown
  · refine checkText_markdown (by rw [hname]; exact hcheck) fun t ht => ?_
    rcases RoutineDoc.mem_texts_code ht with ht | rfl
    · exact (hplain t ht).writable
    · exact checkText_fenced l hshown
  · rw [← hr, ← hname]

/-! ## Drafting a routine -/

/-- What the model is asked for a draft: no other document is quoted. -/
def AsksDraft (p : Project) (language s : String) (q : Prompt) : Prop :=
  ∃ r fence text, p.routines.get s = .ok r ∧ p.fence = .ok fence ∧
    draftPrompt fence r s [] = .ok text ∧ q = question text language

lemma draftRoutine_new (h : Draftable p) (hcode : Showable p)
    (hshelf : Shelved p w.folder drafts []) (hs : s ∈ p.routines.graph.nodes)
    (hnew : s ∉ drafts.map RoutineDoc.name) (hquiet : w.verbose = false) {reply : Reply}
    {rest : List Reply} (hreplies : w.replies = reply :: rest) (hgives : Gives p id reply) :
    ∃ d f q, (draftRoutine p s).run.run w
        = (.ok (), { w with folder := f, prompts := w.prompts ++ [q], replies := rest }) ∧
      Shelved p f (drafts ++ [d]) [] ∧ d.name = s ∧ Finished p d ∧
      AsksDraft p w.language s q := by
  obtain ⟨r, hr, hsource, hfits, -⟩ := h.known s hs
  obtain ⟨l, hl⟩ := h.exists_fence
  obtain ⟨text, hanswer, hall⟩ := hgives
  have hreadable : Readable s text := hall s hs
  obtain ⟨d, hread, hname, hfinished⟩ := hreadable.finished h hcode hs hr hl
  obtain ⟨prompt, hprompt⟩ : ∃ prompt, draftPrompt l.markdown r s [] = .ok prompt := ⟨_, rfl⟩
  have hnone := docOn?_eq_none_iff.mpr hnew
  -- nothing is finished before all drafts are there, so no callee is quoted
  have hcallees : ((p.routines.graph.successors s).filterMapM p.loadRoutine?).run.run w.folder
      = (.ok [], w.folder) := by
    have hnothing : (p.routines.graph.successors s).filterMap (docOn? []) = [] :=
      filterMap_eq_nil_iff.mpr fun _ _ => rfl
    rw [hshelf.loadMany fun t ht => ?_, hnothing]
    · obtain ⟨r, hr, hsource, -⟩ := h.known t (h.closed _ (Digraph.mem_successors.mp ht)).2
      exact ⟨r, hr, hsource⟩
  obtain ⟨f, hsave, hshelf'⟩ := hshelf.saveDraft
    (by rw [← hr, ← hname]) hsource hfits hfinished.clean hfinished.writable
  refine ⟨_, f, question prompt w.language, ?_, hshelf', hname, hfinished, r, _, prompt, hr, hl,
    hprompt, rfl⟩
  simp only [draftRoutine, run_bind, Run.run_ofExcept, hr, run_inFolder,
    hshelf.loadDraft hr hsource, hnone, Option.isSome_none, Bool.false_eq_true, if_false,
    routineDocs, hcallees, hl, hprompt, askDocument_answer prompt id hreplies hanswer hquiet, id,
    hread, hsave]

lemma draftRoutine_known (h : Draftable p) (hshelf : Shelved p w.folder drafts finals)
    (hs : s ∈ p.routines.graph.nodes) (hold : s ∈ drafts.map RoutineDoc.name) :
    (draftRoutine p s).run.run w = (.ok (), w) := by
  obtain ⟨r, hr, hsource, -⟩ := h.known s hs
  obtain ⟨d, hd, -⟩ := exists_docOn? hold
  simp only [draftRoutine, run_bind, Run.run_ofExcept, hr, run_inFolder,
    hshelf.loadDraft hr hsource, hd]
  rfl

/-! ## Revising a routine -/

/-- The prompt for a revision is made from the draft and the finished documents on all callers, and
it quotes each of these in full. -/
def AsksRevision (p : Project) (language : String) (drafts finals : List RoutineDoc) (s : String)
    (q : Prompt) : Prop :=
  ∃ r fence draft callers text, p.routines.get s = .ok r ∧ p.fence = .ok fence ∧
    draft ∈ drafts ∧ draft.name = s ∧
    callers.map RoutineDoc.name = p.routines.graph.predecessors s ∧ (∀ c ∈ callers, c ∈ finals) ∧
    Prompt.revision fence r.params callers draft = .ok text ∧
    (∀ c ∈ callers, ∃ quoted, Prompt.quote Prompt.mark c.markdown = .ok quoted ∧
      quoted.toList <:+: text.toList) ∧
    q = question text language

lemma AsksRevision.mono {language : String} {q : Prompt} {more : List RoutineDoc}
    (h : AsksRevision p language drafts finals s q) :
    AsksRevision p language drafts (finals ++ more) s q := by
  obtain ⟨r, fence, draft, callers, text, hr, hfence, hdraft, hname, hcallers, hfinals, hrest⟩ := h
  exact ⟨r, fence, draft, callers, text, hr, hfence, hdraft, hname, hcallers,
    fun c hc => mem_append_left _ (hfinals c hc), hrest⟩

lemma map_name_docOn? {symbols : List String}
    (h : ∀ c ∈ symbols, c ∈ finals.map RoutineDoc.name) :
    (symbols.filterMap (docOn? finals)).map RoutineDoc.name = symbols := by
  induction symbols with
  | nil => rfl
  | cons c symbols ih =>
    rw [forall_mem_cons] at h
    obtain ⟨d, hd, -, hname⟩ := exists_docOn? h.1
    rw [filterMap_cons_some hd, map_cons, hname, ih h.2]

lemma Shelved.loadCallers (h : Draftable p) (hshelf : Shelved p w.folder drafts finals)
    (s : String) : ((p.routines.graph.predecessors s).filterMapM p.loadRoutine?).run.run w.folder
      = (.ok ((p.routines.graph.predecessors s).filterMap (docOn? finals)), w.folder) := by
  refine hshelf.loadMany fun t ht => ?_
  obtain ⟨r, hr, hsource, -⟩ := h.known t (h.closed _ (Digraph.mem_predecessors.mp ht)).1
  exact ⟨r, hr, hsource⟩

lemma reviseRoutine_uncalled (h : Draftable p) (hshelf : Shelved p w.folder drafts finals)
    (hdrafts : ∀ d ∈ drafts, Finished p d) (hs : s ∈ p.routines.graph.nodes)
    (hdraft : s ∈ drafts.map RoutineDoc.name) (hnew : s ∉ finals.map RoutineDoc.name)
    (hcallers : p.routines.graph.predecessors s = []) :
    ∃ d f, (reviseRoutine p s).run.run w = (.ok (), { w with folder := f }) ∧
      Shelved p f drafts (finals ++ [d]) ∧ d.name = s ∧ d ∈ drafts := by
  obtain ⟨r, hr, hsource, -, hfits⟩ := h.known s hs
  obtain ⟨d, hd, hmem, hname⟩ := exists_docOn? hdraft
  have hfinished := hdrafts d hmem
  have hnone := docOn?_eq_none_iff.mpr hnew
  have hcalled := hshelf.loadCallers h s
  rw [hcallers, filterMap_nil] at hcalled
  obtain ⟨f, hsave, hshelf'⟩ := hshelf.saveFinal (by rw [← hr, ← hname]) hsource hfits
    hfinished.clean hfinished.writable
  refine ⟨d, f, ?_, hshelf', hname, hmem⟩
  simp only [reviseRoutine, run_bind, run_inFolder, hshelf.loadFinal hr hsource, hnone,
    Option.isSome_none, Bool.false_eq_true, if_false, Run.run_ofExcept, hr, routineDocs, hcallers,
    hcalled, hshelf.loadDraft hr hsource, hd, isEmpty_nil, if_true, routineFile_eq hr,
    saveOption, hsave]

lemma reviseRoutine_called (h : Draftable p) (hcode : Showable p)
    (hshelf : Shelved p w.folder drafts finals) (hs : s ∈ p.routines.graph.nodes)
    (hdraft : s ∈ drafts.map RoutineDoc.name) (hnew : s ∉ finals.map RoutineDoc.name)
    (hcallers : p.routines.graph.predecessors s ≠ [])
    (hready : ∀ c ∈ p.routines.graph.predecessors s, c ∈ finals.map RoutineDoc.name)
    (hquiet : w.verbose = false) {reply : Reply} {rest : List Reply}
    (hreplies : w.replies = reply :: rest)
    (hgives : Gives p (fromSection "#### Description") reply) :
    ∃ d f q, (reviseRoutine p s).run.run w
        = (.ok (), { w with folder := f, prompts := w.prompts ++ [q], replies := rest }) ∧
      Shelved p f drafts (finals ++ [d]) ∧ d.name = s ∧ Finished p d ∧
      AsksRevision p w.language drafts finals s q := by
  obtain ⟨r, hr, hsource, -, hfits⟩ := h.known s hs
  obtain ⟨l, hl⟩ := h.exists_fence
  obtain ⟨draft, hd, hmem, hdraftName⟩ := exists_docOn? hdraft
  have hnone := docOn?_eq_none_iff.mpr hnew
  have hcalled := hshelf.loadCallers h s
  have hnames := map_name_docOn? hready
  generalize hcs : (p.routines.graph.predecessors s).filterMap (docOn? finals) = callers
    at hcalled hnames
  have hsome : callers.isEmpty = false := by
    rw [isEmpty_eq_false_iff]
    rintro rfl
    exact hcallers hnames.symm
  obtain ⟨text, hanswer, hreadable⟩ := hgives
  obtain ⟨d, hread, hname, hfinished⟩ := (hreadable s hs).finished h hcode hs hr hl
  obtain ⟨prompt, hprompt, hquotes⟩ := Prompt.revision_quotes l.markdown r.params callers draft
  obtain ⟨f, hsave, hshelf'⟩ := hshelf.saveFinal
    (by rw [← hr, ← hname]) hsource hfits hfinished.clean hfinished.writable
  refine ⟨_, f, question prompt w.language, ?_, hshelf', hname, hfinished, r, _, draft, callers,
    prompt, hr, hl, hmem, hdraftName, hnames, ?_, hprompt, hquotes, rfl⟩
  · simp only [reviseRoutine, run_bind, run_inFolder, hshelf.loadFinal hr hsource, hnone,
      Option.isSome_none, Bool.false_eq_true, if_false, Run.run_ofExcept, hr, routineDocs,
      hcalled, hshelf.loadDraft hr hsource, hd, hsome, hl, hprompt,
      askDocument_answer prompt _ hreplies hanswer hquiet, hread, run_saveRoutine hr, hsave]
  · intro c hc
    rw [← hcs] at hc
    obtain ⟨t, -, ht⟩ := mem_filterMap.mp hc
    exact (docOn?_spec ht).1

lemma reviseRoutine_known (h : Draftable p) (hshelf : Shelved p w.folder drafts finals)
    (hs : s ∈ p.routines.graph.nodes) (hold : s ∈ finals.map RoutineDoc.name) :
    (reviseRoutine p s).run.run w = (.ok (), w) := by
  obtain ⟨r, hr, hsource, -⟩ := h.known s hs
  obtain ⟨d, hd, -⟩ := exists_docOn? hold
  simp only [reviseRoutine, run_bind, run_inFolder, hshelf.loadFinal hr hsource, hd]
  rfl

/-! ## All drafts -/

def called (p : Project) (s : String) : Bool :=
  !(p.routines.graph.predecessors s).isEmpty

def draftWork (p : Project) (s : String) (w : World) : Except Fault Unit × World :=
  (draftRoutine p s).run.run w

def reviseWork (p : Project) (s : String) (w : World) : Except Fault Unit × World :=
  (reviseRoutine p s).run.run w

/-- How far drafting has come: the drafts that there are, and what the model was asked for them. -/
structure Drafted (p : Project) (start : World) (replies more : List Reply)
    (drafts : List RoutineDoc) (asked : List Prompt) (w : World) : Prop where
  shelved : Shelved p w.folder drafts []
  finished : ∀ d ∈ drafts, Finished p d
  asks : List.Forall₂ (AsksDraft p start.language) (drafts.map RoutineDoc.name) asked
  prompts : w.prompts = start.prompts ++ asked
  replies : w.replies = replies.drop asked.length ++ more
  quiet : w.verbose = false
  language : w.language = start.language

variable {start : World} {replies more : List Reply} {asked : List Prompt}

lemma exists_next {k : Nat} (hk : k < replies.length) (hr : w.replies = replies.drop k ++ more) :
    ∃ reply ∈ replies, w.replies = reply :: (replies.drop (k + 1) ++ more) := by
  rw [drop_eq_getElem_cons hk] at hr
  exact ⟨_, getElem_mem hk, hr⟩

lemma Drafted.step (h : Draftable p) (hcode : Showable p)
    (hgives : ∀ reply ∈ replies, Gives p id reply)
    (hstate : Drafted p start replies more drafts asked w) (hs : s ∈ p.routines.graph.nodes)
    (hnew : s ∉ drafts.map RoutineDoc.name) (hleft : asked.length < replies.length) :
    (draftWork p s w).1 = .ok () ∧ ∃ d q, d.name = s ∧
      Drafted p start replies more (drafts ++ [d]) (asked ++ [q]) (draftWork p s w).2 := by
  obtain ⟨reply, hmem, hreplies⟩ := exists_next hleft hstate.replies
  obtain ⟨d, f, q, hrun, hshelf, hname, hfinished, hasks⟩ := draftRoutine_new h hcode
    hstate.shelved hs hnew hstate.quiet hreplies (hgives reply hmem)
  rw [draftWork, hrun]
  refine ⟨rfl, d, q, hname, hshelf, ?_, ?_, ?_, ?_, hstate.quiet, hstate.language⟩
  · rw [forall_mem_append]
    exact ⟨hstate.finished, forall_mem_singleton.mpr hfinished⟩
  · rw [map_append, map_singleton, hname]
    rw [hstate.language] at hasks
    exact rel_append hstate.asks (.cons hasks .nil)
  · rw [hstate.prompts, append_assoc]
  · rw [length_append, length_singleton]

open Schedule

lemma length_le_of_nodup {α : Type} {done nodes : List α} (hnodup : done.Nodup)
    (hmem : ∀ a ∈ done, a ∈ nodes) (keep : α → Bool) :
    (done.filter keep).length ≤ (nodes.filter keep).length :=
  ((hnodup.filter keep).subperm fun a ha => by
    rw [mem_filter] at ha ⊢
    exact ⟨hmem a ha.1, ha.2⟩).length_le

lemma Drafted.run (h : Draftable p) (hcode : Showable p)
    (hfresh : start.folder.lookup? p.docs = some (.folder .empty)) (hquiet : start.verbose = false)
    (hreplies : start.replies = replies ++ more)
    (hlength : replies.length = p.routines.graph.nodes.length)
    (hgives : ∀ reply ∈ replies, Gives p id reply) {out : Except Fault Unit × World}
    (hrun : Runs (ofJobs (jobsOf p.routines.graph)) (draftWork p) start out) :
    out.1 = .ok () ∧ ∃ drafts asked, Drafted p start replies more drafts asked out.2 ∧
      (drafts.map RoutineDoc.name).Perm p.routines.graph.nodes := by
  have hbegin : Drafted p start replies more [] [] start :=
    ⟨shelved_empty hfresh, by simp, .nil, by simp, by simpa using hreplies, hquiet, rfl⟩
  have hstep : ∀ done s w, (∃ drafts asked, Drafted p start replies more drafts asked w ∧
        drafts.map RoutineDoc.name = done) →
      (∀ t ∈ done ++ [s], t ∈ p.routines.graph.nodes) → (done ++ [s]).Nodup →
      (∀ t, p.routines.graph.Edge s t → t ∈ done) → (draftWork p s w).1 = .ok () ∧
        ∃ drafts asked, Drafted p start replies more drafts asked (draftWork p s w).2 ∧
          drafts.map RoutineDoc.name = done ++ [s] := by
    -- one reply was used for each draft, and there are no more drafts than routines
    rintro done s w ⟨drafts, asked, hstate, rfl⟩ hnodes hnodup -
    have hcount := length_le_of_nodup hnodup hnodes fun _ => true
    rw [filter_true, filter_true, length_append, length_map,
      length_singleton] at hcount
    have hasked := hstate.asks.length_eq
    rw [length_map] at hasked
    obtain ⟨hok, d, q, rfl, hnext⟩ := hstate.step h hcode hgives (hnodes s (by simp))
      (fun hold => (nodup_append.mp hnodup).2.2 s hold s (by simp) rfl) (by omega)
    exact ⟨hok, _, _, hnext, by simp⟩
  obtain ⟨hok, done, hnodup, hmem, drafts, asked, hstate, rfl⟩ :=
    hrun.steps h.closed h.acyclic hstep ⟨[], [], hbegin, rfl⟩
  exact ⟨hok, drafts, asked, hstate, (perm_ext_iff_of_nodup hnodup h.nodup).mpr hmem⟩

/-! ## All finished documents -/

/-- How far revising has come: the finished documents that there are, and what the model was asked
for them. -/
structure Revising (p : Project) (start : World) (replies more : List Reply)
    (drafts finals : List RoutineDoc) (asked : List Prompt) (w : World) : Prop where
  shelved : Shelved p w.folder drafts finals
  finished : ∀ d ∈ finals, Finished p d
  asks : List.Forall₂ (AsksRevision p start.language drafts finals)
    ((finals.map RoutineDoc.name).filter (called p)) asked
  prompts : w.prompts = start.prompts ++ asked
  replies : w.replies = replies.drop asked.length ++ more
  quiet : w.verbose = false
  language : w.language = start.language

lemma Revising.step (h : Draftable p) (hcode : Showable p)
    (hgives : ∀ reply ∈ replies, Gives p (fromSection "#### Description") reply)
    (hdrafts : ∀ d ∈ drafts, Finished p d)
    (hstate : Revising p start replies more drafts finals asked w)
    (hs : s ∈ p.routines.graph.nodes) (hdraft : s ∈ drafts.map RoutineDoc.name)
    (hnew : s ∉ finals.map RoutineDoc.name)
    (hready : ∀ c ∈ p.routines.graph.predecessors s, c ∈ finals.map RoutineDoc.name)
    (hleft : called p s = true → asked.length < replies.length) :
    (reviseWork p s w).1 = .ok () ∧ ∃ d asked', d.name = s ∧
      Revising p start replies more drafts (finals ++ [d]) asked' (reviseWork p s w).2 := by
  by_cases hcallers : p.routines.graph.predecessors s = []
  · obtain ⟨d, f, hrun, hshelf, hname, hmem⟩ := reviseRoutine_uncalled h hstate.shelved hdrafts hs
      hdraft hnew hcallers
    have hcalled : called p s = false := by simp [called, hcallers]
    rw [reviseWork, hrun]
    refine ⟨rfl, d, asked, hname, hshelf, ?_, ?_, hstate.prompts, hstate.replies, hstate.quiet,
      hstate.language⟩
    · rw [forall_mem_append]
      exact ⟨hstate.finished, forall_mem_singleton.mpr (hdrafts d hmem)⟩
    · rw [map_append, map_singleton, hname, filter_append,
        filter_cons_of_neg (by simp [hcalled]), filter_nil, append_nil]
      exact hstate.asks.imp fun _ _ => AsksRevision.mono
  · have hcalled : called p s = true := by simp [called, hcallers]
    obtain ⟨reply, hmem, hreplies⟩ := exists_next (hleft hcalled) hstate.replies
    obtain ⟨d, f, q, hrun, hshelf, hname, hfinished, hasks⟩ := reviseRoutine_called h hcode
      hstate.shelved hs hdraft hnew hcallers hready hstate.quiet hreplies (hgives reply hmem)
    rw [reviseWork, hrun]
    refine ⟨rfl, d, asked ++ [q], hname, hshelf, ?_, ?_, ?_, ?_, hstate.quiet, hstate.language⟩
    · rw [forall_mem_append]
      exact ⟨hstate.finished, forall_mem_singleton.mpr hfinished⟩
    · rw [map_append, map_singleton, hname, filter_append,
        filter_cons_of_pos hcalled]
      rw [hstate.language] at hasks
      exact rel_append (hstate.asks.imp fun _ _ => AsksRevision.mono)
        (.cons hasks.mono .nil)
    · rw [hstate.prompts, append_assoc]
    · rw [length_append, length_singleton]

lemma Revising.run (h : Draftable p) (hcode : Showable p)
    (hshelf : Shelved p start.folder drafts []) (hdrafts : ∀ d ∈ drafts, Finished p d)
    (hall : (drafts.map RoutineDoc.name).Perm p.routines.graph.nodes)
    (hquiet : start.verbose = false) (hreplies : start.replies = replies ++ more)
    (hlength : replies.length = (p.routines.graph.nodes.filter (called p)).length)
    (hgives : ∀ reply ∈ replies, Gives p (fromSection "#### Description") reply)
    {out : Except Fault Unit × World}
    (hrun : Runs (ofJobs (jobsOf p.routines.graph.reverse)) (reviseWork p) start out) :
    out.1 = .ok () ∧ ∃ finals asked, Revising p start replies more drafts finals asked out.2 ∧
      (finals.map RoutineDoc.name).Perm p.routines.graph.nodes := by
  have hbegin : Revising p start replies more drafts [] [] start :=
    ⟨hshelf, by simp, .nil, by simp, by simpa using hreplies, hquiet, rfl⟩
  have hstep : ∀ done s w, (∃ finals asked,
        Revising p start replies more drafts finals asked w ∧
        finals.map RoutineDoc.name = done) →
      (∀ t ∈ done ++ [s], t ∈ p.routines.graph.nodes) → (done ++ [s]).Nodup →
      (∀ t, p.routines.graph.reverse.Edge s t → t ∈ done) → (reviseWork p s w).1 = .ok () ∧
        ∃ finals asked, Revising p start replies more drafts finals asked (reviseWork p s w).2 ∧
          finals.map RoutineDoc.name = done ++ [s] := by
    rintro done s w ⟨finals, asked, hstate, rfl⟩ hnodes hnodup hcallers
    have hs : s ∈ p.routines.graph.nodes := hnodes s (by simp)
    -- in the graph turned round a routine depends on its callers
    have hready : ∀ c ∈ p.routines.graph.predecessors s, c ∈ finals.map RoutineDoc.name :=
      fun c hc => hcallers c ((Digraph.edge_reverse h.closed).mpr (Digraph.mem_predecessors.mp hc))
    have hasked := hstate.asks.length_eq
    have hcount := length_le_of_nodup hnodup hnodes (called p)
    rw [filter_append, length_append] at hcount
    obtain ⟨hok, d, asked', rfl, hnext⟩ := hstate.step h hcode hgives hdrafts hs
      (hall.mem_iff.mpr hs)
      (fun hold => (nodup_append.mp hnodup).2.2 s hold s (by simp) rfl) hready fun hcalled => by
        rw [filter_cons_of_pos hcalled, length_cons] at hcount
        omega
    exact ⟨hok, _, _, hnext, by simp⟩
  obtain ⟨hok, done, hnodup, hmem, finals, asked, hstate, rfl⟩ :=
    hrun.steps (Digraph.closed_reverse h.closed) (Digraph.acyclic_reverse h.closed h.acyclic) hstep
      ⟨[], [], hbegin, rfl⟩
  exact ⟨hok, finals, asked, hstate, (perm_ext_iff_of_nodup hnodup h.nodup).mpr hmem⟩

end Docsmith.Generate

