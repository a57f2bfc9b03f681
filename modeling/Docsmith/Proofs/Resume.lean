import Docsmith.Proofs.Dispatch
import Docsmith.Proofs.Documenting

/-! # Runs that are taken up again

The model may fail whenever it is asked, and the routines of a group may come in any order.
`resumes_of_prepared` says that none of this matters: each routine can only get one document, made
from the documents on all the routines it calls, and every question is one that a run without
failures would have asked. -/

namespace Docsmith

open Chapter List

/-! ## The documents that there can be -/

def RoutineDoc.texts (d : RoutineDoc) : List String :=
  d.description :: d.fields.filterMap Prod.snd

lemma RoutineDoc.clean_of_titled {s reply : String} (hs : IsTitle s) {d : RoutineDoc}
    (h : Document.ofChapter (Generate.titled s reply) = .ok d)
    (htexts : ∀ t ∈ d.texts, '\r' ∉ t.toList ∧ Inner t.toList) : d.name = s ∧ d.Clean := by
  have hchars : Generate.titled s reply
      = .ofList (chapterMark ++ (s.toList ++ '\n' :: reply.toList)) := by
    rw [← String.toList_inj]
    simp [Generate.titled, chapterMark]
  rw [hchars, Document.ofChapter, title?_ofList hs.line, String.ofList_toList, hs.stripped] at h
  simp only at h
  cases hdescription : Chapter.section? "Description"
      (.ofList (Chars.before ('\n' :: chapterMark) reply.toList)) with
  | none =>
    rw [hdescription] at h
    cases h
  | some description =>
    rw [hdescription] at h
    have hd := Except.ok.inj h
    have hname : d.name = s := by rw [← hd]
    have hcut : ∀ f ∈ d.fields, ∀ t ∈ f.2, Text.strip t = t ∧ Unmarked t.toList := by
      intro f hf t ht
      obtain ⟨b, hb⟩ : ∃ b, Chapter.section? f.1 b = some t := by
        rw [← hd] at hf
        simp only [RoutineDoc.fields, mem_cons, not_mem_nil, or_false] at hf
        rcases hf with rfl | rfl | rfl | rfl <;> exact ⟨_, ht⟩
      exact ⟨(section?_spec hb).1, (section?_spec hb).2.1⟩
    obtain ⟨hstripped, hunmarked, -⟩ := section?_spec hdescription
    have hsame : d.description = description := by rw [← hd]
    rw [RoutineDoc.texts, forall_mem_cons, hsame] at htexts
    refine ⟨hname, by rw [hname]; exact hs, ?_, fun f hf t ht => ?_⟩
    · rw [hsame]
      exact ⟨hstripped, hunmarked, htexts.1.2, htexts.1.1⟩
    · obtain ⟨hreturn, hinner⟩ := htexts.2 t (mem_filterMap.mpr ⟨f, hf, ht⟩)
      exact ⟨(hcut f hf t ht).1, (hcut f hf t ht).2, hinner, hreturn⟩

namespace Generate

/-- Routines that can be documented, by a model that gives a readable document on each whatever
those on the routines it calls say. -/
structure Prepared (p : Project) (llm : String → String) : Prop where
  closed : p.routines.graph.Closed
  acyclic : ¬ ∃ s, Relation.TransGen p.routines.graph.Edge s s
  known : ∀ s ∈ p.routines.graph.nodes, ∃ r, p.routines.get s = .ok r ∧ Project.IsSource r.file
  titles : ∀ s ∈ p.routines.graph.nodes, IsTitle s
  helpful : ∀ s ∈ p.routines.graph.nodes, ∀ docs prompt, promptOf p docs s = .ok prompt →
    ∃ d : RoutineDoc, Document.ofChapter (titled s (llm prompt)) = .ok d ∧
      ∀ t ∈ d.texts, '\r' ∉ t.toList ∧ Inner t.toList

def sketch (p : Project) (llm : String → String) (docs : String → RoutineDoc) (s : String) :
    RoutineDoc :=
  match (promptOf p docs s).bind fun prompt => Document.ofChapter (titled s (llm prompt)) with
  | .ok d => d
  | .error _ => { name := s, description := "" }

/-- Documents on all routines of which no more than so many call each other in a row. -/
def sketches (p : Project) (llm : String → String) : Nat → String → RoutineDoc
  | 0 => fun s => { name := s, description := "" }
  | n + 1 => sketch p llm (sketches p llm n)

variable {p : Project} {llm : String → String}

variable {s : String}

lemma sketch_congr {docs docs' : String → RoutineDoc}
    (h : ∀ t ∈ p.routines.graph.successors s, docs t = docs' t) :
    sketch p llm docs s = sketch p llm docs' s := by
  rw [sketch, sketch, promptOf, promptOf, map_congr_left h]

lemma sketches_succ (hac : ∀ s ∈ p.routines.graph.nodes, height p.routines.graph.Edge s ≠ ⊤)
    (hclosed : p.routines.graph.Closed) {n : Nat} (hs : s ∈ p.routines.graph.nodes)
    (hn : height p.routines.graph.Edge s < (n : ℕ∞)) :
    sketches p llm (n + 1) s = sketches p llm n s := by
  induction n generalizing s with
  | zero => exact absurd hn (by simp)
  | succ n ih =>
    refine sketch_congr fun t ht => ?_
    have hedge : p.routines.graph.Edge s t := Digraph.mem_successors.mp ht
    have hlt := height_lt_of_rel hedge (hac s hs)
    rw [Nat.cast_succ, ENat.lt_add_one_iff (ENat.natCast_ne_top n)] at hn
    exact ih (hclosed _ hedge).2 (hlt.trans_le hn)

lemma Prepared.sketch_spec (h : Prepared p llm) (docs : String → RoutineDoc)
    (hs : s ∈ p.routines.graph.nodes) :
    (sketch p llm docs s).name = s ∧ ∀ prompt, promptOf p docs s = .ok prompt →
      Document.ofChapter (titled s (llm prompt)) = .ok (sketch p llm docs s) ∧
        (sketch p llm docs s).Clean := by
  rw [sketch]
  cases hprompt : promptOf p docs s with
  | error e => exact ⟨rfl, fun _ h => nomatch h⟩
  | ok prompt =>
    obtain ⟨d, hd, htexts⟩ := h.helpful s hs docs prompt hprompt
    obtain ⟨hname, hclean⟩ := RoutineDoc.clean_of_titled (h.titles s hs) hd htexts
    simp only [Except.bind, hd]
    refine ⟨hname, fun prompt' h' => ?_⟩
    rw [← Except.ok.inj h']
    exact ⟨hd, hclean⟩

lemma Prepared.exists_plan (h : Prepared p llm) : ∃ docs, Plan p llm docs := by
  have hac := (Digraph.isAcyclic_iff h.closed).mpr h.acyclic
  obtain ⟨n, -, -, hbound⟩ := Digraph.layers_eq_levels h.closed hac
  have hsame : ∀ s ∈ p.routines.graph.nodes,
      sketches p llm n s = sketch p llm (sketches p llm n) s := fun s hs =>
    (sketches_succ ((Digraph.isAcyclic_iff_height h.closed).mp hac) h.closed hs (hbound s hs)).symm
  refine ⟨sketches p llm n, h.closed, h.known, fun s hs => ?_, fun s hs prompt hp => ?_⟩
  · rw [hsame s hs]
    exact (h.sketch_spec _ hs).1
  · rw [hsame s hs]
    exact (h.sketch_spec _ hs).2 prompt hp

/-! ## What a run does -/

def Undocumented (p : Project) (w : World) (s : String) : Prop :=
  (p.loadRoutine? s).run.run w.folder = (.ok none, w.folder)

def Served (p : Project) (llm : String → String) (docs : String → RoutineDoc) (s : String)
    (w : World) : Prop :=
  Undocumented p w s → ∃ prompt, promptOf p docs s = .ok prompt ∧
    w.replies.head?.bind Talk.answer? = some (llm prompt)

/-- A routine and a world in which all that it calls has documents. -/
def Ready (p : Project) (docs : String → RoutineDoc) (s : String) (w : World) : Prop :=
  s ∈ p.routines.graph.nodes ∧ ∃ log, Stored p docs w.folder log ∧
    ∀ t ∈ p.routines.graph.successors s, t ∈ log

/-- What tasks do to the world and the notes on where each of them starts; `fine` if none of them
failed. -/
structure Advances (p : Project) (llm : String → String) (docs : String → RoutineDoc)
    (wanted log : List String) (x : List (String × World) × World) (fine : Prop)
    (log' : List String) (x' : List (String × World) × World) : Prop where
  goes : Goes p docs log x.2 log' x'.2
  ready : (∀ note ∈ x.1, Ready p docs note.1 note.2) → ∀ note ∈ x'.1, Ready p docs note.1 note.2
  done : fine → ∀ s ∈ wanted, s ∈ log'
  idle : (∀ s ∈ wanted, s ∈ log) → fine
  served : (∀ note ∈ x'.1, Served p llm docs note.1 note.2) → x.2.verbose = false →
    (∀ s ∈ wanted, p.Storable (.routine s (docs s))) → fine

section Advances

variable {docs : String → RoutineDoc} {log log₁ log₂ wanted wanted₁ wanted₂ : List String}
  {x x₁ x₂ : List (String × World) × World} {fine fine₁ fine₂ : Prop}

lemma Advances.refl (h : Stored p docs x.2.folder log) :
    Advances p llm docs [] log x True log x :=
  ⟨Goes.refl h, id, fun _ => by simp, fun _ => trivial, fun _ _ _ => trivial⟩

lemma Advances.trans (h₁ : Advances p llm docs wanted₁ log x fine₁ log₁ x₁)
    (h₂ : Advances p llm docs wanted₂ log₁ x₁ fine₂ log₂ x₂) (hnotes : x₁.1 <+: x₂.1) :
    Advances p llm docs (wanted₁ ++ wanted₂) log x (fine₁ ∧ fine₂) log₂ x₂ := by
  refine ⟨h₁.goes.trans h₂.goes, fun hx => h₂.ready (h₁.ready hx), fun hfine => ?_, fun hall => ?_,
    fun hserved hquiet hstorable => ?_⟩
  · rw [forall_mem_append]
    exact ⟨fun s hs => h₂.goes.grows.subset (h₁.done hfine.1 s hs), h₂.done hfine.2⟩
  · rw [forall_mem_append] at hall
    exact ⟨h₁.idle hall.1, h₂.idle fun s hs => h₁.goes.grows.subset (hall.2 s hs)⟩
  · rw [forall_mem_append] at hstorable
    exact ⟨h₁.served (fun note hnote => hserved note (hnotes.subset hnote)) hquiet hstorable.1,
      h₂.served hserved (h₁.goes.verbose.trans hquiet) hstorable.2⟩

lemma Advances.stop (h : Advances p llm docs wanted₁ log x fine log₁ x₁) (hfailed : ¬ fine)
    (wanted₂ : List String) : Advances p llm docs (wanted₁ ++ wanted₂) log x False log₁ x₁ := by
  refine ⟨h.goes, h.ready, False.elim, fun hall => ?_, fun hserved hquiet hstorable => ?_⟩
  · exact hfailed (h.idle (forall_mem_append.mp hall).1)
  · exact hfailed (h.served hserved hquiet (forall_mem_append.mp hstorable).1)

lemma Advances.congr (h : Advances p llm docs wanted log x fine log₁ x₁)
    (hsame : ∀ s, s ∈ wanted ↔ s ∈ wanted₁) : Advances p llm docs wanted₁ log x fine log₁ x₁ := by
  refine ⟨h.goes, h.ready, fun hfine s hs => h.done hfine s ((hsame s).mpr hs),
    fun hall => h.idle fun s hs => hall s ((hsame s).mp hs), fun hserved hquiet hstorable => ?_⟩
  exact h.served hserved hquiet fun s hs => hstorable s ((hsame s).mp hs)

def work (p : Project) (s : String) (w : World) : Except Fault Unit × World :=
  (documentRoutine p s).run.run w

open Schedule

lemma work_advances (hplan : Plan p llm docs) (h : Stored p docs x.2.folder log)
    (hs : s ∈ p.routines.graph.nodes) (hcallees : ∀ t ∈ p.routines.graph.successors s, t ∈ log)
    (hheeds : Heeds p llm s x.2) :
    ∃ log', Advances p llm docs [s] log x ((traced (work p) s x).1 = .ok ()) log'
      (traced (work p) s x).2 := by
  obtain ⟨r, w', log', hrun, hgoes, hdone, hidle, hserved⟩ :=
    documentRoutine_run hplan h hs hcallees hheeds
  have htraced : traced (work p) s x = (r, x.1 ++ [(s, x.2)], w') := by
    rw [traced, work, hrun]
  rw [htraced]
  refine ⟨log', hgoes, fun hx => ?_, fun hr => ?_, fun hall => ?_, fun hnotes hquiet hstorable => ?_⟩
  · rw [forall_mem_append]
    refine ⟨hx, fun note hnote => ?_⟩
    rw [mem_singleton.mp hnote]
    exact ⟨hs, log, h, hcallees⟩
  · exact forall_mem_singleton.mpr (hdone hr)
  · exact hidle (forall_mem_singleton.mp hall)
  · refine hserved (fun hnew => ?_) hquiet (hstorable s (mem_singleton_self s))
    refine hnotes (s, x.2) (by simp) ?_
    rw [Undocumented, h.load hplan hs, if_neg hnew]

lemma runGroup_advances (hplan : Plan p llm docs) {group : List String}
    (h : Stored p docs x.2.folder log)
    (hgroup : ∀ s ∈ group, s ∈ p.routines.graph.nodes ∧
      ∀ t ∈ p.routines.graph.successors s, t ∈ log)
    (hheeds : ∀ note ∈ (runGroup (traced (work p)) group x).2.1, Heeds p llm note.1 note.2) :
    ∃ log', Advances p llm docs group log x ((runGroup (traced (work p)) group x).1 = none) log'
      (runGroup (traced (work p)) group x).2 := by
  induction group generalizing x log with
  | nil => exact ⟨log, by simpa [runGroup] using Advances.refl h⟩
  | cons s rest ih =>
    rw [forall_mem_cons] at hgroup
    obtain ⟨hstate, hfine⟩ := runGroup_cons (traced (work p)) s rest x
    have hnotes := prefix_runGroup (work p) rest (traced (work p) s x).2
    rw [hstate, hfine]
    rw [hstate] at hheeds
    have hfirst : (s, x.2) ∈ (traced (work p) s x).2.1 := by simp [traced]
    obtain ⟨log₁, h₁⟩ := work_advances hplan h hgroup.1.1 hgroup.1.2
      (hheeds (s, x.2) (hnotes.subset hfirst))
    obtain ⟨log₂, h₂⟩ := ih h₁.goes.stored (fun s hs => ⟨(hgroup.2 s hs).1, fun t ht =>
      h₁.goes.grows.subset ((hgroup.2 s hs).2 t ht)⟩) hheeds
    exact ⟨log₂, h₁.trans h₂ hnotes⟩

lemma runGroups_advances (hplan : Plan p llm docs) {groups : List (List String)}
    (h : Stored p docs x.2.folder log) {before : List String} (hbefore : ∀ s ∈ before, s ∈ log)
    (hnodes : ∀ s ∈ groups.flatten, s ∈ p.routines.graph.nodes)
    (hlayered : Layered p.routines.graph.Edge before groups)
    (hheeds : ∀ note ∈ (runGroups (traced (work p)) groups x).2.1, Heeds p llm note.1 note.2) :
    ∃ log', Advances p llm docs groups.flatten log x
      ((runGroups (traced (work p)) groups x).1 = .ok ()) log'
      (runGroups (traced (work p)) groups x).2 := by
  induction groups generalizing x log before with
  | nil => exact ⟨log, by simpa [runGroups] using Advances.refl h⟩
  | cons group rest ih =>
    rw [flatten_cons, forall_mem_append] at hnodes
    have hready : ∀ s ∈ group, s ∈ p.routines.graph.nodes ∧
        ∀ t ∈ p.routines.graph.successors s, t ∈ log := fun s hs =>
      ⟨hnodes.1 s hs, fun t ht => hbefore t (hlayered.1 s hs t (Digraph.mem_successors.mp ht))⟩
    have hgroup := runGroup_advances hplan h hready
    rw [flatten_cons]
    rw [runGroups] at hheeds ⊢
    rcases hrun : runGroup (traced (work p)) group x with ⟨outcome, x₁⟩
    rw [hrun] at hgroup hheeds
    cases outcome with
    | some fault =>
      obtain ⟨log₁, h₁⟩ := hgroup hheeds
      exact ⟨log₁, by simpa using h₁.stop (by simp) rest.flatten⟩
    | none =>
      have hnotes := prefix_runGroups (work p) rest x₁
      obtain ⟨log₁, h₁⟩ := hgroup fun note hnote => hheeds note (hnotes.subset hnote)
      have hdone : ∀ s ∈ before ++ group, s ∈ log₁ := by
        rw [forall_mem_append]
        exact ⟨fun s hs => h₁.goes.grows.subset (hbefore s hs), h₁.done rfl⟩
      obtain ⟨log₂, h₂⟩ := ih h₁.goes.stored hdone hnodes.2 hlayered.2 hheeds
      exact ⟨log₂, by simpa using h₁.trans h₂ hnotes⟩

end Advances

/-! ## Runs one after the other -/

open Schedule

/-- A run over all routines, the tasks of a group in any order, with a model that fails or
answers. -/
def Attempt (p : Project) (llm : String → String) (w : World)
    (out : Except Fault Unit × (List (String × World) × World)) : Prop :=
  Runs (ofJobs (jobsOf p.routines.graph)) (traced (work p)) ([], w) out ∧
    ∀ note ∈ out.2.1, Heeds p llm note.1 note.2

/-- The folders that runs lead to, each in any world with the folder of the last. -/
inductive Left (p : Project) (llm : String → String) (start : Folder) : Folder → Prop where
  | nothing : Left p llm start start
  | more {w : World} {out : Except Fault Unit × (List (String × World) × World)} :
      Left p llm start w.folder → Attempt p llm w out → Left p llm start out.2.2.folder

variable {docs : String → RoutineDoc} {log : List String}

variable {out : Except Fault Unit × (List (String × World) × World)} {w : World}

lemma Attempt.advances (h : Prepared p llm) (hplan : Plan p llm docs)
    (hattempt : Attempt p llm w out) (hstored : Stored p docs w.folder log) :
    ∃ log', Advances p llm docs p.routines.graph.nodes log ([], w) (out.1 = .ok ()) log' out.2 := by
  obtain ⟨hruns, hheeds⟩ := hattempt
  obtain ⟨groups, rfl, -, hmem, hlayered⟩ := hruns.exists_groups h.closed h.acyclic
  obtain ⟨log', hadvances⟩ := runGroups_advances hplan hstored (by simp)
    (fun s hs => (hmem s).mp hs) hlayered hheeds
  exact ⟨log', hadvances.congr hmem⟩

lemma Left.stored (h : Prepared p llm) (hplan : Plan p llm docs) {start f : Folder}
    (hempty : start.lookup? p.docs = some (.folder .empty)) (hleft : Left p llm start f) :
    ∃ log, Stored p docs f log := by
  induction hleft with
  | nothing =>
    exact ⟨[], ⟨⟨_, Store.keeps_empty hempty, fun _ _ => Document.holds_nil⟩, by simp, by simp,
      nodup_nil⟩⟩
  | more _ hattempt ih =>
    obtain ⟨log, hstored⟩ := ih
    obtain ⟨log', hadvances⟩ := hattempt.advances h hplan hstored
    exact ⟨log', hadvances.goes.stored⟩

def Documented (p : Project) (docs : String → RoutineDoc) (w : World) (s : String) : Prop :=
  (p.loadRoutine? s).run.run w.folder = (.ok (some (docs s)), w.folder)

lemma Stored.documented_iff (hplan : Plan p llm docs) (h : Stored p docs w.folder log)
    (hs : s ∈ p.routines.graph.nodes) : Documented p docs w s ↔ s ∈ log := by
  rw [Documented, h.load hplan hs]
  by_cases hlog : s ∈ log
  · rw [if_pos hlog]
    exact iff_of_true rfl hlog
  · rw [if_neg hlog]
    exact iff_of_false (fun he => nomatch he) hlog

lemma Stored.undocumented_iff (hplan : Plan p llm docs) (h : Stored p docs w.folder log)
    (hs : s ∈ p.routines.graph.nodes) : Undocumented p w s ↔ s ∉ log := by
  rw [Undocumented, h.load hplan hs]
  by_cases hlog : s ∈ log
  · rw [if_pos hlog]
    exact iff_of_false (fun he => nomatch he) (not_not_intro hlog)
  · rw [if_neg hlog]
    exact iff_of_true rfl hlog

/-- What a run does in a world that others may have left: `docs` tells which document a routine can
have. -/
structure Resumes (p : Project) (llm : String → String) (docs : String → RoutineDoc) (w : World)
    (out : Except Fault Unit × (List (String × World) × World)) : Prop where
  /-- Each routine has its document or none. -/
  either : ∀ s ∈ p.routines.graph.nodes, Documented p docs out.2.2 s ∨ Undocumented p out.2.2 s
  /-- What has a document keeps it. -/
  kept : ∀ s ∈ p.routines.graph.nodes, Documented p docs w s → Documented p docs out.2.2 s
  /-- With a routine all that it calls has a document. -/
  closed : ∀ s ∈ p.routines.graph.nodes, Documented p docs out.2.2 s →
    ∀ t ∈ p.routines.graph.successors s, Documented p docs out.2.2 t
  /-- A task without a document is handed those on all routines that are called and none on a
  routine that calls. -/
  handed : ∀ note ∈ out.2.1, Undocumented p note.2 note.1 →
    (∀ t ∈ p.routines.graph.successors note.1, Documented p docs note.2 t) ∧
    (routineDocs p (p.routines.graph.successors note.1)).run.run note.2
      = (.ok ((p.routines.graph.successors note.1).map docs), note.2) ∧
    (routineDocs p (p.routines.graph.predecessors note.1)).run.run note.2 = (.ok [], note.2)
  /-- The model is asked about routines without a document, with the same prompt in every run. -/
  asked : ∃ new, out.2.2.prompts = w.prompts ++ new ∧ ∀ q ∈ new,
    ∃ s ∈ p.routines.graph.nodes, Undocumented p w s ∧ ∃ text, promptOf p docs s = .ok text ∧
      q.messages.head? = some (.said .system (some text))
  /-- Each file holds the documents on its routines, each once. -/
  once : ∃ log : List String, log.Nodup ∧
    (∀ s, s ∈ log ↔ s ∈ p.routines.graph.nodes ∧ Documented p docs out.2.2 s) ∧
    ∀ source, Project.IsSource source →
      (Store.loadAll RoutineDoc (p.path (.routines source))).run.run out.2.2.folder
        = (.ok ((log.filter (inFile p source)).map docs), out.2.2.folder)
  /-- A run without failures leaves no routine out. -/
  complete : out.1 = .ok () → ∀ s ∈ p.routines.graph.nodes, Documented p docs out.2.2 s
  /-- There are no failures if all documents can be stored and the model answers at once. -/
  served : (∀ note ∈ out.2.1, Served p llm docs note.1 note.2) → w.verbose = false →
    (∀ s ∈ p.routines.graph.nodes, p.Storable (.routine s (docs s))) → out.1 = .ok ()
  /-- Once all is documented a run does nothing. -/
  idle : (∀ s ∈ p.routines.graph.nodes, Documented p docs w s) →
    out.1 = .ok () ∧ out.2.2.folder = w.folder ∧ out.2.2.prompts = w.prompts

lemma Ready.handed (hplan : Plan p llm docs) (h : Ready p docs s w) (hnew : Undocumented p w s) :
    (∀ t ∈ p.routines.graph.successors s, Documented p docs w t) ∧
      (routineDocs p (p.routines.graph.successors s)).run.run w
        = (.ok ((p.routines.graph.successors s).map docs), w) ∧
      (routineDocs p (p.routines.graph.predecessors s)).run.run w = (.ok [], w) := by
  obtain ⟨hs, log, hstored, hcallees⟩ := h
  obtain ⟨hcalled, hcalling, -⟩ :=
    hstored.prompted hplan hs ((hstored.undocumented_iff hplan hs).mp hnew) hcallees
  refine ⟨fun t ht => ?_, ?_, ?_⟩
  · have hlog := hcallees t ht
    exact (hstored.documented_iff hplan (hstored.nodes t hlog)).mpr hlog
  · rw [routineDocs, run_inFolder, hcalled]
  · rw [routineDocs, run_inFolder, hcalling]

lemma Advances.resumes (hplan : Plan p llm docs) {log' : List String}
    (hstored : Stored p docs w.folder log)
    (h : Advances p llm docs p.routines.graph.nodes log ([], w) (out.1 = .ok ()) log' out.2) :
    Resumes p llm docs w out := by
  have hafter := h.goes.stored
  have hbefore_iff := fun s hs => hstored.documented_iff hplan (s := s) hs
  have hafter_iff := fun s hs => hafter.documented_iff hplan (s := s) hs
  obtain ⟨new, hnew, hquestions⟩ := h.goes.asked
  refine ⟨fun s hs => ?_, fun s hs hdoc => ?_, fun s hs hdoc t ht => ?_, fun note hnote hmissing => ?_,
    ⟨new, hnew, fun q hq => ?_⟩, ⟨log', hafter.nodup, fun s => ?_, fun source hsource => ?_⟩,
    fun hok s hs => ?_, h.served, fun hall => ?_⟩
  · rw [hafter_iff s hs, hafter.undocumented_iff hplan hs]
    exact Classical.em _
  · exact (hafter_iff s hs).mpr (h.goes.grows.subset ((hbefore_iff s hs).mp hdoc))
  · have hlog := hafter.callees s ((hafter_iff s hs).mp hdoc) t ht
    exact (hafter_iff t (hafter.nodes t hlog)).mpr hlog
  · exact (h.ready (by simp) note hnote).handed hplan hmissing
  · obtain ⟨s, hs, hlog, htext⟩ := hquestions q hq
    exact ⟨s, hs, (hstored.undocumented_iff hplan hs).mpr hlog, htext⟩
  · constructor
    · intro hlog
      exact ⟨hafter.nodes s hlog, (hafter_iff s (hafter.nodes s hlog)).mpr hlog⟩
    · rintro ⟨hs, hdoc⟩
      exact (hafter_iff s hs).mp hdoc
  · obtain ⟨texts, hkeeps, hholds⟩ := hafter.holds
    exact Store.loadAll_run hkeeps (Project.Slot.isFile (σ := .routines source) hsource)
      (hholds source hsource)
  · exact (hafter_iff s hs).mpr (h.done hok s hs)
  · have hlog : ∀ s ∈ p.routines.graph.nodes, s ∈ log := fun s hs =>
      (hbefore_iff s hs).mp (hall s hs)
    refine ⟨h.idle hlog, h.goes.idle hlog, ?_⟩
    -- a question would be about a routine that is not in the list
    have hnone : new = [] := by
      refine eq_nil_iff_forall_not_mem.mpr fun q hq => ?_
      obtain ⟨s, hs, hmissing, -⟩ := hquestions q hq
      exact hmissing (hlog s hs)
    rw [hnew, hnone, append_nil]

/-- **Runs can be taken up again.** For each routine there is one document that it can have, made
from the documents on the routines it calls. After any runs, with any failures of the model and any
order of the tasks of a group, a run adds such documents, those on callees before those on callers;
it asks what a run without failures asks. -/
theorem resumes_of_prepared (h : Prepared p llm) :
    (∀ w, ∃ notes, Runs (ofJobs (jobsOf p.routines.graph)) (traced (work p)) ([], w)
      (((documentRoutines p).run.run w).1, notes, ((documentRoutines p).run.run w).2)) ∧
    ∃ docs, (∀ s ∈ p.routines.graph.nodes, ∀ prompt, promptOf p docs s = .ok prompt →
        Document.ofChapter (titled s (llm prompt)) = .ok (docs s)) ∧
      ∀ start : Folder, start.lookup? p.docs = some (.folder .empty) →
        ∀ w out, Left p llm start w.folder → Attempt p llm w out → Resumes p llm docs w out := by
  refine ⟨fun w => exists_traced_run _ (work p) w, ?_⟩
  obtain ⟨docs, hplan⟩ := h.exists_plan
  refine ⟨docs, fun s hs prompt hprompt => (hplan.made s hs prompt hprompt).1, ?_⟩
  intro start hempty w out hleft hattempt
  obtain ⟨log, hstored⟩ := hleft.stored h hplan hempty
  obtain ⟨log', hadvances⟩ := hattempt.advances h hplan hstored
  exact hadvances.resumes hplan hstored

def trio : Project where
  docs := "docs"
  sources := "src"
  output := "out"
  language := some .cpp
  routines :=
    { graph := ⟨["f", "g", "h"], [("f", "g"), ("f", "h")]⟩
      known := [("f", { symbol := "f", file := "a.c" }),
        ("g", { symbol := "g", file := "a.c" }),
        ("h", { symbol := "h", file := "a.c" })] }

def verdict : String := "#### Description\nx"

lemma layers_trio : trio.routines.graph.isAcyclic = true ∧
    trio.routines.graph.layers = [["g", "h"], ["f"]] := by
  refine Digraph.layers_of_peel ?_
  simp [trio, Digraph.peel, Digraph.ready_eq, Digraph.waiting_eq, Digraph.successors]

lemma prepared_trio : Prepared trio fun _ => verdict := by
  have hclosed : trio.routines.graph.Closed := by
    rw [Digraph.Closed]
    decide +kernel
  have hread : ∀ s ∈ trio.routines.graph.nodes,
      Document.ofChapter (titled s verdict)
        = .ok ({ name := s, description := "x" } : RoutineDoc) := by
    decide +kernel
  have htexts : '\r' ∉ "x".toList ∧ Inner "x".toList := by
    decide +kernel
  refine ⟨hclosed, (Digraph.isAcyclic_iff hclosed).mp layers_trio.1, ?_, ?_, ?_⟩
  · simp only [trio, forall_mem_cons]
    exact ⟨⟨_, rfl, by decide +kernel⟩, ⟨_, rfl, by decide +kernel⟩, ⟨_, rfl, by decide +kernel⟩,
      by simp⟩
  · decide +kernel
  · intro s hs docs prompt hprompt
    refine ⟨_, hread s hs, ?_⟩
    simpa [RoutineDoc.texts, RoutineDoc.fields] using htexts

def firstWorld : World where
  folder := .folder "docs" .empty .empty
  replies := [.failure "busy", .text verdict]

/-- A run in which `h` comes before `g`, and only `g` gets a document. -/
def firstRun : Except Fault Unit × (List (String × World) × World) :=
  runGroups (traced (work trio)) [["h", "g"], ["f"]] ([], firstWorld)

def secondWorld : World where
  folder := firstRun.2.2.folder
  replies := [.timeout, .text verdict, .text verdict]

def secondRun : Except Fault Unit × (List (String × World) × World) :=
  runGroups (traced (work trio)) [["g", "h"], ["f"]] ([], secondWorld)

lemma attempt_trio {groups : List (List String)}
    (hout : out = runGroups (traced (work trio)) groups ([], w))
    (hgroups : List.Forall₂ List.Perm groups [["g", "h"], ["f"]])
    (hreplies : ∀ note ∈ out.2.1, ∀ reply ∈ note.2.replies, ∀ a ∈ Talk.answer? reply, a = verdict) :
    Attempt trio (fun _ => verdict) w out := by
  have hsame : ofJobs (jobsOf trio.routines.graph) = trio.routines.graph := rfl
  constructor
  · rw [hout]
    exact .inGroups layers_trio.1 (layers_trio.2 ▸ hgroups)
  · intro note hnote prompt _ used hused reply hreply
    exact hreplies note hnote reply (hused ▸ mem_append_left _ hreply)

theorem resumes_of_prepared_trio :
    Prepared trio (fun _ => verdict) ∧
    firstWorld.folder.lookup? trio.docs = some (.folder .empty) ∧
    Attempt trio (fun _ => verdict) firstWorld firstRun ∧ firstRun.1 = .error (.reported "busy") ∧
    Attempt trio (fun _ => verdict) secondWorld secondRun ∧ secondRun.1 = .ok () ∧
    ∃ docs, Resumes trio (fun _ => verdict) docs firstWorld firstRun ∧
      Resumes trio (fun _ => verdict) docs secondWorld secondRun ∧
      ∀ s ∈ ["f", "g", "h"], Documented trio docs secondRun.2.2 s := by
  have hone : (∀ note ∈ firstRun.2.1, ∀ reply ∈ note.2.replies, ∀ a ∈ Talk.answer? reply,
      a = verdict) ∧ firstRun.1 = .error (.reported "busy") := by decide +kernel
  have htwo : (∀ note ∈ secondRun.2.1, ∀ reply ∈ note.2.replies, ∀ a ∈ Talk.answer? reply,
      a = verdict) ∧ secondRun.1 = .ok () := by decide +kernel
  have hfirst : Attempt trio (fun _ => verdict) firstWorld firstRun :=
    attempt_trio firstRun.eq_1
      (.cons (List.Perm.swap _ _ _) (.cons (List.Perm.refl _) .nil)) hone.1
  have hsecond : Attempt trio (fun _ => verdict) secondWorld secondRun :=
    attempt_trio secondRun.eq_1
      (.cons (List.Perm.refl _) (.cons (List.Perm.refl _) .nil)) htwo.1
  have hempty : firstWorld.folder.lookup? trio.docs = some (.folder .empty) := rfl
  have hleft : Left trio (fun _ => verdict) firstWorld.folder secondWorld.folder := by
    simp only [secondWorld]
    exact @Left.more _ _ _ firstWorld firstRun .nothing hfirst
  obtain ⟨-, docs, -, hresumes⟩ := resumes_of_prepared prepared_trio
  have hresumed := hresumes _ hempty secondWorld secondRun hleft hsecond
  refine ⟨prepared_trio, hempty, hfirst, hone.2, hsecond, htwo.2, docs,
    hresumes _ hempty firstWorld firstRun .nothing hfirst, hresumed, ?_⟩
  exact hresumed.complete htwo.2

end Generate

end Docsmith

