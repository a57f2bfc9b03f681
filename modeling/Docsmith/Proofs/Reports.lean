import Docsmith.Proofs.Documents
import Docsmith.Service.Comparison

/-! # Reports that are described

A report holds the lists of a document as texts with one bullet a line, and the comparison takes
them apart again without loss (`itemsIn_bullets`). So what a report says about its software is the
text of the repository's own document, followed by name and description of every module. -/

namespace Docsmith.Service

open Chapter List

/-! ## Lists in a report -/

/-- An item that a report can hold: one line, with neither a mark nor a blank around it. -/
@[mk_iff]
structure IsBare (x : String) : Prop where
  line : ∀ c ∈ x.toList, Chars.isLineBreak c = false
  trimmed : Text.stripOf ['-', ' '] x = x

-- only the characters of the item are looked at, not all that there are
instance (x : String) : Decidable (IsBare x) :=
  haveI := List.decidableBAll (fun c => Chars.isLineBreak c = false) x.toList
  decidable_of_iff _ (isBare_iff x).symm

def itemsIn (text : String) : List String :=
  (Text.splitLines text).map (Text.stripOf ['-', ' '])

lemma itemsIn_eq (text : String) :
    itemsIn text = (Chars.splitLines text.toList).map fun l =>
      String.ofList (Chars.trim isItemMark l) := by
  rw [itemsIn, Text.splitLines, map_map]
  refine map_congr_left fun l _ => ?_
  rw [Function.comp_apply, Text.stripOf, String.toList_ofList]
  rfl

lemma IsBare.unbullet {x : String} (hx : IsBare x) :
    String.ofList (Chars.trim isItemMark ('-' :: ' ' :: x.toList)) = x := by
  rw [Chars.trim_cons_of_pos (by decide), Chars.trim_cons_of_pos (by decide)]
  exact hx.trimmed

lemma map_splitLines_itemLines {xs : List String} (hxs : ∀ x ∈ xs, IsBare x) (cs : List Char) :
    (Chars.splitLines (itemLines xs ++ cs)).map (fun l => String.ofList (Chars.trim isItemMark l))
      = xs ++ (Chars.splitLines cs).map fun l => String.ofList (Chars.trim isItemMark l) := by
  induction xs with
  | nil => rfl
  | cons x xs ih =>
    obtain ⟨hx, hrest⟩ := forall_mem_cons.mp hxs
    have hlines : itemLines (x :: xs) ++ cs
        = '-' :: ' ' :: x.toList ++ '\n' :: (itemLines xs ++ cs) := by
      simp [itemLines]
    rw [hlines, Chars.splitLines_append_newline (item_line hx.line), map_cons, hx.unbullet,
      ih hrest, cons_append]

lemma itemsIn_bullets {xs : List String} (hxs : ∀ x ∈ xs, IsBare x) :
    itemsIn (bullets xs) = xs := by
  -- the last item has no line end after it, so it is taken off first
  induction xs using List.reverseRecOn with
  | nil => rfl
  | append_singleton xs x _ =>
    have hx : IsBare x := hxs x (by simp)
    rw [itemsIn_eq, toList_bullets_concat,
      map_splitLines_itemLines fun y hy => hxs y (mem_append_left [x] hy),
      Chars.splitLines_line (item_line hx.line) (by simp), map_singleton, hx.unbullet]

lemma list_some (xs : List String) : Report.list (some xs) = .ok (.str (bullets xs)) := rfl

lemma itemsAt_eq {v : Json} {name text : String} (h : v.field? name = some (.str text)) :
    itemsAt v name = .ok (itemsIn text) := by
  rw [itemsAt, needed, h]
  rfl

/-! ## Documents in a report -/

def IsObject (v : Json) : Prop :=
  ∃ fields, v = .obj fields

lemma repositoryOf_ofRepository {name description : String}
    {features standards scenarios : List String}
    (hitems : ∀ x ∈ features ++ standards ++ scenarios, IsBare x) :
    ∃ v, Report.ofRepository ⟨name, description, features, standards, scenarios⟩ = .ok v ∧
      IsObject v ∧
      repositoryOf v = .ok ⟨name, description, features, standards, scenarios⟩ := by
  simp only [forall_mem_append] at hitems
  obtain ⟨⟨hfeatures, hstandards⟩, hscenarios⟩ := hitems
  refine ⟨_, rfl, ⟨_, rfl⟩, ?_⟩
  rw [repositoryOf, itemsAt_eq rfl, itemsAt_eq rfl, itemsAt_eq rfl, itemsIn_bullets hfeatures,
    itemsIn_bullets hstandards, itemsIn_bullets hscenarios]
  rfl

def inShort (m : ModuleDoc) : String :=
  "### " ++ m.name ++ "\n" ++ "#### Description" ++ "\n" ++ m.description ++ "\n\n\n"

lemma inShort_eq (m : ModuleDoc) : inShort m = head m.name m.description ++ "\n" := by
  have htail : "\n\n\n" = "\n\n" ++ "\n" := rfl
  have hheader : "#### Description" = "#### " ++ "Description" := rfl
  simp only [inShort, Chapter.head, writeSection, htail, hheader, String.append_assoc]

def moduleText (v : Json) : Except Fault String := do
  return (← Document.markdown (← moduleOf v)) ++ "\n"

lemma moduleText_eq {v : Json} {name description : String}
    (h : moduleOf v = .ok ⟨name, description, none, some []⟩) :
    moduleText v = .ok (head name description ++ "\n") := by
  have hmarkdown : Document.markdown (⟨name, description, none, some []⟩ : ModuleDoc)
      = .ok (head name description) := by
    rw [Document.markdown]
    show Except.ok (head name description ++ Text.strip ("" ++ "")) = _
    rw [String.append_empty, show Text.strip "" = "" from rfl, String.append_empty]
  rw [moduleText, h]
  show (Document.markdown (⟨name, description, none, some []⟩ : ModuleDoc) >>= fun text =>
    Except.ok (text ++ "\n")) = _
  rw [hmarkdown]
  rfl

lemma moduleText_ofModule {m : ModuleDoc} {functions : List String}
    (h : m.functions = some functions) :
    ∃ v, Report.ofModule m = .ok v ∧ IsObject v ∧ moduleText v = .ok (inShort m) := by
  refine ⟨.obj [("name", .str m.name), ("description", .str m.description),
    ("example", .ofStr? m.usage), ("functions", .str (bullets functions))], ?_, ⟨_, rfl⟩, ?_⟩
  · rw [Report.ofModule, h, list_some]
    rfl
  · rw [inShort_eq]
    apply moduleText_eq
    rw [moduleOf, itemsAt_eq rfl]
    rfl

lemma mapM_moduleText {ms : List ModuleDoc}
    (hmodules : ∀ m ∈ ms, ∃ functions, m.functions = some functions) :
    ∃ vs, ms.mapM Report.ofModule = .ok vs ∧ (∀ v ∈ vs, IsObject v) ∧
      vs.mapM moduleText = .ok (ms.map inShort) := by
  induction ms with
  | nil => exact ⟨[], rfl, by simp, rfl⟩
  | cons m ms ih =>
    obtain ⟨⟨functions, hm⟩, hrest⟩ := forall_mem_cons.mp hmodules
    obtain ⟨vs, hwrite, hobjects, hread⟩ := ih hrest
    obtain ⟨v, hv, hobject, hback⟩ := moduleText_ofModule hm
    refine ⟨v :: vs, ?_, forall_mem_cons.mpr ⟨hobject, hobjects⟩, ?_⟩
    · rw [mapM_cons, hv, hwrite]
      rfl
    · rw [mapM_cons, hback, hread]
      rfl

/-! ## The whole report -/

lemma objects_eq {v : Json} {name : String} {vs : List Json}
    (h : v.field? name = some (.arr vs)) (hvs : ∀ v ∈ vs, IsObject v) :
    Report.objects v name = .ok vs := by
  have hall : ∀ (check : Json → Except Fault Unit) (ws : List Json),
      (∀ v ∈ ws, check v = .ok ()) → ws.forM check = .ok () := by
    intro check ws hws
    induction ws with
    | nil => rfl
    | cons v ws ih =>
      obtain ⟨hv, hrest⟩ := forall_mem_cons.mp hws
      rw [List.forM, hv]
      exact ih hrest
  rw [Report.objects, h]
  refine congrArg (· >>= fun _ => Except.ok vs) (hall _ vs fun v hv => ?_)
  obtain ⟨fields, rfl⟩ := hvs v hv
  rfl

lemma ofJson_toJson {r : Report} (hfunctions : ∀ v ∈ r.functions, IsObject v)
    (hclasses : ∀ v ∈ r.classes, IsObject v) (hmodules : ∀ v ∈ r.modules, IsObject v)
    (hrepo : ∀ v ∈ r.repo, IsObject v) : Report.ofJson r.toJson = .ok r := by
  rw [Report.ofJson, objects_eq rfl hfunctions, objects_eq rfl hclasses, objects_eq rfl hmodules,
    objects_eq rfl hrepo]
  rfl

lemma describe_eq {r : Report} {v : Json} {vs : List Json} {d : RepositoryDoc} {text : String}
    {modules : List String} (hrepo : r.repo = v :: vs) (hd : repositoryOf v = .ok d)
    (htext : Document.markdown d = .ok text) (hmodules : r.modules.mapM moduleText = .ok modules) :
    describe r = .ok (text ++ "\n" ++ Text.join "" modules) := by
  rw [describe, hrepo]
  show (repositoryOf v >>= fun d => Document.markdown d >>= fun text =>
    r.modules.mapM moduleText >>= fun modules =>
      Except.ok (text ++ "\n" ++ Text.join "" modules)) = _
  rw [hd]
  show (Document.markdown d >>= _) = _
  rw [htext, hmodules]
  rfl

def reportOn (routines : List RoutineDoc) (records : List RecordDoc) (modules : List ModuleDoc)
    (repository : RepositoryDoc) : Except Fault Report := do
  let modules ← modules.mapM Report.ofModule
  let repo ← Report.ofRepository repository
  return {
    functions := routines.map Report.ofRoutine, classes := records.map Report.ofRecord, modules,
    repo := [repo] }

/-- **A report says what the documents say**: the text of the repository's document and then every
module in short, in order, if the lists of the repository are set with bare items and the functions
of every module are set. -/
theorem describe_reportOn (routines : List RoutineDoc) (records : List RecordDoc)
    {modules : List ModuleDoc} {repository : RepositoryDoc}
    {features standards scenarios : List String}
    (hfeatures : repository.features = some features)
    (hstandards : repository.standards = some standards)
    (hscenarios : repository.scenarios = some scenarios)
    (hitems : ∀ x ∈ features ++ standards ++ scenarios, IsBare x)
    (hmodules : ∀ m ∈ modules, ∃ functions, m.functions = some functions) :
    ∃ report text, reportOn routines records modules repository = .ok report ∧
      Report.ofJson report.toJson = .ok report ∧
      Document.markdown repository = .ok text ∧
      describe report = .ok (text ++ "\n" ++ Text.join "" (modules.map inShort)) := by
  obtain ⟨name, description, _, _, _⟩ := repository
  subst hfeatures hstandards hscenarios
  obtain ⟨repo, hrepo, hobject, hback⟩ := repositoryOf_ofRepository hitems
  obtain ⟨vs, hwrite, hobjects, hread⟩ := mapM_moduleText hmodules
  refine ⟨⟨routines.map Report.ofRoutine, records.map Report.ofRecord, vs, [repo]⟩, _, ?_, ?_,
    rfl, ?_⟩
  · rw [reportOn, hwrite, hrepo]
    rfl
  · apply ofJson_toJson _ _ hobjects (by simpa using hobject)
    · rintro v hv
      obtain ⟨d, -, rfl⟩ := List.mem_map.mp hv
      exact ⟨_, rfl⟩
    · rintro v hv
      obtain ⟨d, -, rfl⟩ := List.mem_map.mp hv
      exact ⟨_, rfl⟩
  · exact describe_eq rfl hback rfl hread

/-- A repository with an empty item, one with a mark inside and an empty list. -/
def sampleRepository : RepositoryDoc :=
  ⟨"r", "on r", some ["", "a - b"], some [], some ["x"]⟩

def sampleModule : ModuleDoc :=
  ⟨"m", "on m", some "use it", some ["f()", "g()"]⟩

theorem describe_sample :
    (∀ x ∈ ["", "a - b"] ++ [] ++ ["x"], IsBare x) ∧
    ∃ report text, reportOn [] [] [sampleModule] sampleRepository = .ok report ∧
      Report.ofJson report.toJson = .ok report ∧
      Document.markdown sampleRepository = .ok text ∧
      describe report = .ok (text ++ "\n" ++ Text.join "" [inShort sampleModule]) :=
  have hitems : ∀ x ∈ ["", "a - b"] ++ [] ++ ["x"], IsBare x := by decide
  ⟨hitems, describe_reportOn [] [] rfl rfl rfl hitems
    fun _ hm => ⟨["f()", "g()"], by rw [List.mem_singleton.mp hm]; rfl⟩⟩

end Docsmith.Service
