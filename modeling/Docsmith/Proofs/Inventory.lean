import Docsmith.Proofs.Freeing
import Docsmith.Proofs.Listing
import Docsmith.Proofs.Search

/-! # The functions of a call graph

A call graph has one node for every pair of a space and a name under which some file defines a
function, and it shows the latest of these definitions. So functions of modules with the same name
are merged, and a function named like an anonymous block is lost. The symbols that are functions
after an analysis are those of the definitions that stand (`isFunction_settled`), and these have
different full names (`qualified_inj`). -/

namespace Docsmith.Calls

open List

/-! ## Names -/

lemma isWord_iff {name : String} : isWord name = true ↔ '.' ∉ name.toList := by
  simp [isWord]

lemma qualified_inj {space space' name name' : String} (hname : isWord name = true)
    (hname' : isWord name' = true) (h : qualified space name = qualified space' name') :
    space = space' ∧ name = name' := by
  rw [isWord_iff] at hname hname'
  have hlist : ∀ space name : String,
      (space ++ "." ++ name).toList = space.toList ++ '.' :: name.toList := by simp
  have hdot : ∀ space name : String, '.' ∈ (space ++ "." ++ name).toList := by simp
  rw [qualified, qualified] at h
  split at h
  · split at h
    · rename_i hs hs'
      exact ⟨hs.trans hs'.symm, h⟩
    · rw [h] at hname
      exact absurd (hdot _ _) hname
  · split at h
    · rw [← h] at hname'
      exact absurd (hdot _ _) hname'
    · have hchars := congrArg String.toList h
      rw [hlist, hlist] at hchars
      have hcount := congrArg (List.count '.') hchars
      simp only [count_append, count_cons_self, count_eq_zero_of_not_mem hname,
        count_eq_zero_of_not_mem hname', Nat.add_right_cancel_iff] at hcount
      obtain ⟨hs, hn⟩ := Chars.append_cons_inj hchars hcount
      exact ⟨String.toList_inj.mp hs, String.toList_inj.mp hn⟩

/-! ## Definitions of a program -/

variable {file : String}

lemma Tree.mem_allMade {path : List String} {ts : List Tree} {d : Made} :
    d ∈ Tree.allMade file path ts ↔ ∃ t ∈ ts, d ∈ t.made file path := by
  induction ts with
  | nil => simp [Tree.allMade]
  | cons t ts ih => simp [Tree.allMade, ih]

lemma Tree.isWord_of_mem_made {path : List String} {t : Tree} {d : Made} (ht : t.isProper = true)
    (hd : d ∈ t.made file path) : isWord d.name = true := by
  induction t using Tree.induct generalizing path with
  | group ts ih =>
    rw [Tree.isProper, Tree.allProper_iff] at ht
    rw [Tree.made, Tree.mem_allMade] at hd
    obtain ⟨t, hmem, hd⟩ := hd
    exact ih t hmem (ht t hmem) hd
  | function head decorators defaults body _ _ ih =>
    simp only [Tree.isProper, Bool.and_eq_true, Tree.allProper_iff] at ht
    rw [Tree.made, mem_cons, Tree.mem_allMade] at hd
    rcases hd with rfl | ⟨t, hmem, hd⟩
    · exact ht.1.1.1
    · exact ih t hmem (ht.2 t hmem) hd
  | classDef title bases body _ ih =>
    simp only [Tree.isProper, Bool.and_eq_true, Tree.allProper_iff] at ht
    rw [Tree.made, mem_cons, Tree.mem_allMade] at hd
    rcases hd with rfl | ⟨t, hmem, hd⟩
    · exact ht.1.1
    · exact ih t hmem (ht.2 t hmem) hd
  | _ =>
    rw [Tree.made] at hd
    · cases hd
    all_goals simp

lemma Program.of_mem_made {p : Program} {d : Made} (hd : d ∈ p.made file) :
    ∃ text name source, p.folder.readText file = .ok text ∧ moduleName p.folder file = .ok name ∧
      p.parse text = some source ∧ d ∈ source.made file name := by
  rw [Program.made] at hd
  cases htext : p.folder.readText file with
  | error e =>
    rw [htext] at hd
    cases hd
  | ok text =>
    cases hname : moduleName p.folder file with
    | error e =>
      simp only [htext, hname, bind, Except.bind] at hd
      cases hd
    | ok name =>
      simp only [htext, hname, bind, Except.bind] at hd
      cases hparse : p.parse text with
      | none =>
        rw [hparse] at hd
        cases hd
      | some source =>
        rw [hparse] at hd
        exact ⟨text, name, source, rfl, rfl, hparse, hd⟩

/-- A function that has a node: no later definition has its place, and it is not named like an
anonymous block. -/
structure Made.Stands (d : Made) (ds : List Made) : Prop where
  latest : latest ds d.space d.name = some d
  isFunction : d.origin.isFunction = true
  name : d.name ∉ blockLabels

lemma Documented.of_latest {ds ds' : List Made} {s : State} (hs : Documented ds s)
    (h : ∀ space name, latest ds space name = latest ds' space name) : Documented ds' s where
  indexed := hs.indexed
  held := fun hd => hs.held ((h _ _).trans hd)
  routine := by
    intro id hid
    obtain ⟨d, space, name, hd, hheld⟩ := hs.routine id hid
    exact ⟨d, space, name, (h space name).symm.trans hd, hheld⟩
  seen := hs.seen

lemma documented_start {p : Program} {files : List String} {s : State}
    (h : start p files none = .ok s) : Documented [] s ∧ s.path = [] ∧ s.root = none := by
  obtain ⟨modules, -, rfl⟩ := start_ok_iff.mp h
  refine ⟨⟨⟨?_, ?_⟩, ?_, ?_, ?_⟩, rfl, rfl⟩
  · exact fun hid => absurd hid not_mem_nil
  · exact fun id hid => absurd hid (Nat.not_lt_zero id)
  · exact nofun
  · exact nofun
  · exact fun _ _ hb => absurd hb not_mem_nil

section Settled

variable {ds : List Made} {s s' : State} {id : Id} {d : Made}

lemma State.mem_table_of_named {name : String} (h : id ∈ s.named name) :
    id ∈ s.table.flatMap Prod.snd := by
  rw [State.named] at h
  cases hget : Assoc.get? name s.table with
  | none =>
    rw [hget] at h
    cases h
  | some ids =>
    rw [hget] at h
    exact mem_flatMap.mpr ⟨_, Assoc.mem_of_get? hget, h⟩

lemma Made.Held.settled (hd : d.Held s id) (hs : s.Indexed fun _ => True) (h : Settles s s') :
    (s'.symbol id).fullName = d.fullName ∧ (s'.symbol id).file = some d.file ∧
      (s'.symbol id).origin = some d.origin ∧ id ∈ s'.named d.name := by
  obtain ⟨hlt, hspace, hname⟩ := hs.lt_of_find? hd.found
  obtain ⟨hspace', hname', horigin, hfile, -⟩ := h.symbol id hlt
  refine ⟨?_, hfile.trans hd.file, horigin.trans hd.origin, ?_⟩
  · rw [Symbol.fullName_of_space (hspace'.trans hspace), hname', hname]
    rfl
  · exact h.named _ id (State.find?_some hd.found).1 hd.specific

lemma Documented.settles (hs : Documented ds s) (hrun : settle.run.run s = (.ok (), s')) :
    Settles s s' := by
  obtain ⟨r, t, hrun', -, hleads, -⟩ := does_settle s hs.indexed.titled trivial
  obtain ⟨-, rfl⟩ := Prod.mk.inj (hrun.symm.trans hrun')
  exact hleads

lemma isFunction_settled (hs : Documented ds s) (hrun : settle.run.run s = (.ok (), s')) :
    (s'.symbol id).isFunction = true ↔ ∃ d : Made, d.Stands ds ∧ d.Held s id := by
  have hsettles := hs.settles hrun
  refine ⟨fun hf => ?_, fun hd => ?_⟩
  · have hs' := hsettles.gone id hf
    rw [Symbol.isFunction_eq, Bool.and_eq_true] at hs'
    obtain ⟨d, space, name, hlatest, hheld⟩ := hs.routine id hs'.2
    obtain ⟨-, rfl, rfl⟩ := of_latest hlatest
    refine ⟨d, ⟨hlatest, ?_, fun hlabel => ?_⟩, hheld⟩
    · have hroutine := hs'.2
      rw [Symbol.isRoutine, hheld.origin] at hroutine
      exact hroutine
    · have hlisted := (State.find?_some hheld.found).1
      obtain ⟨r, t, hrun', -, -, hgone, -⟩ :=
        does_settle_of_mem hlabel id s hs.indexed.titled ⟨hlisted, hheld.specific⟩
      obtain ⟨hr, rfl⟩ := Prod.mk.inj (hrun.symm.trans hrun')
      exact Bool.eq_false_iff.mp (hgone () hr.symm) hf
  · obtain ⟨d, hstands, hheld⟩ := hd
    obtain ⟨-, hspace, hname⟩ := hs.indexed.lt_of_find? hheld.found
    refine hsettles.kept id ?_ ?_ (hname.symm ▸ hstands.name)
    · rw [Symbol.isFunction_eq, Symbol.isRoutine, hheld.defined hstands.isFunction, hheld.origin]
      exact hstands.isFunction
    · rw [Symbol.isWild, hspace]
      rfl

end Settled

section Program

variable {p : Program} {files : List String}

variable (hproper : ∀ text source, p.parse text = some source → Tree.allProper source.body = true)

include hproper

lemma Program.isWord_of_mem_made {d : Made} (hd : d ∈ p.made file)
    (hfunction : d.origin.isFunction = true) : isWord d.name = true := by
  obtain ⟨text, name, source, -, -, hparse, hd⟩ := Program.of_mem_made hd
  have hbody := Tree.allProper_iff.mp (hproper text source hparse)
  rcases mem_cons.mp hd with rfl | hd
  · cases hfunction
  · obtain ⟨t, ht, hd⟩ := Tree.mem_allMade.mp hd
    exact Tree.isWord_of_mem_made (hbody t ht) hd

lemma Made.Stands.eq {d d' : Made} (h : d.Stands (files.flatMap p.made))
    (h' : d'.Stands (files.flatMap p.made)) (hname : d.fullName = d'.fullName) : d = d' := by
  have hword : ∀ e : Made, e.Stands (files.flatMap p.made) → isWord e.name = true := by
    intro e he
    obtain ⟨file, -, hmem⟩ := mem_flatMap.mp (of_latest he.latest).1
    exact Program.isWord_of_mem_made hproper hmem he.isFunction
  obtain ⟨hspace, hname⟩ := qualified_inj (hword d h) (hword d' h') hname
  have hlatest := h.latest
  rw [hspace, hname, h'.latest] at hlatest
  exact (Option.some.inj hlatest).symm

lemma documented_of_visited {s : State} (h : p.Visited files s) :
    Documented (files.flatMap p.made) s := by
  obtain ⟨s₀, s₁, s₂, hstart, hfirst, hlines, hsecond⟩ := h
  obtain ⟨hs₀, hpath₀, hroot₀⟩ := documented_start hstart
  obtain ⟨hadds₁, hpath₁, hroot₁⟩ := visitFiles_adds hproper hpath₀ hroot₀ hfirst
  have hquiet := Leads.of_run leads_findLines hlines
  have hs₂ := hquiet.documented _ (hadds₁ [] hs₀)
  obtain ⟨hadds₃, -⟩ := visitFiles_adds hproper (hquiet.path.trans hpath₁)
    ((congrArg Prod.snd hquiet.site).trans hroot₁) hsecond
  refine (hadds₃ _ hs₂).of_latest fun space name => ?_
  -- the second round defines what the first one has defined
  rw [nil_append, latest_append, Option.or_self]

lemma analyse_documented {s' : State} (h : analyse p files none = .ok s') :
    ∃ s, Documented (files.flatMap p.made) s ∧ settle.run.run s = (.ok (), s') := by
  obtain ⟨s, hvisited, hsettle⟩ := analyse_ok_iff.mp h
  exact ⟨s, documented_of_visited hproper hvisited, hsettle⟩

end Program

/-! ## The call graph -/

lemma catalogs_of_run {folder : Folder} {top : String} {s : State} {c : Catalog Routine}
    (h : ((catalog folder top).run.run s).1 = .ok c) : Catalogs folder top s c := by
  have hroutine : ∀ id, (s.symbol id).isFunction = true →
      (listing s fun _ => True).Does (fun _ => True) (routineOf folder top id)
        fun r _ => Describes folder top (s.symbol id) r :=
    fun id hid => does_routineOf hid (does_listing (leads_isVisible id)) fun _ _ => trivial
  obtain ⟨r, s', hrun, -, -, hok, -⟩ := does_catalog hroutine s (Unmoved.refl s) rfl
  rw [hrun] at h
  exact hok c h

/-- A routine shows a definition: its name, its file below the top folder and the text of its
span. -/
structure Made.ShownBy (d : Made) (folder : Folder) (top : String) (r : Routine) : Prop where
  symbol : r.symbol = d.fullName
  file : r.file = Text.stripOf ['/'] (Text.dropStart top d.file)
  code : ∃ text span, folder.readText d.file = .ok text ∧ d.origin.span = some span ∧
    r.code = span.cut (Text.keepLines text)

lemma Describes.shownBy {folder : Folder} {top : String} {x : Symbol} {r : Routine} {d : Made}
    (h : Describes folder top x r) (hname : x.fullName = d.fullName) (hfile : x.file = some d.file)
    (horigin : x.origin = some d.origin) (hfunction : d.origin.isFunction = true) :
    d.ShownBy folder top r := by
  obtain ⟨span, hspan⟩ := Option.isSome_iff_exists.mp hfunction
  obtain ⟨hsymbol, hplace, text, htext, hcode⟩ := h
  rw [hfile] at hplace htext
  rw [horigin, Option.bind_some, hspan] at hcode
  exact ⟨hsymbol.trans hname, hplace, text, span, htext, hspan, hcode⟩

section Graph

variable {p : Program} {top : String} {files : List String} {c : Catalog Routine}

variable (hproper : ∀ text source, p.parse text = some source → Tree.allProper source.body = true)
  (hfiles : programs p.folder top = .ok files) (h : callGraph p top = .ok c)

include hproper hfiles h

lemma callGraph_settled : ∃ s s' c₀, Documented (files.flatMap p.made) s ∧
    settle.run.run s = (.ok (), s') ∧ Catalogs p.folder top s' c₀ ∧
    c = { c₀ with graph := c₀.graph.acyclic } ∧ c.graph.nodes = c₀.graph.nodes := by
  obtain ⟨files', s', c₀, hfiles', hs', hc₀, rfl⟩ := callGraph_ok_iff.mp h
  obtain rfl := Except.ok.inj (hfiles.symm.trans hfiles')
  obtain ⟨s, hs, hsettle⟩ := analyse_documented hproper hs'
  have hcatalogs := catalogs_of_run hc₀
  exact ⟨s, s', c₀, hs, hsettle, hcatalogs, rfl, (Digraph.freed_acyclic hcatalogs.lists.closed).nodes⟩

lemma mem_nodes_callGraph {n : String} : n ∈ c.graph.nodes ↔
    ∃ d : Made, d.Stands (files.flatMap p.made) ∧ d.fullName = n := by
  obtain ⟨s, s', c₀, hs, hsettle, hcatalogs, -, hnodes⟩ := callGraph_settled hproper hfiles h
  have hsettles := hs.settles hsettle
  rw [hnodes]
  constructor
  · intro hn
    obtain ⟨id, r, hid, hname, -, -⟩ := hcatalogs.lists.described n hn
    obtain ⟨d, hstands, hheld⟩ := (isFunction_settled hs hsettle).mp hid
    exact ⟨d, hstands, (hheld.settled hs.indexed hsettles).1.symm.trans hname⟩
  · rintro ⟨d, hstands, rfl⟩
    obtain ⟨id, hheld⟩ := hs.held hstands.latest
    obtain ⟨hname, -, -, hlisted⟩ := hheld.settled hs.indexed hsettles
    rw [← hname]
    exact hcatalogs.nodes id (State.mem_table_of_named hlisted)
      ((isFunction_settled hs hsettle).mpr ⟨d, hstands, hheld⟩)

lemma described_of_stands {d : Made} (hd : d.Stands (files.flatMap p.made)) :
    ∃ s s' id r, Documented (files.flatMap p.made) s ∧ settle.run.run s = (.ok (), s') ∧
      d.Held s id ∧ c.get d.fullName = .ok r ∧ Describes p.folder top (s'.symbol id) r := by
  have hnode := (mem_nodes_callGraph hproper hfiles h).mpr ⟨d, hd, rfl⟩
  obtain ⟨s, s', c₀, hs, hsettle, hcatalogs, rfl, hnodes⟩ := callGraph_settled hproper hfiles h
  rw [hnodes] at hnode
  obtain ⟨id, r, hid, hname, hr, hdescribes⟩ := hcatalogs.lists.described d.fullName hnode
  obtain ⟨d', hstands, hheld⟩ := (isFunction_settled hs hsettle).mp hid
  have hname' := (hheld.settled hs.indexed (hs.settles hsettle)).1
  obtain rfl := hstands.eq hproper hd (hname'.symm.trans hname)
  exact ⟨s, s', id, r, hs, hsettle, hheld, hr, hdescribes⟩

lemma shown_of_stands {d : Made} (hd : d.Stands (files.flatMap p.made)) :
    ∃ r, c.get d.fullName = .ok r ∧ d.ShownBy p.folder top r := by
  obtain ⟨s, s', id, r, hs, hsettle, hheld, hr, hdescribes⟩ := described_of_stands hproper hfiles h hd
  obtain ⟨hname, hfile, horigin, -⟩ := hheld.settled hs.indexed (hs.settles hsettle)
  exact ⟨r, hr, hdescribes.shownBy hname hfile horigin hd.isFunction⟩

end Graph

/-- The nodes of a call graph are the full names of the functions that stand, which no two of them
share, and each node shows its function. -/
theorem callGraph_functions {p : Program} {top : String} {files : List String} {c : Catalog Routine}
    (hproper : ∀ text source, p.parse text = some source → Tree.allProper source.body = true)
    (hfiles : programs p.folder top = .ok files) (h : callGraph p top = .ok c) :
    c.graph.nodes.Nodup ∧
    (∀ n, n ∈ c.graph.nodes ↔ ∃ d : Made, d.Stands (files.flatMap p.made) ∧ d.fullName = n) ∧
    (∀ d d' : Made, d.Stands (files.flatMap p.made) → d'.Stands (files.flatMap p.made) →
      d.fullName = d'.fullName → d = d') ∧
    ∀ d : Made, d.Stands (files.flatMap p.made) →
      ∃ r, c.get d.fullName = .ok r ∧ d.ShownBy p.folder top r := by
  refine ⟨?_, fun n => mem_nodes_callGraph hproper hfiles h, fun d d' hd hd' => hd.eq hproper hd',
    fun d hd => shown_of_stands hproper hfiles h hd⟩
  obtain ⟨_, _, c₀, -, -, hcatalogs, -, hnodes⟩ := callGraph_settled hproper hfiles h
  rw [hnodes]
  exact hcatalogs.lists.nodup

lemma programs_of_found {root : Folder} {top : String} {files : List String}
    (hfound : root.searchFrom ((top ++ "/" ++ Folder.anyDepth ++ "/*.py").length + 1)
      (top ++ "/" ++ Folder.anyDepth ++ "/*.py") false = .ok files)
    (hsorted : files.Pairwise fun a b => (!(b < a)) = true) : programs root top = .ok files := by
  rw [programs, Folder.search, hfound]
  exact congrArg Except.ok (mergeSort_of_pairwise hsorted)

/-! ## Twin files

Two files of the same name in folders that are no packages. -/

/-- Two files that define `f`, with the programs `return 1` and `return 2` for its body. -/
def twins : Program where
  folder := .folder "res"
    (.folder "a" (.file "m.py" (.text "def f():\n    return 1\n") .empty)
      (.folder "b" (.file "m.py" (.text "def f():\n    return 2\n") .empty) .empty)) .empty
  parse := fun _ => some {
    block := .mk "top" ["f"] [.mk "f" [] []]
    body := [.function { name := "f", span := ⟨1, 0, 2, 12⟩ } [] [] [.group [.constant "int"]]] }

lemma programs_twins : programs twins.folder "res" = .ok ["res/a/m.py", "res/b/m.py"] :=
  programs_of_found (by rfl) (by decide)

lemma callGraph_twins : callGraph twins "res" = .ok {
    graph := Digraph.acyclic { nodes := ["m.f"] }
    known := [("m.f", { symbol := "m.f", file := "b/m.py", code := "def f():\n    return 2" })] } :=
  callGraph_of_catalog programs_twins (by decide +kernel)

theorem callGraph_functions_twins : ∃ c r, callGraph twins "res" = .ok c ∧
    "m.f" ∈ c.graph.nodes ∧ c.get "m.f" = .ok r ∧ r.file = "b/m.py" := by
  have hproper : ∀ text source, twins.parse text = some source →
      Tree.allProper source.body = true := by
    rintro text source h
    obtain rfl := Option.some.inj h
    decide
  obtain ⟨-, hnodes, -, hshown⟩ := callGraph_functions hproper programs_twins callGraph_twins
  have hstands : Made.Stands ⟨"m", "f", .ofHead { name := "f", span := ⟨1, 0, 2, 12⟩ }, "res/b/m.py"⟩
      (["res/a/m.py", "res/b/m.py"].flatMap twins.made) :=
    ⟨by decide +kernel, rfl, by decide⟩
  obtain ⟨r, hr, hfile⟩ := hshown _ hstands
  exact ⟨_, r, callGraph_twins, (hnodes "m.f").mpr ⟨_, hstands, rfl⟩, hr,
    hfile.file.trans (by decide +kernel)⟩

/-- Twin functions are merged: there is one node for both, and it does not show the first. -/
theorem twins_merged : ∃ c, callGraph twins "res" = .ok c ∧ c.graph.nodes = ["m.f"] ∧
    (c.get "m.f").toOption.map (fun r => (r.file, r.code))
      = some ("b/m.py", "def f():\n    return 2") := by
  refine ⟨_, callGraph_twins, ?_, rfl⟩
  exact (Digraph.freed_acyclic (g := { nodes := ["m.f"] }) nofun).nodes

end Docsmith.Calls
