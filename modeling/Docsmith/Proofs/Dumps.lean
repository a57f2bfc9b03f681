import Docsmith.Build.Script
import Docsmith.Proofs.NormalPaths

/-! # Whose syntax tree is dumped where

The entries of a compile database are about source files, known by where they lie; of those that
spell the file alike only the first becomes a command; and a dump is named after the file without
its extension. Each source file gets a dump of its own exactly if the three agree
(`commands_eachOwn_iff`). -/

namespace Docsmith.Build

open List

structure Entry where
  folder : String
  file : String
  compiler : String
  arguments : List String
deriving Repr, DecidableEq

namespace Entry

def json (e : Entry) : Json :=
  .obj [("directory", .str e.folder), ("file", .str e.file),
    ("arguments", .arr ((e.compiler :: e.arguments).map .str))]

/-- A JSON value with the fields of an entry, in any order and among others. -/
structure Written (e : Entry) (j : Json) : Prop where
  isObj : ∃ fields, j = .obj fields
  folder : j.field? "directory" = some (.str e.folder)
  file : j.field? "file" = some (.str e.file)
  arguments : j.field? "arguments" = some (.arr ((e.compiler :: e.arguments).map .str))

/-- As `Written`, but the words may also be given as one text that has a blank between them. -/
structure Given (e : Entry) (j : Json) : Prop where
  isObj : ∃ fields, j = .obj fields
  folder : j.field? "directory" = some (.str e.folder)
  file : j.field? "file" = some (.str e.file)
  words : j.field? "arguments" = some (.arr ((e.compiler :: e.arguments).map .str)) ∨
    fieldOf j "arguments" = .null ∧ ∃ command, j.field? "command" = some (.str command) ∧
      Text.splitOn " " command = e.compiler :: e.arguments

lemma Written.given {e : Entry} {j : Json} (h : e.Written j) : e.Given j :=
  ⟨h.isObj, h.folder, h.file, .inl h.arguments⟩

lemma written_json (e : Entry) : e.Written e.json :=
  ⟨⟨_, rfl⟩, rfl, rfl, rfl⟩

lemma forall₂_written_json (es : List Entry) : List.Forall₂ Written es (es.map json) := by
  rw [forall₂_map_right_iff, forall₂_same]
  exact fun e _ => e.written_json

def source (here : String) (e : Entry) : String :=
  Path.absolute here (Path.join e.folder e.file)

def words (e : Entry) : List String :=
  dumper e.compiler :: e.arguments.map unquote

def NamesOutput (e : Entry) : Prop :=
  ∀ front, e.arguments.map unquote = front ++ ["-o"] → "-o" ∈ front

def command (e : Entry) : Command where
  folder := e.folder
  file := e.file
  words := (sendTo (dumpPath e.folder e.file) e.file e.words).getD []

end Entry

def Command.source (here : String) (c : Command) : String :=
  Path.absolute here (Path.join c.folder c.file)

namespace Entry

@[simp] lemma source_command (here : String) (e : Entry) :
    e.command.source here = e.source here := by
  simp only [Command.source, command, source]

@[simp] lemma dump_command (e : Entry) : e.command.dump = dumpPath e.folder e.file := by
  simp only [Command.dump, command]

end Entry

/-! ## One command -/

lemma setOutput_append {out : String} {front : List String} (h : "-o" ∉ front)
    (rest : List String) :
    setOutput out (front ++ "-o" :: rest)
      = rest.head?.map fun _ => front ++ "-o" :: out :: rest.tail := by
  induction front with
  | nil => cases rest <;> rfl
  | cons w front ih =>
    obtain ⟨hw, hfront⟩ := not_or.mp (mem_cons.not.mp h)
    have htest : (w == "-o") = false := beq_eq_false_iff_ne.mpr (Ne.symm hw)
    rw [cons_append, setOutput.eq_def]
    simp only [htest, ih hfront, Option.map_map]
    rfl

lemma output_of_sendTo {out file : String} {ws ws' : List String}
    (h : sendTo out file ws = some ws') : ["-o", out] <:+: ws' := by
  rw [sendTo] at h
  split at h
  · rename_i hcontains
    obtain ⟨front, rest, rfl, hfront⟩ := eq_append_cons_of_mem (contains_iff_mem.mp hcontains)
    rw [setOutput_append hfront, Option.map_eq_some_iff] at h
    obtain ⟨_, -, rfl⟩ := h
    exact ⟨front, rest.tail, by simp⟩
  · rw [← Option.some.inj h]
    exact ⟨ws.dropLast, [file], by simp⟩

lemma dumper_ne (compiler : String) : dumper compiler ≠ "-o" := by
  rw [dumper]
  split <;> decide

lemma sendTo_words_eq_none_iff (out file : String) (e : Entry) :
    sendTo out file e.words = none ↔ ¬ e.NamesOutput := by
  have hmem : e.words.contains "-o" = true ↔ "-o" ∈ e.arguments.map unquote := by
    rw [contains_iff_mem, Entry.words, mem_cons]
    exact or_iff_right (dumper_ne e.compiler).symm
  rw [sendTo]
  split
  · rename_i hcontains
    obtain ⟨front, rest, hargs, hfront⟩ := eq_append_cons_of_mem (hmem.mp hcontains)
    have hwords : e.words = (dumper e.compiler :: front) ++ "-o" :: rest := by
      rw [Entry.words, hargs, cons_append]
    have hnot : "-o" ∉ dumper e.compiler :: front :=
      mem_cons.not.mpr (not_or.mpr ⟨(dumper_ne e.compiler).symm, hfront⟩)
    rw [hwords, setOutput_append hnot, Option.map_eq_none_iff, head?_eq_none_iff]
    constructor
    · rintro rfl hnames
      exact hfront (hnames front hargs)
    · intro hlast
      by_contra hrest
      refine hlast fun front' hargs' => ?_
      -- the first `-o` lies before the last word
      rw [← dropLast_append_getLast hrest, ← cons_append, ← append_assoc] at hargs
      rw [← (append_inj' (hargs.symm.trans hargs') rfl).1]
      simp
  · rename_i hcontains
    rw [hmem] at hcontains
    refine iff_of_false (by simp) (not_not.mpr fun front hargs => ?_)
    exact absurd (hargs ▸ by simp) hcontains

lemma wordsOf_given {e : Entry} {j : Json} (h : e.Given j) : wordsOf j = .ok e.words := by
  have hrest : (e.arguments.map Json.str).mapM (textFor "strip") = .ok e.arguments := by
    rw [mapM_ok_iff, forall₂_map_left_iff, forall₂_same]
    exact fun _ _ => rfl
  obtain hlist | ⟨hnull, command, hcommand, hsplit⟩ := h.words
  · have hfield : fieldOf j "arguments" = .arr ((e.compiler :: e.arguments).map .str) := by
      rw [fieldOf, hlist, Option.getD_some]
    rw [wordsOf, hfield]
    simp only [map_cons, bind, Except.bind, pure, Except.pure, textFor]
    rw [hrest, Entry.words]
  · have hfield : fieldOf j "command" = .str command := by
      rw [fieldOf, hcommand, Option.getD_some]
    rw [wordsOf, hnull, hfield]
    simp only [hsplit, map_cons, bind, Except.bind, pure, Except.pure, textFor]
    rw [hrest, Entry.words]

lemma commandOf_given {e : Entry} {j : Json} (h : e.Given j) {c : Command} :
    commandOf j = .ok c ↔ e.NamesOutput ∧ e.command = c := by
  have hnone := sendTo_words_eq_none_iff (dumpPath e.folder e.file) e.file e
  rw [commandOf, wordsOf_given h, fieldOf, fieldOf, h.file, h.folder]
  simp only [bind, Except.bind, pathOf, Option.getD_some, Entry.command]
  cases hsend : sendTo (dumpPath e.folder e.file) e.file e.words with
  | none => exact iff_of_false (by rintro ⟨⟩) fun hok => hnone.mp hsend hok.1
  | some ws =>
    have hnames : e.NamesOutput := not_not.mp fun hnot => by simp [hnone.mpr hnot] at hsend
    rw [and_iff_right hnames]
    exact Except.ok.injEq _ _ |>.to_iff

/-! ## The first entry for each file -/

/-- The entries whose file is not in `seen` nor spelled as in an entry before. -/
def firsts (seen : List String) : List Entry → List Entry
  | [] => []
  | e :: es => if e.file ∈ seen then firsts seen es else e :: firsts (e.file :: seen) es

lemma commandsFrom_ok_iff {seen : List String} {es : List Entry} {js : List Json}
    (h : List.Forall₂ Entry.Given es js) {cs : List Command} :
    commandsFrom seen js = .ok cs ↔
      (∀ e ∈ firsts seen es, e.NamesOutput) ∧ (firsts seen es).map Entry.command = cs := by
  induction h generalizing seen cs with
  | nil => simp [commandsFrom, firsts]
  | @cons e j es js hj _ ih =>
    obtain ⟨fields, rfl⟩ := hj.isObj
    have hfile : fieldOf (.obj fields) "file" = .str e.file := by
      rw [fieldOf, hj.file, Option.getD_some]
    rw [commandsFrom, firsts]
    simp only [hfile, contains_iff_mem]
    split
    · exact ih
    · rw [forall_mem_cons]
      have hcommand := @commandOf_given e (.obj fields) hj
      have hrest := fun cs => @ih (e.file :: seen) cs
      cases hc : commandOf (.obj fields) with
      | error fault =>
        refine iff_of_false (by rintro ⟨⟩) fun h => ?_
        exact absurd (hc.symm.trans (hcommand.mpr ⟨h.1.1, rfl⟩)) (by simp)
      | ok c =>
        obtain ⟨hnames, rfl⟩ := hcommand.mp hc
        cases hr : commandsFrom (e.file :: seen) js with
        | error fault =>
          refine iff_of_false (by rintro ⟨⟩) fun h => ?_
          exact absurd (hr.symm.trans ((hrest _).mpr ⟨h.1.2, rfl⟩)) (by simp)
        | ok rest =>
          obtain ⟨houtputs, rfl⟩ := (hrest rest).mp hr
          rw [and_iff_right ⟨hnames, houtputs⟩]
          exact Except.ok.injEq _ _ |>.to_iff

lemma firsts_sublist (seen : List String) (es : List Entry) : (firsts seen es).Sublist es := by
  induction es generalizing seen with
  | nil => exact .slnil
  | cons e es ih =>
    rw [firsts]
    split
    · exact (ih seen).cons e
    · exact (ih (e.file :: seen)).cons_cons e

lemma file_notMem_seen {seen : List String} {es : List Entry} {e : Entry}
    (h : e ∈ firsts seen es) : e.file ∉ seen := by
  induction es generalizing seen with
  | nil => exact absurd h not_mem_nil
  | cons d es ih =>
    rw [firsts] at h
    split at h
    · exact ih h
    · rename_i hd
      rcases mem_cons.mp h with rfl | h
      · exact hd
      · exact fun hseen => ih h (mem_cons_of_mem _ hseen)

lemma nodup_firsts (seen : List String) (es : List Entry) :
    ((firsts seen es).map Entry.file).Nodup := by
  induction es generalizing seen with
  | nil => exact nodup_nil
  | cons e es ih =>
    rw [firsts]
    split
    · exact ih seen
    · refine nodup_cons.mpr ⟨fun hmem => ?_, ih _⟩
      obtain ⟨d, hd, hfile⟩ := mem_map.mp hmem
      exact file_notMem_seen hd (hfile ▸ mem_cons_self)

lemma exists_first {seen : List String} {es : List Entry} {e : Entry} (he : e ∈ es)
    (hseen : e.file ∉ seen) : ∃ d ∈ firsts seen es, d.file = e.file := by
  induction es generalizing seen with
  | nil => exact absurd he not_mem_nil
  | cons d es ih =>
    rw [firsts]
    split
    · rename_i hd
      rcases mem_cons.mp he with rfl | he
      · exact absurd hd hseen
      · exact ih he hseen
    · by_cases hfile : e.file = d.file
      · exact ⟨d, mem_cons_self, hfile.symm⟩
      · have hrest : e ∈ es := (mem_cons.mp he).resolve_left fun h => hfile (h ▸ rfl)
        obtain ⟨c, hc, hcfile⟩ := ih hrest (mem_cons.not.mpr (not_or.mpr ⟨hfile, hseen⟩))
        exact ⟨c, mem_cons_of_mem d hc, hcfile⟩

/-! ## A dump for each source file -/

/-- Each source file has one command, and each command a dump of its own. -/
structure EachOwn (here : String) (es : List Entry) (cs : List Command) : Prop where
  served : ∀ e ∈ es, ∃ c ∈ cs, c.source here = e.source here
  asked : ∀ c ∈ cs, ∃ e ∈ es, c.source here = e.source here
  once : (cs.map (Command.source here)).Nodup
  /-- The dump in the list is the one that the command writes. -/
  output : ∀ c ∈ cs, ["-o", c.dump] <:+: c.words
  own : ∀ c ∈ cs, ∀ d ∈ cs, c.source here ≠ d.source here →
    Path.absolute here c.dump ≠ Path.absolute here d.dump

/-- The spelling of a file tells the source files apart, and so does its name without the extension
within a folder. -/
structure ToldApart (here : String) (es : List Entry) : Prop where
  outputs : ∀ e ∈ es, e.NamesOutput
  spelling : ∀ e ∈ es, ∀ d ∈ es, e.file = d.file ↔ e.source here = d.source here
  names : ∀ e ∈ es, ∀ d ∈ es, Path.absolute here e.folder = Path.absolute here d.folder →
    Path.stem (Path.base e.file) = Path.stem (Path.base d.file) → e.source here = d.source here

lemma ToldApart.perm {here : String} {es es' : List Entry} (h : ToldApart here es)
    (hperm : es'.Perm es) : ToldApart here es' where
  outputs e he := h.outputs e (hperm.mem_iff.mp he)
  spelling e he d hd := h.spelling e (hperm.mem_iff.mp he) d (hperm.mem_iff.mp hd)
  names e he d hd := h.names e (hperm.mem_iff.mp he) d (hperm.mem_iff.mp hd)

lemma stem_subset (name : String) : (Path.stem name).toList ⊆ name.toList := by
  rw [Path.stem]
  split
  · exact List.Subset.refl _
  · rename_i d front hdrop
    split
    · exact List.Subset.refl _
    · intro c hc
      rw [String.toList_ofList, mem_reverse] at hc
      have hmem : c ∈ name.toList.reverse := mem_of_mem_drop (hdrop ▸ mem_cons_of_mem d hc)
      exact mem_reverse.mp hmem

lemma slash_notMem_base (file : String) : '/' ∉ (Path.base file).toList := by
  intro hmem
  rw [Path.base, String.toList_ofList, mem_reverse] at hmem
  simpa using mem_takeWhile_imp hmem

lemma isName_dump (file : String) :
    Folder.IsName (Path.stem (Path.base file) ++ ".ast")
      ∧ '/' ∉ (Path.stem (Path.base file) ++ ".ast").toList := by
  have hlong : ∀ s : String, s.length < 4 → Path.stem (Path.base file) ++ ".ast" ≠ s := by
    rintro s hs rfl
    rw [String.length_append, show ".ast".length = 4 by decide] at hs
    omega
  refine ⟨⟨hlong _ (by decide), hlong _ (by decide), hlong _ (by decide)⟩, fun hmem => ?_⟩
  rw [String.toList_append, mem_append] at hmem
  rcases hmem with hmem | hmem
  · exact slash_notMem_base file (stem_subset _ hmem)
  · exact absurd hmem (by decide)

lemma absolute_dumpPath_iff {here folder file folder' file' : String} :
    Path.absolute here (dumpPath folder file) = Path.absolute here (dumpPath folder' file')
      ↔ Path.absolute here folder = Path.absolute here folder'
        ∧ Path.stem (Path.base file) = Path.stem (Path.base file') := by
  rw [dumpPath, dumpPath, Path.absolute_join_iff (isName_dump file).1 (isName_dump file).2
    (isName_dump file').1 (isName_dump file').2, String.append_left_inj]

lemma commands_ok_iff {es : List Entry} {js : List Json} (h : List.Forall₂ Entry.Given es js)
    {cs : List Command} :
    commands js = .ok cs ↔
      (∀ e ∈ firsts [] es, e.NamesOutput) ∧ (firsts [] es).map Entry.command = cs :=
  commandsFrom_ok_iff h

lemma eachOwn_of_toldApart {here : String} {es : List Entry} (h : ToldApart here es) :
    EachOwn here es ((firsts [] es).map Entry.command) := by
  have hmem : ∀ e ∈ firsts [] es, e ∈ es := fun e he => (firsts_sublist [] es).subset he
  refine ⟨fun e he => ?_, ?_, ?_, ?_, ?_⟩
  · obtain ⟨d, hd, hfile⟩ := exists_first he not_mem_nil
    refine ⟨d.command, mem_map_of_mem hd, ?_⟩
    rw [d.source_command, (h.spelling d (hmem d hd) e he).mp hfile]
  · rw [forall_mem_map]
    exact fun e he => ⟨e, hmem e he, e.source_command here⟩
  · rw [map_map]
    refine (nodup_firsts [] es).of_map _ |>.map_on fun e he d hd hsource => ?_
    rw [Function.comp_apply, Function.comp_apply] at hsource
    exact inj_on_of_nodup_map (nodup_firsts [] es) he hd
      ((h.spelling e (hmem e he) d (hmem d hd)).mpr hsource)
  · rw [forall_mem_map]
    intro e he
    cases hsend : sendTo (dumpPath e.folder e.file) e.file e.words with
    | none => exact absurd (h.outputs e (hmem e he)) ((sendTo_words_eq_none_iff _ _ _).mp hsend)
    | some ws =>
      have hwords : e.command.words = ws := by rw [Entry.command, hsend, Option.getD_some]
      rw [hwords]
      exact output_of_sendTo hsend
  · rw [forall_mem_map]
    intro e he
    rw [forall_mem_map]
    intro d hd hsource hdump
    rw [d.source_command] at hsource
    rw [d.dump_command] at hdump
    obtain ⟨hfolder, hname⟩ := absolute_dumpPath_iff.mp hdump
    exact hsource (h.names e (hmem e he) d (hmem d hd) hfolder hname)

section Orders

variable {here : String} {es : List Entry}

/-- Each source file gets a dump of its own, in whatever order the entries come. -/
def AlwaysEachOwn (here : String) (es : List Entry) : Prop :=
  ∀ es', es'.Perm es → ∀ js, List.Forall₂ Entry.Written es' js →
    ∃ cs, commands js = .ok cs ∧ EachOwn here es' cs

lemma AlwaysEachOwn.firsts (h : AlwaysEachOwn here es) {es' : List Entry} (hperm : es'.Perm es) :
    (∀ e ∈ firsts [] es', e.NamesOutput) ∧
      EachOwn here es' ((Build.firsts [] es').map Entry.command) := by
  obtain ⟨cs, hcs, hown⟩ := h es' hperm _ (Entry.forall₂_written_json es')
  obtain ⟨houtputs, rfl⟩ := (commands_ok_iff ((Entry.forall₂_written_json es').imp fun _ _ => Entry.Written.given)).mp hcs
  exact ⟨houtputs, hown⟩

lemma exists_perm_cons_cons {e d : Entry} (he : e ∈ es) (hd : d ∈ es) (hne : d ≠ e) :
    ∃ rest, (e :: d :: rest).Perm es := by
  have hrest : d ∈ es.erase e := (mem_erase_of_ne hne).mpr hd
  exact ⟨(es.erase e).erase d,
    ((perm_cons_erase hrest).symm.cons e).trans (perm_cons_erase he).symm⟩

lemma firsts_cons (e : Entry) (es : List Entry) : firsts [] (e :: es) = e :: firsts [e.file] es := by
  rw [firsts, if_neg not_mem_nil]

lemma firsts_cons_cons {e d : Entry} (hne : d.file ≠ e.file) (es : List Entry) :
    firsts [] (e :: d :: es) = e :: d :: firsts [d.file, e.file] es := by
  rw [firsts_cons, firsts, if_neg (by simpa using hne)]

lemma AlwaysEachOwn.file_eq (h : AlwaysEachOwn here es) {e d : Entry} (he : e ∈ es) (hd : d ∈ es)
    (hsource : e.source here = d.source here) : e.file = d.file := by
  by_contra hne
  obtain ⟨rest, hperm⟩ := exists_perm_cons_cons he hd fun heq => hne (heq ▸ rfl)
  have honce := (h.firsts hperm).2.once
  rw [firsts_cons_cons (Ne.symm hne)] at honce
  simp [hsource] at honce

lemma AlwaysEachOwn.source_eq (h : AlwaysEachOwn here es) {e d : Entry} (he : e ∈ es)
    (hd : d ∈ es) (hfile : e.file = d.file) : e.source here = d.source here := by
  by_cases heq : d = e
  · rw [heq]
  obtain ⟨rest, hperm⟩ := exists_perm_cons_cons he hd heq
  obtain ⟨c, hc, hcd⟩ := (h.firsts hperm).2.served d (by simp)
  obtain ⟨b, hb, rfl⟩ := mem_map.mp hc
  rw [b.source_command] at hcd
  -- the entry that serves `d` spells the file as `e` does, so it is `e`
  have hbes : b ∈ es := hperm.mem_iff.mp ((firsts_sublist [] _).subset hb)
  have hbe : b.file = e.file := (h.file_eq hbes hd hcd).trans hfile.symm
  have hemem : e ∈ Build.firsts [] (e :: d :: rest) := by
    rw [firsts_cons]
    exact mem_cons_self
  rw [← inj_on_of_nodup_map (nodup_firsts [] _) hb hemem hbe, hcd]

lemma AlwaysEachOwn.toldApart (h : AlwaysEachOwn here es) : ToldApart here es := by
  refine ⟨fun e he => ?_, fun e he d hd => ⟨h.source_eq he hd, h.file_eq he hd⟩,
    fun e he d hd hfolder hname => ?_⟩
  · refine (h.firsts (perm_cons_erase he).symm).1 e ?_
    rw [firsts_cons]
    exact mem_cons_self
  · by_contra hsource
    have hne : d.file ≠ e.file := fun hfile => hsource (h.source_eq he hd hfile.symm)
    obtain ⟨rest, hperm⟩ := exists_perm_cons_cons he hd fun heq => hne (heq ▸ rfl)
    have hown := (h.firsts hperm).2.own e.command
    rw [firsts_cons_cons hne] at hown
    refine hown (by simp) d.command (by simp) (by simpa using hsource) ?_
    rw [d.dump_command]
    exact absolute_dumpPath_iff.mpr ⟨hfolder, hname⟩

end Orders

/-- Each source file gets a dump of its own, in whatever order the entries come, exactly if the
entries tell their files apart by the spelling, and by folder and bare name. -/
theorem commands_eachOwn_iff (here : String) (es : List Entry) :
    (∀ es', es'.Perm es → ∀ js, List.Forall₂ Entry.Written es' js →
      ∃ cs, commands js = .ok cs ∧ EachOwn here es' cs) ↔ ToldApart here es := by
  refine ⟨AlwaysEachOwn.toldApart, fun h es' hperm js hjs => ?_⟩
  have htold := h.perm hperm
  refine ⟨_, (commands_ok_iff (hjs.imp fun _ _ => Entry.Written.given)).mpr ⟨fun e he => ?_, rfl⟩, eachOwn_of_toldApart htold⟩
  exact htold.outputs e ((firsts_sublist [] es').subset he)

def namesakes : List Entry :=
  [⟨"/a", "m.c", "cc", ["m.c"]⟩, ⟨"/b", "m.c", "cc", ["m.c"]⟩]

def neighbours : List Entry :=
  [⟨"/p", "x/m.c", "cc", ["x/m.c"]⟩, ⟨"/p", "y/m.c", "cc", ["y/m.c"]⟩]

/-- A source file is lost whose name was seen in another folder, and two files of one name share a
dump. -/
theorem namesakes_lost :
    (namesakes.map (Entry.source "/") = ["/a/m.c", "/b/m.c"]
      ∧ (commands (namesakes.map Entry.json)).map (·.map (Command.source "/")) = .ok ["/a/m.c"])
    ∧ neighbours.map (Entry.source "/") = ["/p/x/m.c", "/p/y/m.c"]
      ∧ (commands (neighbours.map Entry.json)).map dumpList = .ok "/p/m.ast\n/p/m.ast" := by
  refine ⟨⟨by decide, ?_⟩, by decide, ?_⟩
  · rfl
  · rfl

end Docsmith.Build

