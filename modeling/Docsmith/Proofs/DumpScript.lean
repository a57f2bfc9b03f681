import Docsmith.Proofs.Dumps
import Docsmith.Proofs.Substitution

/-! # The script and the list of its dumps

A compile database becomes a shell script and a list of the dumps that it writes. Both follow the
entries that are the first for their file. Escaping quotes does not reach across the blanks between
words (`escapeQuotes_join`), so each command names the dump just as the list does
(`commands_aligned`). -/

namespace Docsmith.Build

open List

/-! ## Escaping quotes -/

lemma toList_escapeQuotes (s : String) :
    (escapeQuotes s).toList = Chars.replaceFrom "\\\\\"".toList "\\\"".toList
      (Chars.replaceFrom ['"'] "\\\"".toList s.toList 0) 0 := by
  simp [escapeQuotes, Text.replace, Chars.replace]

lemma escapeQuotes_eq_self {s : String} (h : '"' ∉ s.toList) : escapeQuotes s = s := by
  have hself : ∀ {pat : List Char}, '"' ∈ pat → ∀ rep, Chars.replaceFrom pat rep s.toList 0 = s.toList :=
    fun hpat rep => Chars.replaceFrom_eq_self (fun hin => h (hin.subset hpat)) rep
  rw [← String.toList_inj, toList_escapeQuotes, hself (by decide), hself (by decide)]

lemma escapeQuotes_blank (s t : String) :
    escapeQuotes (s ++ " " ++ t) = escapeQuotes s ++ " " ++ escapeQuotes t := by
  rw [← String.toList_inj]
  simp only [String.toList_append, toList_escapeQuotes, append_assoc]
  have hblank : " ".toList = [' '] := by decide
  rw [hblank, singleton_append, singleton_append,
    Chars.replaceFrom_append_cons (by decide) (by decide),
    Chars.replaceFrom_append_cons (by decide) (by decide)]

lemma escapeQuotes_join (words : List String) :
    escapeQuotes (Text.join " " words) = Text.join " " (words.map escapeQuotes) := by
  induction words with
  | nil => exact escapeQuotes_eq_self (by decide)
  | cons w rest ih =>
    cases rest with
    | nil => rfl
    | cons v rest =>
      rw [map_cons, map_cons, Text.join_cons_cons, escapeQuotes_blank, ih,
        Text.join_cons_cons, map_cons]

/-! ## The entries that count -/

lemma map_file_firsts (seen : List String) (es : List Entry) :
    (firsts seen es).map Entry.file = ((es.map Entry.file).filter (· ∉ seen)).eraseDups := by
  induction es generalizing seen with
  | nil => rfl
  | cons e es ih =>
    rw [firsts, map_cons]
    by_cases he : e.file ∈ seen
    · rw [if_pos he, filter_cons_of_neg (by simpa using he), ih]
    · rw [if_neg he, filter_cons_of_pos (by simpa using he), eraseDups_cons, map_cons, ih,
        filter_filter]
      congr 2
      refine filter_congr fun f _ => ?_
      simp only [mem_cons, not_or, Bool.decide_and, ← bne_iff_ne, Bool.decide_eq_true]
      rfl

lemma find?_of_mem_firsts {seen : List String} {es : List Entry} {e : Entry}
    (he : e ∈ firsts seen es) : es.find? (·.file == e.file) = some e := by
  induction es generalizing seen with
  | nil => exact absurd he not_mem_nil
  | cons d es ih =>
    have hskip : d.file ≠ e.file → es.find? (·.file == e.file) = some e →
        (d :: es).find? (·.file == e.file) = some e := fun hne h => by
      rw [find?_cons_of_neg (by simpa using hne), h]
    have hseen := file_notMem_seen he
    rw [firsts] at he
    split at he
    · rename_i hd
      exact hskip (fun heq => hseen (heq ▸ hd)) (ih he)
    · rcases mem_cons.mp he with rfl | he
      · exact find?_cons_of_pos (by simp)
      · refine hskip (fun heq => file_notMem_seen he ?_) (ih he)
        exact heq ▸ mem_cons_self

/-! ## Blocks -/

/-- A part of the script: a command, the folder it runs in, and the source file it is about. -/
structure Block where
  folder : String
  words : List String
  source : String
deriving Repr, DecidableEq

def Block.lines (b : Block) : List String :=
  ["cd " ++ b.folder,
   Text.join " " b.words ++ " && (",
   "  echo \"[+] succ: " ++ b.source ++ "\"",
   ") || (",
   "  echo \"[-] failed: " ++ b.source ++ "\"",
   "  kill -9 0",
   ")",
   "\n"]

structure Block.Dumps (e : Entry) (b : Block) : Prop where
  folder : b.folder = e.folder
  compiler : b.words.head? = some
    (if Text.lower e.compiler ∈ ["c++", "g++", "cpp", "cxx"] then "$CXX -emit-ast" else "$CC -emit-ast")
  output : ["-o", dumpPath e.folder e.file] <:+: b.words

def IsPlain (s : String) : Prop := '"' ∉ s.toList ∧ '\n' ∉ s.toList

lemma IsPlain.append {s t : String} (hs : IsPlain s) (ht : IsPlain t) : IsPlain (s ++ t) := by
  simp only [IsPlain, String.toList_append, mem_append, not_or]
  exact ⟨⟨hs.1, ht.1⟩, hs.2, ht.2⟩

lemma IsPlain.of_subset {s t : String} (hs : IsPlain s) (h : t.toList ⊆ s.toList) : IsPlain t :=
  ⟨fun hc => hs.1 (h hc), fun hc => hs.2 (h hc)⟩

lemma IsPlain.dumpPath {folder file : String} (hfolder : IsPlain folder) (hfile : IsPlain file) :
    IsPlain (dumpPath folder file) := by
  have hbase : (Path.base file).toList ⊆ file.toList := by
    rw [Path.base, String.toList_ofList]
    exact fun c hc => mem_reverse.mp (takeWhile_subset _ (mem_reverse.mp hc))
  have hname : IsPlain (Path.stem (Path.base file) ++ ".ast") :=
    (hfile.of_subset (List.Subset.trans (stem_subset _) hbase)).append ⟨by decide, by decide⟩
  rw [Build.dumpPath, Path.join]
  split
  · exact hname
  split
  · exact hfolder.append hname
  · exact (hfolder.append ⟨by decide, by decide⟩).append hname

/-- Folder and file are plain, something is compiled, and the output that is asked for is named. -/
structure Entry.Plain (e : Entry) : Prop where
  folder : IsPlain e.folder
  file : IsPlain e.file
  arguments : e.arguments ≠ []
  output : e.NamesOutput

lemma head?_of_sendTo {out file : String} {w : String} {ws ws' : List String} (hw : w ≠ "-o")
    (hws : ws ≠ []) (h : sendTo out file (w :: ws) = some ws') : ws'.head? = some w := by
  rw [sendTo] at h
  split at h
  · rw [setOutput.eq_def] at h
    simp only [beq_eq_false_iff_ne.mpr hw, Bool.false_eq_true, if_false, Option.map_eq_some_iff] at h
    obtain ⟨_, -, rfl⟩ := h
    rfl
  · rw [← Option.some.inj h, dropLast_cons_of_ne_nil hws]
    rfl

def Entry.block (here : String) (e : Entry) : Block :=
  ⟨e.folder, e.command.words.map escapeQuotes, e.source here⟩

lemma lines_command (here : String) (e : Entry) : e.command.lines here = (e.block here).lines := by
  simp only [Command.lines, Block.lines, Entry.block, Entry.source, escapeQuotes_join]
  rfl

lemma Entry.Plain.dumps {e : Entry} (h : e.Plain) (here : String) : (e.block here).Dumps e := by
  obtain ⟨ws, hsend⟩ : ∃ ws, sendTo (dumpPath e.folder e.file) e.file e.words = some ws :=
    Option.ne_none_iff_exists'.mp fun hnone => (sendTo_words_eq_none_iff _ _ e).mp hnone h.output
  have hwords : (e.block here).words = ws.map escapeQuotes := by
    simp only [Entry.block, Entry.command, hsend, Option.getD_some]
  refine ⟨rfl, ?_, ?_⟩
  · have hhead : ws.head? = some (dumper e.compiler) :=
      head?_of_sendTo (dumper_ne _) (by simpa using h.arguments) hsend
    have hplain : '"' ∉ (dumper e.compiler).toList := by
      rw [dumper]
      split <;> decide
    rw [hwords, head?_map, hhead, Option.map_some, escapeQuotes_eq_self hplain, dumper]
    simp only [contains_iff_mem]
  · have hdump := escapeQuotes_eq_self (h.folder.dumpPath h.file).1
    have hmap := (output_of_sendTo hsend).map escapeQuotes
    rw [map_cons, map_singleton, hdump, escapeQuotes_eq_self (by decide)] at hmap
    rwa [hwords]

/-! ## The two files -/

lemma writeScript_run {folder text : String} {w : World} {js : List Json} {cs : List Command}
    (hread : w.folder.readText (folder ++ "/compile_commands.json") = .ok text)
    (hparse : Json.parse text = .ok (.arr js)) (hcs : commands js = .ok cs) :
    (writeScript folder).run.run w = (do
      inFolder (Files.write (folder ++ "/buildast.sh") (script w.here cs))
      inFolder (Files.write (folder ++ "/astList.txt") (dumpList cs)) : Run Unit).run.run w := by
  have hfirst : (inFolder (Files.read (folder ++ "/compile_commands.json"))).run.run w = (.ok text, w) := by
    have hrun := Files.run_ask (·.readText (folder ++ "/compile_commands.json")) w.folder
    rw [hread] at hrun
    rw [run_inFolder, Files.read, hrun]
  rw [writeScript, run_bind_of_ok hfirst, hparse]
  have hsecond : (Run.ofExcept (commands js)).run.run w = (.ok cs, w) := by
    rw [Run.run_ofExcept, hcs]
  rw [run_bind_of_ok hsecond, run_get_bind]

/-- **Script and list agree.** The list has the dump of the first entry for each file of the
database in a line, and the script a block for each line, which runs the compiler in the folder of
that entry and sends the dump to where the line says. -/
theorem commands_aligned {es : List Entry} {js : List Json} (hjs : List.Forall₂ Entry.Given es js)
    (hes : ∀ e ∈ es, e.Plain) :
    ∃ leaders cs, commands js = .ok cs ∧
      (leaders.map Entry.file = (es.map Entry.file).eraseDups ∧
        ∀ e ∈ leaders, es.find? (·.file == e.file) = some e ∧ '\n' ∉ (dumpPath e.folder e.file).toList) ∧
      dumpList cs = Text.join "\n" (leaders.map fun e => dumpPath e.folder e.file) ∧
      (∀ here, ∃ blocks, List.Forall₂ Block.Dumps leaders blocks ∧
        script here cs = Text.join "\n" (blocks.flatMap Block.lines)) ∧
      ∀ (w : World) (folder text : String),
        w.folder.readText (folder ++ "/compile_commands.json") = .ok text →
        Json.parse text = .ok (.arr js) →
        (writeScript folder).run.run w = (do
          inFolder (Files.write (folder ++ "/buildast.sh") (script w.here cs))
          inFolder (Files.write (folder ++ "/astList.txt") (dumpList cs)) : Run Unit).run.run w := by
  have hmem : ∀ e ∈ firsts [] es, e.Plain := fun e he => hes e ((firsts_sublist [] es).subset he)
  have hcs : commands js = .ok ((firsts [] es).map Entry.command) :=
    (commands_ok_iff hjs).mpr ⟨fun e he => (hmem e he).output, rfl⟩
  refine ⟨firsts [] es, _, hcs, ⟨?_, fun e he => ?_⟩, ?_, fun here => ?_, fun w folder text hread hparse =>
    writeScript_run hread hparse hcs⟩
  · rw [map_file_firsts]
    simp
  · exact ⟨find?_of_mem_firsts he, ((hmem e he).folder.dumpPath (hmem e he).file).2⟩
  · rw [dumpList, List.map_map]
    simp only [Function.comp_def, Entry.dump_command]
  · refine ⟨(firsts [] es).map (Entry.block here), ?_, ?_⟩
    · rw [List.forall₂_map_right_iff, List.forall₂_same]
      exact fun e he => (hmem e he).dumps here
    · simp only [script, List.flatMap_map, lines_command]

/-- Three entries for two files, the last of which gives its words as one text. -/
def mixed : List Entry :=
  [⟨"/p", "x/a.c", "G++", ["-o", "'a'"]⟩, ⟨"/r", "x/a.c", "cc", ["-c"]⟩, ⟨"/q", "b.c", "cc", ["b.c"]⟩]

def mixedJson : List Json :=
  (mixed.take 2).map Entry.json ++
    [.obj [("directory", .str "/q"), ("file", .str "b.c"), ("command", .str "cc b.c")]]

lemma given_mixed : List.Forall₂ Entry.Given mixed mixedJson :=
  .cons (Entry.written_json _).given (.cons (Entry.written_json _).given
    (.cons ⟨⟨_, rfl⟩, rfl, rfl, .inr ⟨rfl, _, rfl, by decide⟩⟩ .nil))

lemma plain_mixed : ∀ e ∈ mixed, e.Plain := by
  have hlast : ∀ e ∈ mixed, ∀ a ∈ (e.arguments.map unquote).getLast?, a ≠ "-o" := by decide
  have hplain : ∀ e ∈ mixed, (('"' ∉ e.folder.toList ∧ '\n' ∉ e.folder.toList) ∧
      '"' ∉ e.file.toList ∧ '\n' ∉ e.file.toList) ∧ e.arguments ≠ [] := by decide
  intro e he
  obtain ⟨⟨hfolder, hfile⟩, harguments⟩ := hplain e he
  refine ⟨hfolder, hfile, harguments, fun front hfront => ?_⟩
  exact absurd rfl (hlast e he "-o" (by rw [hfront]; simp))

theorem commands_aligned_mixed : ∃ leaders cs, commands mixedJson = .ok cs ∧
    leaders.map Entry.file = ["x/a.c", "b.c"] ∧
    dumpList cs = Text.join "\n" (leaders.map fun e => dumpPath e.folder e.file) ∧
    ∃ blocks, List.Forall₂ Block.Dumps leaders blocks ∧
      script "/" cs = Text.join "\n" (blocks.flatMap Block.lines) := by
  obtain ⟨leaders, cs, hcs, ⟨hfiles, -⟩, hlist, hscript, -⟩ := commands_aligned given_mixed plain_mixed
  exact ⟨leaders, cs, hcs, hfiles, hlist, hscript "/"⟩

end Docsmith.Build
