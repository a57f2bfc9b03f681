import Docsmith.Proofs.Calm
import Docsmith.Proofs.Inventory

/-! # Programs that can be analysed

The scopes of a program come from a table of its blocks, and where the two know a block under
different names, as inside a comprehension, the analysis fails (`hidden_fails`). Programs whose
blocks are found and that do not use the names of anonymous blocks (`Source.Safe`) have a call graph
(`callGraph_of_safe`): visits leave a sound state (`exists_visited`), settling a calm one
(`settle_goes`), and in that every function is listed (`catalog_goes`). -/

namespace Docsmith.Calls

open Rules

/-! ## Listing -/

lemma Tree.file_of_mem_made {file : String} {path : List String} {t : Tree} {d : Made}
    (hd : d ∈ t.made file path) : d.file = file := by
  induction t using Tree.induct generalizing path with
  | group ts ih =>
    rw [Tree.made, Tree.mem_allMade] at hd
    obtain ⟨t, hmem, hd⟩ := hd
    exact ih t hmem hd
  | function head decorators defaults body _ _ ih | classDef title bases body _ ih =>
    rw [Tree.made, List.mem_cons, Tree.mem_allMade] at hd
    rcases hd with rfl | ⟨t, hmem, hd⟩
    · rfl
    · exact ih t hmem hd
  | _ =>
    rw [Tree.made] at hd
    · cases hd
    all_goals simp

lemma Program.readText_of_mem_made {p : Program} {file : String} {d : Made}
    (hd : d ∈ p.made file) : ∃ text, p.folder.readText d.file = .ok text := by
  obtain ⟨text, name, source, htext, -, -, hd⟩ := Program.of_mem_made hd
  refine ⟨text, ?_⟩
  rcases List.mem_cons.mp hd with rfl | hd
  · exact htext
  · obtain ⟨t, -, hd⟩ := Tree.mem_allMade.mp hd
    rwa [Tree.file_of_mem_made hd]

lemma does_isVisible {s₀ : State} (hs₀ : Calm s₀) {id : Id}
    (hid : (s₀.symbol id).isFunction = true) :
    (listing s₀ fun _ => False).Does (fun _ => True) (isVisible id) fun _ _ => True := by
  have hdefined : (s₀.symbol id).defined = true := by
    rw [Symbol.isFunction_eq, Bool.and_eq_true] at hid
    exact hid.1
  obtain ⟨space, hspace⟩ : ∃ space, (s₀.symbol id).space = some space := by
    cases hspace : (s₀.symbol id).space with
    | some space => exact ⟨space, rfl⟩
    | none =>
      have hundefined := (hs₀.wild id (Option.isNone_iff_eq_none.mpr hspace)).1
      rw [hdefined] at hundefined
      cases hundefined
  have hsymbol : (listing s₀ fun _ => False).Does (fun _ => True) (symbolOf id)
      fun x _ => x.space = some space := by
    refine (does_symbolOf id).gives fun x s hs hx => ?_
    obtain ⟨flavor, heq, -⟩ := Unmoved.symbol hs id (State.lt_of_isFunction hid)
    rw [hx.1, heq]
    exact hspace
  have hfor : ∀ outer name, (listing s₀ fun _ => False).Does (fun _ => True)
      (symbolFor (some outer) name none .unspecified) fun _ _ => True := by
    intro outer name
    refine does_of_run fun s hs _ => ?_
    have hleads : Unmoved s ((symbolFor (some outer) name none .unspecified).run.run s).2 :=
      leads_symbolFor outer name rfl .unspecified s
    rcases symbolFor_run (some outer) name none .unspecified s with ⟨i, -, hrun⟩ | ⟨-, hrun⟩
    · rw [hrun] at hleads
      exact ⟨i, _, hrun, Unmoved.trans hs hleads, trivial, trivial⟩
    · rw [hrun] at hleads
      exact ⟨_, _, hrun, Unmoved.trans hs hleads, trivial, trivial⟩
  have hparent : (listing s₀ fun _ => False).Does (fun _ => True) (parentOf id)
      fun _ _ => True := by
    refine hsymbol.bind_fact fun x hx => ?_
    rw [hx]
    exact hfor _ _
  refine hsymbol.bind_fact fun x _ => ?_
  split
  · exact does_done
  · refine hparent.bind fun outer => (does_symbolOf outer).bind fun _ => ?_
    exact does_done

lemma catalog_goes {folder : Folder} {s : State} (hs : Calm s) (top : String)
    (hread : ∀ id, (s.symbol id).isFunction = true →
      ∃ text, folder.readText ((s.symbol id).file.getD "None") = .ok text) :
    ∃ c, ((catalog folder top).run.run s).1 = .ok c := by
  have hroutine : ∀ id, (s.symbol id).isFunction = true →
      (listing s fun _ => False).Does (fun _ => True) (routineOf folder top id)
        fun r _ => Describes folder top (s.symbol id) r := by
    intro id hid
    refine does_routineOf hid (does_isVisible hs hid) fun e he => ?_
    obtain ⟨text, htext⟩ := hread id hid
    rw [htext] at he
    cases he
  obtain ⟨c, s', hrun, -⟩ := (does_catalog hroutine).run (fun _ h => h) (Unmoved.refl s) rfl
  exact ⟨c, congrArg Prod.fst hrun⟩

/-! ## The call graph -/

lemma catalog_of_analysed {p : Program} {files : List String} {s : State}
    (hproper : ∀ text source, p.parse text = some source → Tree.allProper source.body = true)
    (hanalyse : analyse p files none = .ok s) (hs : Calm s) (top : String) :
    ∃ c, ((catalog p.folder top).run.run s).1 = .ok c := by
  obtain ⟨s', hdocumented, hsettle⟩ := analyse_documented hproper hanalyse
  refine catalog_goes hs top fun id hid => ?_
  obtain ⟨d, hstands, hheld⟩ := (isFunction_settled hdocumented hsettle).mp hid
  rw [(hheld.settled hdocumented.indexed (hdocumented.settles hsettle)).2.1]
  obtain ⟨file, -, hd⟩ := List.mem_flatMap.mp (of_latest hstands.latest).1
  exact Program.readText_of_mem_made hd

/-- Programs that do not use the names of anonymous blocks and whose blocks are all found can be
analysed. -/
theorem callGraph_of_safe {p : Program} {top : String} {files : List String}
    (hproper : ∀ text source, p.parse text = some source → Tree.allProper source.body = true)
    (hfiles : programs p.folder top = .ok files)
    (h : ∀ file ∈ files, ∃ module source, p.Reads file module source ∧ source.Safe module) :
    ∃ c, callGraph p top = .ok c := by
  obtain ⟨s₃, hvisited, hs₃⟩ := exists_visited h
  obtain ⟨s, hsettle, hs⟩ := settle_goes hs₃
  have hanalyse : analyse p files none = .ok s := analyse_ok_iff.mpr ⟨s₃, hvisited, hsettle⟩
  obtain ⟨c, hc⟩ := catalog_of_analysed hproper hanalyse hs top
  exact ⟨_, callGraph_ok_iff.mpr ⟨files, s, c, hfiles, hanalyse, hc, rfl⟩⟩

/-- The program
`class A(B):\n def f(self, zs):\n return all(y for y in map(lambda z: self.g(z), zs))`. -/
def nested : Program where
  folder := .folder "res" (.file "m.py" (.text ("class A(B):\n    def f(self, zs):\n" ++
    "        return all(y for y in map(lambda z: self.g(z), zs))\n")) .empty) .empty
  parse := fun _ => some {
    block := .mk "top" ["A", "B"] [.mk "A" ["f"] [.mk "f" ["self", "zs", "all", "map"]
      [.mk "lambda" ["z", "self"] [], .mk "genexpr" [".0", "y"] []]]]
    body := [.classDef "A" [.name "B" .load] [
      .function { name := "f", params := { ordinary := ["self", "zs"] }, span := ⟨2, 4, 3, 60⟩ } [] []
        [.group [.call (.name "all" .load) [
          .generator
            [.call (.name "map" .load) [
              .lambda { ordinary := ["z"] } []
                (.call (.attribute (.name "self" .load) "g" .load) [.name "z" .load] []),
              .name "zs" .load] []]
            [.name "y" .store] [] [] (.name "y" .load)] []]]]] }

lemma programs_nested : programs nested.folder "res" = .ok ["res/m.py"] :=
  programs_of_found (by rfl) (by decide)

theorem callGraph_of_safe_nested : ∃ c, callGraph nested "res" = .ok c := by
  have hproper : ∀ text source, nested.parse text = some source →
      Tree.allProper source.body = true := by
    rintro text source h
    obtain rfl := Option.some.inj h
    decide
  refine callGraph_of_safe hproper programs_nested fun file hfile => ?_
  obtain rfl := List.mem_singleton.mp hfile
  exact ⟨"m", _, ⟨by decide +kernel, _, rfl, rfl⟩,
    by decide, by decide +kernel, by decide, by decide +kernel⟩

/-- A lambda in a comprehension: the program `x = [lambda: 0 for y in z]`. -/
def hidden : Program where
  folder := .folder "res" (.file "m.py" (.text "x = [lambda: 0 for y in z]\n") .empty) .empty
  parse := fun _ => some {
    block := .mk "top" ["x", "z"] [.mk "listcomp" [".0", "y"] [.mk "lambda" [] []]]
    body := [.group [.bind [.name "x" .store]
      [.group [.lambda {} [] (.constant "int"), .group [.name "y" .store, .name "z" .load]]]]] }

lemma programs_hidden : programs hidden.folder "res" = .ok ["res/m.py"] :=
  programs_of_found (by rfl) (by decide)

/-- The block of the lambda is in that of the comprehension, and the visit looks for it in the
module. -/
theorem hidden_fails : callGraph hidden "res" = .error (.unknownBlock "m.lambda") := by
  rw [callGraph_eq programs_hidden]
  rfl

end Docsmith.Calls
