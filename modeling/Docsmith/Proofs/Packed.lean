import Docsmith.Archive
import Docsmith.Proofs.Paving
import Docsmith.Proofs.Trees

/-! # What was packed is there when it is unpacked

`treeAt` says what a set of files and folders has at each path. Unpacking places one member after
the other, each with the folders above it (`Placed`), so in the end the whole tree is there,
whatever the format and the order (`contents_packed`). -/

namespace Docsmith

open List

/-- A file or folder to be packed: the names that lead to it, and what it holds unless it is a
folder. -/
structure Item where
  path : List String
  content : Option Content
deriving Repr, DecidableEq

namespace Archive

open Folder Docsmith.Path

/-! ## Trees of items -/

/-- What some items have at a path: a file, or a folder that is one of them or lies above one. -/
def treeAt (items : List Item) (x : List String) : Option (Option Content) :=
  match items.find? fun i => i.path == x && i.content.isSome with
  | some i => some i.content
  | none => if x.isEmpty || items.any (x.isPrefixOf ·.path) then some none else none

/-- Files and folders with distinct names in normal form, no name being that of both. -/
structure IsTree (items : List Item) : Prop where
  inside : ∀ i ∈ items, i.path ≠ []
  names : ∀ i ∈ items, ∀ n ∈ i.path, IsName n ∧ '/' ∉ n.toList
  distinct : (items.map Item.path).Nodup
  /-- A file is not above anything. -/
  solid : ∀ i ∈ items, ∀ j ∈ items, i.content.isSome → i.path <+: j.path → i = j

section Tree

variable {items : List Item} {x : List String}

lemma eq_of_path_eq (hdistinct : (items.map Item.path).Nodup) {i j : Item} (hi : i ∈ items)
    (hj : j ∈ items) (h : i.path = j.path) : i = j :=
  inj_on_of_nodup_map hdistinct hi hj h

lemma treeAt_file (hdistinct : (items.map Item.path).Nodup) {c : Content} :
    treeAt items x = some (some c) ↔ ⟨x, some c⟩ ∈ items := by
  rw [treeAt]
  cases hfind : items.find? fun i => i.path == x && i.content.isSome with
  | some i =>
    have hmem := mem_of_find?_eq_some hfind
    have htest := List.find?_some hfind
    simp only [Bool.and_eq_true, beq_iff_eq] at htest
    obtain ⟨rfl, -⟩ := htest
    constructor
    · intro h
      rw [← Option.some.inj h]
      exact hmem
    · intro h
      rw [eq_of_path_eq hdistinct hmem h rfl]
  | none =>
    rw [find?_eq_none] at hfind
    refine iff_of_false ?_ fun h => hfind _ h (by simp)
    dsimp only
    split
    · intro h
      cases h
    · intro h
      cases h

lemma treeAt_folder : treeAt items x = some none ↔
    (∀ c, ⟨x, some c⟩ ∉ items) ∧ (x = [] ∨ ∃ i ∈ items, x <+: i.path) := by
  rw [treeAt]
  cases hfind : items.find? fun i => i.path == x && i.content.isSome with
  | some i =>
    have hmem := mem_of_find?_eq_some hfind
    have htest := List.find?_some hfind
    simp only [Bool.and_eq_true, beq_iff_eq] at htest
    obtain ⟨rfl, hsome⟩ := htest
    obtain ⟨c, hc⟩ := Option.isSome_iff_exists.mp hsome
    refine iff_of_false (by simp [hc]) fun h => h.1 c ?_
    rw [← hc]
    exact hmem
  | none =>
    rw [find?_eq_none] at hfind
    have hno : ∀ c, ⟨x, some c⟩ ∉ items := fun c h => hfind _ h (by simp)
    simp only [Bool.or_eq_true, List.isEmpty_iff, any_eq_true, isPrefixOf_iff_prefix]
    constructor
    · intro h
      split at h
      · rename_i hin
        exact ⟨hno, hin⟩
      · cases h
    · rintro ⟨-, hin⟩
      rw [if_pos hin]

lemma treeAt_cons {i : Item}
    (hfiles : ∀ j ∈ items, j.content.isSome → ¬ j.path <+: i.path) :
    treeAt (i :: items) x = if x = i.path then some i.content
      else if x <+: i.path then some none else treeAt items x := by
  have hnone : x <+: i.path → ∀ c, ⟨x, some c⟩ ∉ items := fun hpre c hmem => hfiles _ hmem rfl hpre
  by_cases hx : x = i.path
  · rw [if_pos hx]
    cases hc : i.content with
    | some c =>
      rw [treeAt, find?_cons_of_pos (by simp [hx, hc])]
      exact congrArg some hc
    | none =>
      refine treeAt_folder.mpr
        ⟨fun c hmem => ?_, Or.inr ⟨i, mem_cons_self, hx ▸ prefix_rfl⟩⟩
      rcases mem_cons.mp hmem with rfl | hmem
      · cases hc
      · exact hnone (hx ▸ prefix_rfl) c hmem
  · rw [if_neg hx]
    have hother : ∀ c, (⟨x, some c⟩ : Item) ≠ i := fun c h => hx (by rw [← h])
    by_cases hpre : x <+: i.path
    · rw [if_pos hpre]
      refine treeAt_folder.mpr ⟨fun c hmem => ?_, Or.inr ⟨i, mem_cons_self, hpre⟩⟩
      rcases mem_cons.mp hmem with heq | hmem
      · exact hother c heq
      · exact hnone hpre c hmem
    · rw [if_neg hpre, treeAt, treeAt, find?_cons_of_neg (by simp [Ne.symm hx]),
        any_cons, Bool.eq_false_iff.mpr (mt isPrefixOf_iff_prefix.mp hpre),
        Bool.false_or]

end Tree

/-! ## Members -/

def memberOf (packing : Packing) (i : Item) : Member :=
  let name := Text.join "/" i.path
  match packing, i.content with
  | .zip, none => ⟨name ++ "/", none⟩
  | _, c => ⟨name, c⟩

lemma parts_joined {ps : List String} (hne : ps ≠ []) (h : ∀ p ∈ ps, '/' ∉ p.toList) :
    parts (Text.join "/" ps) = ps := by
  induction ps with
  | nil => exact absurd rfl hne
  | cons p ps ih =>
    obtain ⟨hp, hps⟩ := forall_mem_cons.mp h
    cases ps with
    | nil =>
      rw [Text.join_singleton, parts_eq, pieces_of_notMem hp, map_singleton,
        String.ofList_toList]
    | cons q ps =>
      rw [Text.join_cons_cons, parts_slash hp, ih (cons_ne_nil _ _) hps]

lemma collapse_names {ns : List String} (hns : ∀ n ∈ ns, IsName n) (rooted : Bool)
    (acc : List String) : collapse rooted acc ns = ns.reverse ++ acc := by
  induction ns generalizing acc with
  | nil => rfl
  | cons n ns ih =>
    obtain ⟨hn, hns⟩ := forall_mem_cons.mp hns
    simp only [collapse, hn.tests.1, hn.tests.2, Bool.false_eq_true, if_false]
    rw [ih hns, reverse_cons, append_assoc, singleton_append]

lemma normalize_joined {ps : List String} (hne : ps ≠ [])
    (h : ∀ p ∈ ps, IsName p ∧ '/' ∉ p.toList) :
    normalize (Text.join "/" ps) = Text.join "/" ps := by
  have hparts := parts_joined hne fun p hp => (h p hp).2
  have hrelative : isAbsolute (Text.join "/" ps) = false :=
    Store.isAbsolute_eq_false fun hempty => (h "" (hparts ▸ hempty)).1.1 rfl
  have hdouble : Text.startsWith "//" (Text.join "/" ps) = false := by
    rw [Bool.eq_false_iff] at hrelative ⊢
    intro hpre
    refine hrelative ( isPrefixOf_iff_prefix.mpr ?_)
    have htwo := isPrefixOf_iff_prefix.mp hpre
    exact (by decide : "/".toList <+: "//".toList).trans htwo
  have hfull : (Text.join "/" ps).isEmpty = false := by
    rw [Bool.eq_false_iff, ne_eq, String.isEmpty_iff]
    intro hempty
    rw [hempty] at hparts
    exact (h "" (hparts ▸ mem_singleton_self "")).1.1 rfl
  simp only [Path.normalize, hdouble, hrelative, hparts, collapse_names (fun p hp => (h p hp).1),
    append_nil, reverse_reverse, Bool.false_and, Bool.false_eq_true, if_false, hfull, Bool.and_false,
    String.empty_append]

section Member

variable {packing : Packing} {i : Item}

lemma memberOf_content (packing : Packing) (i : Item) :
    (memberOf packing i).content = i.content := by
  obtain ⟨path, content⟩ := i
  cases packing with
  | zip =>
    cases content with
    | none | some c => rfl
  | tar => rfl

lemma memberOf_name (packing : Packing) (i : Item) :
    (memberOf packing i).name = Text.join "/" i.path ∧ ¬ (packing = .zip ∧ i.content = none) ∨
      (memberOf packing i).name = Text.join "/" i.path ++ "/" ∧ packing = .zip ∧
        i.content = none := by
  obtain ⟨path, content⟩ := i
  cases packing with
  | zip =>
    cases content with
    | none => exact Or.inr ⟨rfl, rfl, rfl⟩
    | some c => exact Or.inl ⟨rfl, by simp⟩
  | tar => exact Or.inl ⟨rfl, by simp⟩

lemma parts_append_slash (s : String) : parts (s ++ "/") = parts s ++ [""] := by
  have hslash : "/".toList = ['/'] := by simp
  rw [parts_eq, String.toList_append, hslash, pieces_append, map_append]
  rfl

variable (hne : i.path ≠ []) (hnames : ∀ n ∈ i.path, IsName n ∧ '/' ∉ n.toList)

include hne hnames

lemma solid_parts_name : solid (parts (memberOf packing i).name) = i.path := by
  have hparts := parts_joined hne fun n hn => (hnames n hn).2
  have hsolid : solid i.path = i.path :=
    List.filter_eq_self.mpr fun n hn => by simpa using (hnames n hn).1.1
  rcases memberOf_name packing i with ⟨hname, -⟩ | ⟨hname, -⟩
  · rw [hname, hparts, hsolid]
  · rw [hname, parts_append_slash, hparts, solid_append, hsolid]
    exact append_nil _

lemma isFolder_memberOf : isFolder packing (memberOf packing i) = i.content.isNone := by
  cases packing with
  | tar => rw [isFolder, memberOf_content]
  | zip =>
    rw [isFolder]
    rcases memberOf_name .zip i with ⟨hname, hfile⟩ | ⟨hname, -, hfolder⟩
    · have hparts : parts (Text.join "/" i.path) = i.path.dropLast ++ [i.path.getLast hne] := by
        rw [parts_joined hne fun n hn => (hnames n hn).2, dropLast_append_getLast]
      rw [hname, endsWith_eq_false hparts (hnames _ (getLast_mem hne)).1.1]
      cases hc : i.content with
      | none => exact absurd ⟨rfl, hc⟩ hfile
      | some c => rfl
    · rw [hname, hfolder]
      exact endsWith_slash_iff.mpr ⟨(Text.join "/" i.path).toList, by simp⟩

lemma target_memberOf :
    target packing scratch (memberOf packing i).name = Text.join "/" (scratch :: i.path) := by
  obtain ⟨q, qs, hpath⟩ := exists_cons_of_ne_nil hne
  have hall : ∀ n ∈ scratch :: i.path, IsName n ∧ '/' ∉ n.toList := by
    rw [forall_mem_cons]
    exact ⟨by decide, hnames⟩
  have hrelative : isAbsolute (Text.join "/" i.path) = false := by
    apply Store.isAbsolute_eq_false
    rw [parts_joined hne fun n hn => (hnames n hn).2]
    exact fun h => (hnames "" h).1.1 rfl
  have hjoin : join scratch (Text.join "/" i.path) = Text.join "/" (scratch :: i.path) := by
    rw [join, hrelative, hpath, Text.join_cons_cons]
    rfl
  cases packing with
  | tar =>
    have hname : (memberOf .tar i).name = Text.join "/" i.path := rfl
    have hparts : parts (Text.join "/" (scratch :: i.path))
        = (scratch :: i.path.dropLast) ++ [i.path.getLast hne] := by
      rw [parts_joined (cons_ne_nil _ _) fun n hn => (hall n hn).2, cons_append,
        dropLast_append_getLast]
    rw [target, hname, hjoin, trimmed_eq_self
      (endsWith_eq_false hparts (hnames _ (getLast_mem hne)).1.1)]
  | zip =>
    have htests : ∀ n ∈ i.path, (!(n.isEmpty || n == "." || n == "..")) = true := by
      intro n hn
      rw [(hnames n hn).1.tests.1, (hnames n hn).1.tests.2]
      rfl
    have hkept : ((parts (memberOf .zip i).name).filter fun p =>
        !(p.isEmpty || p == "." || p == "..")) = i.path := by
      have hsolid : ∀ ps : List String, (ps.filter fun p =>
          !(p.isEmpty || p == "." || p == ".."))
            = (solid ps).filter fun p => !(p.isEmpty || p == "." || p == "..") := by
        intro ps
        rw [solid, filter_filter]
        refine filter_congr fun p _ => ?_
        cases p.isEmpty with
        | true => rfl
        | false => rw [Bool.not_false, Bool.and_true]
      rw [hsolid, solid_parts_name hne hnames, List.filter_eq_self.mpr htests]
    rw [target, hkept, hjoin, normalize_joined (cons_ne_nil _ _) hall]

end Member

/-! ## Placing one member -/

/-- One item is added to a folder: it is there itself, and there are folders above it. -/
structure Placed (place : List String) (content : Option Content) (f f' : Folder) : Prop where
  kinds : ∀ x, f'.kindAt x = if x = place then some content
    else if x <+: place then some none else f.kindAt x
  ordered : f.Ordered → f'.Ordered

lemma ordered_makeAlong {root root' : Folder} {path : String} {used : Nat}
    {here ps : List String} {r : Except Fault Unit} (h : root.Ordered)
    (hrun : makeAlong root path used here ps = (r, root')) : root'.Ordered := by
  induction ps generalizing root used here with
  | nil => exact (Prod.mk.inj hrun).2 ▸ h
  | cons p ps ih =>
    rcases part_cases p with hp | rfl | hp
    · rw [makeAlong_stay hp] at hrun
      exact ih h hrun
    · exact ih h hrun
    · rcases makeAlong_pass root path used here ps hp with
        hstop | ⟨root', hpass, ⟨-, rfl⟩ | ⟨-, rfl⟩⟩
      · rw [hrun] at hstop
        dsimp only at hstop
        exact hstop.symm ▸ h
      · rw [hpass] at hrun
        exact ih h hrun
      · rw [hpass] at hrun
        have hempty : EntryOrdered (.folder .empty) := trivial
        exact ih (ordered_set h hempty _) hrun

lemma ordered_makeFolders {f f' : Folder} {path : String} {r : Except Fault Unit}
    (hrun : f.makeFolders path = (r, f')) (h : f.Ordered) : f'.Ordered := by
  by_cases hpath : path = ""
  · have hempty : f.makeFolders "" = (.error (.noSuchFile ""), f) := rfl
    rw [hpath, Prod.mk.injEq] at hrun
    exact hrun.2 ▸ h
  · rw [makeFolders_eq f hpath] at hrun
    by_cases hmany : f.missing (startOf path) (parts (trimmed path)) > maxLevels
    · rw [if_pos hmany, Prod.mk.injEq] at hrun
      exact hrun.2 ▸ h
    · rw [if_neg hmany] at hrun
      exact ordered_makeAlong h hrun

lemma kindAt_folder {f : Folder} {x : List String} (h : ∃ g, f.get? x = some (.folder g)) :
    f.kindAt x = some none := by
  obtain ⟨g, hg⟩ := h
  rw [kindAt, hg]
  rfl

structure Sound (i : Item) : Prop where
  inside : i.path ≠ []
  names : ∀ n ∈ i.path, IsName n ∧ '/' ∉ n.toList
  spelled : checkPath (Text.join "/" (scratch :: i.path)) = .ok ()
  short : ∀ n ∈ i.path, n.utf8ByteSize ≤ maxName
  levels : i.path.length < maxLevels

section Place

variable {packing : Packing} {i : Item} {f : Folder}

lemma Sound.all_names (h : Sound i) : ∀ n ∈ scratch :: i.path, IsName n ∧ '/' ∉ n.toList :=
  forall_mem_cons.mpr ⟨by decide, h.names⟩

lemma Sound.parts_eq (h : Sound i) :
    parts (Text.join "/" (scratch :: i.path)) = scratch :: i.path :=
  parts_joined (cons_ne_nil _ _) fun n hn => (h.all_names n hn).2

lemma Sound.startOf_eq (h : Sound i) : startOf (Text.join "/" (scratch :: i.path)) = [] := by
  have hrelative : isAbsolute (Text.join "/" (scratch :: i.path)) = false := by
    apply Store.isAbsolute_eq_false
    rw [h.parts_eq]
    exact fun hempty => (h.all_names "" hempty).1.1 rfl
  rw [startOf, hrelative]
  rfl

lemma Sound.route (h : Sound i) : Route (Text.join "/" (scratch :: i.path))
    (scratch :: i.path.dropLast) (i.path.getLast h.inside) where
  parts := by rw [h.parts_eq, cons_append, dropLast_append_getLast]
  front_ne := cons_ne_nil _ _
  isName := (h.names _ (getLast_mem h.inside)).1
  spelled := h.spelled
  short := by
    rw [cons_append, dropLast_append_getLast]
    exact forall_mem_cons.mpr ⟨by decide, h.short⟩

lemma front_above (i : Item) : scratch :: i.path.dropLast <+: scratch :: i.path :=
  cons_prefix_cons.mpr ⟨rfl, dropLast_prefix _⟩

lemma Sound.mem_stops_iff (h : Sound i) {front x : List String}
    (hfront : front <+: scratch :: i.path) :
    x ∈ stops [] front ↔ x ≠ [] ∧ x <+: front := by
  have hnames : ∀ n ∈ front, IsName n := fun n hn => (h.all_names n (hfront.subset hn)).1
  constructor
  · intro hx
    obtain ⟨m, hm, hne, rfl⟩ := mem_stops_names hnames hx
    exact ⟨hne, hm⟩
  · rintro ⟨hne, hx⟩
    exact mem_stops_of_prefix hnames hx hne []

lemma Sound.get?_eq (h : Sound i) {front x : List String} {f₁ f₂ : Folder}
    (hfront : front <+: scratch :: i.path) (hpaved : Paved (stops [] front) f₁ f₂)
    (hx : ¬ x <+: front) : f₂.get? x = f₁.get? x := by
  refine hpaved.apart x fun y hy hpre => absurd (hpre.trans ?_) hx
  exact ((h.mem_stops_iff hfront).mp hy).2

lemma Sound.makeFolders (h : Sound i)
    (hfiles : ∀ x ∈ stops [] (scratch :: i.path), ∀ c, f.get? x ≠ some (.file c)) :
    ∃ f', f.makeFolders (Text.join "/" (scratch :: i.path)) = (.ok (), f') ∧
      Paved (stops [] (scratch :: i.path)) f f' := by
  obtain ⟨hspell, hlong, hne⟩ := checkPath_ok_iff.mp h.spelled
  have htrimmed := trimmed_eq_self h.route.endsWith
  rw [← h.startOf_eq] at hfiles ⊢
  refine makeFolders_run hne ?_ ?_ ?_ (forall_mem_cons.mpr ⟨by decide, h.short⟩) ?_ hfiles
  · rw [htrimmed, h.parts_eq]
  · rwa [htrimmed]
  · rwa [htrimmed]
  · exact missing_le.trans h.levels

variable (hi : Sound i)
  (hclear : ∀ x c, f.get? x = some (.file c) → ¬ x <+: scratch :: i.path)

include hi hclear

variable (packing) in
lemma place_above : ∃ f₁, Paved (stops [] (scratch :: i.path.dropLast)) f f₁ ∧
    (f.Ordered → f₁.Ordered) ∧
    (place packing scratch (memberOf packing i)).run.run f
      = (if i.content.isNone then Files.makeFolders (Text.join "/" (scratch :: i.path))
        else Files.update (·.putFile (Text.join "/" (scratch :: i.path))
          (i.content.getD (.text "")))).run.run f₁ := by
  have hroute := hi.route
  have hstart := hi.startOf_eq
  have hfiles : ∀ x ∈ stops [] (scratch :: i.path.dropLast), ∀ c, f.get? x ≠ some (.file c) :=
    fun x hx c hget =>
      hclear x c hget (((hi.mem_stops_iff (front_above i)).mp hx).2.trans (front_above i))
  have hdir := (dir_spec hroute.front_ne hroute.parts).1
  rw [place, target_memberOf hi.inside hi.names, isFolder_memberOf hi.inside hi.names,
    memberOf_content, run_bind, Files.run_pathExists]
  dsimp only
  cases hexists : f.pathExists (dir (Text.join "/" (scratch :: i.path))) with
  | true =>
    have hpaved := hroute.paved hexists (by rwa [hstart])
    rw [hstart] at hpaved
    exact ⟨f, hpaved, id, by rw [Bool.or_true, if_pos rfl]⟩
  | false =>
    obtain ⟨f₁, hmake, hpaved⟩ := hroute.makeFolders
      (by rw [length_cons, length_dropLast]; have := hi.levels; omega) (by rwa [hstart])
    rw [hstart] at hpaved
    refine ⟨f₁, hpaved, ordered_makeFolders hmake, ?_⟩
    have hempty : (dir (Text.join "/" (scratch :: i.path))).isEmpty = false := by
      rw [Bool.eq_false_iff, ne_eq, String.isEmpty_iff]
      exact hdir
    rw [hempty, Bool.or_false, if_neg Bool.false_ne_true, run_bind, Files.run_makeFolders, hmake]

variable (packing) in
lemma place_run (hfree : i.content.isSome → f.NoFolder (scratch :: i.path)) :
    ∃ f', (place packing scratch (memberOf packing i)).run.run f = (.ok (), f') ∧
      Placed (scratch :: i.path) i.content f f' := by
  obtain ⟨f₁, hpaved, hordered, hrun⟩ := place_above packing hi hclear
  have hfront := front_above i
  have hsame : ∀ x, ¬ x <+: scratch :: i.path.dropLast → f₁.get? x = f.get? x :=
    fun x hx => hi.get?_eq hfront hpaved hx
  rw [hrun]
  cases hc : i.content with
  | none =>
    obtain ⟨f₂, hmake, hpaved₂⟩ := hi.makeFolders fun x hx c hget =>
      hclear x c (hpaved.made.files x c hget) ((hi.mem_stops_iff prefix_rfl).mp hx).2
    have hthere : ∀ x, x <+: scratch :: i.path → f₂.kindAt x = some none := by
      intro x hx
      by_cases hnil : x = []
      · rw [hnil]
        rfl
      · exact kindAt_folder
          (hpaved₂.there x ((hi.mem_stops_iff prefix_rfl).mpr ⟨hnil, hx⟩))
    refine ⟨f₂, (Files.run_makeFolders _ _).trans hmake, fun x => ?_,
      fun h => ordered_makeFolders hmake (hordered h)⟩
    by_cases hx : x <+: scratch :: i.path
    · rw [hthere x hx, if_pos hx, ite_self]
    · have hne : x ≠ scratch :: i.path := fun h => hx (h ▸ prefix_rfl)
      rw [if_neg hne, if_neg hx, kindAt, kindAt, hi.get?_eq prefix_rfl hpaved₂ hx,
        hsame x fun h => hx (h.trans hfront)]
  | some c =>
    have hplace : walk [] (scratch :: i.path.dropLast) ++ [i.path.getLast hi.inside]
        = scratch :: i.path := by
      rw [walk_names fun n hn => (hi.all_names n (hfront.subset hn)).1, nil_append,
        cons_append, dropLast_append_getLast]
    have hlonger : ¬ scratch :: i.path <+: scratch :: i.path.dropLast := by
      intro h
      have hlen := h.length_le
      have hpos := length_pos_of_ne_nil hi.inside
      rw [length_cons, length_cons, length_dropLast] at hlen
      omega
    have hno : f₁.NoFolder (scratch :: i.path) := by
      intro g hg
      rw [hsame _ hlonger] at hg
      exact hfree (by rw [hc]; rfl) g hg
    have hw : f₁.writable (Text.join "/" (scratch :: i.path)) = .ok (scratch :: i.path) := by
      have hwritable := hi.route.writable (f := f₁)
      rw [hi.startOf_eq, hplace] at hwritable
      exact hwritable hpaved.there hno
    have hcne : scratch :: i.path ≠ [] := cons_ne_nil _ _
    have hentry : EntryOrdered (.file c) := trivial
    refine ⟨f₁.set (.file c) (scratch :: i.path), ?_, fun x => ?_,
      fun h => ordered_set (hordered h) hentry _⟩
    · rw [if_neg (by simp), Files.run_update, Option.getD_some, putFile_eq hw]
    · by_cases hx : x = scratch :: i.path
      · rw [if_pos hx, hx, kindAt, get?_set_self _ _ hcne]
        rfl
      · rw [if_neg hx]
        by_cases hpre : x <+: scratch :: i.path
        · obtain ⟨r, hr⟩ := hpre
          have hrne : r ≠ [] := fun h => hx (by rw [← hr, h, append_nil])
          rw [if_pos ⟨r, hr⟩, ← hr]
          have hfolder := get?_set_of_prefix f₁ (.file c) x hrne
          exact kindAt_folder hfolder
        · rw [if_neg hpre, kindAt, kindAt, get?_set_file hno hcne hpre,
            hsame x fun h => hpre (h.trans hfront)]

end Place

/-! ## Placing all members -/

/-- The tree of some items is in the folder that archives are unpacked to first. -/
structure Holds (items : List Item) (f : Folder) : Prop where
  ordered : f.Ordered
  tree : ∀ x, f.kindAt (scratch :: x) = treeAt items x

section Holds

variable {done items : List Item} {i : Item} {f : Folder}

lemma holds_nil : Holds [] (Folder.empty.put scratch (.folder .empty)) where
  ordered := ⟨by simp [Folder.names], trivial, trivial⟩
  tree x := by
    rw [treeAt]
    cases x with
    | nil | cons n x => rfl

lemma IsTree.perm {items' : List Item} (h : IsTree items) (hperm : items.Perm items') :
    IsTree items' where
  inside i hi := h.inside i (hperm.mem_iff.mpr hi)
  names i hi := h.names i (hperm.mem_iff.mpr hi)
  distinct := (hperm.map _).nodup_iff.mp h.distinct
  solid i hi j hj := h.solid i (hperm.mem_iff.mpr hi) j (hperm.mem_iff.mpr hj)

lemma IsTree.sublist {items' : List Item} (h : IsTree items) (hsub : items'.Sublist items) :
    IsTree items' where
  inside i hi := h.inside i (hsub.subset hi)
  names i hi := h.names i (hsub.subset hi)
  distinct := h.distinct.sublist (hsub.map _)
  solid i hi j hj := h.solid i (hsub.subset hi) j (hsub.subset hj)

lemma Holds.place (h : Holds done f) (hi : Sound i) (htree : IsTree (i :: done))
    (packing : Packing) :
    ∃ f', (place packing scratch (memberOf packing i)).run.run f = (.ok (), f') ∧
      Holds (i :: done) f' := by
  obtain ⟨hnew, hdistinct⟩ := nodup_cons.mp htree.distinct
  have hother : ∀ j ∈ done, j ≠ i := fun j hj heq => hnew (heq ▸ mem_map_of_mem hj)
  have hfiles : ∀ j ∈ done, j.content.isSome → ¬ j.path <+: i.path := fun j hj hfile hpre =>
    hother j hj (htree.solid j (mem_cons_of_mem _ hj) i mem_cons_self hfile hpre)
  have hclear : ∀ x c, f.get? x = some (.file c) → ¬ x <+: scratch :: i.path := by
    intro x c hget hpre
    cases x with
    | nil => cases hget
    | cons n x =>
      obtain ⟨rfl, hbelow⟩ := cons_prefix_cons.mp hpre
      have hkind := h.tree x
      rw [kindAt, hget] at hkind
      exact hfiles _ ((treeAt_file hdistinct).mp hkind.symm) rfl hbelow
  have hfree : i.content.isSome → f.NoFolder (scratch :: i.path) := by
    intro hfile g hg
    have hkind := h.tree i.path
    rw [kindAt, hg] at hkind
    rcases (treeAt_folder.mp hkind.symm).2 with hnil | ⟨j, hj, hpre⟩
    · exact hi.inside hnil
    · exact hother j hj
        (htree.solid i mem_cons_self j (mem_cons_of_mem _ hj) hfile hpre).symm
  obtain ⟨f', hrun, hplaced⟩ := place_run packing hi hclear hfree
  refine ⟨f', hrun, hplaced.ordered h.ordered, fun x => ?_⟩
  rw [hplaced.kinds, treeAt_cons hfiles, h.tree]
  simp only [List.cons.injEq, true_and, cons_prefix_cons]

lemma Holds.placeAll (packing : Packing) (h : Holds done f) (htree : IsTree (items ++ done))
    (hsound : ∀ i ∈ items, Sound i) :
    ∃ f' all, all.Perm (items ++ done) ∧
      ((items.map (memberOf packing)).forM (Archive.place packing scratch)).run.run f
        = (.ok (), f') ∧ Holds all f' := by
  induction items generalizing done f with
  | nil => exact ⟨f, done, List.Perm.refl _, rfl, h⟩
  | cons i items ih =>
    obtain ⟨hi, hrest⟩ := forall_mem_cons.mp hsound
    have hmiddle : (items ++ i :: done).Perm (i :: items ++ done) := perm_middle
    have htree' := htree.perm hmiddle.symm
    have hnext := htree'.sublist (sublist_append_right items (i :: done))
    obtain ⟨f₁, hfirst, hholds⟩ := h.place hi hnext packing
    obtain ⟨f', all, hall, hrun, hdone⟩ := ih hholds htree' hrest
    refine ⟨f', all, hall.trans hmiddle, ?_, hdone⟩
    rw [map_cons, List.forM, run_bind, hfirst]
    exact hrun

end Holds

section Contents

variable {a : Archive} {items order : List Item}

lemma name_injective (htree : IsTree order) {packing : Packing} {i j : Item} (hi : i ∈ order)
    (hj : j ∈ order) (h : (memberOf packing i).name = (memberOf packing j).name) : i = j := by
  refine eq_of_path_eq htree.distinct hi hj ?_
  rw [← solid_parts_name (htree.inside i hi) (htree.names i hi), h,
    solid_parts_name (htree.inside j hj) (htree.names j hj)]

end Contents

end Archive

end Docsmith

