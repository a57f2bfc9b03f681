import Docsmith.Archive
import Docsmith.Proofs.Paving

/-! # Unpacking one member

To find the path of a member below the top folder, the name of that folder is left out of the
member's name wherever it occurs, on tape without the slash behind it. So a member goes where it
should exactly if the archive is not on tape and the name of the folder ends no other part of its
name (`extracted_iff`). -/

namespace Docsmith

open List

/-! ## Leaving out a text -/

namespace Chars

variable {pat cs : List Char}

lemma replaceFrom_skip (pat rep cs : List Char) (k : Nat) :
    replaceFrom pat rep cs k = replaceFrom pat rep (cs.drop k) 0 := by
  induction cs generalizing k with
  | nil => rw [drop_nil, replaceFrom, replaceFrom]
  | cons c cs ih =>
    cases k with
    | zero => rfl
    | succ k => exact ih k

lemma replaceFrom_append (hne : pat ≠ []) (rep y : List Char) :
    replaceFrom pat rep (pat ++ y) 0 = rep ++ replaceFrom pat rep y 0 := by
  obtain ⟨c, pat, rfl⟩ := exists_cons_of_ne_nil hne
  rw [cons_append, replaceFrom, if_pos (by simp), replaceFrom_skip, length_cons,
    Nat.add_sub_cancel, drop_left]

lemma replaceFrom_cons {c : Char} (h : ¬ pat <+: c :: cs) (rep : List Char) :
    replaceFrom pat rep (c :: cs) 0 = c :: replaceFrom pat rep cs 0 := by
  rw [replaceFrom, if_neg (by rwa [ isPrefixOf_iff_prefix])]

lemma replaceFrom_eq_self (h : ¬ pat <:+: cs) (rep : List Char) :
    replaceFrom pat rep cs 0 = cs := by
  induction cs with
  | nil => rfl
  | cons c cs ih =>
    rw [replaceFrom_cons fun hpre => h hpre.isInfix, ih fun hin => h (infix_cons hin)]

lemma replace_induction (hne : pat ≠ []) {motive : List Char → Prop} (nil : motive [])
    (hit : ∀ y, motive y → motive (pat ++ y))
    (miss : ∀ c cs, ¬ pat <+: c :: cs → motive cs → motive (c :: cs)) (cs : List Char) :
    motive cs := by
  induction hn : cs.length using Nat.strong_induction_on generalizing cs with
  | _ n ih =>
    cases cs with
    | nil => exact nil
    | cons d cs =>
      by_cases hpre : pat <+: d :: cs
      · obtain ⟨y, hy⟩ := hpre
        have hlen := congrArg List.length hy
        have hpos := length_pos_of_ne_nil hne
        rw [length_append] at hlen
        exact hy ▸ hit y (ih _ (by omega) y rfl)
      · rw [length_cons] at hn
        exact miss d cs hpre (ih _ (by omega) cs rfl)

lemma replaceFrom_append_cons {c : Char} (hne : pat ≠ []) (hc : c ∉ pat) (rep x y : List Char) :
    replaceFrom pat rep (x ++ c :: y) 0 = replaceFrom pat rep x 0 ++ c :: replaceFrom pat rep y 0 := by
  induction x using replace_induction hne with
  | nil =>
    refine replaceFrom_cons (fun hpre => ?_) rep
    obtain ⟨d, t, rfl⟩ := exists_cons_of_ne_nil hne
    exact hc ((cons_prefix_cons.mp hpre).1 ▸ mem_cons_self)
  | hit z ih =>
    rw [append_assoc, replaceFrom_append hne, replaceFrom_append hne, ih, append_assoc]
  | miss d x hpre ih =>
    have hpre' : ¬ pat <+: d :: (x ++ c :: y) :=
      fun h => hpre (prefix_of_prefix_append_cons hc h)
    rw [cons_append, replaceFrom_cons hpre', replaceFrom_cons hpre, ih, cons_append]

lemma count_replaceFrom_le (hne : pat ≠ []) (c : Char) (cs : List Char) :
    (replaceFrom pat [] cs 0).count c ≤ cs.count c := by
  induction cs using replace_induction hne with
  | nil => exact Nat.le_refl _
  | hit y ih =>
    rw [replaceFrom_append hne, nil_append, count_append]
    exact ih.trans (Nat.le_add_left _ _)
  | miss d cs hpre ih =>
    rw [replaceFrom_cons hpre, count_cons, count_cons]
    exact Nat.add_le_add_right ih _

lemma count_replaceFrom_lt {c : Char} (hc : c ∈ pat) (h : pat <:+: cs) :
    (replaceFrom pat [] cs 0).count c < cs.count c := by
  have hne : pat ≠ [] := ne_nil_of_mem hc
  induction cs with
  | nil => exact absurd (infix_nil.mp h) hne
  | cons d cs ih =>
    by_cases hpre : pat <+: d :: cs
    · obtain ⟨y, hy⟩ := hpre
      rw [← hy, replaceFrom_append hne, nil_append, count_append]
      have hrest := count_replaceFrom_le hne c y
      have hmore := count_pos_iff.mpr hc
      omega
    · have hin : pat <:+: cs := (infix_cons_iff.mp h).resolve_left hpre
      rw [replaceFrom_cons hpre, count_cons, count_cons]
      exact Nat.add_lt_add_right (ih hin) _

end Chars

/-! ## Lengths of places -/

namespace Path

lemma length_parts (p : String) : (parts p).length = p.toList.count '/' + 1 := by
  rw [parts_eq, length_map]
  induction p.toList with
  | nil => rfl
  | cons c cs ih =>
    by_cases hc : c = '/'
    · rw [hc, pieces_slash, length_cons, ih, count_cons_self]
    · obtain ⟨q, qs, hqs⟩ := exists_cons_of_ne_nil (pieces_ne_nil cs)
      rw [hqs] at ih
      rw [pieces_cons hc hqs, count_cons_of_ne (by simpa using hc), ← ih]
      rfl

end Path

namespace Folder

lemma length_walk_le (here ps : List String) :
    (walk here ps).length ≤ here.length + ps.length := by
  induction ps generalizing here with
  | nil => exact Nat.le_refl _
  | cons p ps ih =>
    rw [length_cons]
    rcases part_cases p with hp | rfl | hp
    · rw [walk_stay _ _ hp]
      have := ih here
      omega
    · rw [walk_up]
      have hup : (up here).length ≤ here.length + 1 := by
        rw [up]
        split
        · exact Nat.le_succ _
        · split
          · exact Nat.le_of_eq length_append
          · rw [length_dropLast]
            omega
      have := ih (up here)
      omega
    · rw [walk_name _ _ hp]
      have := ih (here ++ [p])
      rw [length_append, length_singleton] at this
      omega

lemma walk_root (ps : List String) (r : List String) :
    ∃ r', walk (rootName :: r) ps = rootName :: r' := by
  induction ps generalizing r with
  | nil => exact ⟨r, rfl⟩
  | cons p ps ih =>
    rcases part_cases p with hp | rfl | hp
    · rw [walk_stay _ _ hp]
      exact ih r
    · rw [walk_up]
      have hup : ∃ r', up (rootName :: r) = rootName :: r' := by
        rw [up]
        cases r with
        | nil => exact ⟨[], rfl⟩
        | cons q qs => exact ⟨(q :: qs).dropLast, rfl⟩
      obtain ⟨r', hr'⟩ := hup
      rw [hr']
      exact ih r'
    · rw [walk_name _ _ hp]
      exact ih (r ++ [p])

lemma rootName_notMem_walk {here ps : List String} (hhere : rootName ∉ here)
    (hps : rootName ∉ ps) : rootName ∉ walk here ps := by
  induction ps generalizing here with
  | nil => exact hhere
  | cons p ps ih =>
    obtain ⟨hfirst, hrest⟩ := not_or.mp (mt mem_cons.mpr hps)
    rcases part_cases p with hp | rfl | hp
    · rw [walk_stay _ _ hp]
      exact ih hhere hrest
    · rw [walk_up]
      refine ih ?_ hrest
      rw [up]
      split
      · exact hhere
      · split
        · simpa [rootName, aroundName] using hhere
        · exact fun h => hhere (mem_of_mem_dropLast h)
    · rw [walk_name _ _ hp]
      exact ih (by simpa [hhere] using hfirst) hrest

end Folder

lemma Files.write_eq {f : Folder} {path text : String} {place : List String}
    (hw : f.writable path = .ok place) (htext : Folder.checkText text = .ok ()) :
    (Files.write path text).run.run f
      = (.ok (), (f.set (.file (.text "")) place).set (.file (.text text)) place) := by
  rw [write, run_bind, run_update, Folder.putFile_eq hw]
  simp only [run_bind, run_ask, htext, run_update,
    Folder.putFile_eq (Folder.writable_set hw (.text ""))]

/-! ## Members of an archive with one folder at its top -/

namespace Archive

open Folder Docsmith.Path Store

def topName (packing : Packing) (d : String) : String :=
  match packing with
  | .zip => d ++ "/"
  | .tar => d

structure Wrapped (a : Archive) (d : String) : Prop where
  isName : IsName d
  noSlash : '/' ∉ d.toList
  listed : ∃ before after, a.members = before ++ ⟨topName a.packing d, none⟩ :: after ∧
    ∀ m ∈ before ++ after, ∃ r, r ≠ "" ∧ m.name = d ++ "/" ++ r

/-- The file of the member is there, and nothing else has changed but for the folders on the way to
it. -/
structure Extracted (f : Folder) (path r : String) (c : Content)
    (out : Except Fault Unit × Folder) : Prop where
  done : out.1 = .ok ()
  file : out.2.get? (placeOf path r) = some (.file c)
  read : out.2.contentAt (join path r) = .ok c
  rest : ∀ x, ¬ x <+: placeOf path r → out.2.get? x = f.get? x

/-- A new file can be made below a folder that is not the root: the path fits, and nothing is in the
way. -/
structure Room (f : Folder) (path r : String) : Prop where
  named : path ≠ ""
  inner : home path ≠ [rootName]
  spelled : checkPath (join path r) = .ok ()
  short : ∀ q ∈ parts (join path r), q.utf8ByteSize ≤ maxName
  levels : (parts (join path r)).length ≤ maxLevels
  direct : ∀ y ∈ ways path, y <+: home path ∨ ∃ g, f.get? y = some (.folder g)
  clear : ∀ y ∈ waysTo path r, ∀ c, f.get? y ≠ some (.file c)
  free : f.get? (placeOf path r) = none

variable (packing : Packing)

section Top

variable {a : Archive} {d r : String}

lemma isTop_topName (hd : '/' ∉ d.toList) : isTop packing (topName packing d) = true := by
  cases packing with
  | zip =>
    have hend : Text.endsWith "/" (d ++ "/") = true :=
      endsWith_slash_iff.mpr ⟨d.toList, by simp⟩
    have hparts := parts_slash hd ""
    rw [String.append_empty] at hparts
    rw [isTop, topName, hend, hparts]
    rfl
  | tar =>
    rw [isTop, topName, parts_eq, pieces_of_notMem hd]
    rfl

lemma isTop_below (hd : '/' ∉ d.toList) (hr : r ≠ "") :
    isTop packing (d ++ "/" ++ r) = false := by
  have hne := length_pos_of_ne_nil (parts_ne_nil r)
  cases packing with
  | zip =>
    rw [isTop, parts_slash hd r, Bool.and_eq_false_iff]
    by_cases hone : (parts r).length = 1
    · -- a last part that is not empty
      left
      obtain ⟨q, hq⟩ := length_eq_one_iff.mp hone
      have hqr : q = r := by
        have hcount := length_parts r
        have hnone : '/' ∉ r.toList := count_eq_zero.mp (by omega)
        rw [parts_eq, pieces_of_notMem hnone, map_singleton, String.ofList_toList] at hq
        exact (List.cons.inj hq).1.symm
      have hparts : parts (d ++ "/" ++ r) = [d] ++ [q] := by
        rw [parts_slash hd r, hq]
        rfl
      exact endsWith_eq_false hparts (hqr ▸ hr)
    · right
      rw [length_cons, beq_eq_false_iff_ne]
      omega
  | tar =>
    rw [isTop, parts_slash hd r, length_cons, beq_eq_false_iff_ne]
    omega

lemma Wrapped.top_eq (h : Wrapped a d) : a.top = topName a.packing d := by
  obtain ⟨before, after, hmembers, hbelow⟩ := h.listed
  have hothers : ∀ ms : List Member, (∀ m ∈ ms, m ∈ before ++ after) →
      (ms.map Member.name).filter (isTop a.packing) = [] := by
    intro ms hms
    rw [filter_eq_nil_iff]
    intro name hname
    obtain ⟨m, hm, rfl⟩ := mem_map.mp hname
    obtain ⟨r, hr, hmr⟩ := hbelow m (hms m hm)
    rw [hmr, isTop_below a.packing h.noSlash hr]
    exact Bool.false_ne_true
  have hfilter : a.names.filter (isTop a.packing) = [topName a.packing d] := by
    rw [names, hmembers, map_append, map_cons, filter_append,
      hothers before fun m hm => mem_append_left _ hm,
      filter_cons_of_pos (isTop_topName a.packing h.noSlash),
      hothers after fun m hm => mem_append_right _ hm]
    rfl
  rw [top, hfilter]

lemma Wrapped.top_ne (h : Wrapped a d) : a.top.isEmpty = false := by
  rw [h.top_eq, Bool.eq_false_iff, ne_eq, String.isEmpty_iff]
  cases a.packing with
  | zip => simp [topName]
  | tar => exact h.isName.1

end Top

/-! ## Where a member goes -/

section Goal

variable {a : Archive} {d r path : String} {c : Content} {f : Folder}

def goalOf (a : Archive) (name path : String) : List String :=
  let goal := join path (Text.replace a.top "" name)
  walk (startOf goal) (parts goal)

lemma leads_unpackMember (htop : a.top.isEmpty = false) (name path : String) :
    Leads (OnlyAt (goalOf a name path)) (a.unpackMember name path) := by
  have hask : ∀ {α : Type} (g : Folder → Except Fault α),
      Leads (OnlyAt (goalOf a name path)) (Files.ask g) :=
    fun g => leads_of_eq fun f => by rw [Files.run_ask]
  rw [unpackMember, if_neg (by rw [htop]; exact Bool.false_ne_true)]
  refine (leads_makeFolders _).bind fun _ => ?_
  cases a.packing with
  | zip =>
    exact (leads_write _ _).bind fun _ => (hask _).bind (leads_putFile _)
  | tar =>
    refine (hask _).bind fun m => ?_
    cases m.content with
    | none => exact leads_throw _
    | some c => exact leads_putFile _ c

lemma walk_absolute {s : String} {cs : List Char} (hs : s.toList = '/' :: cs) (path : String) :
    walk (startOf (join path s)) (parts (join path s)) = walk [rootName] (parts (.ofList cs)) := by
  have habs : isAbsolute s = true := by
    rw [isAbsolute_eq, hs]
    rfl
  have hparts : parts s = "" :: parts (.ofList cs) := by
    rw [parts_eq, hs, pieces_slash, map_cons, parts_eq, String.toList_ofList]
  rw [join, if_pos habs, startOf, if_pos habs, hparts, walk_stay _ _ (Or.inl rfl)]

lemma length_goal_le (hpath : path ≠ "") (s : String) :
    (walk (startOf (join path s)) (parts (join path s))).length
      ≤ (home path).length + (parts s).length := by
  cases habs : isAbsolute s with
  | false =>
    obtain ⟨hstart, front, -, hparts, hwalk, -⟩ := exists_front_of_relative hpath habs
    rw [hstart, hparts, walk_append, hwalk]
    exact length_walk_le _ _
  | true =>
    obtain ⟨cs, hcs⟩ : ∃ cs, s.toList = '/' :: cs := by
      rw [isAbsolute_eq, beq_iff_eq] at habs
      exact ⟨_, eq_cons_of_mem_head? habs⟩
    have hlen := length_walk_le [rootName] (parts (.ofList cs))
    rw [walk_absolute hcs, length_parts s, hcs, count_cons_self]
    rw [length_parts, String.toList_ofList, length_singleton] at hlen
    omega

lemma rootName_notMem_parts (p : String) : rootName ∉ parts p := by
  rw [parts_eq]
  intro h
  obtain ⟨cs, hcs, heq⟩ := mem_map.mp h
  refine (mem_pieces hcs).1 ?_
  rw [← String.toList_ofList (l := cs), heq]
  simp [rootName]

lemma replace_zip (d r : String) :
    (Text.replace (d ++ "/") "" (d ++ "/" ++ r)).toList
      = Chars.replaceFrom (d ++ "/").toList [] r.toList 0 := by
  have hne : (d ++ "/").toList ≠ [] := by simp
  have hname : (d ++ "/" ++ r).toList = (d ++ "/").toList ++ r.toList := String.toList_append
  rw [Text.replace, String.toList_ofList, Chars.replace, if_neg (by simp), hname, Chars.replaceFrom_append hne]
  rfl

lemma replace_tar (hd : d ≠ "") (hslash : '/' ∉ d.toList) (r : String) :
    (Text.replace d "" (d ++ "/" ++ r)).toList
      = '/' :: Chars.replaceFrom d.toList [] r.toList 0 := by
  have hne : d.toList ≠ [] := by simpa using hd
  have hpre : ¬ d.toList <+: '/' :: r.toList := by
    intro hpre
    obtain ⟨c, cs, hcs⟩ := exists_cons_of_ne_nil hne
    rw [hcs, cons_prefix_cons] at hpre
    exact hslash (by rw [hcs, hpre.1]; exact mem_cons_self)
  have hone : "/".toList = ['/'] := by simp
  rw [Text.replace, String.toList_ofList, Chars.replace, if_neg (by simpa using hne),
    String.toList_append, String.toList_append, hone, String.toList_empty, append_assoc,
    Chars.replaceFrom_append hne, nil_append, singleton_append,
    Chars.replaceFrom_cons hpre]

lemma length_placeOf (path r : String) :
    (placeOf path r).length = (home path).length + (parts r).length := by
  rw [placeOf, length_append]

lemma goalOf_zip_ne (h : Wrapped a d) (hpacking : a.packing = .zip) (hpath : path ≠ "")
    (hin : (d ++ "/").toList <:+: r.toList) :
    goalOf a (d ++ "/" ++ r) path ≠ placeOf path r := by
  intro heq
  have htop : a.top = d ++ "/" := by
    rw [h.top_eq, hpacking]
    rfl
  have hlen := length_goal_le hpath (Text.replace a.top "" (d ++ "/" ++ r))
  have hcount := Chars.count_replaceFrom_lt (c := '/') (by simp) hin
  rw [← replace_zip] at hcount
  rw [goalOf] at heq
  rw [heq, length_placeOf, length_parts, length_parts, htop] at hlen
  omega

lemma goalOf_tar_ne (h : Wrapped a d) (hpacking : a.packing = .tar)
    (hinner : home path ≠ [rootName]) :
    goalOf a (d ++ "/" ++ r) path ≠ placeOf path r := by
  intro heq
  have htop : a.top = d := by
    rw [h.top_eq, hpacking]
    rfl
  have hgoal := walk_absolute (replace_tar h.isName.1 h.noSlash r) path
  rw [goalOf, htop, hgoal] at heq
  cases habs : isAbsolute path with
  | false =>
    have hhome : rootName ∉ home path := by
      rw [home, startOf, habs]
      exact rootName_notMem_walk not_mem_nil (rootName_notMem_parts path)
    obtain ⟨x, hx⟩ := walk_root (parts (.ofList (Chars.replaceFrom d.toList [] r.toList 0))) []
    have hmem : rootName ∈ placeOf path r := by
      rw [← heq, hx]
      exact mem_cons_self
    exact (mem_append.mp hmem).elim hhome (rootName_notMem_parts r)
  | true =>
    -- the place is not deeper than the member is in its folder
    obtain ⟨x, hx⟩ := walk_root (parts path) []
    have hhome : home path = rootName :: x := by
      rw [home, startOf, if_pos habs, hx]
    have hx : 0 < x.length := length_pos_of_ne_nil fun h => hinner (by rw [hhome, h])
    have hlen := length_walk_le [rootName]
      (parts (.ofList (Chars.replaceFrom d.toList [] r.toList 0)))
    have hne : d.toList ≠ [] := by simpa using h.isName.1
    have hcount := Chars.count_replaceFrom_le hne '/' r.toList
    rw [heq, length_placeOf, hhome, length_parts, length_parts, String.toList_ofList,
      length_cons, length_singleton] at hlen
    omega

lemma Room.route (h : Room f path r) (hsafe : ∀ q ∈ parts r, IsName q) :
    ∃ front name, Route (join path r) front name ∧
      stops (startOf (join path r)) front = waysTo path r ∧
      walk (startOf (join path r)) front ++ [name] = placeOf path r := by
  have habs : isAbsolute r = false := isAbsolute_eq_false fun hempty => (hsafe "" hempty).1 rfl
  obtain ⟨hstart, front, hne, hparts, hwalk, hstops⟩ := exists_front_of_relative h.named habs
  have hr := dropLast_append_getLast (parts_ne_nil r)
  have hsplit : parts (join path r)
      = (front ++ (parts r).dropLast) ++ [(parts r).getLast (parts_ne_nil r)] := by
    rw [hparts, append_assoc, hr]
  have hfolders : ∀ q ∈ (parts r).dropLast, IsName q :=
    fun q hq => hsafe q (mem_of_mem_dropLast hq)
  refine ⟨_, _, ⟨hsplit, by simp [hne], hsafe _ (getLast_mem _), h.spelled,
    hsplit ▸ h.short⟩, ?_, ?_⟩
  · rw [hstart, stops_append, hwalk, hstops, waysTo]
  · rw [hstart, walk_append, hwalk, walk_names hfolders, append_assoc, hr, placeOf]

lemma Room.ways (h : Room f path r) (hsafe : ∀ q ∈ parts r, IsName q) :
    ∀ y ∈ waysTo path r, (y <+: placeOf path r ∧ y ≠ placeOf path r) ∨
      ∃ g, f.get? y = some (.folder g) := by
  intro y hy
  have hr := length_pos_of_ne_nil (parts_ne_nil r)
  rcases mem_append.mp hy with hway | hstop
  · rcases h.direct y hway with hpre | hthere
    · refine Or.inl ⟨hpre.trans (prefix_append _ _), fun heq => ?_⟩
      have hlen := hpre.length_le
      rw [heq, length_placeOf] at hlen
      omega
    · exact Or.inr hthere
  · obtain ⟨m, hm, -, rfl⟩ := mem_stops_names
      (fun q hq => hsafe q (mem_of_mem_dropLast hq)) hstop
    refine Or.inl ⟨prefix_append_right_inj _ |>.mpr (hm.trans ( dropLast_prefix _)), ?_⟩
    intro heq
    have hlen := hm.length_le
    have hplace := congrArg List.length heq
    rw [length_append, length_placeOf] at hplace
    rw [length_dropLast] at hlen
    omega

lemma extracted_zip (h : Wrapped a d) (hpacking : a.packing = .zip)
    (hfile : a.find? (d ++ "/" ++ r) = some ⟨d ++ "/" ++ r, some c⟩)
    (hsafe : ∀ q ∈ parts r, IsName q) (hroom : Room f path r)
    (hin : ¬ (d ++ "/").toList <:+: r.toList) :
    Extracted f path r c ((a.unpackMember (d ++ "/" ++ r) path).run.run f) := by
  have hname : Text.replace a.top "" (d ++ "/" ++ r) = r := by
    rw [← String.toList_inj, h.top_eq, hpacking, topName, replace_zip,
      Chars.replaceFrom_eq_self hin]
  have hread : a.read (d ++ "/" ++ r) = .ok c := by
    rw [read, find, hfile]
    rfl
  obtain ⟨front, name, hroute, hstops, hplace⟩ := hroom.route hsafe
  have hways := hroom.ways hsafe
  have hlevels : front.length ≤ maxLevels := by
    have := hroom.levels
    rw [hroute.parts, length_append] at this
    omega
  obtain ⟨f₁, hmake, hpaved⟩ := hroute.makeFolders hlevels (hstops.symm ▸ hroom.clear)
  rw [hstops] at hpaved
  -- the place stays free while the folders on the way are made
  have hfree : f₁.get? (placeOf path r) = none := by
    rw [← hroom.free]
    refine hpaved.apart _ fun y hy hpre => ?_
    rcases hways y hy with ⟨hbefore, hne⟩ | hthere
    · exact absurd (hpre.eq_of_length_le hbefore.length_le).symm hne
    · exact hthere
  have hno : f₁.NoFolder (placeOf path r) := fun g hg => by
    rw [hfree] at hg
    cases hg
  have hw : f₁.writable (join path r) = .ok (placeOf path r) := by
    rw [← hplace] at hno ⊢
    exact hroute.writable (hstops.symm ▸ hpaved.there) hno
  have htext : checkText "" = .ok () := rfl
  have hw₁ := writable_set hw (.text "")
  have hw₂ := writable_set hw₁ (.text "")
  have hrun : (a.unpackMember (d ++ "/" ++ r) path).run.run f
      = (.ok (), ((f₁.set (.file (.text "")) (placeOf path r)).set (.file (.text ""))
        (placeOf path r)).set (.file c) (placeOf path r)) := by
    rw [unpackMember, if_neg (by rw [h.top_ne]; exact Bool.false_ne_true), hname, hpacking,
      run_bind, Files.run_makeFolders, hmake]
    simp only [run_bind, Files.write_eq hw htext, Files.run_ask, hread, Files.run_update,
      putFile_eq hw₂]
  rw [hrun]
  have hne := (noFolder_of_writable hw).2
  refine ⟨rfl, get?_set_self _ c hne, (contentAt_of_writable (writable_set hw₂ c)
    (get?_set_self _ c hne)).2, fun x hx => ?_⟩
  have hrest : f₁.get? x = f.get? x := by
    refine hpaved.apart x fun y hy hpre => ?_
    rcases hways y hy with ⟨hbefore, -⟩ | hthere
    · exact absurd (hpre.trans hbefore) hx
    · exact hthere
  rw [get?_set_file (noFolder_of_writable hw₂).1 hne hx, get?_set_file (noFolder_of_writable hw₁).1
    hne hx, get?_set_file hno hne hx, hrest]

lemma not_extracted (h : Wrapped a d) (hfree : f.get? (placeOf path r) = none)
    (hgoal : goalOf a (d ++ "/" ++ r) path ≠ placeOf path r) :
    ¬ Extracted f path r c ((a.unpackMember (d ++ "/" ++ r) path).run.run f) := by
  intro hextracted
  rcases leads_unpackMember h.top_ne (d ++ "/" ++ r) path f _ c hextracted.file with heq | hfile
  · exact hgoal heq.symm
  · rw [hfree] at hfile
    cases hfile

/-- In an archive with one folder at its top, the file of a safe name is unpacked as it should be
exactly if the archive is no tape and the name of the folder, with its slash, occurs only at the
start. -/
theorem extracted_iff (h : Wrapped a d)
    (hfile : a.find? (d ++ "/" ++ r) = some ⟨d ++ "/" ++ r, some c⟩)
    (hsafe : ∀ q ∈ parts r, IsName q) (hroom : Room f path r) :
    (Extracted f path r c ((a.unpackMember (d ++ "/" ++ r) path).run.run f) ↔
      a.packing = .zip ∧ ¬ (d ++ "/").toList <:+: r.toList) ∧
    ∀ r', r' ≠ r → placeOf path r' ≠ placeOf path r := by
  constructor
  · cases hpacking : a.packing with
    | zip =>
      by_cases hin : (d ++ "/").toList <:+: r.toList
      · exact iff_of_false
          (not_extracted h hroom.free (goalOf_zip_ne h hpacking hroom.named hin))
          fun hsafe => hsafe.2 hin
      · exact iff_of_true (extracted_zip h hpacking hfile hsafe hroom hin) ⟨rfl, hin⟩
    | tar =>
      refine iff_of_false (not_extracted h hroom.free (goalOf_tar_ne h hpacking hroom.inner)) ?_
      rintro ⟨⟨⟩, -⟩
  · intro r' hne heq
    exact hne (parts_injective (List.append_cancel_left heq))

end Goal

/-! ## A folder in a folder of the same name -/

/-- Two files of one name, one in a folder that has the name of the folder around it. -/
def nested (packing : Packing) : Archive where
  packing := packing
  members := [⟨topName packing "D", none⟩, ⟨"D/x", some (.text "1")⟩, ⟨"D/D/x", some (.text "2")⟩]

lemma wrapped_nested : Wrapped (nested packing) "D" where
  isName := by decide
  noSlash := by decide
  listed := by
    refine ⟨[], [⟨"D/x", some (.text "1")⟩, ⟨"D/D/x", some (.text "2")⟩], rfl, ?_⟩
    intro m hm
    rcases mem_pair.mp hm with rfl | rfl
    · exact ⟨"x", by decide, rfl⟩
    · exact ⟨"D/x", by decide, rfl⟩

lemma room_nested : Room .empty "out" "x" where
  named := by decide
  inner := by decide +kernel
  spelled := by decide +kernel
  short := by decide +kernel
  levels := by decide +kernel
  direct := fun y hy => Or.inl (by
    rw [mem_singleton.mp hy]
    decide +kernel)
  clear := by
    intro y _ c hget
    by_cases hy : y = []
    · rw [hy] at hget
      cases hget
    · rw [get?_empty hy] at hget
      cases hget
  free := by decide +kernel

theorem extracted_nested :
    Extracted .empty "out" "x" (.text "1")
        (((nested .zip).unpackMember "D/x" "out").run.run .empty) ∧
      ∀ r', r' ≠ "x" → placeOf "out" r' ≠ placeOf "out" "x" := by
  have hin : ¬ "D/".toList <:+: "x".toList := by decide +kernel
  have hfile : (nested .zip).find? ("D" ++ "/" ++ "x")
      = some ⟨"D" ++ "/" ++ "x", some (.text "1")⟩ := by decide +kernel
  have h := extracted_iff (wrapped_nested .zip) hfile (by decide +kernel) room_nested
  exact ⟨h.1.mpr ⟨rfl, hin⟩, h.2⟩

/-- The inner file goes where the outer one goes, and on tape both leave the folder. -/
theorem nested_misplaced :
    (((nested .zip).unpackMember "D/D/x" "out").run.run .empty).2
        = .folder "out" (.file "x" (.text "2") .empty) .empty ∧
      (((nested .tar).unpackMember "D/x" "out").run.run .empty).2
        = .folder rootName (.file "x" (.text "1") .empty) .empty := by
  decide +kernel

end Archive

end Docsmith

