import Docsmith.Proofs.Packed

/-! # Normal forms of paths

The normal form of a path is made of the slashes it starts with (`lead`) and of the names that are
left when steps to the same place and steps back are taken out (`steps`). Two paths have the same
normal form just when they agree in both (`normalize_eq_iff`). -/

namespace Docsmith.Path

open List

def lead (p : String) : String :=
  if Text.startsWith "//" p && !Text.startsWith "///" p then "//"
  else if isAbsolute p then "/" else ""

def steps (p : String) : List String :=
  collapse (isAbsolute p) [] (parts p)

def body (p : String) : String :=
  if lead p = "" ∧ steps p = [] then "." else Text.join "/" (steps p).reverse

structure IsStep (s : String) : Prop where
  ne_empty : s ≠ ""
  ne_stay : s ≠ "."
  noSlash : '/' ∉ s.toList

/-! ## Steps -/

def advance (rooted : Bool) (acc : List String) (p : String) : List String :=
  if p.isEmpty || p == "." then acc
  else if p == ".." then
    match acc with
    | [] => if rooted then [] else [".."]
    | top :: rest => if top == ".." then ".." :: acc else rest
  else p :: acc

lemma collapse_eq_foldl (rooted : Bool) (acc ps : List String) :
    collapse rooted acc ps = ps.foldl (advance rooted) acc := by
  induction ps generalizing acc with
  | nil => rfl
  | cons p ps ih =>
    rw [collapse.eq_def, foldl_cons, advance.eq_def]
    cases acc with
    | nil | cons top rest =>
      simp only [ih]
      split <;> [rfl; split <;> rfl]

lemma isStep_advance {rooted : Bool} {acc : List String} {p : String}
    (hacc : ∀ s ∈ acc, IsStep s) (hp : '/' ∉ p.toList) : ∀ s ∈ advance rooted acc p, IsStep s := by
  have hback : IsStep ".." := ⟨by decide, by decide, by decide⟩
  rw [advance.eq_def]
  split
  · exact hacc
  · rename_i hsolid
    rw [Bool.or_eq_true, not_or, String.isEmpty_iff, beq_iff_eq] at hsolid
    split
    · cases acc with
      | nil =>
        cases rooted
        · exact forall_mem_singleton.mpr hback
        · exact forall_mem_nil _
      | cons top rest =>
        show ∀ s ∈ (if top == ".." then ".." :: top :: rest else rest), IsStep s
        split
        · exact forall_mem_cons.mpr ⟨hback, hacc⟩
        · exact (forall_mem_cons.mp hacc).2
    · exact forall_mem_cons.mpr ⟨⟨hsolid.1, hsolid.2, hp⟩, hacc⟩

lemma steps_eq_foldl (p : String) : steps p = (solid (parts p)).foldl (advance (isAbsolute p)) [] := by
  rw [steps, collapse_eq_foldl, solid, foldl_filter]
  congr 1
  funext acc q
  by_cases hq : q.isEmpty = true
  · simp [advance, hq]
  · simp [hq]

lemma isStep_steps (p : String) : ∀ s ∈ steps p, IsStep s := by
  have hparts : ∀ q ∈ solid (parts p), '/' ∉ q.toList := by
    intro q hq
    rw [solid, parts_eq] at hq
    obtain ⟨cs, hcs, rfl⟩ := mem_map.mp (mem_filter.mp hq).1
    rw [String.toList_ofList]
    exact (mem_pieces hcs).1
  rw [steps_eq_foldl]
  generalize solid (parts p) = ps at hparts ⊢
  induction ps using List.reverseRecOn with
  | nil => simp
  | append_singleton ps q ih =>
    rw [foldl_append, foldl_cons, foldl_nil]
    exact isStep_advance (ih fun r hr => hparts r (by simp [hr])) (hparts q (by simp))

/-! ## Reading a normal form -/

lemma join_reverse_eq_empty_iff {ss : List String} (h : ∀ s ∈ ss, IsStep s) :
    Text.join "/" ss.reverse = "" ↔ ss = [] := by
  constructor
  · intro hjoin
    by_contra hne
    have hparts := Archive.parts_joined (reverse_ne_nil_iff.mpr hne)
      fun s hs => (h s (mem_reverse.mp hs)).noSlash
    rw [hjoin] at hparts
    exact (h "" (mem_reverse.mp (hparts ▸ mem_singleton_self ""))).ne_empty rfl
  · rintro rfl
    rfl

lemma normalize_eq (p : String) : normalize p = lead p ++ body p := by
  have hsplit : normalize p = if (lead p).isEmpty && (Text.join "/" (steps p).reverse).isEmpty then "."
      else lead p ++ Text.join "/" (steps p).reverse := rfl
  simp only [hsplit, body, Bool.and_eq_true, String.isEmpty_iff,
    join_reverse_eq_empty_iff (isStep_steps p)]
  split
  · rename_i hnone
    rw [hnone.1, String.empty_append]
  · rfl

lemma names_body (p : String) :
    (parts (body p)).filter (fun s => s ≠ "" ∧ s ≠ ".") = (steps p).reverse := by
  by_cases hsteps : steps p = []
  · rw [body, hsteps]
    split <;> decide
  · have hne : (steps p).reverse ≠ [] := reverse_ne_nil_iff.mpr hsteps
    have hmem : ∀ s ∈ (steps p).reverse, IsStep s := fun s hs =>
      isStep_steps p s (mem_reverse.mp hs)
    rw [body, if_neg fun h => hsteps h.2, Archive.parts_joined hne fun s hs => (hmem s hs).noSlash,
      List.filter_eq_self]
    exact fun s hs => decide_eq_true ⟨(hmem s hs).ne_empty, (hmem s hs).ne_stay⟩

lemma isAbsolute_body (p : String) : isAbsolute (body p) = false := by
  by_cases hsteps : steps p = []
  · rw [body, hsteps]
    split <;> decide
  · refine Store.isAbsolute_eq_false fun hempty => ?_
    have hne : (steps p).reverse ≠ [] := reverse_ne_nil_iff.mpr hsteps
    rw [body, if_neg fun h => hsteps h.2, Archive.parts_joined hne fun s hs =>
      (isStep_steps p s (mem_reverse.mp hs)).noSlash] at hempty
    exact (isStep_steps p "" (mem_reverse.mp hempty)).ne_empty rfl

def slashes (p : String) : Nat :=
  (p.toList.takeWhile (· == '/')).length

lemma startsWith_slashes {s : String} {k : Nat} (h : s.toList = List.replicate k '/')
    (p : String) : Text.startsWith s p = true ↔ k ≤ slashes p := by
  rw [Text.startsWith, h, slashes, isPrefixOf_iff_prefix]
  clear h
  generalize p.toList = cs
  induction cs generalizing k with
  | nil => cases k <;> simp
  | cons c cs ih =>
    cases k with
    | zero => simp
    | succ k =>
      rw [replicate_succ, cons_prefix_cons, ih]
      by_cases hc : c = '/'
      · simp [hc]
      · simp [hc, Ne.symm hc]

lemma lead_eq (p : String) :
    lead p = .ofList (List.replicate (if slashes p = 2 then 2 else min (slashes p) 1) '/') := by
  have hone := startsWith_slashes (s := "/") (k := 1) (by simp) p
  have htwo := startsWith_slashes (s := "//") (k := 2) (by simp) p
  have hthree := startsWith_slashes (s := "///") (k := 3) (by simp) p
  simp only [lead, isAbsolute, Bool.and_eq_true, Bool.not_eq_true', Bool.eq_false_iff, ne_eq, hone,
    htwo, hthree]
  obtain h | h | h | h : slashes p = 0 ∨ slashes p = 1 ∨ slashes p = 2 ∨ 3 ≤ slashes p := by omega
  · simp [h]
  · rw [h]
    rfl
  · rw [h]
    rfl
  · rw [if_neg (by omega), if_pos (by omega), if_neg (by omega), min_eq_right (by omega)]
    rfl

lemma takeWhile_normalize (p : String) :
    (normalize p).toList.takeWhile (· == '/') = (lead p).toList := by
  have hbody : (body p).toList.takeWhile (· == '/') = [] := by
    have habs := isAbsolute_body p
    rw [isAbsolute_eq] at habs
    cases hcs : (body p).toList with
    | nil => rfl
    | cons c cs =>
      rw [hcs] at habs
      exact takeWhile_cons_of_neg (by simpa using habs)
  rw [normalize_eq, String.toList_append, lead_eq, String.toList_ofList,
    takeWhile_append_of_pos (by simp), hbody, append_nil]

lemma normalize_eq_iff {p q : String} :
    normalize p = normalize q ↔ lead p = lead q ∧ steps p = steps q := by
  constructor
  · intro h
    have hlead : lead p = lead q := by
      rw [← String.toList_inj, ← takeWhile_normalize, h, takeWhile_normalize]
    have hbody : body p = body q := by
      rw [normalize_eq, normalize_eq, hlead] at h
      rw [← String.toList_inj] at h ⊢
      rw [String.toList_append, String.toList_append] at h
      exact append_cancel_left h
    refine ⟨hlead, reverse_injective ?_⟩
    rw [← names_body, hbody, names_body]
  · rintro ⟨hlead, hsteps⟩
    rw [normalize_eq, normalize_eq, body, body, hlead, hsteps]

/-! ## A name at the end -/

section Join

open Folder

variable {p q : String} {n : String}

lemma isAbsolute_of_noSlash (hslash : '/' ∉ n.toList) : isAbsolute n = false := by
  rw [isAbsolute_eq]
  cases hcs : n.toList with
  | nil => rfl
  | cons c cs =>
    rw [hcs] at hslash
    simpa using fun h : c = '/' => hslash (h ▸ mem_cons_self)

lemma steps_join (hn : IsName n) (hslash : '/' ∉ n.toList) : steps (join p n) = n :: steps p := by
  have hrel := isAbsolute_of_noSlash hslash
  have hname : ∀ rooted acc, (solid (parts n)).foldl (advance rooted) acc = n :: acc := by
    intro rooted acc
    rw [parts_eq, pieces_of_notMem hslash, map_singleton, String.ofList_toList, solid,
      filter_cons_of_pos (by simp [hn.1])]
    simp [advance, hn.1, hn.2.1, hn.2.2]
  by_cases hp : p = ""
  · have hjoin : join p n = n := by
      rw [hp, join, hrel, if_neg (by simp), if_pos (by simp), String.empty_append]
    have hnone : steps "" = [] := by decide
    rw [hjoin, hp, hnone, steps_eq_foldl, hname]
  · obtain ⟨habs, front, -, hparts, hfront⟩ := parts_join hp hrel
    rw [steps_eq_foldl, habs, hparts, solid_append, hfront, foldl_append, hname, ← steps_eq_foldl]

lemma slashes_join (hne : n ≠ "") (hslash : '/' ∉ n.toList) : slashes (join p n) = slashes p := by
  have hrel := isAbsolute_of_noSlash hslash
  obtain ⟨c, cs, hcs⟩ := exists_cons_of_ne_nil fun h => hne (String.toList_eq_nil_iff.mp h)
  have hc : (c == '/') = false := by
    rw [isAbsolute_eq, hcs] at hrel
    simpa using hrel
  have hname : n.toList.takeWhile (· == '/') = [] := by
    rw [hcs, takeWhile_cons_of_neg (by simp [hc])]
  rw [join, hrel, if_neg (by simp)]
  split
  · rw [slashes, slashes, String.toList_append, takeWhile_append, hname, append_nil]
    split
    · rename_i hall
      rw [hall]
    · rfl
  · rename_i hend
    rw [Bool.or_eq_true, not_or, String.isEmpty_iff] at hend
    -- a path that does not end in a slash is not made of slashes alone
    have hlast : p.toList.takeWhile (· == '/') ≠ p.toList := by
      rw [ne_eq, takeWhile_eq_self_iff]
      intro hall
      have hp : p.toList ≠ [] := fun h => hend.1 (String.toList_eq_nil_iff.mp h)
      have hslash : p.toList.getLast hp = '/' := by simpa using hall _ (getLast_mem hp)
      exact hend.2 (endsWith_slash_iff.mpr ⟨_, hslash ▸ (dropLast_append_getLast hp).symm⟩)
    rw [slashes, slashes, String.append_assoc, String.toList_append, takeWhile_append,
      if_neg fun h => hlast (List.IsPrefix.eq_of_length ( takeWhile_prefix _) h)]

lemma lead_join (hne : n ≠ "") (hslash : '/' ∉ n.toList) : lead (join p n) = lead p := by
  rw [lead_eq, slashes_join hne hslash, ← lead_eq]

lemma normalize_join_iff {m : String} (hn : IsName n) (hslash : '/' ∉ n.toList) (hm : IsName m)
    (hslash' : '/' ∉ m.toList) :
    normalize (join p n) = normalize (join q m) ↔ normalize p = normalize q ∧ n = m := by
  rw [normalize_eq_iff, normalize_eq_iff, lead_join hn.1 hslash, lead_join hm.1 hslash',
    steps_join hn hslash, steps_join hm hslash', List.cons.injEq]
  tauto

def slashed (p : String) : String :=
  if p.isEmpty || Text.endsWith "/" p then p else p ++ "/"

lemma join_eq (hq : isAbsolute q = false) : join p q = slashed p ++ q := by
  rw [join, hq, slashed, if_neg (by simp)]
  split <;> rfl

lemma slashed_slashed (p : String) : slashed (slashed p) = slashed p := by
  by_cases hp : (p.isEmpty || Text.endsWith "/" p) = true
  · rw [slashed, slashed, if_pos hp, if_pos hp]
  · have hend : Text.endsWith "/" (p ++ "/") = true := endsWith_slash_iff.mpr ⟨p.toList, by simp⟩
    rw [slashed, slashed, if_neg hp, hend, Bool.or_true, if_pos rfl]

lemma slashed_append (hq : q ≠ "") : slashed (p ++ q) = p ++ slashed q := by
  have hempty : ∀ r : String, r ≠ "" → r.isEmpty = false := fun r hr => by simpa using hr
  have hend : Text.endsWith "/" (p ++ q) = Text.endsWith "/" q := by
    have hchars : q.toList ≠ [] := fun h => hq (String.toList_eq_nil_iff.mp h)
    rw [Bool.eq_iff_iff, endsWith_slash_iff, endsWith_slash_iff, ← getLast?_eq_some_iff,
      ← getLast?_eq_some_iff, String.toList_append, getLast?_append_of_ne_nil _ hchars]
  rw [slashed, slashed, hend, hempty q hq, hempty (p ++ q) (by simp [hq]), String.append_assoc]
  split <;> rfl

lemma join_join {here : String} (hq : isAbsolute q = false) :
    join here (join p q) = join (join here p) q := by
  by_cases hp : p = ""
  · have hnone : isAbsolute "" = false := by decide
    have hjoin : join "" q = q := by
      rw [join_eq hq]
      exact String.empty_append
    rw [hp, hjoin, join_eq hq, join_eq hq, join_eq hnone, String.append_empty, slashed_slashed]
  · have habs : isAbsolute (join p q) = isAbsolute p := (parts_join hp hq).1
    cases hrooted : isAbsolute p with
    | true => rw [join, habs, hrooted, if_pos rfl, join.eq_def here p, hrooted, if_pos rfl]
    | false =>
      rw [join_eq (habs.trans hrooted), join_eq hrooted, join_eq hq, join_eq hq, slashed_append hp,
        String.append_assoc]

lemma absolute_join_iff {here m : String} (hn : IsName n) (hslash : '/' ∉ n.toList)
    (hm : IsName m) (hslash' : '/' ∉ m.toList) :
    absolute here (join p n) = absolute here (join q m)
      ↔ absolute here p = absolute here q ∧ n = m := by
  rw [absolute, absolute, join_join (isAbsolute_of_noSlash hslash),
    join_join (isAbsolute_of_noSlash hslash'), normalize_join_iff hn hslash hm hslash', absolute,
    absolute]

end Join

end Docsmith.Path
