import Docsmith.Document
import Docsmith.Proofs.Chapters
import Docsmith.Proofs.Tables

/-! # Documents that can be read again

A document is `Legible` when the chapter it is written as is read as the same document, alone and in
front of others; a text of legible documents is read as these (`Holds.read`). A list comes back when
no item has marks at its ends, is empty or has a line end, and the last one has no blank at its end
(`items_strip_bullets`). -/

namespace Docsmith.Chapter

open List

/-! ## Lists -/

def isItemMark (c : Char) : Bool := ['-', ' '].contains c

@[mk_iff]
structure IsItem (x : List Char) : Prop where
  ne_nil : x ≠ []
  trimmed : Chars.trim isItemMark x = x
  line : ∀ c ∈ x, Chars.isLineBreak c = false

-- only the characters of the item are looked at, not all that there are
instance (x : List Char) : Decidable (IsItem x) :=
  haveI := List.decidableBAll (fun c => Chars.isLineBreak c = false) x
  decidable_of_iff _ (isItem_iff x).symm

def itemChars (cs : List Char) : List (List Char) :=
  ((Chars.splitLines cs).map (Chars.trim isItemMark)).filter (!·.isEmpty)

lemma items_eq (s : String) : items s = (itemChars s.toList).map String.ofList := by
  have hempty : ((!·.isEmpty) ∘ String.ofList : List Char → Bool) = (!·.isEmpty) := by
    funext x
    rw [Bool.eq_iff_iff]
    simp
  have htrim : Text.stripOf ['-', ' '] ∘ String.ofList
      = String.ofList ∘ Chars.trim isItemMark := by
    funext x
    simp only [Function.comp_apply, Text.stripOf, String.toList_ofList]
    rfl
  rw [items, itemChars, Text.splitLines, map_map, htrim, ← map_map, filter_map,
    hempty]

lemma isItem_of_mem {x cs : List Char} (h : x ∈ itemChars cs) : IsItem x ∧ x <:+: cs := by
  obtain ⟨hmem, hne⟩ := mem_filter.mp h
  obtain ⟨l, hl, rfl⟩ := mem_map.mp hmem
  obtain ⟨hin, hline⟩ := Chars.mem_splitLines hl
  have htrim := Chars.trim_infix isItemMark l
  exact ⟨⟨by simpa using hne, Chars.trim_trim _ l, fun c hc => hline c (htrim.subset hc)⟩,
    htrim.trans hin⟩

def itemLines (xs : List String) : List Char :=
  xs.flatMap fun x => '-' :: ' ' :: (x.toList ++ ['\n'])

lemma toList_bullets_concat (xs : List String) (x : String) :
    (bullets (xs ++ [x])).toList = itemLines xs ++ '-' :: ' ' :: x.toList := by
  induction xs with
  | nil => simp [bullets, itemLines]
  | cons y xs ih =>
    obtain ⟨z, zs, hz⟩ := exists_cons_of_ne_nil (l := xs ++ [x]) (by simp)
    have hcons : bullets (y :: (xs ++ [x])) = "- " ++ y ++ "\n" ++ bullets (xs ++ [x]) := by
      rw [hz]
      exact Text.join_cons_cons "\n" ("- " ++ y) ("- " ++ z) _
    rw [cons_append, hcons, String.toList_append, ih]
    simp [itemLines]

variable {xs : List String}

lemma bullets_ne_empty (h : xs ≠ []) : bullets xs ≠ "" := by
  intro hempty
  have hnil := congrArg String.toList hempty
  obtain ⟨ys, x, rfl⟩ := (eq_nil_or_concat xs).resolve_left h
  rw [concat_eq_append, toList_bullets_concat] at hnil
  simp at hnil

variable {x : List Char}

lemma trim_item (hx : IsItem x) : Chars.trim isItemMark ('-' :: ' ' :: x) = x := by
  rw [Chars.trim_cons_of_pos (by decide), Chars.trim_cons_of_pos (by decide), hx.trimmed]

lemma item_line (hx : ∀ c ∈ x, Chars.isLineBreak c = false) :
    ∀ c ∈ '-' :: ' ' :: x, Chars.isLineBreak c = false := by
  simpa using ⟨by decide, by decide, hx⟩

lemma inner_item (hx : IsItem x) : Inner ('-' :: ' ' :: x) := by
  intro hin
  rcases infix_cons_iff.mp hin with hp | hin
  · simp [chapterMark] at hp
  · have hnl : '\n' ∈ '-' :: ' ' :: x := hin.subset mem_cons_self
    exact absurd (item_line hx.line _ hnl) (by decide)

lemma itemChars_itemLines (hxs : ∀ x ∈ xs, IsItem x.toList) (cs : List Char) :
    itemChars (itemLines xs ++ cs) = xs.map String.toList ++ itemChars cs := by
  induction xs with
  | nil => rfl
  | cons x xs ih =>
    obtain ⟨hx, hrest⟩ := forall_mem_cons.mp hxs
    have hlines : itemLines (x :: xs) ++ cs
        = '-' :: ' ' :: x.toList ++ '\n' :: (itemLines xs ++ cs) := by
      simp [itemLines]
    have hne : x.toList.isEmpty = false := by simpa using hx.ne_nil
    rw [hlines, itemChars, Chars.splitLines_append_newline (item_line hx.line), map_cons,
      trim_item hx, filter_cons_of_pos (by simp [hne]), map_cons, cons_append,
      ← ih hrest]
    rfl

lemma itemChars_line {l : List Char} (hl : ∀ c ∈ l, Chars.isLineBreak c = false) (hne : l ≠ []) :
    itemChars l = [Chars.trim isItemMark l].filter (!·.isEmpty) := by
  rw [itemChars, Chars.splitLines_line hl hne]
  rfl

def EndsWell (xs : List String) : Prop :=
  ∀ x ∈ xs.getLast?, ∀ c ∈ x.toList.getLast?, Chars.isBlank c = false

instance (xs : List String) : Decidable (EndsWell xs) :=
  haveI (x : String) : Decidable (∀ c ∈ x.toList.getLast?, Chars.isBlank c = false) :=
    Option.decidableForallMem _
  inferInstanceAs (Decidable (∀ x ∈ xs.getLast?, ∀ c ∈ x.toList.getLast?, Chars.isBlank c = false))

lemma items_bullets (hxs : ∀ x ∈ xs, IsItem x.toList) : items (bullets xs) = xs := by
  induction xs using List.reverseRecOn with
  | nil => rfl
  | append_singleton xs x _ =>
    have hx : IsItem x.toList := hxs x (by simp)
    have hne : x.toList.isEmpty = false := by simpa using hx.ne_nil
    rw [items_eq, toList_bullets_concat, itemChars_itemLines fun y hy => hxs y (by simp [hy]),
      itemChars_line (item_line hx.line) (by simp), trim_item hx]
    simp [hne]

lemma strip_itemLines (xs : List String) {r w : List Char}
    (hlast : Chars.isBlank (('-' :: r).getLast (by simp)) = false)
    (hw : ∀ c ∈ w, Chars.isBlank c = true) :
    Chars.strip (itemLines xs ++ ('-' :: r ++ w)) = itemLines xs ++ '-' :: r := by
  have hne : itemLines xs ++ '-' :: r ≠ [] := by simp
  have hdash : Chars.isBlank '-' = false := by decide
  have hhead : Chars.isBlank ((itemLines xs ++ '-' :: r).head hne) = false := by
    cases xs with
    | nil | cons x xs => simpa [itemLines] using hdash
  have hend : Chars.isBlank ((itemLines xs ++ '-' :: r).getLast hne) = false := by
    rw [getLast_append_of_ne_nil _ (by simp)]
    exact hlast
  have hstrip := Chars.trim_append_eq hne hhead hend hw
  rw [append_assoc] at hstrip
  exact hstrip

lemma strip_bullets (hxs : ∀ x ∈ xs, IsItem x.toList) (hend : EndsWell xs) :
    Text.strip (bullets xs) = bullets xs := by
  induction xs using List.reverseRecOn with
  | nil => rfl
  | append_singleton xs x _ =>
    have hx : x.toList ≠ [] := (hxs x (by simp)).ne_nil
    have hlast : Chars.isBlank (('-' :: ' ' :: x.toList).getLast (by simp)) = false := by
      rw [getLast_cons (by simp), getLast_cons hx]
      exact hend x (by simp) _ (by simp [getLast?_eq_getLast_of_ne_nil hx])
    have hstrip := strip_itemLines xs hlast (w := []) (by simp)
    rw [append_nil] at hstrip
    rw [Text.strip, toList_bullets_concat, hstrip, ← toList_bullets_concat, String.ofList_toList]

lemma exists_shorter_item (hx : x ≠ []) (hlast : Chars.isBlank (x.getLast hx) = true) :
    ∃ r w, '-' :: ' ' :: x = '-' :: r ++ w ∧ (∀ c ∈ w, Chars.isBlank c = true) ∧
      Chars.isBlank (('-' :: r).getLast (by simp)) = false ∧
      (Chars.trim isItemMark ('-' :: r)).length < x.length := by
  have hsplit : x = x.rdropWhile Chars.isBlank ++ x.rtakeWhile Chars.isBlank :=
    rdropWhile_append_rtakeWhile.symm
  have hw : ∀ c ∈ x.rtakeWhile Chars.isBlank, Chars.isBlank c = true := fun c hc =>
    mem_rtakeWhile_imp hc
  by_cases hnil : x.rdropWhile Chars.isBlank = []
  · -- nothing but blanks: only the mark is left
    refine ⟨[], ' ' :: x, rfl, ?_, by decide, ?_⟩
    · rw [hnil] at hsplit
      rw [hsplit]
      exact forall_mem_cons.mpr ⟨by decide, hw⟩
    · exact length_pos_iff.mpr hx
  · refine ⟨' ' :: x.rdropWhile Chars.isBlank, x.rtakeWhile Chars.isBlank, ?_, hw, ?_, ?_⟩
    · rw [cons_append, cons_append, ← hsplit]
    · rw [getLast_cons (by simp), getLast_cons hnil]
      exact Bool.eq_false_iff.mpr (rdropWhile_last_not Chars.isBlank x hnil)
    · rw [Chars.trim_cons_of_pos (by decide), Chars.trim_cons_of_pos (by decide)]
      have hle := ( Chars.trim_infix isItemMark (x.rdropWhile Chars.isBlank)).length_le
      have hne : x.rtakeWhile Chars.isBlank ≠ [] := by
        intro h
        rw [rtakeWhile_eq_nil_iff] at h
        exact h hx hlast
      have hlen := congrArg List.length hsplit
      rw [length_append] at hlen
      have hpos := length_pos_iff.mpr hne
      omega

lemma items_strip_bullets (hxs : ∀ x ∈ xs, IsItem x.toList) :
    items (Text.strip (bullets xs)) = xs ↔ EndsWell xs := by
  constructor
  · intro h x hx c hc
    obtain ⟨ys, rfl⟩ := getLast?_eq_some_iff.mp hx
    by_contra hblank
    rw [Bool.not_eq_false] at hblank
    have hitem : IsItem x.toList := hxs x (by simp)
    have hys : ∀ y ∈ ys, IsItem y.toList := fun y hy => hxs y (by simp [hy])
    rw [getLast?_eq_getLast_of_ne_nil hitem.ne_nil, Option.mem_some_iff] at hc
    subst hc
    obtain ⟨r, w, heq, hw, hlast, hshort⟩ := exists_shorter_item hitem.ne_nil hblank
    have hline : ∀ c ∈ '-' :: r, Chars.isLineBreak c = false := fun c hc =>
      item_line hitem.line c (heq ▸ mem_append_left w hc)
    rw [items_eq, Text.strip, String.toList_ofList, toList_bullets_concat, heq,
      strip_itemLines ys hlast hw, itemChars_itemLines hys, itemChars_line hline (by simp),
      map_append] at h
    have hback : (ys.map String.toList).map String.ofList = ys := by simp
    rw [hback] at h
    have hmem : x ∈ ([Chars.trim isItemMark ('-' :: r)].filter (!·.isEmpty)).map String.ofList := by
      rw [append_cancel_left h]
      exact mem_singleton_self x
    obtain ⟨y, hy, rfl⟩ := mem_map.mp hmem
    rw [mem_singleton.mp (mem_filter.mp hy).1, String.toList_ofList] at hshort
    exact absurd hshort (Nat.lt_irrefl _)
  · intro hend
    rw [strip_bullets hxs hend, items_bullets hxs]

lemma unmarked_itemLines (hxs : ∀ x ∈ xs, Unmarked x.toList) {cs : List Char} (hcs : Unmarked cs) :
    Unmarked (itemLines xs ++ cs) := by
  induction xs with
  | nil => exact hcs
  | cons x xs ih =>
    obtain ⟨hx, hrest⟩ := forall_mem_cons.mp hxs
    have hlines : itemLines (x :: xs) ++ cs
        = ['-'] ++ ' ' :: (x.toList ++ '\n' :: (itemLines xs ++ cs)) := by
      simp [itemLines]
    rw [Unmarked, hlines, Chars.infix_append_cons_iff (by decide) (by decide),
      Chars.infix_append_cons_iff (by decide) (by decide), not_or, not_or]
    exact ⟨by decide, hx, ih hrest⟩

lemma unmarked_bullets (hxs : ∀ x ∈ xs, Unmarked x.toList) : Unmarked (bullets xs).toList := by
  induction xs using List.reverseRecOn with
  | nil => simp [Unmarked, bullets, sectionMark]
  | append_singleton xs x _ =>
    rw [toList_bullets_concat]
    refine unmarked_itemLines (fun y hy => hxs y (by simp [hy])) ?_
    rw [Unmarked, ← singleton_append, Chars.infix_append_cons_iff (by decide) (by decide),
      not_or]
    exact ⟨by decide, hxs x (by simp)⟩

lemma inner_itemLines (hxs : ∀ x ∈ xs, IsItem x.toList) {cs : List Char} (hcs : Inner cs) :
    Inner (itemLines xs ++ cs) := by
  induction xs with
  | nil => exact hcs
  | cons x xs ih =>
    obtain ⟨hx, hrest⟩ := forall_mem_cons.mp hxs
    have hlines : '\n' :: (itemLines (x :: xs) ++ cs)
        = ('\n' :: '-' :: ' ' :: x.toList) ++ '\n' :: (itemLines xs ++ cs) := by
      simp [itemLines]
    rw [Inner, hlines, Chars.cons_infix_append_cons_iff (by decide), not_or]
    exact ⟨inner_item hx, ih hrest⟩

lemma inner_bullets (hxs : ∀ x ∈ xs, IsItem x.toList) : Inner (bullets xs).toList := by
  induction xs using List.reverseRecOn with
  | nil => simpa [bullets] using inner_nil
  | append_singleton xs x _ =>
    rw [toList_bullets_concat]
    exact inner_itemLines (fun y hy => hxs y (by simp [hy])) (inner_item (hxs x (by simp)))

lemma return_notMem_bullets (hxs : ∀ x ∈ xs, IsItem x.toList) : '\r' ∉ (bullets xs).toList := by
  have hline : ∀ x ∈ xs, '\r' ∉ x.toList := fun x hx hr =>
    absurd ((hxs x hx).line _ hr) (by decide)
  induction xs using List.reverseRecOn with
  | nil => simp [bullets]
  | append_singleton xs x _ =>
    rw [toList_bullets_concat]
    simpa [itemLines, hline x (by simp)] using fun y hy => hline y (by simp [hy])

/-! ## Texts and fields -/

@[mk_iff]
structure IsText (t : String) : Prop where
  stripped : Text.strip t = t
  unmarked : Unmarked t.toList
  inner : Inner t.toList
  noReturn : '\r' ∉ t.toList

instance (t : String) : Decidable (IsText t) :=
  decidable_of_iff _ (isText_iff t).symm

@[mk_iff]
structure IsTitle (t : String) : Prop where
  stripped : Text.strip t = t
  line : '\n' ∉ t.toList
  noReturn : '\r' ∉ t.toList

instance (t : String) : Decidable (IsTitle t) :=
  decidable_of_iff _ (isTitle_iff t).symm

@[mk_iff]
structure IsList (xs : List String) : Prop where
  items : ∀ x ∈ xs, IsItem x.toList
  unmarked : ∀ x ∈ xs, Unmarked x.toList
  ends : EndsWell xs

instance (xs : List String) : Decidable (IsList xs) :=
  decidable_of_iff _ (isList_iff xs).symm

lemma IsList.isText (h : IsList xs) : IsText (bullets xs) where
  stripped := strip_bullets h.items h.ends
  unmarked := unmarked_bullets h.unmarked
  inner := inner_bullets h.items
  noReturn := return_notMem_bullets h.items

lemma strip_ofList_strip (cs : List Char) :
    Text.strip (.ofList (Chars.strip cs)) = .ofList (Chars.strip cs) := by
  rw [Text.strip, String.toList_ofList, Chars.strip, Chars.strip, Chars.trim_trim]

lemma section?_spec {h b t : String} (ht : Chapter.section? h b = some t) :
    Text.strip t = t ∧ Unmarked t.toList ∧ t.toList <:+: b.toList := by
  rw [section?_eq, cut, Option.map_map, Option.map_eq_some_iff] at ht
  obtain ⟨⟨x, rest⟩, hbreak, rfl⟩ := ht
  have htrim := Chars.trim_infix Chars.isBlank (Chars.before sectionMark rest)
  have hrest : rest <:+: b.toList :=
    ⟨x ++ heading h, [], by rw [append_nil, ← Chars.eq_append_of_breakOn hbreak]⟩
  simp only [Function.comp_apply, String.toList_ofList]
  refine ⟨strip_ofList_strip _, ?_, ?_⟩
  · exact fun hin => Chars.not_infix_before (by decide) rest (hin.trans htrim)
  · have hprefix := Chars.before_prefix sectionMark rest
    exact (htrim.trans hprefix.isInfix).trans hrest

def setFields (fs : List (String × Option String)) : List (String × String) :=
  fs.filterMap fun f => f.2.map (f.1, ·)

variable {fs : List (String × Option String)}

lemma mem_setFields {h t : String} : (h, t) ∈ setFields fs ↔ (h, some t) ∈ fs := by
  simp [setFields]

lemma bodyChars_setFields_cons (h : String) (t : Option String)
    (fs : List (String × Option String)) :
    bodyChars (setFields ((h, t) :: fs))
      = (writeSection? h t).toList ++ bodyChars (setFields fs) := by
  cases t with
  | none => rfl
  | some t =>
    rw [writeSection?, toList_writeSection]
    rfl

/-- Fields under different headings, none of them that of the description. -/
def Headed (fs : List (String × Option String)) : Prop :=
  ("Description" :: fs.map Prod.fst).Nodup ∧ ∀ f ∈ fs, f.1 ∈ headers

lemma headed_of_keys (ks : List String) (h : fs.map Prod.fst = ks)
    (hks : ("Description" :: ks).Nodup ∧ ∀ k ∈ ks, k ∈ headers) : Headed fs := by
  subst h
  exact ⟨hks.1, fun f hf => hks.2 f.1 (mem_map_of_mem hf)⟩

lemma lookup_setFields_eq_none {k : String} (hk : k ∉ fs.map Prod.fst) :
    (setFields fs).lookup k = none := by
  rw [lookup_eq_none_iff]
  rintro ⟨h, t⟩ hmem
  have hf := mem_setFields.mp hmem
  rw [bne_iff_ne]
  rintro rfl
  exact hk (mem_map_of_mem hf)

lemma lookup_setFields (hfs : (fs.map Prod.fst).Nodup) {f : String × Option String} (hf : f ∈ fs) :
    (setFields fs).lookup f.1 = f.2 := by
  induction fs with
  | nil => exact absurd hf not_mem_nil
  | cons g fs ih =>
    obtain ⟨h, t⟩ := g
    rw [map_cons, nodup_cons] at hfs
    have hcons : setFields ((h, t) :: fs) = (t.map (h, ·)).toList ++ setFields fs := by
      cases t with
      | none | some t => rfl
    rw [hcons]
    rcases mem_cons.mp hf with rfl | hmem
    · cases t with
      | none => exact lookup_setFields_eq_none hfs.1
      | some t => exact lookup_cons_self
    · have hne : f.1 ≠ h := fun heq => hfs.1 (mem_map.mpr ⟨f, hmem, heq⟩)
      cases t with
      | none => exact ih hfs.2 hmem
      | some t =>
        show List.lookup f.1 ((h, t) :: setFields fs) = f.2
        rw [lookup_cons, beq_false_of_ne hne]
        exact ih hfs.2 hmem

end Docsmith.Chapter

namespace Docsmith.Document

open Chapter List

variable {δ : Type} [Document δ]

/-- The characters after the mark of a chapter that is read as the document it was written from. -/
structure Legible (d : δ) (t : List Char) : Prop where
  written : markdown d = .ok (.ofList (chapterMark ++ t))
  single : ¬ '\n' :: chapterMark <:+: t
  read : ∀ n, ofChapter (.ofList (chapterMark ++ (t ++ List.replicate n '\n'))) = .ok d
  noReturn : '\r' ∉ t

def Holds (text : String) (ds : List δ) : Prop :=
  ∃ ts, text.toList = fileChars ts ∧ List.Forall₂ Legible ds ts

lemma holds_nil : Holds "" ([] : List δ) :=
  ⟨[], by simp [fileChars], .nil⟩

lemma holds_single {d : δ} {t : List Char} (hd : Legible d t) :
    Holds (.ofList (chapterMark ++ t) ++ "\n") [d] :=
  ⟨[t], by simp [fileChars], .cons hd .nil⟩

lemma Holds.append {text more : String} {ds es : List δ} (h : Holds text ds)
    (hmore : Holds more es) : Holds (text ++ more) (ds ++ es) := by
  obtain ⟨ts, htext, hts⟩ := h
  obtain ⟨us, hus, hmore⟩ := hmore
  refine ⟨ts ++ us, ?_, rel_append hts hmore⟩
  simp [htext, hus, fileChars]

lemma forall₂_found {ds : List δ} {ts : List (List Char)} (h : List.Forall₂ Legible ds ts) :
    List.Forall₂ (fun a d => ofChapter a = .ok d)
      ((found ts).map fun t => .ofList (chapterMark ++ t)) ds := by
  induction h with
  | nil => exact .nil
  | @cons d t ds ts hd hrest ih =>
    cases hrest with
    | nil => exact .cons (hd.read 1) .nil
    | cons hd' hrest' =>
      refine .cons ?_ ih
      have hread := hd.read 0
      rwa [replicate_zero, append_nil] at hread

lemma single_of_legible {ds : List δ} {ts : List (List Char)} (h : List.Forall₂ Legible ds ts) :
    ∀ t ∈ ts, ¬ '\n' :: chapterMark <:+: t ∧ '\r' ∉ t := by
  induction h with
  | nil => simp
  | cons hd _ ih => exact forall_mem_cons.mpr ⟨⟨hd.single, hd.noReturn⟩, ih⟩

lemma Holds.read {text : String} {ds : List δ} (h : Holds text ds) :
    ofText text = .ok ds := by
  obtain ⟨ts, htext, hts⟩ := h
  rw [ofText, ← String.ofList_toList (s := text), htext,
    split_file fun t ht => (single_of_legible hts t ht).1, mapM_ok_iff]
  exact forall₂_found hts

lemma Holds.noReturn {text : String} {ds : List δ} (h : Holds text ds) :
    '\r' ∉ text.toList := by
  obtain ⟨ts, htext, hts⟩ := h
  rw [htext]
  simpa [fileChars, chapterMark] using fun t ht => (single_of_legible hts t ht).2

lemma toList_head (name description : String) :
    (head name description).toList
      = chapterMark ++ (name.toList ++ '\n' :: sectionChars ("Description", description)) := by
  rw [Chapter.head, String.toList_append, toList_writeSection]
  simp [chapterMark]

lemma markdown_eq {d : δ} {s : String} {ss : List (String × String)}
    (hs : sections d = .ok s) (hchars : s.toList = bodyChars ss) :
    markdown d = .ok (.ofList (chapterMark ++ chapterChars (name d) (description d) ss)) := by
  rw [markdown, hs]
  show Except.ok _ = _
  rw [Except.ok.injEq, ← String.toList_inj, String.toList_append, toList_head, Text.strip, hchars, chapterChars]
  simp

lemma ofChapter_chapterChars {name description : String} {fs : List (String × Option String)}
    (hname : '\n' ∉ name.toList) (hfs : Headed fs)
    (hdescription : Unmarked description.toList ∧ Inner description.toList)
    (htexts : ∀ f ∈ fs, ∀ t ∈ f.2, Unmarked t.toList ∧ Inner t.toList) (n : Nat) :
    ∃ b, ofChapter (δ := δ) (.ofList (chapterMark
        ++ (chapterChars name description (setFields fs) ++ List.replicate n '\n')))
          = ofBlock (Text.strip name) (Text.strip description) b ∧
      ∀ f ∈ fs, Chapter.section? f.1 b = f.2.map Text.strip := by
  have hset : ∀ s ∈ ("Description", description) :: setFields fs,
      s.1 ∈ headers ∧ Unmarked s.2.toList ∧ Inner s.2.toList := by
    refine forall_mem_cons.mpr ⟨⟨mem_cons_self, hdescription⟩, ?_⟩
    rintro ⟨h, t⟩ hs
    have hf := mem_setFields.mp hs
    exact ⟨hfs.2 _ hf, htexts _ hf t rfl⟩
  obtain ⟨b, htitle, hb⟩ := read_chapter hname (fun s hs => ⟨(hset s hs).1, (hset s hs).2.1⟩)
    (fun s hs => (hset s hs).2.2) n
  refine ⟨b, ?_, ?_⟩
  · rw [ofChapter, htitle]
    simp only [hb "Description" mem_cons_self, lookup_cons_self, Option.map_some]
  · intro f hf
    obtain ⟨hnew, hnodup⟩ := nodup_cons.mp hfs.1
    have hne : f.1 ≠ "Description" := fun h => hnew (h ▸ mem_map_of_mem hf)
    rw [hb f.1 (hfs.2 f hf), lookup_cons, beq_false_of_ne hne, lookup_setFields hnodup hf]

lemma legible_of_fields {d : δ} {s : String} {fs : List (String × Option String)}
    (hs : sections d = .ok s) (hchars : s.toList = bodyChars (setFields fs)) (hfs : Headed fs)
    (hname : IsTitle (name d)) (hdescription : IsText (description d))
    (htexts : ∀ f ∈ fs, ∀ t ∈ f.2, IsText t)
    (hread : ∀ b, (∀ f ∈ fs, Chapter.section? f.1 b = f.2) →
      ofBlock (name d) (description d) b = .ok d) :
    Legible d (chapterChars (name d) (description d) (setFields fs)) := by
  have hset : ∀ s ∈ ("Description", description d) :: setFields fs, s.1 ∈ headers ∧ IsText s.2 := by
    refine forall_mem_cons.mpr ⟨⟨mem_cons_self, hdescription⟩, ?_⟩
    rintro ⟨h, t⟩ hs
    have hf := mem_setFields.mp hs
    exact ⟨hfs.2 _ hf, htexts _ hf t rfl⟩
  refine ⟨markdown_eq hs hchars, ?_, fun n => ?_, ?_⟩
  · exact (not_infix_chapterChars hname.line (fun s hs => ⟨(hset s hs).1, (hset s hs).2.unmarked⟩)
      fun s hs => (hset s hs).2.inner).2
  · obtain ⟨b, hof, hb⟩ := ofChapter_chapterChars (δ := δ) hname.line hfs
      ⟨hdescription.unmarked, hdescription.inner⟩
      (fun f hf t ht => ⟨(htexts f hf t ht).unmarked, (htexts f hf t ht).inner⟩) n
    rw [hof, hname.stripped, hdescription.stripped]
    refine hread b fun f hf => ?_
    rw [hb f hf]
    cases hft : f.2 with
    | none => rfl
    | some t => exact congrArg some (htexts f hf t hft).stripped
  · exact return_notMem_chapterChars hname.noReturn fun s hs =>
      ⟨(hset s hs).1, (hset s hs).2.noReturn⟩

end Docsmith.Document

namespace Docsmith

open Chapter

/-! ## Documents on routines -/

def RoutineDoc.fields (d : RoutineDoc) : List (String × Option String) :=
  [("Parameters", d.parameters), ("Code Details", d.detail), ("Example", d.usage),
    ("Source Code", d.code)]

lemma RoutineDoc.headed (d : RoutineDoc) : Headed d.fields :=
  headed_of_keys ["Parameters", "Code Details", "Example", "Source Code"] rfl (by decide)

lemma RoutineDoc.toList_sections (d : RoutineDoc) :
    d.sections.toList = bodyChars (setFields d.fields) := by
  simp only [RoutineDoc.sections, RoutineDoc.fields, bodyChars_setFields_cons]
  simp [setFields, bodyChars]

@[mk_iff]
structure RoutineDoc.Clean (d : RoutineDoc) : Prop where
  title : IsTitle d.name
  description : IsText d.description
  fields : ∀ f ∈ d.fields, ∀ t ∈ f.2, IsText t

instance (d : RoutineDoc) : Decidable d.Clean :=
  decidable_of_iff _ (RoutineDoc.clean_iff d).symm

lemma RoutineDoc.Clean.legible {d : RoutineDoc} (h : d.Clean) : ∃ t, Document.Legible d t := by
  refine ⟨_, Document.legible_of_fields rfl d.toList_sections d.headed h.title
    h.description h.fields fun b hb => ?_⟩
  obtain ⟨hparameters, hdetail, husage, hcode, -⟩ := by
    simpa only [RoutineDoc.fields, List.forall_mem_cons] using hb
  show Except.ok _ = _
  rw [hparameters, hdetail, husage, hcode]
  rfl

/-! ## Documents on records -/

def RecordDoc.fields (d : RecordDoc) : List (String × Option String) :=
  [("Attributes", d.attributes), ("Code Details", some (d.detail.getD "None"))]

lemma RecordDoc.headed (d : RecordDoc) : Headed d.fields :=
  headed_of_keys ["Attributes", "Code Details"] rfl (by decide)

lemma RecordDoc.toList_sections (d : RecordDoc) :
    d.sections.toList = bodyChars (setFields d.fields) := by
  simp only [RecordDoc.sections, RecordDoc.fields, bodyChars_setFields_cons, writeSection?]
  simp [setFields, bodyChars]

/-- The detail has to be set: it is written in any case. -/
@[mk_iff]
structure RecordDoc.Clean (d : RecordDoc) : Prop where
  title : IsTitle d.name
  description : IsText d.description
  attributes : ∀ t ∈ d.attributes, IsText t
  detail : ∃ t ∈ d.detail, IsText t

instance (d : RecordDoc) : Decidable d.Clean :=
  decidable_of_iff _ (RecordDoc.clean_iff d).symm

lemma RecordDoc.Clean.legible {d : RecordDoc} (h : d.Clean) : ∃ t, Document.Legible d t := by
  obtain ⟨detail, hset, hdetail⟩ := h.detail
  refine ⟨_, Document.legible_of_fields rfl d.toList_sections d.headed h.title
    h.description ?_ fun b hb => ?_⟩
  · simpa [RecordDoc.fields, Option.mem_def.mp hset, hdetail] using h.attributes
  · obtain ⟨hattributes, hdetails, -⟩ := by
      simpa only [RecordDoc.fields, List.forall_mem_cons] using hb
    show Except.ok _ = _
    rw [hattributes, hdetails, hset, Option.getD_some, ← hset]
    rfl

/-! ## Documents on modules -/

def ModuleDoc.fields (d : ModuleDoc) : List (String × Option String) :=
  [("Functions", (d.functions.filter (· ≠ [])).map bullets),
    ("Use Case", d.usage.filter (· ≠ ""))]

lemma ModuleDoc.headed (d : ModuleDoc) : Headed d.fields :=
  headed_of_keys ["Functions", "Use Case"] rfl (by decide)

lemma writeItems?_eq (h : String) (xs : Option (List String)) :
    writeItems? h xs = writeSection? h ((xs.filter (· ≠ [])).map bullets) := by
  match xs with
  | none => rfl
  | some [] => rfl
  | some (x :: xs) => rfl

lemma ModuleDoc.exists_sections (d : ModuleDoc) : ∃ s, Document.sections d = .ok s ∧
    s.toList = bodyChars (setFields d.fields) := by
  refine ⟨_, rfl, ?_⟩
  rw [ModuleDoc.fields, bodyChars_setFields_cons, bodyChars_setFields_cons, String.toList_append,
    writeItems?_eq]
  congr 1
  cases d.usage with
  | none => rfl
  | some t =>
    by_cases ht : t = ""
    · subst ht
      rfl
    · rw [Option.filter_some, if_pos (by simpa using ht)]
      simp [writeSection?, setFields, bodyChars]

lemma ModuleDoc.ofBlock_eq (name description b : String) :
    Document.ofBlock (δ := ModuleDoc) name description b
      = (itemsOf "Functions" b).map fun functions =>
          { name, description, functions := some functions,
            usage := Chapter.section? "Use Case" b } := by
  show Except.bind (itemsOf "Functions" b) (fun fs => Except.ok _) = _
  cases itemsOf "Functions" b with
  | error e | ok fs => rfl

/-- An empty list or use case is not written. -/
@[mk_iff]
structure ModuleDoc.Clean (d : ModuleDoc) : Prop where
  title : IsTitle d.name
  description : IsText d.description
  functions : ∃ xs ∈ d.functions, xs ≠ [] ∧ IsList xs
  usage : ∀ t ∈ d.usage, t ≠ "" ∧ IsText t

lemma filter_eq_self {α : Type} {p : α → Bool} {o : Option α} (h : ∀ a ∈ o, p a = true) :
    o.filter p = o := by
  cases o with
  | none => rfl
  | some a => rw [Option.filter_some, if_pos (h a rfl)]

instance (d : ModuleDoc) : Decidable d.Clean :=
  decidable_of_iff _ (ModuleDoc.clean_iff d).symm

lemma ModuleDoc.Clean.legible {d : ModuleDoc} (h : d.Clean) : ∃ t, Document.Legible d t := by
  obtain ⟨xs, hset, hne, hxs⟩ := h.functions
  obtain ⟨s, hs, hchars⟩ := d.exists_sections
  have hfields : d.fields = [("Functions", some (bullets xs)), ("Use Case", d.usage)] := by
    rw [ModuleDoc.fields, filter_eq_self (o := d.usage) fun t ht => by simpa using (h.usage t ht).1,
      hset, Option.filter_some, if_pos (by simpa using hne), Option.map_some]
  refine ⟨_, Document.legible_of_fields hs hchars d.headed h.title h.description ?_ fun b hb => ?_⟩
  · simpa [hfields, hxs.isText] using fun t ht => (h.usage t ht).2
  · obtain ⟨hfunctions, husage, -⟩ := by
      simpa only [hfields, List.forall_mem_cons] using hb
    rw [ModuleDoc.ofBlock_eq, itemsOf, hfunctions, husage]
    show Except.ok (ModuleDoc.mk d.name d.description d.usage (some (items (bullets xs)))) = _
    rw [items_bullets hxs.items, ← hset]

/-! ## Documents on a repository -/

/-- The sections of a document on a repository, if its lists are set that have to be. -/
def RepositoryDoc.fields (d : RepositoryDoc) : List (String × Option String) :=
  [("Features", d.features.map bullets), ("Standards", d.standards.map bullets),
    ("Scenarios", (d.scenarios.filter (· ≠ [])).map bullets)]

lemma RepositoryDoc.headed (d : RepositoryDoc) : Headed d.fields :=
  headed_of_keys ["Features", "Standards", "Scenarios"] rfl (by decide)

lemma RepositoryDoc.exists_sections {d : RepositoryDoc} {xs ys : List String}
    (hxs : d.features = some xs) (hys : d.standards = some ys) :
    ∃ s, Document.sections d = .ok s ∧ s.toList = bodyChars (setFields d.fields) := by
  refine ⟨writeSection "Features" (bullets xs) ++ writeSection "Standards" (bullets ys)
    ++ writeItems? "Scenarios" d.scenarios, ?_, ?_⟩
  · show Except.bind (bulletsOf d.features) (fun fs => Except.bind (bulletsOf d.standards) _) = _
    rw [hxs, hys]
    rfl
  · rw [RepositoryDoc.fields, hxs, hys, bodyChars_setFields_cons, bodyChars_setFields_cons,
      bodyChars_setFields_cons, writeItems?_eq]
    simp [writeSection?, setFields, bodyChars]

lemma RepositoryDoc.ofBlock_eq (name description b : String) :
    Document.ofBlock (δ := RepositoryDoc) name description b
      = (itemsOf "Features" b).bind fun features => (itemsOf "Standards" b).map fun standards =>
          { name, description, features := some features, standards := some standards,
            scenarios := ((Chapter.section? "Scenarios" b).filter (· ≠ "")).map items } := by
  show Except.bind (itemsOf "Features" b)
    (fun fs => Except.bind (itemsOf "Standards" b) fun ss => Except.ok _) = _
  cases itemsOf "Features" b with
  | error e => rfl
  | ok fs =>
    cases itemsOf "Standards" b with
    | error e => rfl
    | ok ss =>
      split
      · rename_i hnone
        rw [hnone]
        rfl
      · rename_i hempty
        rw [hempty]
        rfl
      · rename_i text hne htext
        rw [htext, Option.filter_some, if_pos (by simpa using hne)]
        rfl

/-- An empty list of scenarios is not written. -/
@[mk_iff]
structure RepositoryDoc.Clean (d : RepositoryDoc) : Prop where
  title : IsTitle d.name
  description : IsText d.description
  features : ∃ xs ∈ d.features, IsList xs
  standards : ∃ xs ∈ d.standards, IsList xs
  scenarios : ∀ xs ∈ d.scenarios, xs ≠ [] ∧ IsList xs

instance (d : RepositoryDoc) : Decidable d.Clean :=
  decidable_of_iff _ (RepositoryDoc.clean_iff d).symm

lemma RepositoryDoc.Clean.legible {d : RepositoryDoc} (h : d.Clean) :
    ∃ t, Document.Legible d t := by
  obtain ⟨xs, hfeatures, hxs⟩ := h.features
  obtain ⟨ys, hstandards, hys⟩ := h.standards
  obtain ⟨s, hs, hchars⟩ := RepositoryDoc.exists_sections hfeatures hstandards
  have hfields : d.fields = [("Features", some (bullets xs)), ("Standards", some (bullets ys)),
      ("Scenarios", d.scenarios.map bullets)] := by
    rw [RepositoryDoc.fields, hfeatures, hstandards,
      filter_eq_self fun t ht => by simpa using (h.scenarios t ht).1]
    rfl
  refine ⟨_, Document.legible_of_fields hs hchars d.headed h.title h.description ?_ fun b hb => ?_⟩
  · simpa [hfields, hxs.isText, hys.isText] using fun zs hzs => (h.scenarios zs hzs).2.isText
  · obtain ⟨hf, hst, hsc, -⟩ := by
      simpa only [hfields, List.forall_mem_cons] using hb
    rw [RepositoryDoc.ofBlock_eq, itemsOf, itemsOf, hf, hst, hsc]
    have hscenarios : ((d.scenarios.map bullets).filter (· ≠ "")).map items = d.scenarios := by
      cases hzs : d.scenarios with
      | none => rfl
      | some zs =>
        obtain ⟨hne, hlist⟩ := h.scenarios zs hzs
        rw [Option.map_some, Option.filter_some, if_pos (by simpa using bullets_ne_empty hne),
          Option.map_some, items_bullets hlist.items]
    show Except.ok (RepositoryDoc.mk d.name d.description (some (items (bullets xs)))
      (some (items (bullets ys))) _) = _
    rw [items_bullets hxs.items, items_bullets hys.items, hscenarios, ← hfeatures, ← hstandards]

end Docsmith

