import Docsmith.Generate.Routines
import Docsmith.Proofs.Extracting
import Docsmith.Proofs.Passages

/-! # Filling templates step by step

The slots of a template are set apart by margins, texts without braces whose first and last
characters no slot has. So a step fills its slot where it stands and rewrites the values that were
filled in before, each for itself (`fill_sheet`). Every margin has a line feed, and no step takes
line feeds away, so what a step makes of one value cannot be made up for by another
(`sheet_injective`). Hence filling step by step is filling at once just if every slot gets a step
and every value comes through the later steps as it is (`fillEach_eq_fillAll_iff`). -/

namespace Docsmith

open List

/-! ## Replacing -/

namespace Chars

variable {pat : List Char} {c : Char}

lemma count_le_count_replaceFrom (hne : pat ≠ []) (hc : c ∉ pat) (rep cs : List Char) :
    cs.count c ≤ (replaceFrom pat rep cs 0).count c := by
  induction cs using replace_induction hne with
  | nil => exact Nat.zero_le _
  | hit y ih =>
    rw [replaceFrom_append hne, count_append, count_append,
      count_eq_zero_of_not_mem hc, Nat.zero_add]
    exact ih.trans (Nat.le_add_left _ _)
  | miss d cs hpre ih =>
    rw [replaceFrom_cons hpre, count_cons, count_cons]
    exact Nat.add_le_add_right ih _

end Chars

namespace Prompt

/-! ## Slots and margins -/

def isEdge (c : Char) : Bool :=
  c == '\n' || c == ' ' || c == '`'

/-- A name without braces and without characters that can stand next to a slot. -/
structure IsSlotName (n : String) : Prop where
  left : '\x7b' ∉ n.toList
  right : '\x7d' ∉ n.toList
  inner : ∀ c ∈ n.toList, isEdge c = false

structure Margin (t : String) : Prop where
  noBrace : '\x7b' ∉ t.toList
  starts : ∃ c r, t.toList = c :: r ∧ isEdge c = true
  ends : ∃ m c, t.toList = m ++ [c] ∧ isEdge c = true
  newline : '\n' ∈ t.toList

section Slots

variable {n : String}

lemma toList_slot (n : String) : (slot n).toList = '\x7b' :: (n.toList ++ ['\x7d']) := by
  simp [slot]

lemma toList_fill (n v t : String) :
    (fill n v t).toList = Chars.replaceFrom (slot n).toList v.toList t.toList 0 := by
  have hne : (slot n).toList.isEmpty = false := by rw [toList_slot]; rfl
  rw [fill, Text.replace, String.toList_ofList, Chars.replace, hne, if_neg (by simp)]

lemma slot_ne_nil (n : String) : (slot n).toList ≠ [] := by
  rw [toList_slot]
  exact cons_ne_nil _ _

lemma edge_notMem_slot (hn : IsSlotName n) {c : Char} (hc : isEdge c = true) :
    c ∉ (slot n).toList := by
  have hbraces : isEdge '\x7b' = false ∧ isEdge '\x7d' = false := by decide
  rw [toList_slot, mem_cons, mem_append, mem_singleton]
  rintro (rfl | hmem | rfl)
  · exact absurd hc (by simp [hbraces.1])
  · exact absurd hc (by simp [hn.inner c hmem])
  · exact absurd hc (by simp [hbraces.2])

lemma fill_of_noBrace (n v : String) {t : String} (ht : '\x7b' ∉ t.toList) : fill n v t = t := by
  rw [← String.toList_inj, toList_fill]
  refine Chars.replaceFrom_eq_self (fun hin => ht (hin.subset ?_)) _
  rw [toList_slot]
  exact mem_cons_self

lemma fill_slot_self (n v : String) : fill n v (slot n) = v := by
  have hself := Chars.replaceFrom_append (slot_ne_nil n) v.toList []
  rw [append_nil] at hself
  rw [← String.toList_inj, toList_fill, hself]
  exact append_nil _

lemma fill_slot_of_ne {m : String} (hn : IsSlotName n) (hm : IsSlotName m) (hne : m ≠ n) (v : String) :
    fill n v (slot m) = slot m := by
  rw [← String.toList_inj, toList_fill]
  refine Chars.replaceFrom_eq_self ?_ _
  rw [toList_slot, toList_slot, infix_cons_iff]
  rintro (hpre | hin)
  · -- both names end at the first closing brace
    obtain ⟨-, hpre⟩ := cons_prefix_cons.mp hpre
    obtain ⟨r, hr⟩ := hpre
    rw [append_assoc] at hr
    obtain ⟨hname, -⟩ := Chars.append_cons_inj hr (by
      rw [count_eq_zero_of_not_mem hn.right, count_eq_zero_of_not_mem hm.right])
    exact hne (String.toList_inj.mp hname.symm)
  · have hmem := hin.subset mem_cons_self
    rw [mem_append] at hmem
    rcases hmem with hmem | hmem
    · exact hm.left hmem
    · exact absurd hmem (by decide)

lemma fill_append_right (hn : IsSlotName n) {t : String} (ht : Margin t) (v y : String) :
    fill n v (t ++ y) = t ++ fill n v y := by
  obtain ⟨m, c, htext, hc⟩ := ht.ends
  have hm : '\x7b' ∉ m := fun h => ht.noBrace (by rw [htext]; exact mem_append_left _ h)
  have hsame : Chars.replaceFrom (slot n).toList v.toList m 0 = m := by
    refine Chars.replaceFrom_eq_self (fun hin => hm (hin.subset ?_)) _
    rw [toList_slot]
    exact mem_cons_self
  rw [← String.toList_inj, toList_fill, String.toList_append, String.toList_append, htext,
    append_assoc, singleton_append,
    Chars.replaceFrom_append_cons (slot_ne_nil n) (edge_notMem_slot hn hc), hsame, toList_fill,
    append_assoc]
  rfl

lemma fill_append_left (hn : IsSlotName n) {t : String} (ht : Margin t) (v x y : String) :
    fill n v (x ++ (t ++ y)) = fill n v x ++ fill n v (t ++ y) := by
  obtain ⟨c, r, htext, hc⟩ := ht.starts
  have hacross := Chars.replaceFrom_append_cons (slot_ne_nil n) (edge_notMem_slot hn hc) v.toList
  have hfirst := hacross [] (r ++ y.toList)
  rw [Chars.replaceFrom, nil_append, nil_append] at hfirst
  rw [← String.toList_inj, toList_fill, String.toList_append, String.toList_append,
    String.toList_append, htext, cons_append, hacross, toList_fill, toList_fill,
    String.toList_append, htext, cons_append, hfirst]

lemma count_newline_fill (hn : IsSlotName n) (v t : String) :
    t.toList.count '\n' ≤ (fill n v t).toList.count '\n' := by
  rw [toList_fill]
  exact Chars.count_le_count_replaceFrom (slot_ne_nil n) (edge_notMem_slot hn (by decide)) _ _

end Slots

/-! ## Sheets -/

/-- A place in a template that is still to be filled, or that was filled. -/
inductive Part where
  | vacant (name : String)
  | filled (value : String)

namespace Part

def text : Part → String
  | .vacant n => slot n
  | .filled v => v

def step (n v : String) : Part → Part
  | .vacant m => if m = n then .filled v else .vacant m
  | .filled u => .filled (fill n v u)

def Named : Part → Prop
  | .vacant n => IsSlotName n
  | .filled _ => True

lemma text_step {n : String} (hn : IsSlotName n) (v : String) {q : Part} (hq : q.Named) :
    (q.step n v).text = fill n v q.text := by
  cases q with
  | filled u => rfl
  | vacant m =>
    rw [step]
    by_cases hm : m = n
    · rw [if_pos hm, hm]
      exact (fill_slot_self n v).symm
    · rw [if_neg hm]
      exact (fill_slot_of_ne hn hq hm v).symm

lemma Named.step {q : Part} (hq : q.Named) (n v : String) : (q.step n v).Named := by
  cases q with
  | filled u => trivial
  | vacant m =>
    rw [Part.step]
    split
    · trivial
    · exact hq

end Part

/-- A text of places and margins: a margin, and then each place with the margin after it. -/
def sheet (first : String) : List (Part × String) → String
  | [] => first
  | (q, t) :: rest => first ++ (q.text ++ sheet t rest)

lemma sheet_eq_append (first : String) (places : List (Part × String)) :
    ∃ y, sheet first places = first ++ y := by
  cases places with
  | nil => exact ⟨"", String.append_empty.symm⟩
  | cons place rest => exact ⟨_, rfl⟩

variable {places : List (Part × String)}

lemma fill_sheet {n : String} (hn : IsSlotName n) (v : String) {first : String}
    (hfirst : Margin first) (hplaces : ∀ e ∈ places, e.1.Named ∧ Margin e.2) :
    fill n v (sheet first places) = sheet first (places.map fun e => (e.1.step n v, e.2)) := by
  induction places generalizing first with
  | nil => exact fill_of_noBrace n v hfirst.noBrace
  | cons e rest ih =>
    obtain ⟨q, t⟩ := e
    obtain ⟨⟨hq, ht⟩, hrest⟩ := forall_mem_cons.mp hplaces
    have hhere := ih ht hrest
    obtain ⟨y, hy⟩ := sheet_eq_append t rest
    rw [hy] at hhere
    rw [sheet, map_cons, sheet, fill_append_right hn hfirst, hy, fill_append_left hn ht,
      hhere, Part.text_step hn v hq]

/-! ## Steps in a row -/

def fillEach (steps : List (String × String)) (template : String) : String :=
  steps.foldl (fun text step => fill step.1 step.2 text) template

def Part.steps (steps : List (String × String)) (q : Part) : Part :=
  steps.foldl (fun q step => q.step step.1 step.2) q

lemma fillEach_sheet {steps : List (String × String)} (hsteps : ∀ e ∈ steps, IsSlotName e.1)
    {first : String} (hfirst : Margin first) (hplaces : ∀ e ∈ places, e.1.Named ∧ Margin e.2) :
    fillEach steps (sheet first places) = sheet first (places.map fun e => (e.1.steps steps, e.2)) := by
  induction steps generalizing places with
  | nil =>
    show sheet first places = sheet first (places.map fun e => e)
    rw [map_id']
  | cons step steps ih =>
    obtain ⟨hstep, hrest⟩ := forall_mem_cons.mp hsteps
    have hnext : ∀ e ∈ places.map fun e => (e.1.step step.1 step.2, e.2), e.1.Named ∧ Margin e.2 := by
      intro e he
      obtain ⟨d, hd, rfl⟩ := mem_map.mp he
      exact ⟨(hplaces d hd).1.step _ _, (hplaces d hd).2⟩
    have hdone := ih hrest hnext
    rw [map_map] at hdone
    rw [fillEach, foldl_cons, fill_sheet hstep step.2 hfirst hplaces]
    exact hdone

lemma Part.steps_filled (steps : List (String × String)) (v : String) :
    Part.steps steps (.filled v) = .filled (fillEach steps v) := by
  induction steps generalizing v with
  | nil => rfl
  | cons step steps ih => exact ih _

lemma Part.steps_vacant_of_notMem {steps : List (String × String)} {n : String}
    (h : n ∉ steps.map Prod.fst) : Part.steps steps (.vacant n) = .vacant n := by
  induction steps with
  | nil => rfl
  | cons step steps ih =>
    rw [map_cons, mem_cons, not_or] at h
    have hfirst : Part.step step.1 step.2 (.vacant n) = .vacant n := if_neg h.1
    rw [Part.steps, foldl_cons, hfirst]
    exact ih h.2

lemma Part.steps_vacant {before later : List (String × String)} {n : String}
    (h : n ∉ before.map Prod.fst) (v : String) :
    Part.steps (before ++ (n, v) :: later) (.vacant n) = .filled (fillEach later v) := by
  have hfirst : Part.step n v (.vacant n) = .filled v := if_pos rfl
  have hbefore := Part.steps_vacant_of_notMem h
  rw [Part.steps] at hbefore
  rw [Part.steps, foldl_append, hbefore, foldl_cons, hfirst]
  exact Part.steps_filled later v

/-! ## All at once -/

def blank (slots : List (String × String)) : List (Part × String) :=
  slots.map fun e => (.vacant e.1, e.2)

lemma splitOn_sheet {first : String} (hfirst : '\x7b' ∉ first.toList) {slots : List (String × String)}
    (hslots : ∀ e ∈ slots, IsSlotName e.1 ∧ Margin e.2) :
    Chars.splitOn ['\x7b'] (sheet first (blank slots)).toList
      = first.toList :: slots.map fun e => e.1.toList ++ '\x7d' :: e.2.toList := by
  have hwhole : ∀ cs : List Char, '\x7b' ∉ cs → Chars.splitOn ['\x7b'] cs = [cs] := by
    intro cs hcs
    have hno : ¬ ['\x7b'] <:+: cs := fun hin => hcs (hin.subset mem_cons_self)
    rw [Chars.splitOn_eq (by simp), (Chars.breakOn_eq_none_iff (by simp)).mpr hno]
  induction slots generalizing first with
  | nil => exact hwhole _ hfirst
  | cons e slots ih =>
    obtain ⟨n, t⟩ := e
    obtain ⟨⟨hn, ht⟩, hrest⟩ := forall_mem_cons.mp hslots
    have hafter := ih ht.noBrace hrest
    have hpiece : Chars.splitOn ['\x7b'] ((n.toList ++ ['\x7d']) ++ (sheet t (blank slots)).toList)
        = (n.toList ++ ['\x7d'] ++ t.toList)
          :: slots.map fun e => e.1.toList ++ '\x7d' :: e.2.toList := by
      refine Chars.splitOn_append ?_ hafter
      rw [mem_append, not_or]
      exact ⟨hn.left, by decide⟩
    have hchars : (sheet first (blank ((n, t) :: slots))).toList
        = first.toList ++ '\x7b' :: ((n.toList ++ ['\x7d']) ++ (sheet t (blank slots)).toList) := by
      show (first ++ (slot n ++ sheet t (blank slots))).toList = _
      rw [String.toList_append, String.toList_append, toList_slot]
      rfl
    rw [hchars, Chars.splitOn_append_cons, hwhole _ hfirst, hpiece,
      append_assoc]
    rfl

lemma fillAll_sheet (values : List (String × String)) {first : String} (hfirst : '\x7b' ∉ first.toList)
    {slots : List (String × String)} (hslots : ∀ e ∈ slots, IsSlotName e.1 ∧ Margin e.2) :
    fillAll values (sheet first (blank slots))
      = sheet first (slots.map fun e => (.filled ((values.lookup e.1).getD ""), e.2)) := by
  have hopen : "\x7b".toList = ['\x7b'] := by simp
  have hpieces : ∀ first : String, first ++ Text.join "" (slots.map fun e =>
      (values.lookup e.1).getD "" ++ e.2)
      = sheet first (slots.map fun e => (.filled ((values.lookup e.1).getD ""), e.2)) := by
    clear hslots
    induction slots with
    | nil => exact fun first => String.append_empty
    | cons e slots ih =>
      intro first
      rw [map_cons, map_cons, sheet, ← ih e.2, Part.text, ← String.toList_inj]
      simp [Text.toList_join_empty]
  have hfilled : slots.map (fun e => fillPiece values (.ofList (e.1.toList ++ '\x7d' :: e.2.toList)))
      = slots.map fun e => (values.lookup e.1).getD "" ++ e.2 := by
    refine map_congr_left fun e he => ?_
    rw [fillPiece_eq (hslots e he).1.right, String.ofList_toList]
  rw [fillAll, Text.splitOn, hopen, splitOn_sheet hfirst hslots, map_cons, String.ofList_toList]
  simp only [map_map, Function.comp_def, hfilled, hpieces]

/-! ## Step by step and at once -/

section Sheets

variable {first : String} {slots : List (String × String)} {f g : String × String → Part}

def filledBy (f : String × String → Part) (slots : List (String × String)) : List (Part × String) :=
  slots.map fun e => (f e, e.2)

lemma sheet_congr (h : ∀ e ∈ slots, (f e).text = (g e).text) (first : String) :
    sheet first (filledBy f slots) = sheet first (filledBy g slots) := by
  induction slots generalizing first with
  | nil => rfl
  | cons e slots ih =>
    obtain ⟨he, hrest⟩ := forall_mem_cons.mp h
    show first ++ ((f e).text ++ sheet e.2 (filledBy f slots)) = _
    rw [he, ih hrest]
    rfl

def feeds (t : String) : Nat :=
  t.toList.count '\n'

lemma feeds_append (a b : String) : feeds (a ++ b) = feeds a + feeds b := by
  rw [feeds, String.toList_append, count_append, feeds, feeds]

lemma feeds_sheet_le (h : ∀ e ∈ slots, feeds (f e).text ≤ feeds (g e).text) (first : String) :
    feeds (sheet first (filledBy f slots)) ≤ feeds (sheet first (filledBy g slots)) := by
  induction slots generalizing first with
  | nil => exact Nat.le_refl _
  | cons e slots ih =>
    obtain ⟨he, hrest⟩ := forall_mem_cons.mp h
    have hafter := ih hrest e.2
    show feeds (first ++ ((f e).text ++ sheet e.2 (filledBy f slots)))
      ≤ feeds (first ++ ((g e).text ++ sheet e.2 (filledBy g slots)))
    rw [feeds_append, feeds_append, feeds_append, feeds_append]
    omega

lemma append_margin_inj {t x y a b : String} (ht : Margin t) (hfeeds : feeds x = feeds y)
    (h : x ++ (t ++ a) = y ++ (t ++ b)) : x = y := by
  obtain ⟨m, r, htext⟩ := append_of_mem ht.newline
  have hchars := congrArg String.toList h
  simp only [String.toList_append, htext, append_assoc] at hchars
  rw [← append_assoc, ← append_assoc y.toList] at hchars
  rw [feeds, feeds] at hfeeds
  obtain ⟨hfront, -⟩ := Chars.append_cons_inj hchars (by
    rw [count_append, count_append, hfeeds])
  exact String.toList_inj.mp (append_cancel_right hfront)

lemma sheet_injective (hslots : ∀ e ∈ slots, Margin e.2)
    (hfeeds : ∀ e ∈ slots, feeds (f e).text ≤ feeds (g e).text)
    (h : sheet first (filledBy f slots) = sheet first (filledBy g slots)) :
    ∀ e ∈ slots, (f e).text = (g e).text := by
  induction slots generalizing first with
  | nil => exact fun _ h => absurd h not_mem_nil
  | cons e slots ih =>
    obtain ⟨ht, hslots⟩ := forall_mem_cons.mp hslots
    obtain ⟨he, hfeeds⟩ := forall_mem_cons.mp hfeeds
    have hbody : (f e).text ++ sheet e.2 (filledBy f slots)
        = (g e).text ++ sheet e.2 (filledBy g slots) := (String.append_right_inj first).mp h
    -- neither the place nor the rest can have gained a line feed
    have hcount := congrArg feeds hbody
    rw [feeds_append, feeds_append] at hcount
    have hrest := feeds_sheet_le hfeeds e.2
    obtain ⟨a, ha⟩ := sheet_eq_append e.2 (filledBy f slots)
    obtain ⟨b, hb⟩ := sheet_eq_append e.2 (filledBy g slots)
    have hplace : (f e).text = (g e).text :=
      append_margin_inj ht (by omega) (by rwa [ha, hb] at hbody)
    rw [hplace] at hbody
    exact forall_mem_cons.mpr ⟨hplace, ih hslots hfeeds ((String.append_right_inj _).mp hbody)⟩

end Sheets

/-- The value of a step comes through the steps after it as it is. -/
def Settled (steps : List (String × String)) : Prop :=
  ∀ n v later, (n, v) :: later <:+ steps → fillEach later v = v

lemma feeds_fillEach {steps : List (String × String)} (hsteps : ∀ e ∈ steps, IsSlotName e.1)
    (t : String) : feeds t ≤ feeds (fillEach steps t) := by
  induction steps generalizing t with
  | nil => exact Nat.le_refl _
  | cons step steps ih =>
    obtain ⟨hstep, hrest⟩ := forall_mem_cons.mp hsteps
    exact (count_newline_fill hstep step.2 t).trans (ih hrest _)

section Steps

variable {steps values slots : List (String × String)} {first : String}

lemma exists_step (hnodup : (steps.map Prod.fst).Nodup) {e : String × String} (he : e ∈ steps) :
    ∃ before later, steps = before ++ e :: later ∧ e.1 ∉ before.map Prod.fst := by
  obtain ⟨before, later, rfl⟩ := append_of_mem he
  refine ⟨before, later, rfl, fun hmem => ?_⟩
  rw [map_append] at hnodup
  exact disjoint_of_nodup_append hnodup hmem mem_cons_self

/-- **Step by step is at once** just if each slot has a step and each value comes through the later
steps as it is. -/
lemma fillEach_eq_fillAll_iff (hfirst : Margin first)
    (hslots : ∀ e ∈ slots, IsSlotName e.1 ∧ Margin e.2) (hsteps : ∀ e ∈ steps, e.1 ∈ slots.map Prod.fst)
    (hnodup : (steps.map Prod.fst).Nodup) (hvalues : ∀ e ∈ steps, values.lookup e.1 = some e.2)
    (hothers : ∀ e ∈ slots, e.1 ∉ steps.map Prod.fst → values.lookup e.1 = some "") :
    fillEach steps (sheet first (blank slots)) = fillAll values (sheet first (blank slots)) ↔
      (∀ e ∈ slots, e.1 ∈ steps.map Prod.fst) ∧ Settled steps := by
  have hnames : ∀ e ∈ steps, IsSlotName e.1 := by
    intro e he
    obtain ⟨d, hd, hname⟩ := mem_map.mp (hsteps e he)
    exact hname ▸ (hslots d hd).1
  have hplaces : ∀ e ∈ blank slots, e.1.Named ∧ Margin e.2 := by
    intro e he
    obtain ⟨d, hd, rfl⟩ := mem_map.mp he
    exact hslots d hd
  -- how a slot reads in the end, and how it should
  have hdone : ∀ e ∈ slots, ∀ before v later, steps = before ++ (e.1, v) :: later →
      e.1 ∉ before.map Prod.fst → (Part.steps steps (.vacant e.1)).text = fillEach later v ∧
        (values.lookup e.1).getD "" = v := by
    rintro e he before v later rfl hbefore
    rw [Part.steps_vacant hbefore, hvalues (e.1, v) (by simp)]
    exact ⟨rfl, rfl⟩
  have hleft : ∀ e ∈ slots, e.1 ∉ steps.map Prod.fst →
      (Part.steps steps (.vacant e.1)).text = slot e.1 ∧ (values.lookup e.1).getD "" = "" := by
    intro e he hnone
    rw [Part.steps_vacant_of_notMem hnone, hothers e he hnone]
    exact ⟨rfl, rfl⟩
  have hcases : ∀ e ∈ slots, e.1 ∉ steps.map Prod.fst ∨ ∃ before v later,
      steps = before ++ (e.1, v) :: later ∧ e.1 ∉ before.map Prod.fst := by
    intro e he
    by_cases hmem : e.1 ∈ steps.map Prod.fst
    · obtain ⟨⟨n, v⟩, hd, rfl⟩ := mem_map.mp hmem
      obtain ⟨before, later, hsplit, hbefore⟩ := exists_step hnodup hd
      exact Or.inr ⟨before, v, later, hsplit, hbefore⟩
    · exact Or.inl hmem
  have hfeeds : ∀ e ∈ slots, feeds (Part.filled ((values.lookup e.1).getD "")).text
      ≤ feeds (Part.steps steps (.vacant e.1)).text := by
    intro e he
    rcases hcases e he with hnone | ⟨before, v, later, hsplit, hbefore⟩
    · rw [(hleft e he hnone).2]
      exact Nat.zero_le _
    · obtain ⟨htext, hvalue⟩ := hdone e he before v later hsplit hbefore
      rw [htext, hvalue]
      exact feeds_fillEach (fun d hd => hnames d (by rw [hsplit]; simp [hd])) v
  have hblank : (blank slots).map (fun e => (e.1.steps steps, e.2))
      = filledBy (fun e => Part.steps steps (.vacant e.1)) slots := map_map
  rw [fillEach_sheet hnames hfirst hplaces, hblank, fillAll_sheet values hfirst.noBrace hslots]
  constructor
  · intro h
    have hsame := sheet_injective (fun e he => (hslots e he).2) hfeeds h.symm
    have hall : ∀ e ∈ slots, e.1 ∈ steps.map Prod.fst := by
      intro e he
      by_contra hnone
      obtain ⟨htext, hvalue⟩ := hleft e he hnone
      have hempty := hsame e he
      rw [htext, hvalue] at hempty
      exact slot_ne_nil e.1 (congrArg String.toList hempty.symm)
    refine ⟨hall, fun n v later hsuffix => ?_⟩
    obtain ⟨before, hsplit⟩ := hsuffix
    obtain ⟨e, he, rfl⟩ := mem_map.mp (hsteps (n, v) (by rw [← hsplit]; simp))
    have hbefore : e.1 ∉ before.map Prod.fst := by
      intro hmem
      rw [← hsplit, map_append] at hnodup
      exact disjoint_of_nodup_append hnodup hmem mem_cons_self
    obtain ⟨htext, hvalue⟩ := hdone e he before v later hsplit.symm hbefore
    have hplace := hsame e he
    rw [htext, hvalue] at hplace
    exact hplace.symm
  · rintro ⟨hall, hsettled⟩
    refine sheet_congr (fun e he => ?_) first
    rcases hcases e he with hnone | ⟨before, v, later, hsplit, hbefore⟩
    · exact absurd (hall e he) hnone
    · obtain ⟨htext, hvalue⟩ := hdone e he before v later hsplit hbefore
      rw [htext, hvalue]
      exact hsettled _ _ later ⟨before, hsplit.symm⟩

end Steps

/-! ## Values in filled templates -/

lemma infix_sheet {first : String} {place : Part × String} (h : place ∈ places) :
    place.1.text.toList <:+: (sheet first places).toList := by
  induction places generalizing first with
  | nil => exact absurd h not_mem_nil
  | cons e places ih =>
    rw [sheet, String.toList_append, String.toList_append]
    rcases mem_cons.mp h with rfl | hrest
    · exact (List.infix_append_left).trans (suffix_append _ _).isInfix
    · exact ((ih hrest).trans (suffix_append _ _).isInfix).trans
        (suffix_append _ _).isInfix

lemma value_infix_fillAll {values slots : List (String × String)} {first : String}
    (hfirst : '\x7b' ∉ first.toList) (hslots : ∀ e ∈ slots, IsSlotName e.1 ∧ Margin e.2)
    {e : String × String} (he : e ∈ slots) {v : String} (hv : values.lookup e.1 = some v) :
    v.toList <:+: (fillAll values (sheet first (blank slots))).toList := by
  have hplace : (Part.filled v, e.2) ∈ slots.map fun e =>
      (Part.filled ((values.lookup e.1).getD ""), e.2) := mem_map.mpr ⟨e, he, by rw [hv]; rfl⟩
  rw [fillAll_sheet values hfirst hslots]
  exact infix_sheet hplace

/-! ## The template for routines -/

section Literals

variable {a b : String} {l : List Char}

lemma noBrace_ofList (h : '\x7b' ∉ l) : '\x7b' ∉ (String.ofList l).toList := by
  rwa [String.toList_ofList]

lemma noBrace_append (ha : '\x7b' ∉ a.toList) (hb : '\x7b' ∉ b.toList) :
    '\x7b' ∉ (a ++ b).toList := by
  rw [String.toList_append, mem_append, not_or]
  exact ⟨ha, hb⟩

structure Closing (t : String) : Prop where
  noBrace : '\x7b' ∉ t.toList
  ends : ∃ m c, t.toList = m ++ [c] ∧ isEdge c = true

lemma closing_ofList (h : '\x7b' ∉ l) (hlast : l.getLast?.any isEdge = true) :
    Closing (String.ofList l) := by
  refine ⟨noBrace_ofList h, ?_⟩
  rw [String.toList_ofList]
  cases hc : l.getLast? with
  | none => exact absurd hlast (by rw [hc]; decide)
  | some c =>
    rw [hc] at hlast
    obtain ⟨m, rfl⟩ := getLast?_eq_some_iff.mp hc
    exact ⟨m, c, rfl, hlast⟩

lemma Closing.append (ha : '\x7b' ∉ a.toList) (hb : Closing b) : Closing (a ++ b) := by
  obtain ⟨m, c, hm, hc⟩ := hb.ends
  refine ⟨noBrace_append ha hb.noBrace, a.toList ++ m, c, ?_, hc⟩
  rw [String.toList_append, hm, append_assoc]

lemma margin_ofList {c : Char} (hc : isEdge c = true) (hl : Closing (String.ofList (c :: l)))
    (hline : '\n' ∈ c :: l) : Margin (String.ofList (c :: l)) where
  noBrace := hl.noBrace
  starts := ⟨c, l, String.toList_ofList, hc⟩
  ends := hl.ends
  newline := by rwa [String.toList_ofList]

lemma Margin.append (ha : Margin a) (hb : Closing b) : Margin (a ++ b) := by
  obtain ⟨c, r, hr, hc⟩ := ha.starts
  obtain ⟨hbrace, hends⟩ := hb.append ha.noBrace
  refine ⟨hbrace, ⟨c, r ++ b.toList, ?_, hc⟩, hends, ?_⟩
  · rw [String.toList_append, hr, cons_append]
  · rw [String.toList_append, mem_append]
    exact Or.inl ha.newline

end Literals

lemma template_eq_sheet (first : String) (slots : List (String × String)) :
    template first slots = sheet first (blank slots) := by
  induction slots generalizing first with
  | nil => exact String.append_empty
  | cons e slots ih =>
    have hrest := congrArg String.toList (ih e.2)
    rw [← String.toList_inj]
    simp only [template, String.toList_append, Text.toList_join_empty, map_cons,
      flatten_cons, append_assoc] at hrest ⊢
    rw [hrest]
    simp [blank, sheet, Part.text]

lemma newline_margin : Margin "\n" :=
  margin_ofList (by decide) (closing_ofList (by decide) (by decide)) (by decide)

lemma routineOpening_margin : Margin routineOpening :=
  newline_margin.append <| .append (noBrace_ofList (by decide)) <|
    .append (noBrace_ofList (by decide)) <| .append (noBrace_ofList (by decide)) <|
    .append (noBrace_ofList (by decide)) <| closing_ofList (by decide) (by decide)

lemma routineSlots_margins : ∀ e ∈ routineSlots, Margin e.2 := by
  have hname : Margin "`.\n" :=
    margin_ofList (by decide) (closing_ofList (by decide) (by decide)) (by decide)
  have hcallers : Margin "\n\n" :=
    margin_ofList (by decide) (closing_ofList (by decide) (by decide)) (by decide)
  have hline {l : List Char} (h : '\x7b' ∉ l) {b : String} (hb : Closing b) :
      Closing (String.ofList l ++ b) := hb.append (noBrace_ofList h)
  have htask : '\x7b' ∉ routineTask.toList :=
    noBrace_append (noBrace_ofList (by decide)) <| noBrace_append (noBrace_ofList (by decide)) <|
      noBrace_append (noBrace_ofList (by decide)) (noBrace_ofList (by decide))
  have hformat : '\x7b' ∉ formatNote.toList :=
    noBrace_append (noBrace_ofList (by decide)) (noBrace_ofList (by decide))
  have hfixed : '\x7b' ∉ (fixedHeadings "xxx").toList :=
    noBrace_append (noBrace_append (noBrace_append (noBrace_ofList (by decide))
      (noBrace_ofList (by decide))) (noBrace_ofList (by decide))) (noBrace_ofList (by decide))
  have hother : '\x7b' ∉ noHeadings.toList := noBrace_ofList (by decide)
  rw [routineSlots, codeSlots]
  simp only [cons_append, nil_append, forall_mem_cons]
  refine ⟨hname.append ?_, newline_margin, newline_margin.append ?_, newline_margin,
    hcallers.append ?_, newline_margin.append ?_, newline_margin.append ?_,
    newline_margin.append ?_, newline_margin.append ?_, fun _ h => absurd h not_mem_nil⟩
  · exact hline (by decide) (hline (by decide) (closing_ofList (by decide) (by decide)))
  · exact closing_ofList (by decide) (by decide)
  · exact .append htask <| .append hformat <| hline (by decide) <|
      closing_ofList (by decide) (by decide)
  · exact hline (by decide) (closing_ofList (by decide) (by decide))
  · exact hline (by decide) (closing_ofList (by decide) (by decide))
  · exact closing_ofList (by decide) (by decide)
  · exact hline (by decide) <| hline (by decide) <| .append hfixed <| hline (by decide) <|
      .append hother <| closing_ofList (by decide) (by decide)

lemma isSlotName_ofList {l : List Char}
    (h : l.any (fun c => isEdge c || c == '\x7b' || c == '\x7d') = false) :
    IsSlotName (String.ofList l) := by
  have hall : ∀ c ∈ l, isEdge c = false ∧ c ≠ '\x7b' ∧ c ≠ '\x7d' := by
    intro c hc
    have hother := any_eq_false.mp h c hc
    simpa [and_assoc] using hother
  refine ⟨?_, ?_, ?_⟩ <;> rw [String.toList_ofList]
  · exact fun hmem => (hall _ hmem).2.1 rfl
  · exact fun hmem => (hall _ hmem).2.2 rfl
  · exact fun c hc => (hall c hc).1

lemma routineSlots_named : ∀ e ∈ routineSlots, IsSlotName e.1 := by
  have hall : ∀ n ∈ routineSlots.map Prod.fst, IsSlotName n := by
    simp only [routineSlots, codeSlots, cons_append, nil_append, map_cons, forall_mem_cons]
    exact ⟨isSlotName_ofList rfl, isSlotName_ofList rfl, isSlotName_ofList rfl,
      isSlotName_ofList rfl, isSlotName_ofList rfl, isSlotName_ofList rfl, isSlotName_ofList rfl,
      isSlotName_ofList rfl, isSlotName_ofList rfl, fun _ h => absurd h not_mem_nil⟩
  exact fun e he => hall e.1 (mem_map_of_mem he)

end Prompt

namespace Generate

open Prompt

/-! ## Prompts for routines -/

section Routines

variable (lang : Language) (r : Routine) (symbol : String) (successors predecessors : List RoutineDoc)

/-- What belongs into the slots, in the order in which it is filled in. -/
def routineValues : List (String × String) :=
  let said := relations quoteLetters predecessors successors
  [("parameters", if r.params.isEmpty then "" else markedLines mark parameterLines),
    ("code", r.code),
    ("referencer", said.calledBy),
    ("referenced", said.calls),
    ("lang", lang.markdown),
    ("code_name", symbol),
    ("has_relationship",
      if predecessors.isEmpty && successors.isEmpty then "" else RoutinePrompt.relation),
    ("example",
      if successors.isEmpty then "" else "You can refer to the use of this Function in the caller.")]

/-- There is no step for the example if only routines that the code calls are quoted. -/
def routineSteps : List (String × String) :=
  let values := routineValues lang r symbol successors predecessors
  if successors.isEmpty && !predecessors.isEmpty then values.dropLast else values

lemma routinePrompt_eq_fillEach : routinePrompt lang.markdown r symbol successors predecessors
    = fillEach (routineSteps lang r symbol successors predecessors) routineTemplate := by
  rw [routinePrompt, RoutinePrompt.callers_eq _ _ predecessors, RoutinePrompt.callees_eq _ _ successors]
  rw [routineSteps, routineValues]
  cases successors with
  | nil | cons e es =>
    cases predecessors with
    | nil => rfl
    | cons d ds => rfl

lemma lookup_routineValues {e : String × String}
    (he : e ∈ routineValues lang r symbol successors predecessors) :
    (routineValues lang r symbol successors predecessors).lookup e.1 = some e.2 := by
  revert e
  simp only [routineValues, forall_mem_cons]
  exact ⟨rfl, rfl, rfl, rfl, rfl, rfl, rfl, rfl, fun _ h => absurd h not_mem_nil⟩

def routineNames : List String :=
  ["parameters", "code", "referencer", "referenced", "lang", "code_name", "has_relationship"]

lemma routineSlots_names : ∀ e ∈ routineSlots, e.1 ∈ routineNames ++ ["example"] := by
  have hall : ∀ n ∈ routineSlots.map Prod.fst, n ∈ routineNames ++ ["example"] := by decide
  exact fun e he => hall e.1 (mem_map_of_mem he)

lemma mem_routineSlots_names : ∀ n ∈ routineNames ++ ["example"], n ∈ routineSlots.map Prod.fst := by
  decide

lemma fillEach_template_iff {steps : List (String × String)}
    (hsub : ∀ e ∈ steps, e ∈ routineValues lang r symbol successors predecessors)
    (hnames : steps.map Prod.fst <+: routineNames ++ ["example"])
    (hothers : ∀ e ∈ routineSlots, e.1 ∉ steps.map Prod.fst →
      (routineValues lang r symbol successors predecessors).lookup e.1 = some "") :
    fillEach steps routineTemplate
        = fillAll (routineValues lang r symbol successors predecessors) routineTemplate ↔
      (∀ e ∈ routineSlots, e.1 ∈ steps.map Prod.fst) ∧ Settled steps := by
  have hnodup : (routineNames ++ ["example"]).Nodup := by decide
  rw [routineTemplate, template_eq_sheet]
  refine fillEach_eq_fillAll_iff routineOpening_margin
    (fun e he => ⟨routineSlots_named e he, routineSlots_margins e he⟩) (fun e he => ?_)
    (hnodup.sublist hnames.sublist) (fun e he => lookup_routineValues lang r symbol _ _ (hsub e he))
    hothers
  exact mem_routineSlots_names _ (hnames.subset (mem_map_of_mem he))

lemma routineSteps_iff :
    fillEach (routineSteps lang r symbol successors predecessors) routineTemplate
        = fillAll (routineValues lang r symbol successors predecessors) routineTemplate ↔
      (successors = [] → predecessors = []) ∧
        Settled (routineValues lang r symbol successors predecessors) := by
  by_cases hboth : successors = [] → predecessors = []
  · have hsteps : routineSteps lang r symbol successors predecessors
        = routineValues lang r symbol successors predecessors := by
      refine if_neg ?_
      simpa using hboth
    have hall : ∀ e ∈ routineSlots,
        e.1 ∈ (routineValues lang r symbol successors predecessors).map Prod.fst := routineSlots_names
    rw [hsteps, fillEach_template_iff lang r symbol _ _ (fun _ he => he) (prefix_refl _)
      fun e he hnone => absurd (hall e he) hnone]
    exact and_congr_left' (iff_of_true hall hboth)
  · obtain ⟨hcallers, hcallees⟩ := Classical.not_imp.mp hboth
    have hsteps : routineSteps lang r symbol successors predecessors
        = (routineValues lang r symbol successors predecessors).dropLast := by
      refine if_pos ?_
      simp [hcallers, hcallees]
    refine iff_of_false (fun h => ?_) fun h => hboth h.1
    rw [hsteps, fillEach_template_iff lang r symbol _ _ (fun _ he => mem_of_mem_dropLast he)
      (prefix_append _ _)] at h
    · obtain ⟨e, he, hname⟩ := mem_map.mp
        (mem_routineSlots_names "example" (mem_append_right _ mem_cons_self))
      have hexample : e.1 ∈ routineNames := h.1 e he
      rw [hname] at hexample
      exact absurd hexample (by decide)
    · intro e he hnone
      have hname : e.1 = "example" := by
        rcases mem_append.mp (routineSlots_names e he) with hmem | hmem
        · exact absurd hmem hnone
        · exact mem_singleton.mp hmem
      subst hcallers
      rw [hname]
      rfl

/-- Prompts for routines are **filled at once** just if documents on routines that the code calls
come with documents on callers, and every value comes through the later steps as it is. A template
that is filled at once has the code in it. -/
theorem routinePrompt_eq_fillAll_iff :
    (routinePrompt lang.markdown r symbol successors predecessors
        = fillAll (routineValues lang r symbol successors predecessors) routineTemplate ↔
      (successors = [] → predecessors = []) ∧
        Settled (routineValues lang r symbol successors predecessors)) ∧
    r.code.toList <:+:
      (fillAll (routineValues lang r symbol successors predecessors) routineTemplate).toList := by
  refine ⟨?_, ?_⟩
  · rw [routinePrompt_eq_fillEach]
    exact routineSteps_iff lang r symbol successors predecessors
  · rw [routineTemplate, template_eq_sheet]
    obtain ⟨e, he, hname⟩ := List.mem_map.mp (mem_routineSlots_names "code" (by decide))
    have hcode : (routineValues lang r symbol successors predecessors).lookup e.1 = some r.code := by
      rw [hname]
      rfl
    exact value_infix_fillAll routineOpening_margin.noBrace
      (fun e he => ⟨routineSlots_named e he, routineSlots_margins e he⟩) he hcode

/-- Code that names a slot is rewritten, and with a document on a callee and none on a caller the
slot for the example is left. -/
theorem routinePrompt_ne_fillAll :
    routinePrompt Language.python.markdown { symbol := "f", code := "\x7blang\x7d" } "f" [] []
        ≠ fillAll (routineValues .python { symbol := "f", code := "\x7blang\x7d" } "f" [] [])
          routineTemplate ∧
      ∀ d : RoutineDoc, routinePrompt Language.python.markdown { symbol := "f" } "f" [] [d]
        ≠ fillAll (routineValues .python { symbol := "f" } "f" [] [d]) routineTemplate := by
  refine ⟨?_, fun d => ?_⟩ <;> rw [routinePrompt_eq_fillEach, ne_eq, routineSteps_iff]
  · rintro ⟨-, hsettled⟩
    have hcode := hsettled "code" "\x7blang\x7d" _ (List.suffix_cons _ _)
    exact absurd hcode (by decide +kernel)
  · rintro ⟨hcallees, -⟩
    exact absurd (hcallees rfl) (List.cons_ne_nil d [])

end Routines

end Generate

end Docsmith

