import Docsmith.Proofs.Places

/-! # Folders as trees

The entries of a folder stand in the order of their names, and every change keeps that order
(`ordered_set`). So a folder is given by what is at each path (`Ordered.ext`), whatever the order in
which it was put there. -/

namespace Docsmith

def Entry.kind : Entry → Option Content
  | .file c => some c
  | .folder _ => none

namespace Folder

/-- The names of all entries are in order, here and below. -/
def Ordered : Folder → Prop
  | .empty => True
  | .file n _ rest => (∀ m ∈ rest.names, n < m) ∧ rest.Ordered
  | .folder n inner rest => (∀ m ∈ rest.names, n < m) ∧ inner.Ordered ∧ rest.Ordered

def EntryOrdered : Entry → Prop
  | .file _ => True
  | .folder g => g.Ordered

/-! ## Changes keep the order -/

lemma names_cons (n : String) (e : Entry) (rest : Folder) :
    (cons n e rest).names = n :: rest.names := by
  cases e with
  | file c | folder g => rfl

variable {e : Entry}

lemma ordered_cons {n : String} {rest : Folder} :
    (cons n e rest).Ordered ↔ (∀ m ∈ rest.names, n < m) ∧ EntryOrdered e ∧ rest.Ordered := by
  cases e with
  | file c => exact and_congr_right fun _ => ⟨fun h => ⟨trivial, h⟩, fun h => h.2⟩
  | folder g => exact Iff.rfl

lemma find?_isSome_iff (f : Folder) (n : String) : (f.find? n).isSome = true ↔ n ∈ f.names := by
  induction f with
  | empty => simp [find?, names]
  | file m c rest ih | folder m inner rest _ ih =>
    by_cases h : m = n
    · simp [find?, names, h]
    · simp [find?, names, h, Ne.symm h, ih]

variable {f : Folder}

lemma mem_names_put {n m : String} : m ∈ (f.put n e).names ↔ m = n ∨ m ∈ f.names := by
  by_cases h : m = n
  · rw [h, ← find?_isSome_iff, find?_put_self]
    simp
  · rw [← find?_isSome_iff, find?_put_of_ne f e h, find?_isSome_iff]
    simp [h]

lemma put_cons (n k : String) (e d : Entry) (rest : Folder) :
    (cons k d rest).put n e = if k = n then cons n e rest
      else if n < k then cons n e (cons k d rest) else cons k d (rest.put n e) := by
  cases d with
  | file c | folder g => rfl

lemma cases_cons {motive : Folder → Prop} (empty : motive .empty)
    (cons : ∀ n e rest, motive rest → motive (cons n e rest)) (f : Folder) : motive f := by
  induction f with
  | empty => exact empty
  | file n c rest ih => exact cons n (.file c) rest ih
  | folder n inner rest _ ih => exact cons n (.folder inner) rest ih

lemma ordered_put (hf : f.Ordered) (he : EntryOrdered e) (n : String) : (f.put n e).Ordered := by
  induction f using cases_cons with
  | empty => exact ordered_cons.mpr ⟨by simp [names], he, trivial⟩
  | cons k d rest ih =>
    obtain ⟨hk, hd, hrest⟩ := ordered_cons.mp hf
    rw [put_cons]
    split
    · rename_i hkn
      exact ordered_cons.mpr ⟨hkn ▸ hk, he, hrest⟩
    · rename_i hkn
      split
      · rename_i hlt
        refine ordered_cons.mpr ⟨fun m hm => ?_, he, hf⟩
        rw [names_cons, List.mem_cons] at hm
        rcases hm with rfl | hm
        · exact hlt
        · exact lt_trans hlt (hk m hm)
      · rename_i hlt
        refine ordered_cons.mpr ⟨fun m hm => ?_, hd, ih hrest⟩
        rcases mem_names_put.mp hm with rfl | hm
        · exact lt_of_le_of_ne (not_lt.mp hlt) hkn
        · exact hk m hm

lemma ordered_find? (hf : f.Ordered) {n : String} (h : f.find? n = some e) : EntryOrdered e := by
  induction f using cases_cons with
  | empty => cases h
  | cons k d rest ih =>
    obtain ⟨-, hd, hrest⟩ := ordered_cons.mp hf
    rw [find?_cons] at h
    split at h
    · exact Option.some.inj h ▸ hd
    · exact ih hrest h

lemma ordered_sub (hf : f.Ordered) (n : String) : (f.sub n).Ordered := by
  rw [sub]
  split
  · rename_i inner h
    exact ordered_find? hf h
  · trivial

lemma ordered_set (hf : f.Ordered) (he : EntryOrdered e) (x : List String) :
    (f.set e x).Ordered := by
  induction x generalizing f with
  | nil =>
    cases e with
    | file c => exact hf
    | folder g => exact he
  | cons n x ih =>
    cases x with
    | nil => exact ordered_put hf he n
    | cons m x =>
      have hinner : EntryOrdered (.folder ((f.sub n).set e (m :: x))) := ih (ordered_sub hf n)
      exact ordered_put hf hinner n

/-! ## Folders with the same tree -/

def kindAt (f : Folder) (x : List String) : Option (Option Content) :=
  (f.get? x).map Entry.kind

lemma get?_singleton (f : Folder) (n : String) : f.get? [n] = f.find? n := by
  rw [get?]
  cases f.find? n with
  | none => rfl
  | some e =>
    cases e with
    | file c | folder g => rfl

lemma kindAt_cons (f : Folder) (n : String) (x : List String) :
    f.kindAt (n :: x) = (f.find? n).bind fun e => (e.below x).map Entry.kind := by
  rw [kindAt, ← List.singleton_append, get?_append, get?_singleton, Option.map_bind]
  rfl

lemma head_names_eq {n m : String} {e d : Entry} {rest rest' : Folder}
    (hf : (cons n e rest).Ordered) (hg : (cons m d rest').Ordered)
    (hnames : ∀ k, k ∈ (cons n e rest).names ↔ k ∈ (cons m d rest').names) : n = m := by
  have hn := (hnames n).mp (by simp [names_cons])
  have hm := (hnames m).mpr (by simp [names_cons])
  rw [names_cons, List.mem_cons] at hn hm
  rcases hn with hn | hn
  · exact hn
  · rcases hm with hm | hm
    · exact hm.symm
    · exact absurd ((ordered_cons.mp hf).1 m hm) (lt_asymm ((ordered_cons.mp hg).1 n hn))

lemma mem_names_iff (f : Folder) (n : String) : n ∈ f.names ↔ (f.kindAt [n]).isSome = true := by
  rw [← find?_isSome_iff, kindAt_cons]
  cases f.find? n with
  | none => simp
  | some e =>
    cases e with
    | file c => simp [Entry.below]
    | folder g => simp [Entry.below, get?]

lemma split_cons {n : String} {rest g : Folder} (hf : (cons n e rest).Ordered) (hg : g.Ordered)
    (h : ∀ x, (cons n e rest).kindAt x = g.kindAt x) :
    ∃ d rest', g = cons n d rest' ∧
      (∀ x, (e.below x).map Entry.kind = (d.below x).map Entry.kind) ∧
      ∀ x, rest.kindAt x = rest'.kindAt x := by
  have hnames : ∀ k, k ∈ (cons n e rest).names ↔ k ∈ g.names := by
    intro k
    rw [mem_names_iff, mem_names_iff, h]
  induction g using cases_cons with
  | empty => exact absurd ((hnames n).mp (by simp [names_cons])) (by simp [names])
  | cons m d rest' _ =>
    obtain rfl := head_names_eq hf hg hnames
    refine ⟨d, rest', rfl, fun x => ?_, fun x => ?_⟩
    · have hx := h (n :: x)
      rwa [kindAt_cons, kindAt_cons, find?_cons, find?_cons, if_pos rfl, if_pos rfl] at hx
    · cases x with
      | nil => rfl
      | cons k x =>
        by_cases hk : n = k
        · -- the name of the first entry is not there again
          have hnone : ∀ {r : Folder}, (∀ m ∈ r.names, n < m) → r.find? k = none := by
            intro r hr
            rw [← Option.not_isSome_iff_eq_none, find?_isSome_iff]
            exact fun hmem => absurd (hr k hmem) (hk ▸ lt_irrefl n)
          rw [kindAt_cons, kindAt_cons, hnone (ordered_cons.mp hf).1,
            hnone (ordered_cons.mp hg).1]
        · have hx := h (k :: x)
          rwa [kindAt_cons, kindAt_cons, find?_cons, find?_cons, if_neg hk, if_neg hk,
            ← kindAt_cons, ← kindAt_cons] at hx

lemma Ordered.ext {f g : Folder} (hf : f.Ordered) (hg : g.Ordered)
    (h : ∀ x, f.kindAt x = g.kindAt x) : f = g := by
  induction f generalizing g with
  | empty =>
    cases g with
    | empty => rfl
    | file m c rest | folder m inner rest =>
      have hm := h [m]
      simp [kindAt, get?, find?] at hm
  | file n c rest ih =>
    obtain ⟨d, rest', rfl, hentry, hrest⟩ := split_cons (e := .file c) hf hg h
    obtain ⟨-, -, hg'⟩ := ordered_cons.mp hg
    have hd : d = .file c := by
      cases d with
      | file c' => simpa [Entry.below, Entry.kind] using (hentry []).symm
      | folder g => simpa [Entry.below, Entry.kind, get?] using hentry []
    rw [hd, ih hf.2 hg' hrest]
    rfl
  | folder n inner rest ihinner ih =>
    obtain ⟨d, rest', rfl, hentry, hrest⟩ := split_cons (e := .folder inner) hf hg h
    obtain ⟨-, hd', hg'⟩ := ordered_cons.mp hg
    have hd : d = .folder inner := by
      cases d with
      | file c' => simpa [Entry.below, Entry.kind, get?] using hentry []
      | folder g => rw [ihinner hf.2.1 hd' hentry]
    rw [hd, ih hf.2.2 hg' hrest]
    rfl

end Folder

end Docsmith
