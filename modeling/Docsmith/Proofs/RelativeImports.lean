import Docsmith.Proofs.Extracting
import Docsmith.Proofs.Uses

/-! # Relative imports in packages

A program is called after the packages around it and then after itself; the start file of a package
is called like the package (`PackageFile.moduleName_eq`). Each dot of an import leaves one part of
that name behind, also in a start file, so its imports start one package too high, unless they start
at the outermost package, which is never left (`importFrom_meant_iff`). -/

/-! ## Names in a row -/

namespace Docsmith.Text

lemma join_cons_ne (sep : String) {n : String} (hn : n ≠ "") (names : List String) :
    join sep (n :: names) ≠ "" := by
  cases names with
  | nil => exact hn
  | cons m names =>
    rw [join_cons_cons]
    simp [hn]

lemma splitOn_join {names : List String} (hne : names ≠ []) (h : ∀ n ∈ names, '.' ∉ n.toList) :
    splitOn "." (join "." names) = names := by
  have hdot : ".".toList = ['.'] := by simp
  have hone : ∀ n : String, '.' ∉ n.toList → splitOn "." n = [n] := by
    intro n hn
    have hno : ¬ ['.'] <:+: n.toList := fun hin => hn (hin.subset List.mem_cons_self)
    rw [splitOn, hdot, Chars.splitOn_eq (by simp), (Chars.breakOn_eq_none_iff (by simp)).mpr hno]
    simp
  induction names with
  | nil => exact absurd rfl hne
  | cons n names ih =>
    cases names with
    | nil => exact hone n (h n (by simp))
    | cons m names =>
      have hchars : (n ++ "." ++ join "." (m :: names)).toList
          = n.toList ++ '.' :: (join "." (m :: names)).toList := by simp
      have hfirst := hone n (h n (by simp))
      have hrest := ih (by simp) fun k hk => h k (List.mem_cons_of_mem _ hk)
      rw [splitOn, hdot] at hfirst hrest ⊢
      rw [join_cons_cons, hchars, Chars.splitOn_append_cons, List.map_append, hfirst, hrest]
      rfl

lemma join_injective {xs ys : List String} (hxs : xs ≠ []) (hys : ys ≠ [])
    (hx : ∀ n ∈ xs, '.' ∉ n.toList) (hy : ∀ n ∈ ys, '.' ∉ n.toList)
    (h : join "." xs = join "." ys) : xs = ys := by
  rw [← splitOn_join hxs hx, h, splitOn_join hys hy]

lemma dropLast_join {names : List String} (hne : names ≠ []) (h : ∀ n ∈ names, '.' ∉ n.toList)
    (k : Nat) : dropLast "." k (join "." names) = join "." (names.take (max 1 (names.length - k))) := by
  rw [dropLast, splitOn_join hne h]

lemma notMem_join {c : Char} {sep : String} {names : List String} (hsep : c ∉ sep.toList)
    (h : ∀ n ∈ names, c ∉ n.toList) : c ∉ (join sep names).toList := by
  induction names with
  | nil => simp
  | cons n names ih =>
    have hn := h n (by simp)
    cases names with
    | nil => exact hn
    | cons m names =>
      have hrest := ih fun k hk => h k (List.mem_cons_of_mem _ hk)
      rw [join_cons_cons]
      simp [hn, hsep, hrest]

end Docsmith.Text

/-! ## Paths -/

namespace Docsmith.Path

open List

variable {p top n : String} {names : List String}

def Leading (top : String) : Prop :=
  top = "" ∨ ∃ d, top = d ++ "/"

def IsPart (n : String) : Prop :=
  n ≠ "" ∧ '/' ∉ n.toList

def under (top : String) (names : List String) : String :=
  top ++ Text.join "/" names

lemma under_concat (top n : String) {names : List String} (hnames : names ≠ []) :
    (under top (names ++ [n])).toList = (under top names).toList ++ '/' :: n.toList := by
  rw [under, under, Calls.join_concat "/" n hnames]
  simp

lemma base_append {front : List Char} (hfront : front = [] ∨ ∃ d, front = d ++ ['/'])
    (hn : '/' ∉ n.toList) : base (.ofList (front ++ n.toList)) = n := by
  have htake : ∀ c ∈ n.toList.reverse, decide (c ≠ '/') = true := by
    intro c hc
    rw [decide_eq_true_iff]
    rintro rfl
    exact hn (mem_reverse.mp hc)
  have hstop : (front.reverse.takeWhile fun c => decide (c ≠ '/')) = [] := by
    rcases hfront with rfl | ⟨d, rfl⟩
    · rfl
    · simp
  rw [base, String.toList_ofList, reverse_append, takeWhile_append_of_pos htake, hstop,
    append_nil, reverse_reverse, String.ofList_toList]

lemma base_under (names : List String) (htop : Leading top) (hn : '/' ∉ n.toList) :
    base (under top (names ++ [n])) = n := by
  by_cases hnames : names = []
  · have hpath : under top (names ++ [n]) = .ofList (top.toList ++ n.toList) := by
      rw [hnames]
      simp [under]
    rw [hpath]
    refine base_append (htop.imp (fun h => ?_) ?_) hn
    · rw [h]
      rfl
    · rintro ⟨d, rfl⟩
      exact ⟨d.toList, by simp⟩
  · have hpath : under top (names ++ [n])
        = .ofList ((under top names).toList ++ ['/'] ++ n.toList) := by
      rw [← String.toList_inj, under_concat _ _ hnames]
      simp
    rw [hpath]
    exact base_append (Or.inr ⟨_, rfl⟩) hn

lemma under_cons_ne (hn : n ≠ "") : under top (n :: names) ≠ "" := by
  rw [under]
  simp [Text.join_cons_ne "/" hn names]

lemma dir_under (hnames : names ≠ []) (hparts : ∀ m ∈ names, IsPart m) (hn : '/' ∉ n.toList) :
    dir (under top (names ++ [n])) = under top names := by
  obtain ⟨ms, m, rfl⟩ := (eq_nil_or_concat' names).resolve_left hnames
  obtain ⟨hm, hslash⟩ := hparts m (by simp)
  -- the folder does not end in a slash
  obtain ⟨a, c, hac, hc⟩ : ∃ a c, (under top (ms ++ [m])).toList = a ++ [c] ∧ c ≠ '/' := by
    obtain ⟨b, c, hbc⟩ := (eq_nil_or_concat' m.toList).resolve_left fun h =>
      hm (String.toList_eq_nil_iff.mp h)
    have hc : c ≠ '/' := by
      rintro rfl
      exact hslash (by simp [hbc])
    by_cases hms : ms = []
    · exact ⟨top.toList ++ b, c, by simp [hms, under, hbc], hc⟩
    · exact ⟨(under top ms).toList ++ '/' :: b, c, by simp [under_concat _ _ hms, hbc], hc⟩
  have hdir := dir_of_append_slash (under_concat top n hnames) hn
  rw [hac] at hdir
  rw [hdir, if_neg (by simp [hc]), Chars.trimRight_eq, rdropWhile_concat_neg _ _ _ (by simpa),
    ← hac, String.ofList_toList]

/-! ## The folders above a path -/

lemma dir_prefix (p : String) : (dir p).toList <+: p.toList := by
  have hhead : (p.toList.reverse.dropWhile (· ≠ '/')).reverse <+: p.toList := by
    rw [← List.rdropWhile]
    exact rdropWhile_prefix _ _
  rw [dir]
  split
  · rwa [String.toList_ofList]
  · rw [String.toList_ofList]
    exact ( rdropWhile_prefix _ _).trans hhead

lemma length_dir_lt (h : dir p ≠ p) : (dir p).length < p.length := by
  have hle := ( dir_prefix p).length_le
  rw [String.length_toList] at hle
  refine Nat.lt_of_le_of_ne hle fun heq => h ?_
  rw [← String.toList_inj]
  refine ( dir_prefix p).eq_of_length ?_
  rw [String.length_toList, String.length_toList, heq]

lemma above_eq_ancestors {k : Nat} (hk : p.length < k) : above k p = ancestors p := by
  have hall : ∀ k p, p.length < k → ∀ l, p.length < l → above k p = above l p := by
    intro k
    induction k with
    | zero => exact fun p h => absurd h (Nat.not_lt_zero _)
    | succ k ih =>
      intro p hk l hl
      obtain ⟨l, rfl⟩ : ∃ m, l = m + 1 := ⟨l - 1, by omega⟩
      rw [above, above]
      by_cases hdir : dir p = p
      · rw [if_pos (by simpa using hdir), if_pos (by simpa using hdir)]
      · have hlt := length_dir_lt hdir
        rw [if_neg (by simpa using hdir), if_neg (by simpa using hdir),
          ih (dir p) (by omega) l (by omega)]
  exact hall k p hk _ (Nat.lt_succ_self _)

lemma ancestors_eq (h : dir p ≠ p) : ancestors p = dir p :: ancestors (dir p) := by
  rw [ancestors, above, if_neg (by simpa using h), above_eq_ancestors (length_dir_lt h)]

/-- The paths down to some names below another one, that one first. -/
def spine (top first : String) (rest : List String) : List String :=
  rest.inits.map fun ns => under top (first :: ns)

lemma spine_concat (top first : String) (rest : List String) (n : String) :
    spine top first (rest ++ [n]) = spine top first rest ++ [under top (first :: rest ++ [n])] := by
  rw [spine, inits_append, map_append]
  rfl

variable {first : String} {rest : List String}

lemma base_spine (htop : Leading top) (hparts : ∀ m ∈ first :: rest, IsPart m) :
    (spine top first rest).map base = first :: rest := by
  induction rest using List.reverseRecOn with
  | nil =>
    have hbase : base (under top [first]) = first :=
      base_under [] htop (hparts first (by simp)).2
    exact congrArg (· :: []) hbase
  | append_singleton rest n ih =>
    have hrest : ∀ m ∈ first :: rest, IsPart m := fun m hm => hparts m (by
      rw [← cons_append]
      exact mem_append_left _ hm)
    rw [spine_concat, map_append, ih hrest, map_singleton,
      base_under _ htop (hparts n (by simp)).2]
    rfl

lemma cons_ancestors_under (top : String) (hparts : ∀ m ∈ first :: rest, IsPart m) :
    under top (first :: rest) :: ancestors (under top (first :: rest))
      = (spine top first rest).reverse ++ ancestors (under top [first]) := by
  induction rest using List.reverseRecOn with
  | nil => rfl
  | append_singleton rest n ih =>
    have hrest : ∀ m ∈ first :: rest, IsPart m := fun m hm => hparts m (by
      rw [← cons_append]
      exact mem_append_left _ hm)
    have hdir : dir (under top (first :: rest ++ [n])) = under top (first :: rest) :=
      dir_under (by simp) hrest (hparts n (by simp)).2
    have hne : dir (under top (first :: rest ++ [n])) ≠ under top (first :: rest ++ [n]) := by
      rw [hdir]
      intro heq
      have hlength := congrArg (fun s : String => s.toList.length) heq
      simp only [under_concat top n (cons_ne_nil first rest),
        length_append, length_cons] at hlength
      omega
    rw [spine_concat, reverse_append, ← cons_append,
      ancestors_eq hne, hdir, ih hrest]
    rfl

end Docsmith.Path

/-! ## Names of programs -/

namespace Docsmith.Chars

lemma replaceFrom_concat {c : Char} {t x : List Char} (hc : c ∉ t) (h : ¬ c :: t <:+: x) :
    replaceFrom (c :: t) [] (x ++ c :: t) 0 = x := by
  induction x with
  | nil =>
    have hself := replaceFrom_append (List.cons_ne_nil c t) [] []
    rw [List.append_nil] at hself
    exact hself
  | cons d x ih =>
    have hno : ¬ c :: t <+: d :: (x ++ c :: t) := by
      intro hpre
      rw [List.cons_prefix_cons] at hpre
      obtain ⟨rfl, hpre⟩ := hpre
      have ht : t <+: x := prefix_of_prefix_append_cons hc hpre
      exact h (List.IsPrefix.isInfix (List.cons_prefix_cons.mpr ⟨rfl, ht⟩))
    rw [List.cons_append, replaceFrom_cons hno, ih fun hin => h (List.infix_cons hin)]

end Docsmith.Chars

namespace Docsmith.Calls

open Docsmith.Path List

structure PackageFile where
  top : String
  outermost : String
  inner : List String
  /-- The name of the program. The start file of the innermost package has none. -/
  stem : Option String
  leading : Leading top
  part : ∀ n ∈ outermost :: (inner ++ stem.toList), IsPart n ∧ '.' ∉ n.toList
  ordinary : stem ≠ some "__init__"
  plain : stem.isSome = true → ¬ ".py".toList <:+: top.toList

namespace PackageFile

variable (f : PackageFile)

def packages : List String :=
  f.outermost :: f.inner

def components : List String :=
  f.outermost :: (f.inner ++ f.stem.toList)

def name : String :=
  Text.join "." f.components

def file : String :=
  f.stem.elim startFile (· ++ ".py")

def path : String :=
  under f.top (f.packages ++ [f.file])

def root : String :=
  under f.top [f.outermost]

/-- The package that so many dots mean: the name of the program without as many of its last parts.
The first dot of a start file is its own package. -/
def origin (dots : Nat) : List String :=
  f.components.take (f.components.length - if f.stem.isSome then dots else dots - 1)

def meant (dots : Nat) (module : Option String) : String :=
  Text.join "." (f.origin dots ++ module.toList)

end PackageFile

def Listed (folder : Folder) (isPackage : Bool) (d : String) : Prop :=
  ∃ names, folder.list d = .ok names ∧ names.contains startFile = isPackage

/-- The program stands in a folder: its packages are packages, and the folders above are not. -/
structure PackageFile.Stands (f : PackageFile) (folder : Folder) : Prop where
  inside : ∀ d ∈ spine f.top f.outermost f.inner, Listed folder true d
  outside : ∀ d ∈ (ancestors f.root).takeWhile (· ≠ ""), Listed folder false d

lemma packages_eq {folder : Folder} {isPackage : Bool} {ds : List String}
    (h : ∀ d ∈ ds, Listed folder isPackage d) :
    packages folder ds = .ok (ds.map (·, isPackage)) := by
  rw [packages]
  induction ds with
  | nil => rfl
  | cons d ds ih =>
    obtain ⟨⟨names, hlist, hnames⟩, hrest⟩ := forall_mem_cons.mp h
    rw [mapM_cons, hlist, ih hrest, ← hnames]
    rfl

namespace PackageFile

variable {f : PackageFile} {folder : Folder}

lemma isPart {n : String} (h : n ∈ f.components) : IsPart n :=
  (f.part n h).1

lemma noDot {n : String} (h : n ∈ f.components) : '.' ∉ n.toList :=
  (f.part n h).2

lemma components_ne_nil : f.components ≠ [] :=
  cons_ne_nil _ _

lemma packages_ne_nil : f.packages ≠ [] :=
  cons_ne_nil _ _

lemma components_eq : f.components = f.packages ++ f.stem.toList := rfl

lemma packages_part {n : String} (h : n ∈ f.packages) : IsPart n :=
  f.isPart (mem_append_left f.stem.toList h)

/-! ### The path without the extension -/

lemma modulePath_start (hstem : f.stem = none) : modulePath f.path = under f.top f.components := by
  have hfile : f.file = startFile := by
    rw [file, hstem]
    rfl
  have hslash : '/' ∉ startFile.toList := by decide
  rw [modulePath, path, hfile, base_under _ f.leading hslash, if_pos (by simp),
    dir_under packages_ne_nil (fun _ => packages_part) hslash, components_eq, hstem,
    Option.toList_none, append_nil]

lemma not_infix_under (hstem : f.stem.isSome = true) :
    ¬ '.' :: ['p', 'y'] <:+: (under f.top f.components).toList := by
  have hpy : ".py".toList = '.' :: ['p', 'y'] := by simp
  have hjoin : '.' ∉ (Text.join "/" f.components).toList :=
    Text.notMem_join (by decide) fun n => f.noDot
  have hafter : ¬ '.' :: ['p', 'y'] <:+: (Text.join "/" f.components).toList :=
    fun hin => hjoin (hin.subset mem_cons_self)
  have hbefore := f.plain hstem
  rw [hpy] at hbefore
  rw [under, String.toList_append]
  rcases f.leading with htop | ⟨d, htop⟩
  · rw [htop]
    exact hafter
  · have hd : f.top.toList = d.toList ++ ['/'] := by simp [htop]
    rw [hd] at hbefore ⊢
    rw [append_assoc, singleton_append, Chars.infix_append_cons_iff (by simp) (by simp)]
    rintro (hin | hin)
    · exact hbefore (hin.trans (prefix_append _ _).isInfix)
    · exact hafter hin

lemma modulePath_ordinary {m : String} (hstem : f.stem = some m) :
    modulePath f.path = under f.top f.components := by
  have hpy : ".py".toList = '.' :: ['p', 'y'] := by simp
  have hfile : f.file = m ++ ".py" := by
    rw [file, hstem]
    rfl
  have hslash : '/' ∉ m.toList := (f.part m (by simp [hstem])).1.2
  have hbase : base f.path = m ++ ".py" := by
    rw [path, hfile]
    exact base_under _ f.leading (by simp [hslash])
  have hname : m ++ ".py" ≠ startFile := by
    intro heq
    refine f.ordinary (hstem.trans (congrArg some ?_))
    have hchars := congrArg String.toList heq
    have hstart : startFile.toList = "__init__".toList ++ ".py".toList := by decide
    rw [String.toList_append, hstart, append_cancel_right_eq] at hchars
    exact String.toList_inj.mp hchars
  have hpath : f.path.toList = (under f.top f.components).toList ++ '.' :: ['p', 'y'] := by
    rw [path, hfile, under_concat _ _ packages_ne_nil, components_eq, hstem, Option.toList_some,
      under_concat _ _ packages_ne_nil]
    simp
  have hdrop := Chars.replaceFrom_concat (by decide) (f.not_infix_under (by rw [hstem]; rfl))
  have hnil : "".toList = [] := rfl
  rw [modulePath, hbase, if_neg (by simpa using hname), Text.replace, Chars.replace, hpy,
    if_neg (by simp), hpath, hnil, hdrop, String.ofList_toList]

lemma modulePath_eq : modulePath f.path = under f.top f.components := by
  cases hstem : f.stem with
  | none => exact modulePath_start hstem
  | some m => exact modulePath_ordinary hstem

/-! ### The name -/

lemma exists_ancestors : ∃ between,
    spine f.top f.outermost (f.inner ++ f.stem.toList) = between ++ [under f.top f.components] ∧
      ancestors (under f.top f.components) = between.reverse ++ ancestors f.root ∧
      ∀ d ∈ between, d ∈ spine f.top f.outermost f.inner := by
  have hline := cons_ancestors_under f.top fun _ => f.isPart
  obtain ⟨between, hspine, hmem⟩ : ∃ between,
      spine f.top f.outermost (f.inner ++ f.stem.toList) = between ++ [under f.top f.components] ∧
        ∀ d ∈ between, d ∈ spine f.top f.outermost f.inner := by
    rw [components]
    cases f.stem with
    | some m => exact ⟨_, spine_concat _ _ _ m, fun _ h => h⟩
    | none =>
      rw [Option.toList_none, append_nil]
      rcases eq_nil_or_concat' f.inner with hinner | ⟨ns, n, hinner⟩
      · rw [hinner]
        exact ⟨[], rfl, fun _ h => absurd h not_mem_nil⟩
      · rw [hinner, spine_concat]
        exact ⟨_, rfl, fun _ h => mem_append_left _ h⟩
  refine ⟨between, hspine, ?_, hmem⟩
  rw [hspine, reverse_append] at hline
  exact (List.cons.inj hline).2

lemma base_line : (spine f.top f.outermost (f.inner ++ f.stem.toList)).map base = f.components :=
  base_spine f.leading fun _ => f.isPart

lemma moduleName_eq (hf : f.Stands folder) : moduleName folder f.path = .ok f.name := by
  obtain ⟨between, hspine, habove, hmem⟩ := f.exists_ancestors
  have hne : ∀ d ∈ between.reverse, decide (d ≠ "") = true := by
    intro d hd
    obtain ⟨ns, -, rfl⟩ := mem_map.mp (hmem d (mem_reverse.mp hd))
    exact decide_eq_true (under_cons_ne (f.isPart mem_cons_self).1)
  have hinside := packages_eq fun d hd => hf.inside d (hmem d (mem_reverse.mp hd))
  have houtside := packages_eq hf.outside
  have hfolders : Calls.packages folder ((ancestors (under f.top f.components)).takeWhile (· ≠ ""))
      = .ok (between.reverse.map (·, true)
        ++ ((ancestors f.root).takeWhile (· ≠ "")).map (·, false)) := by
    rw [habove, takeWhile_append_of_pos hne]
    rw [Calls.packages] at hinside houtside ⊢
    rw [mapM_append, hinside, houtside]
    rfl
  have hkept : ∀ outside : List String,
      ((between.reverse.map (·, true) ++ outside.map (·, false)).reverse.dropWhile (!·.2)).reverse
        = between.reverse.map (·, true) := by
    intro outside
    have hdrop : ∀ e ∈ (outside.map fun d => (d, false)).reverse, (!e.2) = true := by
      simp
    rw [reverse_append, dropWhile_append_of_pos hdrop]
    cases between with
    | nil => rfl
    | cons d ds => simp
  rw [moduleName, modulePath_eq, hfolders]
  show Except.ok _ = _
  rw [hkept, map_map]
  have hfst : (Prod.fst ∘ fun d : String => (d, true)) = id := rfl
  rw [hfst, map_id, dotted, reverse_cons, reverse_reverse, ← hspine, base_line, name]

lemma moduleNameFrom_eq : moduleNameFrom f.root f.path = .ok f.name := by
  obtain ⟨rest, hrest⟩ : ∃ rest, f.components = f.outermost :: rest := ⟨_, rfl⟩
  have hparts : ∀ n ∈ f.outermost :: rest, IsPart n := fun n hn => f.isPart (hrest ▸ hn)
  have hline := cons_ancestors_under f.top hparts
  have hbase := base_spine f.leading hparts
  obtain ⟨below, hspine, hne⟩ : ∃ below, spine f.top f.outermost rest = f.root :: below ∧
      ∀ d ∈ below, d ≠ f.root := by
    cases rest with
    | nil => exact ⟨[], rfl, fun _ h => absurd h not_mem_nil⟩
    | cons n rest =>
      refine ⟨_, rfl, fun d hd heq => ?_⟩
      obtain ⟨ns, hns, rfl⟩ := mem_map.mp hd
      obtain ⟨ms, -, rfl⟩ := mem_map.mp hns
      have hchars := congrArg (fun p : String => p.toList.length) heq
      simp [under, root, Text.join_cons_cons] at hchars
  have hwhole : under f.top f.components :: ancestors (under f.top f.components)
      = below.reverse ++ f.root :: ancestors f.root := by
    rw [hrest, hline, hspine, reverse_cons, append_assoc]
    rfl
  have htake : ∀ d ∈ below.reverse, decide (d ≠ f.root) = true :=
    fun d hd => decide_eq_true (hne d (mem_reverse.mp hd))
  rw [moduleNameFrom, modulePath_eq, hwhole, if_pos (by simp), takeWhile_append_of_pos htake,
    takeWhile_cons_of_neg (by simp), append_nil, reverse_append,
    reverse_reverse, reverse_singleton, singleton_append, ← hspine, hbase, name, hrest]

end PackageFile

/-! ## Imports -/

/-- All symbols are found, and a symbol uses symbols that there are, none of them twice. -/
structure State.Orderly (s : State) : Prop where
  indexed : s.Indexed fun _ => True
  uses : s.uses.Among (fun _ => True) (· < s.symbols.size)

def State.UsesName (s : State) (user : Id) (name : String) : Prop :=
  ∃ i ∈ s.uses.targets user, i < s.symbols.size ∧ (s.symbol i).isWild = false ∧
    (s.symbol i).fullName = name

/-- Symbols keep their full names, and what is not wild is still used; the visit is where it was. -/
structure Widens (s s' : State) : Prop where
  size : s.symbols.size ≤ s'.symbols.size
  symbol : ∀ i < s.symbols.size, (s'.symbol i).space = (s.symbol i).space ∧
    (s'.symbol i).name = (s.symbol i).name
  uses : ∀ {a i}, i < s.symbols.size → (s.symbol i).isWild = false → i ∈ s.uses.targets a →
    i ∈ s'.uses.targets a
  module : s'.module = s.module

namespace Widens

variable {s s' s'' : State}

lemma refl (s : State) : Widens s s :=
  ⟨Nat.le_refl _, fun _ _ => ⟨rfl, rfl⟩, fun _ _ h => h, rfl⟩

lemma isWild (h : Widens s s') {i : Id} (hi : i < s.symbols.size) :
    (s'.symbol i).isWild = (s.symbol i).isWild := by
  rw [Symbol.isWild, (h.symbol i hi).1, Symbol.isWild]

lemma fullName (h : Widens s s') {i : Id} (hi : i < s.symbols.size) :
    (s'.symbol i).fullName = (s.symbol i).fullName := by
  obtain ⟨hspace, hname⟩ := h.symbol i hi
  rw [Symbol.fullName, Symbol.fullName, hspace, hname]

lemma trans (h : Widens s s') (h' : Widens s' s'') : Widens s s'' where
  size := h.size.trans h'.size
  symbol := by
    intro i hi
    obtain ⟨hspace, hname⟩ := h.symbol i hi
    obtain ⟨hspace', hname'⟩ := h'.symbol i (hi.trans_le h.size)
    exact ⟨hspace'.trans hspace, hname'.trans hname⟩
  uses := fun hi hwild hmem =>
    h'.uses (hi.trans_le h.size) ((h.isWild hi).trans hwild) (h.uses hi hwild hmem)
  module := h'.module.trans h.module

end Widens

def importing : Rules State where
  fit := State.Orderly
  leads := Widens
  fails := fun _ => False
  refl := Widens.refl
  trans := Widens.trans

lemma stable_usesName (user : Id) (name : String) :
    importing.Stable fun s => s.UsesName user name := by
  rintro s s' h ⟨i, hmem, hi, hwild, hname⟩
  exact ⟨i, h.uses hi hwild hmem, hi.trans_le h.size, (h.isWild hi).trans hwild,
    (h.fullName hi).trans hname⟩

def State.Called (s : State) (i : Id) (name : String) : Prop :=
  i < s.symbols.size ∧ (s.symbol i).isWild = false ∧ (s.symbol i).fullName = name

lemma stable_called (i : Id) (name : String) : importing.Stable fun s => s.Called i name := by
  rintro s s' h ⟨hi, hwild, hname⟩
  exact ⟨hi.trans_le h.size, (h.isWild hi).trans hwild, (h.fullName hi).trans hname⟩

lemma State.Orderly.raise {s : State} (hs : s.Orderly) (id : Id) (flavor : Flavor) :
    (s.raise id flavor).Orderly ∧ Widens s (s.raise id flavor) := by
  rcases State.raise_cases s id flavor with heq | ⟨-, heq⟩
  · rw [heq]
    exact ⟨hs, Widens.refl s⟩
  · have hsize := State.size_alter s id ({ · with flavor })
    refine ⟨⟨hs.indexed.raise id flavor, ?_⟩, ?_⟩
    · rw [heq, hsize]
      exact hs.uses
    · rw [heq]
      refine ⟨Nat.le_of_eq hsize.symm, fun i _ => ⟨?_, ?_⟩, fun _ _ h => h, rfl⟩
      · exact State.symbol_alter_congr s Symbol.space id ({ · with flavor }) (fun _ => rfl) i
      · exact State.symbol_alter_congr s Symbol.name id ({ · with flavor }) (fun _ => rfl) i

open Rules

lemma does_call (space name : String) (origin : Option Origin) (flavor : Flavor) :
    importing.Does (fun _ => True) (symbolFor (some space) name origin flavor)
      fun id s => s.Called id (qualified space name) := by
  refine does_of_run fun s hs _ => ?_
  have hcalled : ∀ {id s'}, (symbolFor (some space) name origin flavor).run.run s = (.ok id, s') →
      s'.Called id (qualified space name) := by
    intro id s' hrun
    obtain ⟨hlt, -, hspace, hname, -⟩ := hs.indexed.symbolFor_ok hrun
    refine ⟨hlt, ?_, ?_⟩
    · rw [Symbol.isWild, hspace]
      rfl
    · rw [Symbol.fullName_of_space hspace, hname]
  rcases symbolFor_run (some space) name origin flavor s with ⟨i, -, hrun⟩ | ⟨hnew, hrun⟩
  · obtain ⟨hfit, hwidens⟩ := hs.raise i flavor
    exact ⟨i, _, hrun, hfit, hwidens, hcalled hrun⟩
  · refine ⟨_, _, hrun, ⟨hs.indexed.push fun _ => hnew, ?_⟩, ⟨?_, ?_, fun _ _ h => h, rfl⟩, hcalled hrun⟩
    · intro e he
      obtain ⟨-, hnodup, htargets⟩ := hs.uses e he
      refine ⟨trivial, hnodup, fun t ht => ?_⟩
      rw [State.size_push]
      exact Nat.lt_succ_of_lt (htargets t ht)
    · rw [State.size_push]
      exact Nat.le_succ _
    · intro i hi
      rw [State.symbol_push_of_lt s _ hi]
      exact ⟨rfl, rfl⟩

lemma does_bind (name : String) (value : Option Id) :
    importing.Does (fun _ => True) (bindName name value) fun _ _ => True := by
  refine does_of_run fun s hs _ => ?_
  obtain ⟨scopes, hrun⟩ : ∃ scopes, (bindName name value).run.run s = (.ok (), { s with scopes }) := by
    rw [bindName, run_get_bind]
    split
    · rename_i space id _
      rcases setName_run space name id s with ⟨-, hrun⟩ | ⟨scope, -, hrun⟩
      · exact ⟨_, hrun⟩
      · exact ⟨_, hrun⟩
    · exact ⟨_, rfl⟩
  exact ⟨(), _, hrun, ⟨⟨hs.indexed.named, hs.indexed.found⟩, hs.uses⟩,
    ⟨Nat.le_refl _, fun _ _ => ⟨rfl, rfl⟩, fun _ _ h => h, rfl⟩, trivial⟩

lemma does_link (user id : Id) (name : String) :
    importing.Does (fun s => s.Called id name) (addUses user id) fun _ s => s.UsesName user name := by
  refine does_of_run ?_
  rintro s hs ⟨hlt, hwild, hname⟩
  obtain ⟨uses, hrun, huses⟩ := addUses_run hs.uses (hs.indexed.distinguishes trivial) trivial hlt
  have hjoins := addUses_ok hrun
  refine ⟨(), _, hrun, ⟨⟨hs.indexed.named, hs.indexed.found⟩, huses⟩,
    ⟨Nat.le_refl _, fun _ _ => ⟨rfl, rfl⟩, fun _ hwild h => hjoins.mem hwild (Or.inl h), rfl⟩, ?_⟩
  exact ⟨id, hjoins.mem hwild (Or.inr ⟨rfl, rfl⟩), hlt, hwild, hname⟩

lemma does_import (user : Id) {source : String} (hsource : source ≠ "") (a : Alias) :
    importing.Does (fun _ => True) (importName user source a)
      fun _ s => s.UsesName user (source ++ "." ++ a.name) := by
  have hrest : ∀ id, importing.Does (fun s => s.Called id (source ++ "." ++ a.name)) (do
      bindName (a.asName.getD a.name) (some id)
      addUses user id) fun _ s => s.UsesName user (source ++ "." ++ a.name) := by
    intro id
    refine (does_bind _ (some id)).carry (stable_called id _) (fun _ _ h => ⟨trivial, h⟩) fun _ => ?_
    exact (does_link user id _).given fun _ _ h => h.2
  refine does_get.bind fun s => ?_
  split
  · exact (does_call "" _ _ .module).any.bind hrest
  · have hqualified : qualified source a.name = source ++ "." ++ a.name := if_neg hsource
    exact (hqualified ▸ does_call source a.name _ .imported).any.bind hrest

lemma does_imports (user : Id) {source : String} (hsource : source ≠ "") (aliases : List Alias) :
    importing.Does (fun _ => True) (aliases.forM (importName user source))
      fun _ s => ∀ a ∈ aliases, s.UsesName user (source ++ "." ++ a.name) := by
  induction aliases with
  | nil => exact does_pure fun _ _ _ _ h => absurd h not_mem_nil
  | cons a aliases ih =>
    refine (does_import user hsource a).bind fun _ => ?_
    refine (ih.frame (stable_usesName user _)).imp (fun _ _ h => ⟨trivial, h⟩) ?_
    exact fun _ _ _ h => forall_mem_cons.mpr ⟨h.2, h.1⟩

lemma importFrom_goes {s : State} (hs : s.Orderly) (hpath : s.path ≠ []) {module : Option String}
    {level : Nat} (hsource : importSource s.module module level ≠ "") (aliases : List Alias) :
    ∃ s' user, (visit (.importFrom module level aliases)).run.run s = (.ok (), s') ∧
      (s'.symbol user).fullName = blockName s.path ∧
      ∀ a ∈ aliases, s'.UsesName user (importSource s.module module level ++ "." ++ a.name) := by
  obtain ⟨name, outer, hpath⟩ := exists_cons_of_ne_nil hpath
  obtain ⟨user, s₁, hcurrent, hs₁, hwidens, hcalled⟩ :=
    (does_call (Text.join "." outer.reverse) name none .nameSpace).run (fun _ h => h) hs trivial
  obtain ⟨⟨⟩, s₂, hrun, -, hwidens₂, hused⟩ :=
    (does_imports user hsource aliases).run (fun _ h => h) hs₁ trivial
  refine ⟨s₂, user, ?_, ?_, hused⟩
  · rw [visit, run_bind_of_ok ((current_cons hpath).trans hcurrent), run_get_bind,
      Widens.module hwidens]
    exact hrun
  · rw [Widens.fullName hwidens₂ hcalled.1, hcalled.2.2, hpath]
    rfl

/-! ## What an import refers to -/

namespace PackageFile

variable {f : PackageFile} (module : Option String)

lemma importSource_eq {level : Nat} (hpos : 1 ≤ level) :
    importSource f.name module level = Text.join "."
      (f.components.take (max 1 (f.components.length - level)) ++ module.toList) := by
  have hdrop := Text.dropLast_join f.components_ne_nil (fun _ => f.noDot) level
  rw [← name] at hdrop
  cases module with
  | none => rw [importSource, hdrop, Option.toList_none, append_nil]
  | some m =>
    have hlevel : (level == 0) = false := by simpa using Nat.ne_of_gt hpos
    have hne : f.components.take (max 1 (f.components.length - level)) ≠ [] := by
      rw [ne_eq, take_eq_nil_iff, not_or]
      exact ⟨by omega, f.components_ne_nil⟩
    rw [importSource, hlevel, if_neg (by simp), hdrop, Option.toList_some, join_concat _ _ hne]

lemma importSource_ne {level : Nat} (hpos : 1 ≤ level) :
    importSource f.name module level ≠ "" := by
  obtain ⟨k, hk⟩ : ∃ k, max 1 (f.components.length - level) = k + 1 :=
    Nat.exists_eq_succ_of_ne_zero (by omega)
  rw [importSource_eq module hpos, hk]
  exact Text.join_cons_ne "." (f.isPart mem_cons_self).1 _

lemma join_append_iff {xs ys : List String} (hxs : xs ≠ []) (hys : ys ≠ [])
    (hx : ∀ n ∈ xs, '.' ∉ n.toList) (hy : ∀ n ∈ ys, '.' ∉ n.toList) (module : Option String) :
    Text.join "." (xs ++ module.toList) = Text.join "." (ys ++ module.toList) ↔ xs = ys := by
  refine ⟨fun h => Text.join_injective hxs hys hx hy ?_, fun h => by rw [h]⟩
  cases module with
  | none => simpa using h
  | some m =>
    rw [Option.toList_some, join_concat _ _ hxs, join_concat _ _ hys] at h
    have hchars := congrArg String.toList h
    simpa [String.toList_inj] using hchars

lemma importSource_eq_meant_iff {level : Nat} (hpos : 1 ≤ level)
    (hinside : level ≤ f.packages.length) :
    importSource f.name module level = f.meant level module ↔
      f.stem.isSome = true ∨ level = f.packages.length := by
  have hlength : f.components.length = f.packages.length + f.stem.toList.length := by
    rw [components_eq, length_append]
  have htake : ∀ {k}, 1 ≤ k → f.components.take k ≠ [] := by
    intro k hk
    rw [ne_eq, take_eq_nil_iff, not_or]
    exact ⟨by omega, f.components_ne_nil⟩
  have hdots : ∀ k, ∀ n ∈ f.components.take k, '.' ∉ n.toList :=
    fun k n hn => f.noDot (mem_of_mem_take hn)
  have hiff : ∀ k, 1 ≤ k → k ≤ f.components.length →
      (importSource f.name module level = Text.join "." (f.components.take k ++ module.toList) ↔
        max 1 (f.components.length - level) = k) := by
    intro k hk hle
    rw [importSource_eq module hpos,
      join_append_iff (htake (by omega)) (htake hk) (hdots _) (hdots _) module]
    refine ⟨fun h => ?_, fun h => by rw [h]⟩
    have hsame := congrArg List.length h
    rw [length_take, length_take] at hsame
    omega
  rw [meant, origin]
  cases hstem : f.stem with
  | some m =>
    rw [hstem, Option.toList_some, length_singleton] at hlength
    have hkept := hiff (f.components.length - level) (by omega) (by omega)
    rw [Option.isSome_some, if_pos rfl, hkept]
    exact iff_of_true (by omega) (Or.inl rfl)
  | none =>
    rw [hstem, Option.toList_none, length_nil] at hlength
    have hkept := hiff (f.components.length - (level - 1)) (by omega) (by omega)
    rw [if_neg (by simp), hkept]
    refine ⟨fun h => Or.inr (by omega), fun h => ?_⟩
    have hlevel : level = f.packages.length := h.resolve_left (by simp)
    omega

end PackageFile

/-- A program imports names by a number of dots that stays in its tree of packages. The import goes
well, and it refers to the module that is meant just if the program is an ordinary one or the dots
go up to the outermost package. -/
theorem importFrom_meant_iff (f : PackageFile) {p : Program} (hf : f.Stands p.folder) {s : State}
    (hroot : s.root = none ∨ s.root = some f.root) (hmodule : p.nameOf s.root f.path = .ok s.module)
    (hs : s.Orderly) (hpath : s.path ≠ []) (module : Option String) (level : Nat) (hpos : 1 ≤ level)
    (hinside : level ≤ f.packages.length) (aliases : List Alias) :
    ∃ s' user, (visit (.importFrom module level aliases)).run.run s = (.ok (), s') ∧
      (s'.symbol user).fullName = blockName s.path ∧
      (∀ a ∈ aliases, s'.UsesName user (importSource s.module module level ++ "." ++ a.name)) ∧
      (importSource s.module module level = f.meant level module ↔
        f.stem.isSome = true ∨ level = f.packages.length) := by
  have hname : s.module = f.name := by
    rcases hroot with hroot | hroot
    · rw [hroot] at hmodule
      exact Except.ok.inj (hmodule.symm.trans (PackageFile.moduleName_eq hf))
    · rw [hroot] at hmodule
      exact Except.ok.inj (hmodule.symm.trans PackageFile.moduleNameFrom_eq)
  have hsource : importSource s.module module level ≠ "" := by
    rw [hname]
    exact PackageFile.importSource_ne module hpos
  obtain ⟨s', user, hrun, huser, hused⟩ := importFrom_goes hs hpath hsource aliases
  refine ⟨s', user, hrun, huser, hused, ?_⟩
  rw [hname]
  exact PackageFile.importSource_eq_meant_iff module hpos hinside

/-! ### A package in a package -/

def packageTree : Program where
  folder := .folder "res" (.folder "p" (.file "__init__.py" (.text "")
    (.folder "q" (.file "__init__.py" (.text "from . import x\n")
      (.file "m.py" (.text "from ..x import y\n") .empty)) .empty)) .empty) .empty
  parse := fun _ => none

def packageTree.program : PackageFile where
  top := "res/"
  outermost := "p"
  inner := ["q"]
  stem := some "m"
  leading := Or.inr ⟨"res", rfl⟩
  part := by simp [IsPart]
  ordinary := by decide
  plain := by decide

def packageTree.start : PackageFile where
  top := "res/"
  outermost := "p"
  inner := ["q"]
  stem := none
  leading := Or.inr ⟨"res", rfl⟩
  part := by simp [IsPart]
  ordinary := by decide
  plain := nofun

lemma stands_program : packageTree.program.Stands packageTree.folder := by
  refine ⟨fun d hd => ?_, fun d hd => ?_⟩
  · have hpackages : spine "res/" "p" ["q"] = ["res/p", "res/p/q"] := by decide +kernel
    rcases mem_cons.mp hd with rfl | hd
    · exact ⟨["__init__.py", "q"], by decide +kernel, by decide⟩
    · rw [mem_singleton.mp hd]
      exact ⟨["__init__.py", "m.py"], by decide +kernel, by decide⟩
  · have habove : (ancestors (under "res/" ["p"])).takeWhile (· ≠ "") = ["res"] := by decide +kernel
    rw [mem_singleton.mp hd]
    exact ⟨["p"], by decide +kernel, by decide⟩

def insideModule (name : String) : State :=
  { module := name, path := [name] }

lemma orderly_insideModule (name : String) : (insideModule name).Orderly := by
  refine ⟨⟨?_, ?_⟩, ?_⟩
  · exact fun hid => absurd hid not_mem_nil
  · exact fun id hid => absurd hid (Nat.not_lt_zero id)
  · exact fun e he => absurd he not_mem_nil

theorem importFrom_meant_program : ∃ s' user,
    (visit (.importFrom (some "x") 2 [{ name := "y" }])).run.run (insideModule "p.q.m") = (.ok (), s') ∧
      (s'.symbol user).fullName = "p.q.m" ∧ s'.UsesName user "p.x.y" := by
  obtain ⟨s', user, hrun, huser, hused, hmeant⟩ := importFrom_meant_iff packageTree.program
    stands_program (s := insideModule "p.q.m") (Or.inl rfl) (by decide +kernel)
    (orderly_insideModule _) (by decide) (some "x") 2 (by decide) (by decide)
    [{ name := "y" }]
  refine ⟨s', user, hrun, huser, ?_⟩
  have hsource : importSource (insideModule "p.q.m").module (some "x") 2 = "p.x" :=
    (hmeant.mpr (Or.inl rfl)).trans (by decide +kernel)
  have hname : "p.x" ++ "." ++ "y" = "p.x.y" := by decide
  exact hname ▸ hsource ▸ hused _ List.mem_cons_self

/-- The start file of the inner package means a name of its own package, and uses one of the outer
package. -/
theorem importFrom_start_not_meant :
    moduleName packageTree.folder packageTree.start.path = .ok "p.q" ∧
      packageTree.start.meant 1 none = "p.q" ∧
      (let r := (visit (.importFrom none 1 [{ name := "x" }])).run.run (insideModule "p.q")
       (r.1, r.2.symbols.toList.map Symbol.fullName, r.2.uses))
        = (.ok (), ["p.q", "p.x"], [(0, [1])]) := by
  decide +kernel

end Docsmith.Calls

