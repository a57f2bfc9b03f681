/-! # The line of a class

The lines of the bases are merged so that every class stands before its bases and bases keep their
order. Where that is impossible for one class, the plain order of depth is used for all. -/

namespace Docsmith.Calls.Lineage

variable {α : Type} [DecidableEq α]

/-! ## Merging -/

def goodHead? (lists : List (List α)) : Option α :=
  (lists.filterMap List.head?).find? fun h => lists.all fun l => !l.tail.contains h

def total (lists : List (List α)) : Nat :=
  lists.flatten.length

def without (a : α) (lists : List (List α)) : List (List α) :=
  lists.map (·.filter (· ≠ a))

theorem total_without_le (a : α) (lists : List (List α)) :
    total (without a lists) ≤ total lists := by
  induction lists with
  | nil => simp [without, total]
  | cons l ls ih =>
    have h := List.length_filter_le (fun x => decide (x ≠ a)) l
    simp only [without, total, List.map_cons, List.flatten_cons, List.length_append] at ih ⊢
    omega

theorem total_without_lt {a : α} {lists : List (List α)} (h : ∃ l ∈ lists, a ∈ l) :
    total (without a lists) < total lists := by
  induction lists with
  | nil => simp at h
  | cons l ls ih =>
    have h1 := List.length_filter_le (fun x => decide (x ≠ a)) l
    have h2 := total_without_le a ls
    simp only [without, total, List.map_cons, List.flatten_cons, List.length_append] at ih h2 ⊢
    obtain ⟨m, hm, ha⟩ := h
    rcases List.mem_cons.1 hm with rfl | hm
    · have : (m.filter (fun x => decide (x ≠ a))).length < m.length := by
        rw [List.length_filter_lt_length_iff_exists]
        exact ⟨a, ha, by simp⟩
      omega
    · have := ih ⟨m, hm, ha⟩
      omega

theorem mem_of_goodHead? {a : α} {lists : List (List α)} (h : goodHead? lists = some a) :
    ∃ l ∈ lists, a ∈ l := by
  have h := List.mem_of_find?_eq_some h
  obtain ⟨l, hl, hh⟩ := List.mem_filterMap.1 h
  exact ⟨l, hl, List.mem_of_head? hh⟩

/-- Always takes the first head that no list has further on; fails when every head is wanted
later. -/
def merge? (lists : List (List α)) : Option (List α) :=
  match _h : goodHead? lists with
  | some a => (merge? (without a lists)).map (a :: ·)
  | none => if lists.all List.isEmpty then some [] else none
termination_by total lists
decreasing_by exact total_without_lt (mem_of_goodHead? _h)

/-! ## Lines -/

structure Search (α : Type) where
  known : List (α × List α) := []
  seen : List α := []

mutual

def merged (bases : List (α × List α)) : Nat → α → Search α → Option (List α × Search α)
  | 0, _, _ => none
  | depth + 1, a, s =>
    let s := { s with seen := a :: s.seen }
    match s.known.lookup a with
    | some line => some (line, s)
    | none =>
      match (bases.lookup a).getD [] with
      | [] => some ([a], { s with known := (a, [a]) :: s.known })
      | parents =>
        match mergedAll bases depth parents s with
        | none => none
        | some (lists, s) =>
          match merge? (lists ++ [parents]) with
          | none => none
          | some rest => some (a :: rest, { s with known := (a, a :: rest) :: s.known })

def mergedAll (bases : List (α × List α)) :
    Nat → List α → Search α → Option (List (List α) × Search α)
  | _, [], s => some ([], s)
  | depth, a :: rest, s =>
    if a ∈ s.seen then mergedAll bases depth rest s
    else
      match merged bases depth a s with
      | none => none
      | some (line, s) =>
        match mergedAll bases depth rest s with
        | none => none
        | some (lines, s) => some (line :: lines, s)

end

mutual

/-- The class and what it inherits from in order of depth. Every base stands before its own line. -/
def plain (bases : List (α × List α)) : Nat → α → Search α → List α × Search α
  | 0, a, s => ([a], s)
  | depth + 1, a, s =>
    let s := { s with seen := a :: s.seen }
    match s.known.lookup a with
    | some line => (line, s)
    | none =>
      let (rest, s) := plainAll bases depth ((bases.lookup a).getD []) s
      (a :: rest, { s with known := (a, a :: rest) :: s.known })

def plainAll (bases : List (α × List α)) : Nat → List α → Search α → List α × Search α
  | _, [], s => ([], s)
  | depth, a :: rest, s =>
    if a ∈ s.seen then plainAll bases depth rest s
    else
      let (line, s) := plain bases depth a s
      let (lines, s) := plainAll bases depth rest s
      (a :: line ++ lines, s)

end

/-- How deep a search can go: every class on the way is a new one, and all but the last have
bases. -/
def depth (bases : List (α × List α)) : Nat :=
  bases.length + 1

def mergedLines (bases : List (α × List α)) (known : List (α × List α)) :
    List α → Option (List (α × List α))
  | [] => some []
  | a :: rest =>
    match merged bases (depth bases) a { known } with
    | none => none
    | some (line, s) => (mergedLines bases s.known rest).map ((a, line) :: ·)

def plainLines (bases : List (α × List α)) (known : List (α × List α)) :
    List α → List (α × List α)
  | [] => []
  | a :: rest =>
    let (line, s) := plain bases (depth bases) a { known }
    (a, line) :: plainLines bases s.known rest

def lines (bases : List (α × List α)) : List (α × List α) :=
  let classes := bases.map Prod.fst
  (mergedLines bases [] classes).getD (plainLines bases [] classes)

end Docsmith.Calls.Lineage
