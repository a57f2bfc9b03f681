/-! # Association lists in order of insertion

Maps whose keys stay in the order in which they were first set. -/

namespace Docsmith.Assoc

variable {κ β : Type} [DecidableEq κ]

def get? (key : κ) : List (κ × β) → Option β
  | [] => none
  | (k, v) :: rest => if k = key then some v else get? key rest

def has (key : κ) (m : List (κ × β)) : Bool :=
  (get? key m).isSome

def set (key : κ) (value : β) : List (κ × β) → List (κ × β)
  | [] => [(key, value)]
  | (k, v) :: rest => if k = key then (k, value) :: rest else (k, v) :: set key value rest

def ofList (entries : List (κ × β)) : List (κ × β) :=
  entries.foldl (fun m (k, v) => set k v m) []

@[simp] theorem get?_nil (key : κ) : get? key ([] : List (κ × β)) = none := rfl

@[simp] theorem get?_set_self (key : κ) (value : β) (m : List (κ × β)) :
    get? key (set key value m) = some value := by
  induction m with
  | nil => simp [set, get?]
  | cons e rest ih =>
    obtain ⟨k, v⟩ := e
    by_cases h : k = key <;> simp [set, get?, h, ih]

theorem get?_set_of_ne {key other : κ} (value : β) (m : List (κ × β)) (h : other ≠ key) :
    get? other (set key value m) = get? other m := by
  induction m with
  | nil => simp [set, get?, Ne.symm h]
  | cons e rest ih =>
    obtain ⟨k, v⟩ := e
    by_cases hk : k = key
    · subst hk; simp [set, get?, Ne.symm h]
    · simp [set, get?, hk, ih]

end Docsmith.Assoc
