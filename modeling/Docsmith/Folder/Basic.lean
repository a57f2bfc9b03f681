/-! # Folders

A folder is the list of its entries in the order of their names. The entries of an inner folder
stand with it, so recursion over the one inductive type is structural. -/

namespace Docsmith

/-- A text, or bytes that are not a text in UTF-8. -/
inductive Content where
  | text (text : String)
  | bytes (bytes : List UInt8)
deriving Repr, DecidableEq

def Content.isText : Content → Bool
  | .text s => !s.isEmpty
  | .bytes _ => false

/-- The entries of a folder, in the order of their names. -/
inductive Folder where
  | empty
  | file (name : String) (content : Content) (rest : Folder)
  | folder (name : String) (inner rest : Folder)
deriving Repr, DecidableEq

inductive Entry where
  | file (content : Content)
  | folder (inner : Folder)
deriving Repr, DecidableEq

namespace Entry

def isFolder : Entry → Bool
  | .folder _ => true
  | .file _ => false

end Entry

namespace Folder

def find? : Folder → String → Option Entry
  | .empty, _ => none
  | .file n c rest, name => if n = name then some (.file c) else rest.find? name
  | .folder n inner rest, name => if n = name then some (.folder inner) else rest.find? name

def names : Folder → List String
  | .empty => []
  | .file n _ rest => n :: rest.names
  | .folder n _ rest => n :: rest.names

def entries : Folder → List (String × Entry)
  | .empty => []
  | .file n c rest => (n, .file c) :: rest.entries
  | .folder n inner rest => (n, .folder inner) :: rest.entries

def cons (name : String) (entry : Entry) (rest : Folder) : Folder :=
  match entry with
  | .file c => .file name c rest
  | .folder inner => .folder name inner rest

def put (name : String) (entry : Entry) : Folder → Folder
  | .empty => cons name entry .empty
  | .file n c rest =>
    if n = name then cons name entry rest
    else if name < n then cons name entry (.file n c rest)
    else .file n c (rest.put name entry)
  | .folder n inner rest =>
    if n = name then cons name entry rest
    else if name < n then cons name entry (.folder n inner rest)
    else .folder n inner (rest.put name entry)

def erase (name : String) : Folder → Folder
  | .empty => .empty
  | .file n c rest => if n = name then rest else .file n c (rest.erase name)
  | .folder n inner rest => if n = name then rest else .folder n inner (rest.erase name)

/-- The entry at the end of a path of names; the folder itself at the empty path. -/
def get? (f : Folder) : List String → Option Entry
  | [] => some (.folder f)
  | name :: path =>
    match f.find? name with
    | some (.folder inner) => inner.get? path
    | some (.file c) => if path.isEmpty then some (.file c) else none
    | none => none

def sub (f : Folder) (name : String) : Folder :=
  match f.find? name with
  | some (.folder inner) => inner
  | _ => .empty

def set (f : Folder) (entry : Entry) : List String → Folder
  | [] =>
    match entry with
    | .folder inner => inner
    | .file _ => f
  | [name] => f.put name entry
  | name :: path => f.put name (.folder ((f.sub name).set entry path))

def remove (f : Folder) : List String → Folder
  | [] => .empty
  | [name] => f.erase name
  | name :: path =>
    match f.find? name with
    | some (.folder inner) => f.put name (.folder (inner.remove path))
    | _ => f

/-- Every file with its path below `path`, and every folder without entries. -/
def leaves : Folder → List String → List (List String × Option Content)
  | .empty, _ => []
  | .file n c rest, path => (path ++ [n], some c) :: rest.leaves path
  | .folder n .empty rest, path => (path ++ [n], none) :: rest.leaves path
  | .folder n inner rest, path => inner.leaves (path ++ [n]) ++ rest.leaves path

def merge (f : Folder) : Folder → Folder
  | .empty => f
  | .file n c rest => (f.put n (.file c)).merge rest
  | .folder n inner rest => (f.put n (.folder ((f.sub n).merge inner))).merge rest

@[simp] theorem find?_cons (name : String) (entry : Entry) (rest : Folder) (x : String) :
    (cons name entry rest).find? x = if name = x then some entry else rest.find? x := by
  cases entry <;> simp [cons, find?]

theorem find?_put_self (f : Folder) (name : String) (entry : Entry) :
    (f.put name entry).find? name = some entry := by
  induction f with
  | empty => simp [put]
  | file n c rest ih =>
    simp only [put]
    split
    · simp
    · split
      · simp
      · simp_all [find?]
  | folder n inner rest _ ih =>
    simp only [put]
    split
    · simp
    · split
      · simp
      · simp_all [find?]

theorem find?_put_of_ne (f : Folder) {name x : String} (entry : Entry) (h : x ≠ name) :
    (f.put name entry).find? x = f.find? x := by
  induction f with
  | empty => simp [put, find?, Ne.symm h]
  | file n c rest ih =>
    simp only [put]
    split
    · subst_vars; simp [find?, Ne.symm h]
    · split
      · simp [find?, Ne.symm h]
      · simp [find?, ih]
  | folder n inner rest _ ih =>
    simp only [put]
    split
    · subst_vars; simp [find?, Ne.symm h]
    · split
      · simp [find?, Ne.symm h]
      · simp [find?, ih]

end Folder

end Docsmith
