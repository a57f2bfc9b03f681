import Docsmith.Calls.Tree
import Docsmith.Json.Basic

/-! # Reading syntax trees

A parsed file comes as JSON: nodes with a class and fields, and the table of its blocks. Nodes are
read from the leaves up, so that a node can look into the pieces of its fields. -/

namespace Docsmith.Calls

inductive Piece where
  | none
  | word (text : String)
  | number (value : Int)
  | list (items : List Piece)
  | node (kind : String) (fields : List (String × Piece)) (tree : Tree)
deriving Inhabited

namespace Piece

def tree : Piece → Tree
  | .node _ _ t => t
  | _ => .group []

def nodeTrees : List Piece → List Tree
  | [] => []
  | .node _ _ t :: rest => t :: nodeTrees rest
  | _ :: rest => nodeTrees rest

def children : Piece → List Tree
  | .node _ _ t => [t]
  | .list items => nodeTrees items
  | _ => []

def items : Piece → List Piece
  | .list items => items
  | _ => []

def word? : Piece → Option String
  | .word s => some s
  | _ => Option.none

def field (name : String) : Piece → Piece
  | .node _ fields _ => (fields.lookup name).getD .none
  | _ => .none

def isNone : Piece → Bool
  | .none => true
  | _ => false

def elements (p : Piece) : List Tree :=
  match p with
  | .node "Tuple" _ _ => (p.field "elts").children
  | .node "List" _ _ => (p.field "elts").children
  | p => [p.tree]

end Piece

def Mode.ofWord : Option String → Mode
  | some "Store" => .store
  | some "Del" => .delete
  | _ => .load

def paramNames (p : Piece) : List String :=
  p.items.filterMap fun a => (a.field "arg").word?

def Params.ofPiece (args : Piece) : Params where
  leading := paramNames (args.field "posonlyargs")
  ordinary := paramNames (args.field "args")
  others := ((args.field "vararg").field "arg").word?
  named := paramNames (args.field "kwonlyargs")
  further := ((args.field "kwarg").field "arg").word?

/-- The defaults given by position belong to the last ordinary parameters. -/
def defaultBindings (args : Piece) : List Tree :=
  let ordinary := (args.field "args").items
  let defaults := (args.field "defaults").items
  let last := ordinary.drop (ordinary.length - defaults.length)
  let named := (args.field "kwonlyargs").items.zip (args.field "kw_defaults").items
  (last.zip defaults).map (fun (a, v) => .bind [a.tree] v.elements) ++
    (named.filter (!·.2.isNone)).map fun (a, v) => .bind [a.tree] v.elements

def aliases (names : Piece) : List Alias :=
  names.items.map fun a =>
    { name := (a.field "name").word?.getD "", asName := (a.field "asname").word? }

def furtherLoops (generators : List Piece) : List Tree :=
  generators.flatMap fun g =>
    .bind (g.field "target").elements (g.field "iter").elements :: (g.field "ifs").children

def entries (items : Piece) : List Tree :=
  items.items.flatMap fun i =>
    let context := (i.field "context_expr").elements
    let vars := i.field "optional_vars"
    match vars with
    | .none => [.enter context]
    | .node "Name" _ t => [.enter context, .bind [t] context]
    | vars => [.enter context, vars.tree]

def assemble (kind : String) (fields : List (String × Piece)) (span : Span) : Tree :=
  let get (name : String) : Piece := (fields.lookup name).getD .none
  let text (name : String) : String := (get name).word?.getD ""
  match kind with
  | "Name" => .name (text "id") (.ofWord (get "ctx").word?)
  | "Attribute" => .attribute (get "value").tree (text "attr") (.ofWord (get "ctx").word?)
  | "Constant" => .constant (text "type")
  | "Call" => .call (get "func").tree (get "args").children
      ((get "keywords").items.map fun k => (k.field "value").tree)
  | "Assign" =>
    let values := (get "value").elements
    .group ((get "targets").items.map fun t => .bind t.elements values)
  | "AugAssign" => .bind (get "target").elements (get "value").elements
  | "AnnAssign" =>
    match get "value" with
    | .none => .declare (get "target").tree
    | value => .bind (get "target").elements value.elements
  | "For" | "AsyncFor" =>
    .group (.bind (get "target").elements (get "iter").elements ::
      ((get "body").children ++ (get "orelse").children))
  | "With" => .group (entries (get "items") ++ (get "body").children)
  | "FunctionDef" | "AsyncFunctionDef" =>
    .function
      { name := text "name", isAsync := kind == "AsyncFunctionDef",
        params := .ofPiece (get "args"), span }
      (get "decorator_list").children (defaultBindings (get "args")) (get "body").children
  | "Lambda" => .lambda (.ofPiece (get "args")) (defaultBindings (get "args")) (get "body").tree
  | "GeneratorExp" =>
    match (get "generators").items with
    | [] => .group []
    | first :: rest =>
      .generator (first.field "iter").elements (first.field "target").elements
        (first.field "ifs").children (furtherLoops rest) (get "elt").tree
  | "ClassDef" => .classDef (text "name") (get "bases").children (get "body").children
  | "Import" => .importModules (aliases (get "names"))
  | "ImportFrom" =>
    let level := match get "level" with
      | .number n => n.toNat
      | _ => 0
    .importFrom (get "module").word? level (aliases (get "names"))
  | _ => .group (fields.flatMap fun (_, p) => p.children)

def Span.ofJson : Option Json → Span
  | some (.arr [.int a, .int b, .int c, .int d]) => ⟨a.toNat, b.toNat, c.toNat, d.toNat⟩
  | _ => ⟨0, 0, 0, 0⟩

def pairs (fields : Piece) : List (String × Piece) :=
  fields.items.filterMap fun
    | .list [.word name, value] => some (name, value)
    | _ => none

def nodeOf (fields : List (String × Piece)) (span : Span) : Piece :=
  match fields.lookup "t" with
  | some (.word kind) =>
    let fs := pairs ((fields.lookup "f").getD .none)
    .node kind fs (assemble kind fs span)
  | _ => .none

mutual

def Piece.ofJson : Json → Piece
  | .null => .none
  | .bool _ => .none
  | .int n => .number n
  | .real _ => .none
  | .str s => .word s
  | .arr vs => .list (piecesOf vs)
  | .obj fs => nodeOf (fieldsOf fs) (.ofJson (fs.lookup "pos"))

def piecesOf : List Json → List Piece
  | [] => []
  | v :: vs => .ofJson v :: piecesOf vs

def fieldsOf : List (String × Json) → List (String × Piece)
  | [] => []
  | (n, v) :: fs => (n, .ofJson v) :: fieldsOf fs

end

mutual

def Block.ofJson : Json → Block
  | .obj fs =>
    let name := ((fs.lookup "name").bind Json.str?).getD ""
    let names := (((fs.lookup "ids").bind Json.items?).getD []).filterMap Json.str?
    .mk name names (innerBlocks fs)
  | _ => .mk "" [] []

def innerBlocks : List (String × Json) → List Block
  | [] => []
  | (n, v) :: fs =>
    match v with
    | .arr vs => if n == "children" then blocksOf vs else innerBlocks fs
    | _ => innerBlocks fs

def blocksOf : List Json → List Block
  | [] => []
  | v :: vs => .ofJson v :: blocksOf vs

end

/-- Reads a parsed file; a file that could not be parsed has neither part. -/
def Source.ofJson? (sym ast : Json) : Option Source :=
  match sym, ast with
  | .null, _ => none
  | _, .null => none
  | sym, ast => some { block := .ofJson sym, body := ((Piece.ofJson ast).field "body").children }

end Docsmith.Calls
