import Docsmith.Chars.LetterTable
import Docsmith.Chars.Tabs
import Docsmith.Facts.Drawing
import Docsmith.Facts.Words
import Docsmith.Fault

/-! # Reading drawings

A drawing is a list of statements in braces: nodes with attributes, edges between nodes or groups,
groups, and settings. The first kind of statement that fits counts. Nodes and edges of groups do not
belong to the drawing. -/

namespace Docsmith.Facts

open Words

structure Sketch where
  nodes : List (String × Option String) := []
  edges : List (String × String) := []
deriving Repr, DecidableEq

namespace Sketch

abbrev Attributes := List (String × Option String)

/-- A reader: nothing if the text does not fit, a fault if what fits cannot be. -/
abbrev Scan := OptionT (Except Fault)

def fits {α : Type} (result : Option α) : Scan α :=
  OptionT.mk (.ok result)

/-! ## Attributes -/

/-- The gaps around an equals sign or a comma that is not there are passed all the same. -/
def attribute? (fuel : Nat) (cs : List Char) : Option ((String × Option String) × List Char) := do
  let (name, rest) ← word? fuel cs
  let (value, rest) := match (mark? fuel '=' rest).bind (value? fuel) with
    | some (value, rest) => (some value, rest)
    | none => (none, dropGap fuel rest)
  some ((name, value), passMark fuel ',' rest)

def attributes : Nat → List Char → Attributes × List Char
  | 0, cs => ([], cs)
  | fuel + 1, cs =>
    match attribute? fuel cs with
    | some (a, rest) =>
      let (more, rest) := attributes fuel rest
      (a :: more, rest)
    | none => ([], cs)

def brackets? (fuel : Nat) (cs : List Char) : Option (Attributes × List Char) := do
  let (found, rest) := attributes fuel (dropComments fuel (← mark? fuel '[' cs))
  some (found, ← mark? fuel ']' rest)

/-- As many pairs of brackets as there are, at most `fuel`; empty ones count for nothing. -/
def bracketList : Nat → List Char → List Attributes × List Char
  | 0, cs => ([], cs)
  | fuel + 1, cs =>
    match brackets? fuel cs with
    | some (found, rest) =>
      let (more, rest) := bracketList fuel rest
      (if found.isEmpty then more else found :: more, rest)
    | none => ([], cs)

def valueOf (name : String) (as : Attributes) : Option String :=
  (as.reverse.lookup name).join

def clashes (names : List String) (as : Attributes) : Bool :=
  as.any (fun (name, _) => names.contains name) || (valueOf "obj_dict" as).isSome

/-! ## Points -/

inductive Point where
  | node (name : String)
  | askew
  | group
deriving Repr, DecidableEq

/-- As many places of a node as there are, each after a colon, at most `fuel`. -/
def places : Nat → List Char → List String × List Char
  | 0, cs => ([], cs)
  | fuel + 1, cs =>
    match (mark? fuel ':' cs).bind (word? fuel) with
    | some (place, rest) =>
      let (more, rest) := places fuel rest
      (place :: more, rest)
    | none => ([], cs)

def direction? (fuel : Nat) (cs : List Char) : Option (List Char) := do
  some (← word? fuel (← mark? fuel '@' cs)).2

def coordinates? (fuel : Nat) (cs : List Char) : Option (List Char) := do
  let (_, rest) ← word? fuel (← mark? fuel '(' (← mark? fuel ':' cs))
  let (_, rest) ← word? fuel (← mark? fuel ',' rest)
  mark? fuel ')' rest

def dock? (fuel : Nat) (cs : List Char) : Option (Option String × List Char) :=
  match places fuel cs with
  | ([], _) =>
    match coordinates? fuel cs with
    | some rest => some (none, (direction? fuel rest).getD (dropGap fuel rest))
    | none => (direction? fuel cs).map fun rest =>
      match places fuel rest with
      | ([], _) => (none, (coordinates? fuel rest).getD rest)
      | (_, rest) => (none, rest)
  | (found, rest) =>
    match direction? fuel rest with
    | some rest => some (none, rest)
    | none => some (some (Text.join "" (found.map (":" ++ ·))), dropGap fuel rest)

/-! ## Statements -/

inductive Statement where
  | node (name : String) (label : Option String)
  | edges (pairs : List (String × String))
  | clash
  | other
deriving Repr, DecidableEq

/-- The attributes count only if there is one pair of brackets and no place. -/
def nodeStatement (name : String) (hasPort : Bool) (lists : List Attributes) :
    Except Fault Statement :=
  match hasPort, lists with
  | true, [] => .error .badStatement
  | false, [as] =>
    if clashes ["self", "name"] as then .error .badStatement
    else .ok (.node (nameOf name) (valueOf "label" as))
  | _, _ => .ok (.node (nameOf name) none)

def settingStatement (name : String) (lists : List Attributes) : Statement :=
  let as := lists.headD []
  if clashes ["self", "name"] as then .clash else .node name (valueOf "label" as)

/-- Statements that are complete. Only now a setting that cannot be is found out. -/
def complete (ss : List Statement) : Except Fault (List Statement) :=
  if ss.contains .clash then .error .badStatement else .ok ss

/-- The edges of a chain after the point `last`. Groups are passed over. -/
def chain (last : Point) : List Point → Except Fault (List (String × String))
  | [] => .ok []
  | .group :: rest => chain last rest
  | .askew :: _ => .error .badDock
  | .node b :: rest => do
    let more ← chain (.node b) rest
    match last with
    | .node a => return (nameOf a, nameOf b) :: more
    | _ => return more

/-- The edges of a statement. A chain whose second point is a group ends there. -/
def edgeStatement (first : Point) (rest : List Point) (lists : List Attributes) :
    Except Fault Statement := do
  if first == .askew then throw .badDock
  let pairs ← match rest with
    | .group :: _ => pure []
    | _ => chain first rest
  if clashes ["self", "src", "dst"] lists.flatten then throw .badStatement
  return .edges pairs

def node? (fuel : Nat) (cs : List Char) :
    Option ((String × Option (Option String)) × List Char) := do
  let (name, rest) ← word? fuel cs
  match dock? fuel rest with
  | some (dock, rest) => some ((name, some dock), rest)
  | none => some ((name, none), rest)

def arrow? (fuel : Nat) (cs : List Char) : Option (List Char) :=
  match dropGap fuel cs with
  | '-' :: '-' :: rest => some rest
  | '-' :: '>' :: rest => some rest
  | _ => none

def assignment? (fuel : Nat) (cs : List Char) : Option (List Char) := do
  let (_, rest) ← word? fuel cs
  some (← value? fuel (← mark? fuel '=' rest)).2

def setting? (fuel : Nat) (cs : List Char) : Option ((String × List Attributes) × List Char) := do
  let (name, rest) ← ["graph", "node", "edge"].findSome? fun k => (keyword? fuel k cs).map (k, ·)
  let (_, _) ← brackets? fuel rest
  let (lists, rest) := bracketList fuel rest
  some ((name, lists), rest)

mutual

def braces : Nat → List Char → Scan (List Statement × List Char)
  | 0, _ => fits none
  | fuel + 1, cs => do
    let rest ← fits (mark? fuel '\x7b' cs)
    let (found, rest) ← statements fuel (dropGap fuel rest)
    let rest ← fits (mark? fuel '\x7d' rest)
    return (← complete found, passMark fuel ';' rest)

def group : Nat → List Char → Scan (List Char)
  | 0, _ => fits none
  | fuel + 1, cs => do
    let rest ← fits (keyword? fuel "subgraph" cs)
    let rest := match word? fuel rest with
      | some (_, rest) => rest
      | none => rest
    return (← braces fuel rest).2

def point : Nat → List Char → Scan (Point × List Char)
  | 0, _ => fits none
  | fuel + 1, cs =>
    (do return (.group, ← group fuel cs))
    <|> (do return (.group, (← braces fuel cs).2))
    <|> (do
      let ((name, dock), rest) ← fits (node? fuel cs)
      match dock with
      | some none => return (.askew, rest)
      | some (some place) => return (.node (name ++ place), rest)
      | none => return (.node name, rest))

def points : Nat → List Char → Scan (List Point × List Char)
  | 0, cs => return ([], cs)
  | fuel + 1, cs =>
    match arrow? fuel cs with
    | none => return ([], cs)
    | some rest =>
      (do
        let (p, rest) ← point fuel (dropComments fuel rest)
        let (more, rest) ← points fuel rest
        return (p :: more, rest))
      <|> return ([], cs)

def edge : Nat → List Char → Scan (Statement × List Char)
  | 0, _ => fits none
  | fuel + 1, cs => do
    let (first, rest) ← point fuel (dropGap fuel cs)
    let (more, rest) ← points fuel rest
    if more.isEmpty then fits none
    else
      let (lists, rest) := bracketList fuel (dropGap fuel rest)
      return (← edgeStatement first more lists, rest)

def statement : Nat → List Char → Scan (Statement × List Char)
  | 0, _ => fits none
  | fuel + 1, cs =>
    (do return (.other, ← fits (assignment? fuel cs)))
    <|> edge fuel cs
    <|> (do
      let ((name, lists), rest) ← fits (setting? fuel cs)
      return (settingStatement name lists, rest))
    <|> (do return (.other, ← group fuel cs))
    <|> (do return (.other, (← braces fuel cs).2))
    <|> (do
      let ((name, dock), rest) ← fits (node? fuel cs)
      let (lists, rest) := bracketList fuel (dropGap fuel rest)
      return (← nodeStatement name dock.isSome lists, passMark fuel ';' rest))

def statements : Nat → List Char → Scan (List Statement × List Char)
  | 0, cs => return ([], cs)
  | fuel + 1, cs =>
    (do
      let (s, rest) ← statement fuel (dropComments fuel cs)
      let (more, rest) ← statements fuel (passMark fuel ';' rest)
      return (s :: more, rest))
    <|> return ([], cs)

end

/-! ## Whole texts -/

def ofStatements (ss : List Statement) : Sketch where
  nodes := ss.filterMap fun
    | .node name label => some (name, label)
    | _ => none
  edges := ss.flatMap fun
    | .edges pairs => pairs
    | _ => []

inductive Lack where
  | keyword
  | brace
deriving Repr, DecidableEq

def Lack.message : Lack → String
  | .keyword => ""
  | .brace => "Expected graph_stmt"

/-- What stands at a place, for messages: a word of at most 16 characters, else one character. -/
def found (text left : List Char) : String :=
  if text.isEmpty then ""
  else
    match left with
    | [] => ", found end of text"
    | c :: rest =>
      let word := (c :: rest).takeWhile Chars.isLetter
      let shown := if word.isEmpty then [c] else word.take 16
      ", found " ++ Text.replace "\\\\" "\\" (Text.quoted (.ofList shown))

/-- What is printed about a text that is no drawing: the line in question, a mark below it and what
is missing. -/
def complaint (text : List Char) (lack : Lack) (left : List Char) : String :=
  let before := text.take (text.length - left.length)
  let p := Place.after before
  let line := (before.reverse.takeWhile (· != '\n')).reverse ++ left.takeWhile (· != '\n')
  String.ofList line ++ "\n" ++ Text.times (p.column - 1) " " ++ "^\n" ++ lack.message
    ++ found text left ++ "  (at char " ++ toString p.offset ++ "), (line:" ++ toString p.line
    ++ ", col:" ++ toString p.column ++ ")\n"

/-- How many drawings a text counts for, its statements and the rest; else what is missing, and
where. A name that is a keyword for a drawing counts as one more. -/
def graph (fuel : Nat) (cs : List Char) :
    Except Fault (Except (Lack × List Char) ((Nat × List Statement) × List Char)) := do
  let rest := (keyword? fuel "strict" cs).getD (dropGap fuel cs)
  match (keyword? fuel "graph" rest).or (keyword? fuel "digraph" rest) with
  | none => return .error (.keyword, dropGap fuel rest)
  | some rest =>
    let (name, rest) := match word? fuel rest with
      | some (name, rest) => (name, rest)
      | none => ("", rest)
    match mark? fuel '\x7b' rest with
    | none => return .error (.brace, dropGap fuel rest)
    | some rest =>
      match ← (statements fuel (dropGap fuel rest)).run with
      | none => return .error (.brace, dropGap fuel rest)
      | some (found, rest) =>
        match mark? fuel '\x7d' rest with
        | none => return .error (.brace, dropGap fuel rest)
        | some rest =>
          let count := if name == "graph" || name == "digraph" then 2 else 1
          return .ok ((count, found), passMark fuel ';' rest)

def moreGraphs : Nat → List Char → Except Fault (Nat × List Statement)
  | 0, _ => .ok (0, [])
  | fuel + 1, cs => do
    match ← graph fuel cs with
    | .error _ => return (0, [])
    | .ok ((count, found), rest) =>
      let (others, more) ← moreGraphs fuel rest
      return (count + others, found ++ more)

def read (text : String) : Except Fault (Except String Sketch) := do
  let cs := Chars.expandTabs text.toList
  let fuel := 8 * (cs.length + 1)
  match ← graph fuel cs with
  | .error (lack, left) => return .error (complaint cs lack left)
  | .ok ((count, found), rest) =>
    let (others, more) ← moreGraphs fuel rest
    let _ ← complete (found ++ more)
    if count + others ≠ 1 then throw .severalDrawings
    return .ok (ofStatements found)

def drawing (s : Sketch) : Except Fault Drawing := do
  let nodes ← s.nodes.mapM fun
    | (name, some label) => .ok (name, label)
    | (_, none) => .error (.lacks "NoneType" "strip")
  return { nodes, edges := s.edges }

end Sketch

end Docsmith.Facts
