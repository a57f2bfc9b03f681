import Docsmith.Definition
import Docsmith.Json.Access

/-! # Definitions in JSON -/

namespace Docsmith.Exchange

/-! ## Writing -/

def graphFields (g : Digraph String) : List (String × Json) :=
  [("nodes", .ofStrs g.nodes), ("edges", .arr (g.edgesByTail.map fun (a, b) => .ofStrs [a, b]))]

def field (f : Field) : Json :=
  .obj [("name", .str f.name), ("symbol", .str f.symbol), ("access", .str f.access)]

def param : Param → Json
  | .typed f => field f
  | .text s => .str s

def routine (r : Routine) : Json :=
  .obj [("symbol", .str r.symbol), ("code", .str r.code), ("filename", .str r.file),
    ("visible", .bool r.visible), ("access", .str r.access), ("params", .arr (r.params.map param))]

def record (r : Record) : Json :=
  .obj [("symbol", .str r.symbol), ("code", .str r.code), ("filename", .str r.file),
    ("visible", .bool r.visible), ("fields", .arr (r.fields.map field)),
    ("functions", .ofStrs (r.methods.map Routine.symbol))]

/-! ## Reading -/

def graphOf (v : Json) : Digraph String :=
  Digraph.build (v.getStrs "nodes") ((v.getArr "edges").map Json.pair)

def fieldOf (v : Json) : Field :=
  { name := v.getStr "name", symbol := v.getStr "symbol",
    access := (v.getStr? "access").getD "public" }

def paramOf (v : Json) : Param :=
  match v with
  | .str s => .text s
  | v => .typed (fieldOf v)

def routineOf (v : Json) : Routine :=
  { symbol := v.getStr "symbol", code := v.getStr "code", file := v.getStr "filename",
    visible := v.getBool "visible" true, access := (v.getStr? "access").getD "public",
    params := (v.getArr "params").map paramOf }

def recordOf (routines : List Routine) (v : Json) : Record :=
  { symbol := v.getStr "symbol", code := v.getStr "code", file := v.getStr "filename",
    visible := v.getBool "visible" true, fields := (v.getArr "fields").map fieldOf,
    methods := (v.getStrs "functions").filterMap fun s => routines.find? (·.symbol == s) }

def catalogOf {δ : Type} (symbol : δ → String) (ds : List δ) (edges : List Json) : Catalog δ :=
  (edges.map Json.pair).foldl Catalog.addEdge (ds.foldl (fun c d => c.add (symbol d) d) {})

end Docsmith.Exchange
