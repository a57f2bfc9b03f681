import Docsmith.Base64
import Docsmith.Folder.Files
import Docsmith.Json.Access

/-! # Folders in JSON

A file is its text, or its bytes in base 64; a folder is an object from paths to files, in which
only folders without files have a path of their own, with a slash at its end. -/

namespace Docsmith.Exchange

def contentOfBytes (bytes : List UInt8) : Content :=
  match String.fromUTF8? ⟨bytes.toArray⟩ with
  | some s => .text s
  | none => .bytes bytes

def contentOf (v : Json) : Content :=
  match v with
  | .str s => .text s
  | v => contentOfBytes (Base64.decode (v.getStr "b64"))

def content : Content → Json
  | .text s => .str s
  | .bytes bs => .obj [("b64", .str (Base64.encode bs))]

def folderOf (v : Json) : Folder :=
  .ofFiles ((v.getFields "files").map fun (p, c) => (p, contentOf c)) (v.getStrs "dirs")

def tree (f : Folder) : Json :=
  .obj (f.listing.map fun (p, c) =>
    match c with
    | some c => (p, content c)
    | none => (p ++ "/", .null))

def treeAt (f : Folder) (path : String) : Except Fault Json := do
  Folder.checkSpelling path
  match f.lookup? path with
  | some (.folder inner) => return tree inner
  | _ => return .obj []

end Docsmith.Exchange
