import Docsmith.Build.Command
import Docsmith.Json.Reader
import Docsmith.Session.World

/-! # The dump script

A compile database becomes a shell script that dumps the syntax tree of every source file, and the
list of the dumps. -/

namespace Docsmith.Build

/-- Puts a backslash before every double quote; the second replacement takes it back where there was
one. -/
def escapeQuotes (s : String) : String :=
  Text.replace "\\\\\"" "\\\"" (Text.replace "\"" "\\\"" s)

def Command.dump (c : Command) : String :=
  dumpPath c.folder c.file

def Command.lines (here : String) (c : Command) : List String :=
  let source := Path.absolute here (Path.join c.folder c.file)
  ["cd " ++ c.folder,
   escapeQuotes (Text.join " " c.words) ++ " && (",
   "  echo \"[+] succ: " ++ source ++ "\"",
   ") || (",
   "  echo \"[-] failed: " ++ source ++ "\"",
   "  kill -9 0",
   ")",
   "\n"]

def script (here : String) (cs : List Command) : String :=
  Text.join "\n" (cs.flatMap (·.lines here))

def dumpList (cs : List Command) : String :=
  Text.join "\n" (cs.map Command.dump)

def formatHelp : String :=
  "[-] compile_commands.json format error!\n"
    ++ "[-] expected json format below:\n"
    ++ "\n// in ubuntu 18.04, bear 2.3.11\n[\n  \x7b\n    \"directory\": \"xxx\",\n"
    ++ "    \"arguments\": [\n      \"xxx\",\n      \"xxx\",\n      ...\n    ],\n"
    ++ "    \"file\": \"xxx\"\n  \x7d,\n  \x7b\n    ...\n  \x7d,\n  ...\n]\n\nOR\n\n"
    ++ "// in ubuntu 16.04, bear 2.1.5\n[\n  \x7b\n    \"directory\": \"xxx\",\n"
    ++ "    \"command\": \"xxx\",\n    \"file\": \"xxx\"\n  \x7d,\n  \x7b\n    ...\n  \x7d,\n"
    ++ "  ...\n]\n\n"

def writeScript (folder : String) : Run Unit := do
  let text ← inFolder (Files.read (folder ++ "/compile_commands.json"))
  match Json.parse text with
  | .error problem => throw (.badJson problem)
  | .ok (.arr entries) =>
    let cs ← Run.ofExcept (commands entries)
    inFolder (Files.write (folder ++ "/buildast.sh") (script (← get).here cs))
    inFolder (Files.write (folder ++ "/astList.txt") (dumpList cs))
  | .ok _ =>
    Run.print formatHelp
    throw (.stopped 1)

def writeScriptHere : Run Unit := do
  if ← inFolder (Files.pathExists "compile_commands.json") then writeScript "."
  else
    Run.print "[-] compile_commands.json not exist!\n"
    throw (.stopped 1)

end Docsmith.Build
