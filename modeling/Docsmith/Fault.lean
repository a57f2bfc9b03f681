import Docsmith.Json.Problem
import Docsmith.Text
import Docsmith.Utf8

/-! # What can go wrong

One type for every cause of failure in the library, and the wording of each cause in
`Fault.message`. -/

namespace Docsmith

inductive Fault where
  | unknownLanguage (name : String)
  | cyclicTasks
  | nothingToQuote
  | noSuchFile (path : String)
  | isAFolder (path : String)
  | notAFolder (path : String)
  | fileInTheWay (path : String)
  | nameTooLong (path : String)
  | zeroInPath
  | tooManyLevels
  | halfCharacters (first last unit : Nat)
  | notText (flaw : Utf8.Flaw)
  | unknownName (name : String)
  | brokenInvariant
  | noSpace
  | noSpaceToSearch
  | outsideScopes
  | unresolvedSuper (message : String)
  | unknownBlock (name : String)
  | wrongSyntax (expected found : String)
  | wrongMode (expected found : String)
  | unannounced (file : String) (files : List String)
  | badSyntax
  | endless
  | noTitle
  | noDescription
  | noSection (header : String)
  | unsetList
  | noDocument
  | noSuchPosition
  | noReply
  | timedOut
  | noText
  | noContent
  | notCallable
  | badJson (problem : Json.Problem)
  | nothingToEncode
  | unsupported
  | noSuchOperation (name : String)
  | unsetSetting (name : String)
  | badSetting (name value : String)
  | lacks (kind operation : String)
  | notIndexable (kind : String)
  | notAssignable (kind : String)
  | unhashable (kind : String)
  | noSuchKey (position : Nat)
  | notAPath (kind : String)
  | emptyText
  | emptyCommand
  | noOutput
  | stopped (code : Nat)
  | notReadable
  | notAFile
  | alreadyThere
  | noClock
  | unfitRecord
  | notAParameter
  | badDrawing
  | badStatement
  | badDock
  | severalDrawings
  | notInGraph (name : String)
  | noMakefile
  | noLanguage
  | unsupportedLanguage (name : String)
  | notCopied
  | notAnArchive
  | denied (text : String)
  | nothingToReport
  | badReport
  | undelivered (reason : Option String)
  | notRemovable (path : String)
  | reported (reason : String)
deriving Repr, DecidableEq

namespace Fault

def message : Fault → String
  | .unknownLanguage name => "Invalid language: " ++ name
  | .cyclicTasks => "Graph is not acyclic"
  | .nothingToQuote => "reduce() of empty iterable with no initial value"
  | .noSuchFile path => "[Errno 2] No such file or directory: " ++ Text.quoted path
  | .isAFolder path => "[Errno 21] Is a directory: " ++ Text.quoted path
  | .notAFolder path => "[Errno 20] Not a directory: " ++ Text.quoted path
  | .fileInTheWay path => "[Errno 17] File exists: " ++ Text.quoted path
  | .nameTooLong path => "[Errno 36] File name too long: " ++ Text.quoted path
  | .zeroInPath => "embedded null byte"
  | .tooManyLevels => "maximum recursion depth exceeded"
  | .halfCharacters first last unit =>
    if first == last then
      "'utf-8' codec can't encode character '\\u" ++ .ofList (Chars.hexDigits 4 unit)
        ++ "' in position " ++ toString first ++ ": surrogates not allowed"
    else
      "'utf-8' codec can't encode characters in position " ++ toString first ++ "-"
        ++ toString last ++ ": surrogates not allowed"
  | .notText flaw => flaw.message
  | .unknownName name => Text.quoted name
  | .brokenInvariant => ""
  | .noSpace => "argument of type 'NoneType' is not iterable"
  | .noSpaceToSearch => "'NoneType' object has no attribute 'strip'"
  | .outsideScopes => "list index out of range"
  | .unresolvedSuper text => text
  | .unknownBlock name => "Unknown scope '" ++ name ++ "'"
  | .wrongSyntax expected found =>
    "Expected ast." ++ expected ++ "; got <class 'ast." ++ found ++ "'>"
  | .wrongMode expected found =>
    "Expected a " ++ expected ++ " context, got <class 'ast." ++ found ++ "'>"
  | .unannounced file files =>
    "Filename '" ++ file ++ "' has not been preprocessed (was not given to __init__, which got ["
      ++ Text.join ", " (files.map Text.quoted) ++ "])"
  | .badSyntax => "invalid syntax"
  | .endless => "maximum recursion depth exceeded"
  | .noTitle => "'NoneType' object has no attribute 'group'"
  | .noDescription => "Input should be a valid string"
  | .noSection _ => "'NoneType' object has no attribute 'splitlines'"
  | .unsetList => "'NoneType' object is not iterable"
  | .noDocument => "'NoneType' object has no attribute 'markdown'"
  | .noSuchPosition => "list index out of range"
  | .noReply => ""
  | .timedOut => ""
  | .noText => "can only concatenate str (not \"NoneType\") to str"
  | .noContent => "'NoneType' object has no attribute 'strip'"
  | .notCallable => "'NoneType' object is not callable"
  | .badJson problem => problem.message
  | .nothingToEncode => "need at least one array to concatenate"
  | .unsupported => ""
  | .noSuchOperation name => "object has no attribute " ++ Text.quoted name
  | .unsetSetting name =>
    name ++ " not found. Declare it as envvar or define a default value."
  | .badSetting _ value => Text.quoted value ++ " is not a valid value"
  | .lacks kind operation => "'" ++ kind ++ "' object has no attribute '" ++ operation ++ "'"
  | .notIndexable kind => "'" ++ kind ++ "' object is not subscriptable"
  | .notAssignable kind => "'" ++ kind ++ "' object does not support item assignment"
  | .unhashable kind => "unhashable type: '" ++ kind ++ "'"
  | .noSuchKey position => toString position
  | .notAPath kind => "expected str, bytes or os.PathLike object, not " ++ kind
  | .emptyText => "string index out of range"
  | .emptyCommand => "list index out of range"
  | .noOutput => "list assignment index out of range"
  | .stopped code => toString code
  | .notReadable => "'NoneType' object has no attribute 'read'"
  | .notAFile => "'NoneType' object does not support the context manager protocol"
  | .alreadyThere => "Destination path already exists"
  | .noClock => "name 'time' is not defined"
  | .unfitRecord => "got an unexpected keyword argument"
  | .notAParameter => "sequence item 0: expected str instance"
  | .badDrawing => "cannot unpack non-iterable NoneType object"
  | .badStatement => "argument after ** must be a mapping, not str"
  | .badDock => "not enough values to unpack (expected 2, got 1)"
  | .severalDrawings => "too many values to unpack (expected 1)"
  | .notInGraph name => "The node " ++ name ++ " is not in the digraph."
  | .noMakefile => "Makefile not found in root"
  | .noLanguage => "'str' object has no attribute 'markdown'"
  | .unsupportedLanguage name => name ++ " not supported"
  | .notCopied => "entries could not be copied"
  | .notAnArchive => "'NoneType' object has no attribute 'decompress'"
  | .denied text => text
  | .nothingToReport => "'NoneType' object has no attribute 'model_dump'"
  | .badReport => "a report lacks something that it needs"
  | .undelivered reason => "Request Failed, err=" ++ reason.getD "None"
  | .notRemovable path => "[Errno 22] Invalid argument: " ++ Text.quoted path
  | .reported reason => reason

end Fault

end Docsmith
