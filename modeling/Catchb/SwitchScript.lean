import Catchb.Json

/-! Loading a switch's script: the converter is run, and its output is read as JSON. -/

namespace Catchb
open Lib

/-- A line of a script. The members for a script's branches are not set here. -/
structure SwsCmd where
  pPrompt : Field 63
  pInput : Field 255
  deriving DecidableEq

def sectionName (xPolicy : AcPolicy) : Text :=
  match xPolicy with
  | .allow => "allow".toList
  | .deny => "deny".toList

/-- What the call asks for. -/
structure ScriptRequest where
  pFileName : Text
  xPolicy : AcPolicy
  pUserID : Option UserName
  pPasswd : Option UserName
  ulIndex : UInt32
  pLocalIP : Text
  pTargetIP : Text

/-- The command line, as far as its buffer holds it. -/
def ScriptRequest.command (request : ScriptRequest) : Text :=
  let assign (name : String) (value : Option Text) : Text :=
    (value.map (fun t => name.toList ++ t ++ " ".toList)).getD []
  (assign "_USER_ID=" (request.pUserID.map Subtype.val) ++
    assign "_PASSWD=" (request.pPasswd.map Subtype.val) ++
    "_IDX=".toList ++ decimal request.ulIndex.toBitVec.toInt ++
    " _TARGET=".toList ++ request.pTargetIP ++ " _LOCAL=".toList ++ request.pLocalIP ++
    " acl.sh ".toList ++ request.pFileName).take 254

/-- What the system does for the call. `ulFileLen` is the length of a file that opens, `pData` and
`pLines` whether there is memory for the text and for the lines, and `beyond` what stands behind the
text's buffer. -/
structure ScriptLoadRun where
  ulFileLen : Option UInt32
  pData : Bool
  popen : Text → Option Text
  beyond : Text
  parse : Text → Option Json
  pLines : Bool

/-- What the call allocates. -/
inductive ScriptBlock
  | data
  | root
  | lines
  deriving DecidableEq

/-- What the call returns, what `*ppLines` and `*pulLines` are set to, the blocks that are not
freed, and whether a stream that is closed is closed again. -/
structure ScriptOutcome where
  xRet : Ret
  pLines : Option (List SwsCmd)
  held : List ScriptBlock
  reclosed : Bool

namespace ScriptLoadRun

def cstring (t : Text) : Text := t.takeWhile (· ≠ '\x00')

/-- The buffer has the length of the file and 1024 bytes more, or there is none. -/
def room (ulFileLen : UInt32) : Nat := if ulFileLen > 0 then (ulFileLen + 1024).toNat else 0

/-- A string up to the end of the buffer or, where that is full, beyond. -/
def text (run : ScriptLoadRun) (ulFileLen : UInt32) (output : Text) : Text :=
  if output.length < room ulFileLen then cstring output
  else cstring (output.take (room ulFileLen) ++ run.beyond)

def copyLine (pLine : Json) : Option SwsCmd :=
  match pLine.getObjectItem "prompt".toList, pLine.getObjectItem "command".toList with
  | some (.string pPrompt), some (.string pCommand) =>
    some ⟨Field.copy 63 pPrompt, Field.copy 255 pCommand⟩
  | _, _ => none

/-- The copying loop, `none` where it ends at a line that is no object of two strings. -/
def copyLines : List Json → Option (List SwsCmd)
  | [] => some []
  | pLine :: rest =>
    match copyLine pLine with
    | none => none
    | some line => (copyLines rest).map (line :: ·)

/-- The common end frees the text, the tree and, where the result is not OK, the lines. -/
def finished (xRet : Ret) (pLines : Option (List SwsCmd)) (blocks : List ScriptBlock)
    (reclosed : Bool) : ScriptOutcome :=
  ⟨xRet, pLines, if xRet = .ok then blocks.filter (· = .lines) else [], reclosed⟩

/-- The result is still OK where the section is not as it should be. -/
def loadRoot (run : ScriptLoadRun) (xPolicy : AcPolicy) (pRoot : Json) : ScriptOutcome :=
  match pRoot.getObjectItem (sectionName xPolicy) with
  | some (.array items) =>
    if !run.pLines then finished .notEnoughMemory none [.data, .root] false
    else
      match copyLines items with
      | none => finished .ok none [.data, .root, .lines] false
      | some lines => finished .ok (some lines) [.data, .root, .lines] false
  | _ => finished .ok none [.data, .root] false

/-- The file is closed before its buffer is allocated, and again where that fails. -/
def load (run : ScriptLoadRun) (request : ScriptRequest) : ScriptOutcome :=
  match run.ulFileLen with
  | none => ⟨.configLoadFailed, none, [], false⟩
  | some ulFileLen =>
    if ulFileLen > 0 && !run.pData then finished .notEnoughMemory none [] true
    else
      match run.popen request.command with
      | none => finished .error none [.data] false
      | some output =>
        if output.take (room ulFileLen) = [] then finished .failedToReadFile none [.data] false
        else
          match run.parse (run.text ulFileLen output) with
          | none => finished .invalidJsonFormat none [.data] false
          | some pRoot => run.loadRoot request.xPolicy pRoot

end ScriptLoadRun
end Catchb
