import Catchb.Lib.Text
import Catchb.LinkedList
import Mathlib.Data.Char
import Mathlib.Data.List.Lex

/-! The shell: its table of commands, and how it splits a line. -/

namespace Catchb
open Lib

/-- The shell's own callbacks, and those of others at their addresses. -/
inductive ShellCallback
  | cmdHelp
  | cmdQuit
  | other (address : Ptr)
  deriving DecidableEq

structure ShellCmd where
  pString : Text
  function : ShellCallback
  pShortHelp : Text
  pHelp : Text
  pData : Ptr
  deriving DecidableEq

/-- A copy of a command in the memory that `FTM_MEM_malloc` gave for it. -/
structure CmdEntry where
  address : Ptr
  cmd : ShellCmd
  deriving DecidableEq

/-- The characters of C strings are unsigned bytes here. Only the sign counts. -/
def ShellCmd.strcmp (a b : Text) : Int := if a < b then -1 else if b < a then 1 else 0

/-- `allocated` are the addresses of commands that are not freed. -/
structure FtmShell where
  pCmdList : FtmList CmdEntry Text
  allocated : List Ptr

/-- A command to append, with what is answered to the request of memory for the command and
for the list's entry. -/
structure CmdRequest where
  pCmd : ShellCmd
  cmdAnswer : Ptr
  entryAnswer : Ptr

namespace FtmShell

def xDefaultCmds : List ShellCmd :=
  [⟨"help".toList, .cmdHelp, "Help command.".toList,
    "<COMMAND>\n\tHelp command.\nPARAMETERS:\n\tCOMMAND    Target command for help.".toList, 0⟩,
   ⟨"?".toList, .cmdHelp, "Help command.".toList,
    "<COMMAND>\n\tHelp command.\nPARAMETERS:\n\tCOMMAND    Target command for help.".toList, 0⟩,
   ⟨"quit".toList, .cmdQuit, "Quit program.".toList, "\n\tQuit program.".toList, 0⟩]

def seeker (pItem : CmdEntry) (pKey : Text) : Bool := ShellCmd.strcmp pItem.cmd.pString pKey == 0

def comparator (pItem1 pItem2 : CmdEntry) : Int :=
  ShellCmd.strcmp pItem1.cmd.pString pItem2.cmd.pString

/-- An answer that is no free address stands for `NULL`. -/
def malloc (pShell : FtmShell) (answer : Ptr) : Option Ptr :=
  if answer = 0 ∨ answer ∈ pShell.allocated then none else some answer

/-- The command of that name, if there is one, is removed and freed. -/
def removeExisting (pShell : FtmShell) (pString : Text) : Option FtmShell := do
  let (xRet, pExistCmd) ← pShell.pCmdList.get pString
  match xRet, pExistCmd with
  | .ok, some pExistCmd =>
    let (xRet, pCmdList) ← pShell.pCmdList.remove pExistCmd
    if xRet = .ok then
      some { pShell with pCmdList, allocated := pShell.allocated.erase pExistCmd.address }
    else some { pShell with pCmdList }
  | _, _ => some pShell

/-- A copy of the command goes to its place in the list. A copy that does not is freed. -/
def insertNew (pShell : FtmShell) (request : CmdRequest) : Option (Ret × FtmShell) :=
  match pShell.malloc request.cmdAnswer with
  | none => some (.notEnoughMemory, pShell)
  | some pNewCmd => do
    let (xRet, pCmdList) ← pShell.pCmdList.insert ⟨pNewCmd, request.pCmd⟩ .assending
      request.entryAnswer
    if xRet = .ok then
      some (xRet, { pShell with pCmdList, allocated := pNewCmd :: pShell.allocated })
    else some (xRet, { pShell with pCmdList })

/-- `none` is a loop that does not end. -/
def appendCmd (pShell : FtmShell) (request : CmdRequest) : Option (Ret × FtmShell) := do
  let pShell ← pShell.removeExisting request.pCmd.pString
  pShell.insertNew request

/-- Commands that cannot be appended are reported only. -/
def addCmds (pShell : FtmShell) : List CmdRequest → Option FtmShell
  | [] => some pShell
  | request :: requests => do
    let (_, pShell) ← pShell.appendCmd request
    pShell.addCmds requests

/-- A default command's copy is not freed where the list has no entry for it. -/
def addDefault (pShell : FtmShell) (request : CmdRequest) : Option FtmShell :=
  match pShell.malloc request.cmdAnswer with
  | none => some pShell
  | some pCmd => do
    let (_, pCmdList) ← pShell.pCmdList.insert ⟨pCmd, request.pCmd⟩ .assending request.entryAnswer
    some { pShell with pCmdList, allocated := pCmd :: pShell.allocated }

def addDefaults (pShell : FtmShell) : List CmdRequest → Option FtmShell
  | [] => some pShell
  | request :: requests => do
    let pShell ← pShell.addDefault request
    pShell.addDefaults requests

/-- `pList` is the memory that the list is created in, and `answers` what is answered for the
default commands. -/
def init (pList : FtmList CmdEntry Text) (answers : List (Ptr × Ptr)) (pCmds : List CmdRequest) :
    Option FtmShell := do
  let pCmdList := { pList.init with fSeeker := some seeker, fComparator := some comparator }
  let pShell ← addDefaults ⟨pCmdList, []⟩
    ((xDefaultCmds.zip answers).map (fun (pCmd, c, e) => ⟨pCmd, c, e⟩))
  pShell.addCmds pCmds

/-- The white space of `FTM_SHELL_parseLine`. -/
def isBlank (c : Char) : Bool := c ∈ ['\t', ' ', '\n', '\r']

/-- The C string at a position of a buffer. -/
def stringAt (line : Text) (i : Nat) : Text := (line.drop i).takeWhile (· ≠ '\x00')

def charAt (line : Text) (i : Nat) : Char := line.getD i '\x00'

/-- `strchr`, from a position on. -/
def strchr (line : Text) (c : Char) : Nat → Nat → Option Nat
  | 0, _ => none
  | n + 1, i =>
    if charAt line i = c then some i
    else if charAt line i = '\x00' then none
    else strchr line c n (i + 1)

/-- The loop to the end of a word. -/
def wordEnd (line : Text) : Nat → Nat → Nat
  | 0, i => i
  | n + 1, i =>
    if charAt line i = '\x00' ∨ isBlank (charAt line i) then i else wordEnd line n (i + 1)

/-- What is left of the line, where the arguments are in it, and `*pArgc` where it is set. -/
structure ParsedLine where
  xRet : Ret
  line : Text
  pArgv : List Nat
  pArgc : Option Nat

/-- The loop from `pLine` on. An argument is ended in place, by a NUL over the character behind
it. -/
def parseFrom (nMaxArgs : Int) : Nat → Text → Nat → List Nat → Option ParsedLine
  | 0, _, _, _ => none
  | n + 1, line, pLine, pArgv =>
    if charAt line pLine = '\x00' ∨ nMaxArgs ≤ pArgv.length then
      some ⟨.ok, line, pArgv, some pArgv.length⟩
    else if isBlank (charAt line pLine) then parseFrom nMaxArgs n line (pLine + 1) pArgv
    else if charAt line pLine = '"' then
      match strchr line '"' line.length (pLine + 1) with
      | none => some ⟨.invalidArguments, line, pArgv, none⟩
      | some pEnd =>
        parseFrom nMaxArgs n (line.set pEnd '\x00') (pEnd + 1) (pArgv ++ [pLine + 1])
    else
      let pEnd := wordEnd line line.length pLine
      if charAt line pEnd = '\x00' then parseFrom nMaxArgs n line pEnd (pArgv ++ [pLine])
      else parseFrom nMaxArgs n (line.set pEnd '\x00') (pEnd + 1) (pArgv ++ [pLine])

def parseLine (line : Text) (nMaxArgs : Int) : Option ParsedLine :=
  parseFrom nMaxArgs (line.length + 1) line 0 []

end FtmShell
end Catchb
