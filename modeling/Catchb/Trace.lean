import Catchb.Config
import Catchb.Lib.Generations

/-! A line of the trace, the arrays that it is put together in, and the files that it is written to. -/

namespace Catchb
open Lib

inductive TraceLevel
  | console
  | log
  | info
  | warn
  | error

/-- `FTM_TRACE_LEVEL_string`. -/
def TraceLevel.string : TraceLevel → Text
  | console => "CNSL".toList
  | log => "LOG".toList
  | info => "INFO".toList
  | warn => "WARN".toList
  | error => "ERROR".toList

def TraceConfig.type (c : TraceConfig) : TraceLevel → TraceTypeConfig
  | .console => c.xConsole
  | .log => c.xLog
  | .info => c.xInfo
  | .warn => c.xWarn
  | .error => c.xError

namespace Trace

/-- The arrays of `FTM_TRACE_Out`. -/
inductive Target
  | pOutputFormat
  | pBuffer
  | pTimeString
  | pNumberString
  | pFileName
  | pCommand
  deriving DecidableEq

def Target.size : Target → Nat
  | pOutputFormat => 256
  | pBuffer => 2048
  | pTimeString => 64
  | pNumberString => 64
  | pFileName => 769
  | pCommand => 128

/-- Bytes that are written into an array, from an index of it on. -/
structure Store where
  target : Target
  first : Nat
  bytes : Text

/-- `sprintf` and `strcpy` write a text and its NUL. -/
def Store.text (target : Target) (t : Text) : Store := ⟨target, 0, t ++ ['\x00']⟩

def Store.memset (target : Target) : Store := ⟨target, 0, List.replicate target.size '\x00'⟩

/-- What a call finds: the traced modules, the time as it is printed, the size of the file, and what
a formatting leaves of a text when it fails. -/
structure Run where
  xModuleName : ModuleNames
  pTime : Field 63
  ulFileSize : UInt32
  failed : Text → Text

structure Call where
  xLevel : TraceLevel
  bEnable : Bool
  pFunctionName : Option Text
  ulLine : UInt32
  pModuleName : Option Text
  pMessage : Text

/-- The length of the line so far, as it is counted, and what has been written. -/
structure Line where
  ulLen : UInt32
  stores : List Store

/-- `snprintf` returns the length of all of the text, or -1 if that is no `int`. -/
def printed (t : Text) : UInt32 :=
  if t.length ≤ 0x7FFFFFFF then .ofNat t.length else 0xFFFFFFFF

/-- `ulLen += snprintf(&pBuffer[ulLen], sizeof(pBuffer) - ulLen, ...)`. A `size_t` has 32 bits
too. -/
def Line.snprintf (run : Run) (line : Line) (t : Text) : Line :=
  let room := 2048 - line.ulLen
  let shown := if t.length ≤ 0x7FFFFFFF then t else run.failed t
  let bytes := if room = 0 then [] else shown.take (room.toNat - 1) ++ ['\x00']
  ⟨line.ulLen + printed t, line.stores ++ [⟨.pBuffer, line.ulLen.toNat, bytes⟩]⟩

/-- A part of the line, and what is written elsewhere before it is printed. -/
structure Piece where
  before : List Store
  text : Text

def Line.add (run : Run) (line : Line) (piece : Piece) : Line :=
  { line with stores := line.stores ++ piece.before }.snprintf run piece.text

end Trace

namespace TraceFieldConfig
open Trace

/-- A dynamic field is as wide as its longest value so far. -/
def grow (f : TraceFieldConfig) (value : Text) : TraceFieldConfig :=
  let ulStringLen := UInt32.ofNat value.length
  if f.bDynamic ∧ f.ulSize < ulStringLen then { f with ulSize := ulStringLen } else f

/-- What the field is after a line. -/
def after (f : TraceFieldConfig) (value : Text) : TraceFieldConfig :=
  if f.bEnable then f.grow value else f

def pad (n : Nat) (t : Text) : Text := List.replicate (n - t.length) ' ' ++ t

/-- `[%s] `, or `[%n.ns] `. -/
def format (f : TraceFieldConfig) : Text :=
  if f.ulSize = 0 then "[%s] ".toList
  else "[%".toList ++ decimal f.ulSize.toNat ++ ".".toList ++ decimal f.ulSize.toNat ++
    "s] ".toList

def print (f : TraceFieldConfig) (value : Text) : Text :=
  let shown := if f.ulSize = 0 then value else pad f.ulSize.toNat (value.take f.ulSize.toNat)
  "[".toList ++ shown ++ "] ".toList

/-- `[%u] `, or `[%nu] `. -/
def lineFormat (f : TraceFieldConfig) : Text :=
  if f.ulSize = 0 then "[%u] ".toList
  else "[%".toList ++ decimal f.ulSize.toNat ++ "u] ".toList

def linePrint (f : TraceFieldConfig) (ulLine : UInt32) : Text :=
  "[".toList ++ pad f.ulSize.toNat (decimal ulLine.toNat) ++ "] ".toList

/-- A field, unless it is left out. -/
def piece (f : TraceFieldConfig) (before : List Store) (value : Text) : List Piece :=
  if f.bEnable then
    [⟨before ++ [.text .pOutputFormat (f.grow value).format], (f.grow value).print value⟩]
  else []

def linePiece (f : TraceFieldConfig) (ulLine : UInt32) : List Piece :=
  if f.bEnable then
    let number := decimal ulLine.toNat
    let before := if f.bDynamic then [Store.text .pNumberString number] else []
    [⟨before ++ [.text .pOutputFormat (f.grow number).lineFormat],
      (f.grow number).linePrint ulLine⟩]
  else []

end TraceFieldConfig

namespace Trace

/-- The fields and the message, in the order of the line. -/
def pieces (run : Run) (pConfig : TraceTypeConfig) (call : Call) (pModuleName : Text) :
    List Piece :=
  pConfig.xTime.piece [.text .pTimeString run.pTime.val] run.pTime.val ++
  pConfig.xFunction.piece [] (call.pFunctionName.getD []) ++
  pConfig.xLine.linePiece call.ulLine ++
  pConfig.xModule.piece [] pModuleName ++
  pConfig.xLevel.piece [] call.xLevel.string ++
  [⟨[], call.pMessage⟩]

/-- What the sizes of the fields are after a line. -/
def after (run : Run) (pConfig : TraceTypeConfig) (call : Call) (pModuleName : Text) :
    TraceTypeConfig :=
  { pConfig with
    xTime := pConfig.xTime.after run.pTime.val
    xFunction := pConfig.xFunction.after (call.pFunctionName.getD [])
    xLine := pConfig.xLine.after (decimal call.ulLine.toNat)
    xModule := pConfig.xModule.after pModuleName
    xLevel := pConfig.xLevel.after call.xLevel.string }

/-- The line feed and the terminator are stored wherever the count is. -/
def Line.finish (line : Line) : List Store :=
  line.stores ++ [⟨.pBuffer, line.ulLen.toNat, ['\n']⟩,
    ⟨.pBuffer, (line.ulLen + 1).toNat, ['\x00']⟩]

def move (pFileName : Text) (i : Nat) : Text :=
  "mv -f ".toList ++ pFileName ++ ".".toList ++ decimal (i - 1) ++ " ".toList ++ pFileName ++
    ".".toList ++ decimal i ++ " > /dev/null 2>&1 ".toList

def moveLast (pFileName : Text) : Text :=
  "mv -f ".toList ++ pFileName ++ " ".toList ++ pFileName ++ ".0 > /dev/null 2>&1 ".toList

/-- `%s/%s`. -/
def fileName (c : TraceConfig) (pConfig : TraceTypeConfig) : Text :=
  c.pPath.val ++ "/".toList ++ pConfig.pFileName.val

/-- The file of the line, which is moved away when it has grown to the configured size. -/
def rotate (run : Run) (c : TraceConfig) (pConfig : TraceTypeConfig) : List Store :=
  if pConfig.pFileName.val = "console".toList then []
  else
    let pFileName := fileName c pConfig
    let commands := if run.ulFileSize ≥ c.ulFileSize then
        [10, 9, 8, 7, 6, 5, 4, 3, 2, 1].map (move pFileName) ++ [moveLast pFileName]
      else []
    .text .pFileName pFileName :: commands.map (Store.text .pCommand)

/-- The configuration of the call's level and its module, if a line is printed. -/
def prints (run : Run) (c : TraceConfig) (call : Call) : Option Text :=
  if !call.bEnable || !(c.type call.xLevel).bEnable then none
  else call.pModuleName.filter (fun pModuleName =>
    run.xModuleName.val.any (fun name => name.val == pModuleName))

/-- `FTM_TRACE_Out`: what it writes, and what it leaves of the level's configuration. -/
def out (run : Run) (c : TraceConfig) (call : Call) : List Store × TraceTypeConfig :=
  let pConfig := c.type call.xLevel
  match prints run c call with
  | none => ([], pConfig)
  | some pModuleName =>
    let start : Line := ⟨0, [.memset .pOutputFormat, .memset .pBuffer]⟩
    let line := (pieces run pConfig call pModuleName).foldl (Line.add run) start
    (line.finish ++ rotate run c pConfig, after run pConfig call pModuleName)

end Trace

/-- A name that the shell leaves as it is, of a length that the command buffer holds twice. -/
structure TraceFileName where
  name : Text
  plain : ∀ c ∈ name, c.isAlphanum ∨ c ∈ ['/', '.', '-', '_']
  short : name.length ≤ 48

abbrev TraceFiles := Generations.Files Text Char

/-- What a call writes to a file. `ulFileSize` is the configured size. The rest is what its commands
and its opening of the file come to: whether the file is opened for its size, whether the command
that moves a file away is run, and whether the file is opened for the line. -/
structure TraceWrite where
  pFileName : TraceFileName
  ulFileSize : UInt32
  pBuffer : Text
  sized : Bool
  ran : Text → Bool
  opened : Bool

namespace TraceFiles
open Generations (move append)

def numbered (pFileName : Text) (i : Nat) : Text := pFileName ++ '.' :: decimal i

/-- Opening a file for its size creates it. -/
def getFileSize (opened : Bool) (files : TraceFiles) (pFileName : Text) : UInt32 × TraceFiles :=
  if opened then (.ofNat ((files pFileName).getD []).length, append pFileName [] files)
  else (0, files)

def writeToFile (opened : Bool) (files : TraceFiles) (pFileName pBuffer : Text) : TraceFiles :=
  if opened then append pFileName pBuffer files else files

def moveFile (ran : Text → Bool) (source target : Text) (files : TraceFiles) : TraceFiles :=
  if ran source then move source target files else files

/-- The commands that move the files on, one after the other. -/
def rotate (ran : Text → Bool) (files : TraceFiles) (pFileName : Text) : TraceFiles :=
  let files := [10, 9, 8, 7, 6, 5, 4, 3, 2, 1].foldl
    (fun files i => moveFile ran (numbered pFileName (i - 1)) (numbered pFileName i) files) files
  moveFile ran pFileName (numbered pFileName 0) files

/-- The end of `FTM_TRACE_Out`, for a level whose file is not the console. -/
def write (files : TraceFiles) (w : TraceWrite) : TraceFiles :=
  let (ulFileSize, files) := getFileSize w.sized files w.pFileName.name
  let files := if ulFileSize ≥ w.ulFileSize then rotate w.ran files w.pFileName.name else files
  writeToFile w.opened files w.pFileName.name w.pBuffer

end TraceFiles
end Catchb
