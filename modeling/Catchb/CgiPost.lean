import Catchb.CgiSystem

/-! The commands of a web request, by what the program was called and what the body names, and the
tables of them as they stand in memory. -/

namespace Catchb.Cgi
open Lib

/-- What the handlers find where the program runs: how a time's string is read, what the variable of
a policy holds, where files are left, and the time. -/
structure Site where
  setString : SetString
  xPolicy : AcPolicy
  pTmpPath : Text
  xTime : Int

/-- A body that is not there, or is no JSON, has no root. A file comes without a body. -/
structure PostRequest where
  pReqRoot : Option Json
  pData : Option Text
  nLength : Int

structure PostCommand where
  pName : Text
  fService : Json → Cgi Unit

def pCCTVPostCmds (site : Site) : List PostCommand :=
  [⟨"add".toList, cctvAdd⟩,
   ⟨"del".toList, cctvDel⟩,
   ⟨"get".toList, cctvGet⟩,
   ⟨"set".toList, cctvSet⟩,
   ⟨"list".toList, cctvGetIDList⟩,
   ⟨"policy".toList, fun pReqRoot => cctvSetPolicy pReqRoot site.xPolicy⟩,
   ⟨"reset".toList, cctvReset⟩]

def pSwitchPostCmds : List PostCommand :=
  [⟨"add".toList, switchAdd⟩,
   ⟨"del".toList, switchDel⟩,
   ⟨"get".toList, switchGet⟩,
   ⟨"set".toList, switchSet⟩,
   ⟨"list".toList, switchGetIDList⟩,
   ⟨"model_list".toList, switchGetModelList⟩]

def pLogPostCmds (site : Site) : List PostCommand :=
  [⟨"info".toList, logGetInfo⟩,
   ⟨"count".toList, logGetCount2 site.setString⟩,
   ⟨"get".toList, logGetList site.setString⟩,
   ⟨"del".toList, logDel⟩]

def pAlarmPostCmds : List PostCommand :=
  [⟨"add".toList, alarmAdd⟩,
   ⟨"del".toList, alarmDel⟩,
   ⟨"get".toList, alarmGet⟩,
   ⟨"set".toList, alarmSet⟩,
   ⟨"list".toList, alarmGetList⟩,
   ⟨"info".toList, alarmGetInfo⟩,
   ⟨"get_config".toList, alarmGetConfig⟩,
   ⟨"set_config".toList, alarmSetConfig⟩]

def pSSIDPostCmds : List PostCommand :=
  [⟨"get".toList, ssidCreate⟩,
   ⟨"del".toList, ssidDel⟩,
   ⟨"verify".toList, ssidVerify⟩]

def pSyslogPostCmds : List PostCommand :=
  [⟨"add".toList, syslogAdd⟩,
   ⟨"del".toList, syslogDel⟩,
   ⟨"get".toList, syslogGet⟩,
   ⟨"set".toList, syslogSet⟩,
   ⟨"list".toList, syslogGetIDList⟩]

def pSysPostCmds (site : Site) : List PostCommand :=
  [⟨"info".toList, sysGetInfo⟩,
   ⟨"get_config".toList, sysGetInfoConfig⟩,
   ⟨"set_config".toList, sysSetInfoConfig⟩,
   ⟨"check_passwd".toList, sysCheckPasswd⟩,
   ⟨"passwd".toList, sysSetPasswd⟩,
   ⟨"set_time".toList, sysSetTime site.setString⟩,
   ⟨"reboot".toList, sysReboot⟩,
   ⟨"shutdown".toList, sysShutdown⟩]

def pStatusPostCmds (site : Site) : List PostCommand :=
  [⟨"info".toList, statusGetInfo⟩,
   ⟨"get".toList, statusGetList⟩,
   ⟨"del".toList, statusDel site.setString⟩]

/-- The table has no last entry. What a name finds behind its end is left out. -/
def pNetPostCmds : List PostCommand :=
  [⟨"get".toList, netGet⟩,
   ⟨"set".toList, netSet⟩]

/-- What the program can be called by. -/
inductive Command
  | cctv
  | switch
  | log
  | alarm
  | ssid
  | status
  | sys
  | syslog
  | upload
  | net

/-- The table of a command, unless it is a file's upload. -/
def Command.pCmds (site : Site) : Command → List PostCommand
  | cctv => pCCTVPostCmds site
  | switch => pSwitchPostCmds
  | log => pLogPostCmds site
  | alarm => pAlarmPostCmds
  | ssid => pSSIDPostCmds
  | status => pStatusPostCmds site
  | sys => pSysPostCmds site
  | syslog => pSyslogPostCmds
  | upload => []
  | net => pNetPostCmds

/-- The entry that a body names. -/
def named (pCmds : List PostCommand) (pReqRoot : Json) : Option PostCommand :=
  let cmd := pReqRoot.getString "cmd".toList 33 false []
  if cmd.xRet = retOK then pCmds.find? (fun pCmd => strcasecmp cmd.value pCmd.pName) else none

/-- `FTM_CGI_POST_service`. -/
def postService (pCmds : List PostCommand) (pReqRoot : Option Json) : Cgi Unit := do
  match pReqRoot with
  | none => check retInvalidArguments
  | some pReqRoot =>
    let cmd := pReqRoot.getString "cmd".toList 33 false []
    check cmd.xRet
    match pCmds.find? (fun pCmd => strcasecmp cmd.value pCmd.pName) with
    | none => check retInvalidArguments
    | some pCmd => pCmd.fService pReqRoot

/-- The service of an entry of `pPostCmds`. -/
def Command.fService (site : Site) (c : Command) (pReq : PostRequest) : Cgi Unit :=
  match c with
  | upload => Cgi.upload site.pTmpPath site.xTime pReq.pData pReq.nLength
  | c => postService (c.pCmds site) pReq.pReqRoot

def pPostCmds : List (Text × Command) :=
  [("cctv".toList, .cctv),
   ("switch".toList, .switch),
   ("log".toList, .log),
   ("alarm".toList, .alarm),
   ("ssid".toList, .ssid),
   ("status".toList, .status),
   ("sys".toList, .sys),
   ("syslog".toList, .syslog),
   ("upload".toList, .upload),
   ("net".toList, .net)]

/-- The entry of the name that the program is called by. -/
def called (pName : Text) : Option Command :=
  (pPostCmds.find? (fun pCmd => strcasecmp pCmd.1 pName)).map Prod.snd

def main (site : Site) (pName : Text) (pReq : PostRequest) : Cgi Unit :=
  match called pName with
  | none => Program.done ()
  | some c => c.fService site pReq

inductive PostTable
  | cctv
  | switch
  | log
  | alarm
  | ssid
  | syslog
  | sys
  | status
  | net
  deriving DecidableEq

namespace PostTable

def cmds (site : Site) : PostTable → List PostCommand
  | cctv => pCCTVPostCmds site
  | switch => pSwitchPostCmds
  | log => pLogPostCmds site
  | alarm => pAlarmPostCmds
  | ssid => pSSIDPostCmds
  | syslog => pSyslogPostCmds
  | sys => pSysPostCmds site
  | status => pStatusPostCmds site
  | net => pNetPostCmds

/-- The entries of the array. `none` is the entry `{ NULL, NULL }`, which one table does without. -/
def entries (site : Site) : PostTable → List (Option PostCommand)
  | net => pNetPostCmds.map some
  | t => (t.cmds site).map some ++ [none]

end PostTable

/-- How the search for a command ends. What it finds behind the array, `outside`, is undefined. -/
inductive Searched
  | found (pCmd : PostCommand)
  | missing
  | outside

/-- The loop over the entries of a table. -/
def searchCmd (pCmdName : Text) : List (Option PostCommand) → Searched
  | [] => .outside
  | none :: _ => .missing
  | some pCmd :: entries =>
    if strcasecmp pCmdName pCmd.pName then .found pCmd else searchCmd pCmdName entries

/-- `FTM_CGI_POST_service` on a table in memory. `none` is undefined. -/
def postServiceIn (entries : List (Option PostCommand)) (pReqRoot : Option Json) :
    Option (Cgi Unit) :=
  match pReqRoot with
  | none => some (check retInvalidArguments)
  | some pReqRoot =>
    let cmd := pReqRoot.getString "cmd".toList 33 false []
    if cmd.xRet = retOK then
      match searchCmd cmd.value entries with
      | .found pCmd => some (pCmd.fService pReqRoot)
      | .missing => some (check retInvalidArguments)
      | .outside => none
    else some (check cmd.xRet)

end Catchb.Cgi
