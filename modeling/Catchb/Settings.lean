import Catchb.Config
import Catchb.Cgi

/-! Where the daemon keeps its configuration while it runs, and the requests that change it. -/

namespace Catchb
open Lib

/-- The parts of the configuration, each with the component that holds it. -/
structure Settings where
  pFileName : Field 767
  xSystem : SystemConfig
  xSwitchModels : SwitchModels
  xDB : DBConfig
  xAnalyzer : AnalyzerConfig
  xNotifier : NotifierConfig
  xServer : ServerConfig
  xLogger : LoggerConfig
  xTrace : TraceConfig
  deriving DecidableEq

namespace Settings

/-- `FTM_CATCHB_create`. -/
def create : Settings where
  pFileName := Field.empty _
  xSystem := .default
  xSwitchModels := ⟨Field.empty _, []⟩
  xDB := .default
  xAnalyzer := .default
  xNotifier := .default
  xServer := .default
  xLogger := .default
  xTrace := .default

/-- The models come behind those that are there. -/
def setConfig (pCatchB : Settings) (pConfig : Config) : Settings where
  pFileName := pConfig.pFileName
  xSystem := pConfig.xSystem
  xSwitchModels :=
    ⟨pConfig.xSwitchModels.pPath, pCatchB.xSwitchModels.pList ++ pConfig.xSwitchModels.pList⟩
  xDB := pConfig.xDB
  xAnalyzer := pConfig.xAnalyzer
  xNotifier := pConfig.xNotifier
  xServer := pConfig.xServer
  xLogger := pConfig.xLogger
  xTrace := pConfig.xTrace

/-- The client's section is left as it is. -/
def getConfig (pCatchB : Settings) (pConfig : Config) : Config where
  pFileName := pCatchB.pFileName
  xSystem := pCatchB.xSystem
  xSwitchModels :=
    ⟨pCatchB.xSwitchModels.pPath, pConfig.xSwitchModels.pList ++ pCatchB.xSwitchModels.pList⟩
  xDB := pCatchB.xDB
  xAnalyzer := pCatchB.xAnalyzer
  xNotifier := pCatchB.xNotifier
  xLogger := pCatchB.xLogger
  xTrace := pCatchB.xTrace
  xServer := pCatchB.xServer
  xClient := pConfig.xClient

def setSMTP (pCatchB : Settings) (pConfig : NotifierSmtpConfig) : Settings :=
  { pCatchB with xNotifier := { pCatchB.xNotifier with xSMTP := pConfig } }

def setStatisticsUpdateInterval (pCatchB : Settings) (ulInterval : UInt32) : Settings :=
  if SystemConfig.within 10000 3600000 ulInterval then
    { pCatchB with xSystem := { pCatchB.xSystem with ulInterval } }
  else pCatchB

end Settings

/-- The address of a list in memory that nothing has cleared. -/
inductive ListPointer
  | null
  | list (models : List SwitchModelInfo)
  | wild

/-- The models that are there before others come behind them; at the address 0 a list is created. -/
def ListPointer.models : ListPointer → Option (List SwitchModelInfo)
  | .null => some []
  | .list models => some models
  | .wild => none

/-- Of a configuration on the stack, what `getConfig` does not overwrite. -/
structure StackConfig where
  pList : ListPointer
  xClient : ClientConfig

namespace StackConfig

/-- `memset`. -/
def cleared : StackConfig := ⟨.null, ⟨Field.empty _, 0, false, Field.empty _⟩⟩

/-- `none` is undefined behaviour. -/
def getConfig (xConfig : StackConfig) (pCatchB : Settings) : Option Config :=
  xConfig.pList.models.map (fun pList => pCatchB.getConfig { Config.default with
    xSwitchModels := ⟨Field.empty _, pList⟩
    xClient := xConfig.xClient })

end StackConfig

/-- The settings with the names that the process traces, and a file that is written. -/
structure SavedSettings where
  settings : Settings
  pFileName : Field 767
  file : Json

namespace Settings

/-- `FTM_CONFIG_save(&xConfig, NULL)`. -/
def save (pCatchB : Settings) (names : ModuleNames) (xConfig : StackConfig) :
    Option SavedSettings :=
  (xConfig.getConfig pCatchB).map (fun c => ⟨pCatchB, c.pFileName, c.save names⟩)

/-- `FTM_SERVER_SMTP_set`. -/
def smtpSet (pCatchB : Settings) (names : ModuleNames) (xSMTP : NotifierSmtpConfig) :
    Option SavedSettings :=
  (pCatchB.setSMTP xSMTP).save names .cleared

/-- `FTM_SERVER_STAT_setInfo`. The count goes to the list of statistics alone, and nothing clears
the configuration on the stack. -/
def statSetInfo (pCatchB : Settings) (names : ModuleNames) (xInfo : SystemInfo)
    (xConfig : StackConfig) : Option SavedSettings :=
  let pCatchB := if xInfo.ulFields &&& 1 ≠ 0 then
    pCatchB.setStatisticsUpdateInterval xInfo.ulInterval else pCatchB
  pCatchB.save names xConfig

end Settings

inductive SettingsRequest
  | smtpSet (xSMTP : NotifierSmtpConfig)
  | statSetInfo (xInfo : SystemInfo) (xConfig : StackConfig)

def Settings.handle (pCatchB : Settings) (names : ModuleNames) :
    SettingsRequest → Option SavedSettings
  | .smtpSet xSMTP => pCatchB.smtpSet names xSMTP
  | .statSetInfo xInfo xConfig => pCatchB.statSetInfo names xInfo xConfig

end Catchb
