import Catchb.Config

/-! What of a configuration comes back from the file it is saved to. -/

namespace Catchb.Proofs.ConfigCycle
open Lib

section
variable {α : Type}

end

section
variable (old b : Bool)

end

/-- The values that are read are in their bounds, and the mode is one that has a word. -/
structure Accepted (c : Config) : Prop where
  count : SystemConfig.within 100 100 c.xSystem.ulCount = true
  interval : SystemConfig.within 10000 3600000 c.xSystem.ulInterval = true
  check : SystemConfig.within 10000 0x7FFFFFFF c.xAnalyzer.ulIPCheckInterval = true
  rate : SystemConfig.within 0 100 c.xAnalyzer.ulErrorRate = true
  mode : c.xNotifier.xSyslog.xMode ≠ .none

/-- What a file that `c` was saved to makes of `d`: of some fields it says nothing. -/
def kept (d c : Config) : Config where
  pFileName := d.pFileName
  xSystem := { c.xSystem with ulUpdateInterval := d.xSystem.ulUpdateInterval }
  xSwitchModels := ⟨c.xSwitchModels.pPath, d.xSwitchModels.pList ++ c.xSwitchModels.pList⟩
  xDB := c.xDB
  xAnalyzer := { c.xAnalyzer with pIFName := d.xAnalyzer.pIFName }
  xNotifier :=
    ⟨c.xNotifier.xSyslog, { c.xNotifier.xSMTP with pSender := d.xNotifier.xSMTP.pSender }⟩
  xLogger := { d.xLogger with ulRetentionPeriod := c.xLogger.ulRetentionPeriod }
  xTrace := { d.xTrace with
    xLog := { c.xTrace.xLog with pFileName := d.xTrace.xLog.pFileName }
    xInfo := { c.xTrace.xInfo with pFileName := d.xTrace.xInfo.pFileName }
    xWarn := { c.xTrace.xWarn with pFileName := d.xTrace.xWarn.pFileName }
    xError := { c.xTrace.xError with pFileName := d.xTrace.xError.pFileName } }
  xServer := c.xServer
  xClient := c.xClient

/-- A configuration that comes from the file has its name. -/
def named (pFileName : Text) (c : Config) : Config := { c with pFileName := Field.copy _ pFileName }

end Catchb.Proofs.ConfigCycle
