import Catchb.Config
import Catchb.Lib.DotLines

/-! The mail client, and the alarm that it sends. -/

namespace Catchb
open Lib

structure FtmAlarm where
  pName : Field 32
  pEmail : Field 128
  pMessage : Field 1024
  deriving DecidableEq

namespace Base64

def pEncodingTable : Text :=
  "ABCDEFGHIJKLMNOPQRSTUVWXYZabcdefghijklmnopqrstuvwxyz0123456789+/".toList

/-- Four characters for the three bytes of a value. -/
def digits (ulValue : Nat) : Text :=
  [18, 12, 6, 0].map (fun shift => pEncodingTable.getD (ulValue >>> shift % 64) 'A')

def encodeBytes : List UInt8 → Text
  | a :: b :: c :: rest => digits (a.toNat <<< 16 + b.toNat <<< 8 + c.toNat) ++ encodeBytes rest
  | [a, b] => (digits (a.toNat <<< 16 + b.toNat <<< 8)).take 3 ++ ['=']
  | [a] => (digits (a.toNat <<< 16)).take 2 ++ ['=', '=']
  | [] => []

def encode (pData : Text) (ulBuffLen : Nat) : Except Ret Text :=
  if ulBuffLen < 4 * ((pData.length + 2) / 3) then .error .bufferTooSmall
  else .ok (encodeBytes (pData.map (fun c => UInt8.ofNat c.toNat)))

end Base64

/-- What the client writes, in this order. The greeting is only waited for, and the server does not
answer the text of the mail. -/
inductive SmtpCommand
  | greeting
  | ehlo
  | auth
  | passwd
  | mail
  | rcpt
  | data
  | body
  | finish
  deriving DecidableEq

/-- What comes of a wait for the server: the data of one `recv`, or none where it fails. -/
inductive Poll
  | timeout
  | noInput
  | recv (data : Option Text)

/-- What the network makes of a command, and what the buffers of the stack hold before. -/
structure SmtpExchange where
  writes : Bool
  poll : Poll
  pBuff : Vector Char 256
  pTempBuff : Vector Char 2048

/-- `gethostbyname` finds the server. -/
structure Network where
  alloc : Bool
  socket : Bool
  exchange : SmtpCommand → SmtpExchange

structure Smtpc where
  pHostName : Field 256
  usPort : UInt16
  nCode : Int
  sent : List (SmtpCommand × Text)

namespace Smtpc

/-- `memcpy` of at most 256 bytes. The length -1 of a failed `recv` is more than that, unsigned. -/
def read (x : SmtpExchange) : Except Ret Text :=
  match x.poll with
  | .timeout => .error .timeout
  | .noInput => .error .error
  | .recv none => .ok (x.pTempBuff.toList.take 256)
  | .recv (some data) => .ok (data.take 256 ++ x.pBuff.toList.drop data.length)

/-- `FTM_SMTPC_CONNECTION_write`; of a text that is not written, no part is. -/
def write (net : Network) (command : SmtpCommand) (pData : Text) (pSMTPC : Smtpc) : Ret × Smtpc :=
  if (net.exchange command).writes then
    (.ok, { pSMTPC with sent := pSMTPC.sent ++ [(command, pData)] })
  else (.error, pSMTPC)

/-- `atoi` of the buffer. -/
def receive (net : Network) (command : SmtpCommand) (pSMTPC : Smtpc) : Ret × Smtpc :=
  match read (net.exchange command) with
  | .ok pBuff => (.ok, { pSMTPC with nCode := atol pBuff })
  | .error ret => (ret, pSMTPC)

/-- One step after another, up to the first that fails. -/
def andThen (r : Ret × Smtpc) (next : Smtpc → Ret × Smtpc) : Ret × Smtpc :=
  match r with
  | (.ok, pSMTPC) => next pSMTPC
  | failed => failed

def connect (net : Network) (pSMTPC : Smtpc) : Ret × Smtpc :=
  if net.socket then receive net .greeting pSMTPC else (.socketCreationFailed, pSMTPC)

def sendAndReceive (net : Network) (command : SmtpCommand) (pData : Text) (pSMTPC : Smtpc) :
    Ret × Smtpc :=
  andThen (write net command pData pSMTPC) (receive net command)

/-- The code that the client insists on. -/
def expect (nCode : Int) (pSMTPC : Smtpc) : Ret × Smtpc :=
  (if pSMTPC.nCode = nCode then .ok else .smtpcError, pSMTPC)

/-- The buffer is taken to have room for the name. -/
def sendGreeting (net : Network) (pSMTPC : Smtpc) : Ret × Smtpc :=
  let pBuff := "EHLO ".toList ++ pSMTPC.pHostName.val ++ "\r\n".toList
  andThen (sendAndReceive net .ehlo pBuff pSMTPC) (expect 250)

def sendAuth (net : Network) (pUserID pPasswd : Text) (pSMTPC : Smtpc) : Ret × Smtpc :=
  match Base64.encode pUserID 1024, Base64.encode pPasswd 1024 with
  | .ok pEncodedID, .ok pEncodedPW =>
    let pAuth := "AUTH LOGIN ".toList ++ pEncodedID ++ "\r\n".toList
    andThen (andThen (sendAndReceive net .auth pAuth pSMTPC) (expect 334)) (fun pSMTPC =>
      andThen (sendAndReceive net .passwd (pEncodedPW ++ "\r\n".toList) pSMTPC) (expect 235))
  | .error ret, _ => (ret, pSMTPC)
  | _, .error ret => (ret, pSMTPC)

def sendCmdAndArg (net : Network) (command : SmtpCommand) (pCmd pArg : Text) (pSMTPC : Smtpc) :
    Ret × Smtpc :=
  let pBuff := (pCmd ++ " ".toList ++ pArg ++ "\r\n".toList).take 1023
  sendAndReceive net command pBuff pSMTPC

def sendFrom (net : Network) (pFrom : Text) : Smtpc → Ret × Smtpc :=
  sendCmdAndArg net .mail "MAIL FROM:".toList pFrom

def sendTo (net : Network) (pTo : Text) : Smtpc → Ret × Smtpc :=
  sendCmdAndArg net .rcpt "RCPT TO:".toList pTo

def startBody (net : Network) : Smtpc → Ret × Smtpc :=
  sendAndReceive net .data "DATA\r\n".toList

def sendRawBody (net : Network) (pData : Text) : Smtpc → Ret × Smtpc := write net .body pData

def endBody (net : Network) : Smtpc → Ret × Smtpc :=
  sendAndReceive net .finish DotLines.ending

def sendMessage (net : Network) (pMessage : Text) (pSMTPC : Smtpc) : Ret × Smtpc :=
  andThen (andThen (startBody net pSMTPC) (sendRawBody net pMessage)) (endBody net)

end Smtpc

namespace Notifier
open Smtpc

/-- The body has room in its buffer. -/
def pBody (pDate : Field 63) (pSender : Field 32) (pAlarm : FtmAlarm) : Text :=
  "Date:".toList ++ pDate.val ++ "\r\n".toList ++
    ("From:<".toList ++ pSender.val ++ ">\r\n".toList) ++
    ("To:<".toList ++ pAlarm.pEmail.val ++ ">\r\n".toList) ++
    ("Subject:".toList ++ "ALARM!".toList ++ "\r\n\r\n".toList) ++
    (pAlarm.pMessage.val ++ "\r\n\r\n".toList)

/-- The result, and what has been sent. -/
def onSendAlarm (xSMTP : NotifierSmtpConfig) (pDate : Field 63) (pAlarm : FtmAlarm)
    (net : Network) : Ret × List (SmtpCommand × Text) :=
  if !xSMTP.bEnable then (.ok, [])
  else if !net.alloc then (.notEnoughMemory, [])
  else
    let pSMTPC : Smtpc := ⟨xSMTP.pServer, if xSMTP.usPort = 0 then 25 else xSMTP.usPort, 0, []⟩
    let r := connect net pSMTPC
    let r := andThen r (sendGreeting net)
    let r := andThen r (sendAuth net xSMTP.pUserID.val xSMTP.pPasswd.val)
    let r := andThen r (sendFrom net xSMTP.pSender.val)
    let r := andThen r (sendTo net pAlarm.pEmail.val)
    let r := andThen r (sendMessage net (pBody pDate xSMTP.pSender pAlarm))
    (r.1, r.2.sent)

end Notifier
end Catchb
