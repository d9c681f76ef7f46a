import Catchb.Ssid

/-! What a web request's body holds, and how the handlers read it. -/

namespace Catchb
open Lib

def retInvalidArguments : RetCode := 6

/-- What `cJSON_Parse` makes of a body. A number is its `valueint`. -/
inductive Json
  | null
  | bool (b : Bool)
  | number (valueint : UInt32)
  | string (valuestring : Text)
  | array (items : List Json)
  | object (items : List (Text × Json))

/-- What is read into a variable, and what the reading returns. -/
structure Reading (α : Type) where
  xRet : RetCode
  value : α

/-- `isspace`. -/
def isspace (c : Char) : Bool := c ∈ [' ', '\t', '\n', '\x0b', '\x0c', '\r']

def digits (t : Text) : Int :=
  (t.takeWhile Char.isDigit).foldl (fun n c => 10 * n + (c.toNat - '0'.toNat)) 0

/-- `atol`. -/
def atol (t : Text) : Int :=
  match t.dropWhile isspace with
  | '-' :: t => -digits t
  | '+' :: t => digits t
  | t => digits t

namespace Json

/-- `cJSON_GetObjectItem` takes the first of a name. Nothing but an object has names. -/
def getObjectItem (pRoot : Json) (pTitle : Text) : Option Json :=
  match pRoot with
  | .object items => (items.find? (fun item => strcasecmp item.1 pTitle)).map Prod.snd
  | _ => none

/-- What is not there is `xRet`, or left as it is. -/
def missing {α : Type} (bEmptyAllow : Bool) (xRet : RetCode) (value : α) : Reading α :=
  if bEmptyAllow then ⟨retOK, value⟩ else ⟨xRet, value⟩

def getString (pRoot : Json) (pTitle : Text) (ulMaxLen : Nat) (bEmptyAllow : Bool) (pValue : Text) :
    Reading Text :=
  match pRoot.getObjectItem pTitle with
  | none => missing bEmptyAllow retObjectNotFound pValue
  | some (.string valuestring) =>
    if valuestring.length > ulMaxLen then ⟨retInvalidArguments, pValue⟩ else ⟨retOK, valuestring⟩
  | some _ => ⟨retInvalidArguments, pValue⟩

theorem length_getString {pRoot : Json} {pTitle pValue : Text} {ulMaxLen : Nat} {bEmptyAllow : Bool}
    (h : pValue.length ≤ ulMaxLen) :
    (pRoot.getString pTitle ulMaxLen bEmptyAllow pValue).value.length ≤ ulMaxLen := by
  unfold getString missing
  split
  · split <;> exact h
  · split
    · exact h
    · rename_i hle
      exact Nat.le_of_not_gt hle
  · exact h

def getSSID (pRoot : Json) (bEmptyAllow : Bool) (pSSID : Text) : Reading Text :=
  pRoot.getString "ssid".toList 16 bEmptyAllow pSSID

def getName (pRoot : Json) (bEmptyAllow : Bool) (pName : Text) : Reading Text :=
  pRoot.getString "name".toList 32 bEmptyAllow pName

def getModel (pRoot : Json) (bEmptyAllow : Bool) (pValue : Text) : Reading Text :=
  pRoot.getString "model".toList 32 bEmptyAllow pValue

def getID (pRoot : Json) (bEmptyAllow : Bool) (pValue : Text) : Reading Text :=
  pRoot.getString "id".toList 64 bEmptyAllow pValue

def getUserID (pRoot : Json) (bEmptyAllow : Bool) (pValue : Text) : Reading Text :=
  pRoot.getString "userid".toList 64 bEmptyAllow pValue

def getPasswd (pRoot : Json) (bEmptyAllow : Bool) (pValue : Text) : Reading Text :=
  pRoot.getString "passwd".toList 32 bEmptyAllow pValue

def getNewPasswd (pRoot : Json) (bEmptyAllow : Bool) (pValue : Text) : Reading Text :=
  pRoot.getString "new_passwd".toList 32 bEmptyAllow pValue

def getIP (pRoot : Json) (bEmptyAllow : Bool) (pValue : Text) : Reading Text :=
  pRoot.getString "ip".toList 24 bEmptyAllow pValue

def getComment (pRoot : Json) (bEmptyAllow : Bool) (pValue : Text) : Reading Text :=
  pRoot.getString "comment".toList 64 bEmptyAllow pValue

def getHash (pRoot : Json) (bEmptyAllow : Bool) (pValue : Text) : Reading Text :=
  pRoot.getString "hash".toList 48 bEmptyAllow pValue

def getSwitchID (pRoot : Json) (bEmptyAllow : Bool) (pValue : Text) : Reading Text :=
  pRoot.getString "switchid".toList 64 bEmptyAllow pValue

/-- The buffer, which nothing sets, is taken to match no type where no string is read into it. -/
def getLogType (pRoot : Json) (bAllowEmpty : Bool) (pType : UInt32) : Reading UInt32 :=
  let pBuffer := pRoot.getString "type".toList 256 false []
  if pBuffer.xRet = retObjectNotFound then missing bAllowEmpty retObjectNotFound pType
  else if strcasecmp pBuffer.value "normal".toList then ⟨retOK, 1⟩
  else if strcasecmp pBuffer.value "error".toList then ⟨retOK, 2⟩
  else if strcasecmp pBuffer.value "info".toList then ⟨retOK, 3⟩
  else ⟨retInvalidArguments, pType⟩

/-- Any other word leaves the policy as it is. -/
def getPolicy (pRoot : Json) (bEmptyAllow : Bool) (pPolicy : AcPolicy) : Reading AcPolicy :=
  let pBuffer := pRoot.getString "policy".toList 256 false []
  if pBuffer.xRet = retOK then
    if pBuffer.value = "allow".toList then ⟨retOK, .allow⟩
    else if pBuffer.value = "deny".toList then ⟨retOK, .deny⟩
    else ⟨retOK, pPolicy⟩
  else if bEmptyAllow && pBuffer.xRet = retObjectNotFound then ⟨retOK, pPolicy⟩
  else ⟨pBuffer.xRet, pPolicy⟩

def getBool (pRoot : Json) (pTitle : Text) (bEmptyAllow : Bool) (pValue : UInt8) : Reading UInt8 :=
  match pRoot.getObjectItem pTitle with
  | none => missing bEmptyAllow retInvalidArguments pValue
  | some (.number valueint) => ⟨retOK, valueint.toUInt8⟩
  | some (.string valuestring) =>
    if valuestring ∈ ["on", "true", "yes", "1"].map String.toList then ⟨retOK, 1⟩
    else if valuestring ∈ ["off", "false", "no", "0"].map String.toList then ⟨retOK, 0⟩
    else ⟨retInvalidArguments, pValue⟩
  | some _ => ⟨retInvalidArguments, pValue⟩

def getSecure (pRoot : Json) (bEmptyAllow : Bool) (pValue : UInt8) : Reading UInt8 :=
  pRoot.getBool "secure".toList bEmptyAllow pValue

def getUINT16 (pRoot : Json) (pTitle : Text) (bEmptyAllow : Bool) (pValue : UInt16) :
    Reading UInt16 :=
  match pRoot.getObjectItem pTitle with
  | none => missing bEmptyAllow retInvalidArguments pValue
  | some (.number valueint) => ⟨retOK, valueint.toUInt16⟩
  | some (.string valuestring) => ⟨retOK, .ofInt (atol valuestring)⟩
  | some _ => ⟨retInvalidArguments, pValue⟩

def getUINT32 (pRoot : Json) (pTitle : Text) (bEmptyAllow : Bool) (pValue : UInt32) :
    Reading UInt32 :=
  match pRoot.getObjectItem pTitle with
  | none => missing bEmptyAllow retInvalidArguments pValue
  | some (.number valueint) => ⟨retOK, valueint⟩
  | some _ => ⟨retInvalidArguments, pValue⟩

def getIndex (pRoot : Json) (bEmptyAllow : Bool) (pValue : UInt32) : Reading UInt32 :=
  pRoot.getUINT32 "index".toList bEmptyAllow pValue

def getCount (pRoot : Json) (bEmptyAllow : Bool) (pValue : UInt32) : Reading UInt32 :=
  pRoot.getUINT32 "count".toList bEmptyAllow pValue

def getInterval (pRoot : Json) (bEmptyAllow : Bool) (pValue : UInt32) : Reading UInt32 :=
  pRoot.getUINT32 "interval".toList bEmptyAllow pValue

/-- A time is a number, or a string that `setString` makes seconds of where the program runs. -/
def getTime (setString : Text → Reading UInt32) (pRoot : Json) (pTitle : Text) (bEmptyAllow : Bool)
    (pValue : UInt32) : Reading UInt32 :=
  match pRoot.getObjectItem pTitle with
  | none => missing bEmptyAllow retObjectNotFound pValue
  | some (.number valueint) => ⟨retOK, valueint⟩
  | some (.string valuestring) =>
    let time := setString valuestring
    if time.xRet = retOK then time else ⟨time.xRet, pValue⟩
  | some _ => ⟨retInvalidArguments, pValue⟩

end Json
end Catchb
