import Catchb.Lib.Scan
import Catchb.Time
import Catchb.Types

/-! Times given as strings. -/

namespace Catchb
open Lib Scan
open Nat (ofDigitChars)

/-- What `mktime` looks at in a `struct tm`. -/
structure Tm where
  tm_sec : Int
  tm_min : Int
  tm_hour : Int
  tm_mday : Int
  tm_mon : Int
  tm_year : Int
  tm_isdst : Int
  deriving DecidableEq

inductive TmField
  | sec
  | min
  | hour
  | mday
  | mon
  | year
  deriving DecidableEq

namespace Tm

/-- What `memset` leaves. -/
def zero : Tm := ⟨0, 0, 0, 0, 0, 0, 0⟩

def set (tm : Tm) : TmField × Nat → Tm
  | (.sec, n) => { tm with tm_sec := n }
  | (.min, n) => { tm with tm_min := n }
  | (.hour, n) => { tm with tm_hour := n }
  | (.mday, n) => { tm with tm_mday := n }
  | (.mon, n) => { tm with tm_mon := n - 1 }
  | (.year, n) => { tm with tm_year := n - 1900 }

def fill (ns : List (TmField × Nat)) (tm : Tm) : Tm := ns.foldl set tm

end Tm

/-- The conversions that the formats use. -/
def items : Text → List (Item TmField)
  | '%' :: 'Y' :: fs => .number .year 4 0 9999 :: items fs
  | '%' :: 'm' :: fs => .number .mon 2 1 12 :: items fs
  | '%' :: 'd' :: fs => .number .mday 2 1 31 :: items fs
  | '%' :: 'H' :: fs => .number .hour 2 0 23 :: items fs
  | '%' :: 'M' :: fs => .number .min 2 0 59 :: items fs
  | '%' :: 'S' :: fs => .number .sec 2 0 60 :: items fs
  | ' ' :: fs => .blank :: items fs
  | c :: fs => .literal c :: items fs
  | [] => []

/-- Fields are stored as far as the string follows the format. -/
def strptime (t format : Text) (tm : Tm) : Tm := tm.fill (scan (items format) t)

/-- `strtoul` of digits, in base 10. -/
def strtoul (m : DataModel) (t : Text) : Nat := min (ofDigitChars 10 t 0) (2 * m.limit - 1)

/-- The time zone. `localtime_r` leaves what it was given where it has no answer. -/
structure Zone (m : DataModel) where
  mktime : Tm → Long m
  localtime_r : Long m → Tm → Tm

namespace FtmTime
variable {m : DataModel}

def separated (marks : List (Nat × Char)) (pString : Text) : Bool :=
  marks.all (fun p => pString[p.1]? == some p.2)

/-- The formatted string that is made of fourteen digits. -/
def formatted (t : Text) : Text :=
  t.take 4 ++ '-' :: ((t.drop 4).take 2 ++ '-' :: ((t.drop 6).take 2 ++ ' ' ::
    ((t.drop 8).take 2 ++ ':' :: ((t.drop 10).take 2 ++ ':' :: (t.drop 12).take 2))))

/-- The broken-down time, or none where the format is invalid. Strings of ten characters have no
branch of their own, and the digits of a date are stored over what the memory held. -/
def brokenDown (zone : Zone m) (xTM : Tm) (pString : Text) : Option Tm :=
  if pString.length = 16 then
    if separated [(4, '/'), (7, '/'), (10, '/'), (13, '/')] pString then
      some (strptime pString "%Y/%m/%d/%H/%M".toList .zero)
    else none
  else if pString.length = 19 then
    if separated [(4, '-'), (7, '-'), (10, ' '), (13, ':'), (16, ':')] pString then
      some (strptime pString "%Y-%m-%d %H:%M:%S".toList .zero)
    else none
  else if pString.length = 12 then
    if pString.all Char.isDigit then
      some (strptime (formatted ("20".toList ++ pString)) "%Y-%m-%d %H:%M:%S".toList xTM)
    else none
  else if pString.length = 14 then
    if pString.all Char.isDigit then
      some (strptime (formatted pString) "%Y-%m-%d %H:%M:%S".toList xTM)
    else none
  else
    if pString.all Char.isDigit then
      some (zone.localtime_r (.store m (strtoul m pString)) xTM)
    else none

/-- `xTM` is what the memory of the broken-down time holds before. -/
def setString (zone : Zone m) (xTM : Tm) (pString : Text) (pTime : FtmTime m) : Ret × FtmTime m :=
  if pString.length = 10 ∧ separated [(4, '/'), (7, '/')] pString = false then
    (.invalidFormat, pTime)
  else
    let xTM := if pString.length = 10 then strptime pString "%Y/%m/%d".toList .zero else xTM
    match brokenDown zone xTM pString with
    | none => (.invalidFormat, pTime)
    | some xTM => (.ok, ⟨zone.mktime xTM, 0⟩)

end FtmTime
end Catchb
