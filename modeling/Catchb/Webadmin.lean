import Catchb.CgiSystem
import Catchb.Lib.Assignments

/-! The host of the web server's settings: its shell, and the script that keeps them. -/

namespace Catchb
open Lib Shell

/-- What a command prints and does. `unread` is for lines that are more than a list of simple
commands, `answer` for what a handler asks of others. -/
structure Host (σ : Type) where
  env : Env
  home : Word → Text
  exec : Shell.Command → σ → Text × σ
  unread : Text → σ → Text × σ
  answer : σ → (q : Ask) → q.Answer

namespace Host
variable {σ : Type} {α : Type}

def execAll (host : Host σ) : List Shell.Command → σ → Text × σ
  | [], s => ([], s)
  | c :: cs, s =>
    let (output, s) := host.exec c s
    let (rest, s) := host.execAll cs s
    (output ++ rest, s)

/-- `popen`, which gives the line to a shell. -/
def popen (host : Host σ) (pCommand : Text) (s : σ) : Text × σ :=
  match simple host.env host.home pCommand with
  | none => host.unread pCommand s
  | some cs => host.execAll cs s

def world (host : Host σ) : Program.World Ask Ask.Answer σ Text := fun s q =>
  match q with
  | .popen pCommand =>
    let (output, s) := host.popen pCommand s
    ([pCommand], some output, s)
  | q => ([], host.answer s q, s)

/-- How a handler ends, and what it leaves. -/
def ends (host : Host σ) (s : σ) (p : Cgi α) : Except RetCode α × σ := (p.run host.world s).2

end Host

namespace Webadmin

def path : Text := "/etc/init.d/webadmin".toList

def update (vars : List (Text × Text)) : Shell.Command := ⟨vars, [path, "update".toList]⟩

def get : Shell.Command := ⟨[], [path, "get".toList]⟩

def texts : List Text := ["LOCATION".toList, "USERID".toList, "PASSWD".toList]

/-- Settings that can be printed: lines that fit the profile, and a number. -/
structure Printable (stored : Text → Text) : Prop where
  fits : ∀ name ∈ "TIMEOUT".toList :: texts, (stored name).length ≤ 63 ∧ '\n' ∉ stored name
  number : stored "TIMEOUT".toList ≠ [] ∧ ∀ c ∈ stored "TIMEOUT".toList, c.isDigit = true

def line (tag value : Text) : Text := tag ++ ' ' :: value ++ ['\n']

def printed (stored : Text → Text) : Text :=
  line "location:".toList (stored "LOCATION".toList) ++
    line "userid:".toList (stored "USERID".toList) ++
    line "passwd:".toList (stored "PASSWD".toList) ++
    line "timeout:".toList (stored "TIMEOUT".toList)

/-- What is taken for granted of the script: it stores the variables that it is given, and prints
what is stored. -/
structure Keeps {σ : Type} (host : Host σ) (stored : σ → Text → Text) : Prop where
  update : ∀ vars s name, stored (host.exec (update vars) s).2 name =
    ((update vars).value? name).getD (stored s name)
  printed : ∀ s, Printable (stored s) → (host.exec get s).1 = printed (stored s)
  kept : ∀ s, stored (host.exec get s).2 = stored s

end Webadmin
end Catchb
