import Catchb.Types

/-! The rules that policy sequences make on a switch, by name. -/

namespace Catchb
open Lib

/-- A dotted-quad address. -/
structure IPv4 where
  o₁ : UInt8
  o₂ : UInt8
  o₃ : UInt8
  o₄ : UInt8
  deriving DecidableEq

namespace IPv4

def text (ip : IPv4) : Text :=
  ['.'].intercalate [decimal ip.o₁.toNat, decimal ip.o₂.toNat, decimal ip.o₃.toNat,
    decimal ip.o₄.toNat]

/-- `ntohl(inet_addr(pIP))`. -/
def value (ip : IPv4) : Nat :=
  ip.o₁.toNat * 0x1000000 + ip.o₂.toNat * 0x10000 + ip.o₃.toNat * 0x100 + ip.o₄.toNat

/-- The index that `FTM_SWITCH_setAC` and `FTM_SWITCH_DASAN_setAC2` make. -/
def index (ip : IPv4) : Nat := ip.value &&& 0xFFFFFF

end IPv4

inductive RuleKind
  | flow
  | policy
  deriving DecidableEq

structure RuleName where
  kind : RuleKind
  name : Text
  deriving DecidableEq

/-- What a sequence types in: a rule that is created together with its lines, one that is
removed, or a line that leaves the rules alone. -/
inductive Command
  | line (text : Text)
  | create (rule : RuleName) (body : List Text)
  | no (rule : RuleName)

def RuleKind.text : RuleKind → Text
  | .flow => "flow ".toList
  | .policy => "policy ".toList

def Command.lines : Command → List Text
  | .line text => [text]
  | .create rule body => (rule.kind.text ++ rule.name ++ " create\n".toList) :: body
  | .no rule => ["no ".toList ++ rule.kind.text ++ rule.name ++ "\n".toList]

/-- The rules that a sequence creates, and those it removes. -/
def created : List Command → List (RuleName × List Text)
  | [] => []
  | .create rule body :: cs => (rule, body) :: created cs
  | _ :: cs => created cs

def removed : List Command → List RuleName
  | [] => []
  | .no rule :: cs => rule :: removed cs
  | _ :: cs => removed cs

/-- A policy script that names its rules by the index it is passed. -/
structure Script where
  commands : Nat → Text → Text → AcPolicy → List Command
  names : Nat → List RuleName
  nonempty : ∀ i, names i ≠ []
  nodup : ∀ i, (names i).Nodup
  byIndex : ∀ i j n, n ∈ names i → n ∈ names j → i = j
  denies : ∀ i t l, (created (commands i t l .deny)).map Prod.fst = names i ∧
    removed (commands i t l .deny) = []
  allows : ∀ i t l, created (commands i t l .allow) = [] ∧
    ∀ n, n ∈ removed (commands i t l .allow) ↔ n ∈ names i

namespace Dasan

def mainName (ulIndex : Nat) : Text := "catchb_main_".toList ++ decimal ulIndex
def plainName (ulIndex : Nat) : Text := "catchb_".toList ++ decimal ulIndex

def setAC2 (ulIndex : Nat) (targetIP localIP : Text) : AcPolicy → List Command
  | .deny => [
    .line "enable\n".toList,
    .line "sh\n".toList,
    .line "configure terminal\n".toList,
    .create ⟨.flow, mainName ulIndex⟩ [
      "ip ".toList ++ targetIP ++ "/32 ".toList ++ localIP ++ "/32\n".toList,
      "apply\n".toList,
      "exit\n".toList],
    .create ⟨.flow, plainName ulIndex⟩ [
      "ip ".toList ++ targetIP ++ "/32 any\n".toList,
      "apply\n".toList,
      "exit\n".toList],
    .create ⟨.policy, mainName ulIndex⟩ [
      "include-flow ".toList ++ mainName ulIndex ++ "\n".toList,
      "priority highest\n".toList,
      "interface-binding vlan any\n".toList,
      "action match permit\n".toList,
      "apply\n".toList,
      "exit\n".toList],
    .create ⟨.policy, plainName ulIndex⟩ [
      "include-flow ".toList ++ plainName ulIndex ++ "\n".toList,
      "priority medium\n".toList,
      "interface-binding vlan any\n".toList,
      "action match deny\n".toList,
      "apply\n".toList,
      "end\n".toList],
    .line "exit\n".toList]
  | .allow => [
    .line "enable\n".toList,
    .line "configure terminal\n".toList,
    .no ⟨.policy, plainName ulIndex⟩,
    .no ⟨.flow, plainName ulIndex⟩,
    .no ⟨.policy, mainName ulIndex⟩,
    .no ⟨.flow, mainName ulIndex⟩,
    .line "end\n".toList,
    .line "exit\n".toList]

end Dasan

/-- A rule on the switch and the address whose sequence made it. -/
structure Rule where
  rule : RuleName
  body : List Text
  owner : IPv4
  deriving DecidableEq

/-- What a switch does with the creation of a rule whose name it already has: the old rule
is replaced, the creation is refused, or the session ends there. -/
inductive OnExisting
  | replace
  | refuse
  | quit

def addRule (existing : OnExisting) (new : Rule) (rules : List Rule) : Option (List Rule) :=
  if new.rule ∈ rules.map Rule.rule then
    match existing with
    | .replace => some (rules.map (fun r => if r.rule = new.rule then new else r))
    | .refuse => some rules
    | .quit => none
  else some (rules ++ [new])

def exec (existing : OnExisting) (owner : IPv4) : List Command → List Rule → List Rule
  | [], rules => rules
  | .line _ :: cs, rules => exec existing owner cs rules
  | .create rule body :: cs, rules =>
    match addRule existing ⟨rule, body, owner⟩ rules with
    | some rules => exec existing owner cs rules
    | none => rules
  | .no rule :: cs, rules => exec existing owner cs (rules.filter (fun r => r.rule ≠ rule))

end Catchb
