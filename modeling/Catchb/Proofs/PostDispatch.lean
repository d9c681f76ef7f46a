import Catchb.CgiPost

/-! Which handler a request's command is given to. -/

namespace Catchb.Proofs.PostDispatch
open Lib Cgi

variable {site : Site} {table : PostTable} {pReqRoot : Option Json} {pCmdName : Text}
  {pCmds : List PostCommand} {pCmd : PostCommand} {root : Json}

/-- The names in a table. -/
def names : PostTable → List Text
  | .cctv => ["add".toList, "del".toList, "get".toList, "set".toList, "list".toList,
      "policy".toList, "reset".toList]
  | .switch => ["add".toList, "del".toList, "get".toList, "set".toList, "list".toList,
      "model_list".toList]
  | .log => ["info".toList, "count".toList, "get".toList, "del".toList]
  | .alarm => ["add".toList, "del".toList, "get".toList, "set".toList, "list".toList,
      "info".toList, "get_config".toList, "set_config".toList]
  | .ssid => ["get".toList, "del".toList, "verify".toList]
  | .syslog => ["add".toList, "del".toList, "get".toList, "set".toList, "list".toList]
  | .sys => ["info".toList, "get_config".toList, "set_config".toList, "check_passwd".toList,
      "passwd".toList, "set_time".toList, "reboot".toList, "shutdown".toList]
  | .status => ["info".toList, "get".toList, "del".toList]
  | .net => ["get".toList, "set".toList]

theorem names_eq (site : Site) (table : PostTable) :
    (table.cmds site).map PostCommand.pName = names table := by
  cases table <;> rfl

/-- No two names of a table are equal, ignoring case. -/
theorem nodup_names (table : PostTable) : ((names table).map lower).Nodup := by
  cases table <;> decide

/-- One entry at most answers to a command. -/
theorem entry_unique {p q : PostCommand} (hp : p ∈ table.cmds site) (hq : q ∈ table.cmds site)
    (hpn : strcasecmp pCmdName p.pName) (hqn : strcasecmp pCmdName q.pName) : p = q := by
  have hnodup := nodup_names table
  rw [← names_eq site, List.map_map] at hnodup
  apply List.inj_on_of_nodup_map hnodup hp hq
  rw [strcasecmp_iff] at hpn hqn
  exact hpn.symm.trans hqn

/-- A search that finds a name, or an entry without one, stays in the table. -/
theorem search_append (rest : List (Option PostCommand)) :
    searchCmd pCmdName (pCmds.map some ++ rest) =
      match pCmds.find? (fun pCmd => strcasecmp pCmdName pCmd.pName) with
      | some pCmd => .found pCmd
      | none => searchCmd pCmdName rest := by
  induction pCmds with
  | nil => rfl
  | cons pCmd pCmds ih =>
    rw [List.map_cons, List.cons_append, searchCmd, List.find?_cons]
    cases hname : strcasecmp pCmdName pCmd.pName with
    | true => rfl
    | false => exact ih

theorem search_table (site : Site) (table : PostTable) : searchCmd pCmdName (table.entries site) =
    match (table.cmds site).find? (fun pCmd => strcasecmp pCmdName pCmd.pName) with
    | some pCmd => .found pCmd
    | none => if table = .net then .outside else .missing := by
  by_cases hnet : table = .net
  · subst hnet
    change searchCmd pCmdName (pNetPostCmds.map some) = _
    rw [← List.append_nil (pNetPostCmds.map some), search_append]
    rfl
  · have hentries : table.entries site = (table.cmds site).map some ++ [none] := by
      cases table <;> first | rfl | exact absurd rfl hnet
    rw [hentries, search_append, if_neg hnet]
    rfl

/-- The command string of a request. -/
def Commands (pReqRoot : Option Json) (pCmdName : Text) : Prop :=
  ∃ root, pReqRoot = some root ∧ root.getString "cmd".toList 33 false [] = ⟨retOK, pCmdName⟩

/-- A command that is read is looked for. -/
theorem service_command (site : Site) (table : PostTable)
    (hcommand : Commands pReqRoot pCmdName) :
    ∃ root, pReqRoot = some root ∧ postServiceIn (table.entries site) pReqRoot =
      match searchCmd pCmdName (table.entries site) with
      | .found pCmd => some (pCmd.fService root)
      | .missing => some (check retInvalidArguments)
      | .outside => none := by
  obtain ⟨root, rfl, hread⟩ := hcommand
  refine ⟨root, rfl, ?_⟩
  rw [postServiceIn, hread]
  exact if_pos rfl

/-- Without a command nothing is looked for. -/
theorem service_silent (hsilent : ∀ pCmdName, ¬ Commands pReqRoot pCmdName) :
    (postServiceIn (table.entries site) pReqRoot).isSome := by
  cases pReqRoot with
  | none => rfl
  | some root =>
    have hret : (root.getString "cmd".toList 33 false []).xRet ≠ retOK := by
      intro hret
      exact hsilent (root.getString "cmd".toList 33 false []).value ⟨root, rfl, by rw [← hret]⟩
    rw [postServiceIn, if_neg hret]
    rfl

/-- A table that has an entry without a name serves as its list of commands does. -/
theorem service_eq (hnet : table ≠ .net) (pReqRoot : Option Json) :
    postServiceIn (table.entries site) pReqRoot =
      some (postService (table.cmds site) pReqRoot) := by
  cases pReqRoot with
  | none => rfl
  | some root =>
    rw [postServiceIn, postService]
    by_cases hret : (root.getString "cmd".toList 33 false []).xRet = retOK
    · rw [if_pos hret, hret, search_table, if_neg hnet]
      cases hfind : (table.cmds site).find? fun pCmd =>
          strcasecmp (root.getString "cmd".toList 33 false []).value pCmd.pName <;> rfl
    · rw [if_neg hret, check, if_neg hret]
      rfl

/-- The search stays in the table, and the handler of the command's name answers, or nobody. -/
structure Dispatches (site : Site) (table : PostTable) (pReqRoot : Option Json) : Prop where
  inside : (postServiceIn (table.entries site) pReqRoot).isSome
  handled : ∀ root pCmdName, pReqRoot = some root → Commands pReqRoot pCmdName →
    ∀ pCmd ∈ table.cmds site, strcasecmp pCmdName pCmd.pName →
      postServiceIn (table.entries site) pReqRoot = some (pCmd.fService root)
  refused : ∀ pCmdName, Commands pReqRoot pCmdName →
    (∀ pCmd ∈ table.cmds site, ¬ strcasecmp pCmdName pCmd.pName) →
      postServiceIn (table.entries site) pReqRoot = some (check retInvalidArguments)

/-- A name of the table leads to its own entry. -/
theorem search_named (hp : pCmd ∈ table.cmds site) (hname : strcasecmp pCmdName pCmd.pName) :
    searchCmd pCmdName (table.entries site) = .found pCmd := by
  rw [search_table]
  cases hfind : (table.cmds site).find? (fun pCmd => strcasecmp pCmdName pCmd.pName) with
  | none => exact absurd hname (List.find?_eq_none.mp hfind pCmd hp)
  | some q =>
    have hq := List.find?_some hfind
    have hsame : q = pCmd := entry_unique (List.mem_of_find?_eq_some hfind) hp hq hname
    rw [hsame]

theorem search_unnamed (hnone : ∀ pCmd ∈ table.cmds site, ¬ strcasecmp pCmdName pCmd.pName) :
    searchCmd pCmdName (table.entries site) = if table = .net then .outside else .missing := by
  rw [search_table, List.find?_eq_none.mpr hnone]

theorem service_named (hroot : pReqRoot = some root) (hcommand : Commands pReqRoot pCmdName)
    (hp : pCmd ∈ table.cmds site) (hname : strcasecmp pCmdName pCmd.pName) :
    postServiceIn (table.entries site) pReqRoot = some (pCmd.fService root) := by
  obtain ⟨root', hroot', hservice⟩ := service_command site table hcommand
  obtain rfl : root = root' := Option.some.inj (hroot.symm.trans hroot')
  rw [hservice, search_named hp hname]

theorem service_unnamed (hcommand : Commands pReqRoot pCmdName)
    (hnone : ∀ pCmd ∈ table.cmds site, ¬ strcasecmp pCmdName pCmd.pName) :
    postServiceIn (table.entries site) pReqRoot =
      if table = .net then none else some (check retInvalidArguments) := by
  obtain ⟨root, -, hservice⟩ := service_command site table hcommand
  rw [hservice, search_unnamed hnone]
  by_cases hnet : table = .net
  · rw [if_pos hnet, if_pos hnet]
  · rw [if_neg hnet, if_neg hnet]

/-- The commands of the network's table. -/
theorem net_unnamed : (∀ pCmd ∈ PostTable.net.cmds site, ¬ strcasecmp pCmdName pCmd.pName) ↔
    ¬ (strcasecmp pCmdName "get".toList ∨ strcasecmp pCmdName "set".toList) := by
  change (∀ pCmd ∈ [_, _], _) ↔ _
  rw [List.forall_mem_cons, List.forall_mem_singleton, not_or]

/-- Every table but that of the network, which has no last entry, serves any command. The network's
serves the two that it has. -/
theorem dispatches_iff (site : Site) (table : PostTable) (pReqRoot : Option Json) :
    Dispatches site table pReqRoot ↔ (table = .net → ∀ pCmdName, Commands pReqRoot pCmdName →
      strcasecmp pCmdName "get".toList ∨ strcasecmp pCmdName "set".toList) := by
  constructor
  · intro h hnet pCmdName hcommand
    subst hnet
    by_contra hother
    have hinside := h.inside
    rw [service_unnamed hcommand (net_unnamed.mpr hother), if_pos rfl] at hinside
    cases hinside
  · intro h
    have hrefused : ∀ pCmdName, Commands pReqRoot pCmdName →
        (∀ pCmd ∈ table.cmds site, ¬ strcasecmp pCmdName pCmd.pName) →
          postServiceIn (table.entries site) pReqRoot = some (check retInvalidArguments) := by
      intro pCmdName hcommand hnone
      have hother : table ≠ .net := by
        intro hnet
        subst hnet
        exact net_unnamed.mp hnone (h rfl pCmdName hcommand)
      rw [service_unnamed hcommand hnone, if_neg hother]
    refine ⟨?_, fun root pCmdName hroot hcommand pCmd => service_named hroot hcommand, hrefused⟩
    by_cases hcommand : ∃ pCmdName, Commands pReqRoot pCmdName
    · obtain ⟨pCmdName, hcommand⟩ := hcommand
      by_cases hnamed : ∃ pCmd ∈ table.cmds site, strcasecmp pCmdName pCmd.pName
      · obtain ⟨pCmd, hp, hname⟩ := hnamed
        obtain ⟨root, hroot, hread⟩ := hcommand
        rw [service_named hroot ⟨root, hroot, hread⟩ hp hname]
        rfl
      · rw [hrefused pCmdName hcommand (fun pCmd hp hname => hnamed ⟨pCmd, hp, hname⟩)]
        rfl
    · exact service_silent (fun pCmdName h => hcommand ⟨pCmdName, h⟩)

/-- `{"cmd":"list"}`. -/
def list : Json := .object [("cmd".toList, .string "list".toList)]

theorem list_commands : Commands (some list) "list".toList :=
  ⟨list, rfl, rfl⟩

/-- A command that other tables have runs past the end of the network's. -/
theorem list_outside :
    ¬ Dispatches ⟨fun _ => ⟨retOK, 0⟩, .deny, "/tmp".toList, 0⟩ .net (some list) := by
  intro h
  have hinside := h.inside
  rw [service_unnamed list_commands (net_unnamed.mpr (by decide)), if_pos rfl] at hinside
  cases hinside

end Catchb.Proofs.PostDispatch
