import Catchb.CgiSyslog
import Catchb.Lib.Quoting

/-! The strings of a web request that reach the syslog script as they were sent. -/

namespace Catchb.Proofs.SyslogCommand
open Lib Cgi Syslog Shell

inductive Command
  | add
  | del
  | set

def post : Command → Json → Cgi Unit
  | .add => syslogAdd
  | .del => syslogDel
  | .set => syslogSet

/-- What the handlers find. The script prints the settings of its file, if it can be run. -/
structure Outside where
  file : Text
  answer : (q : Ask) → q.Answer
  printed : ∀ output : Text, answer (.popen getCommand) = some output → output = get file

variable {pReqRoot : Json} {out : Outside}

/-- The script's settings, and the ID of the request where they have none. -/
def stored (pReqRoot : Json) (out : Outside) : LogServerConfig :=
  load ⟨.copy 64 (pReqRoot.getID false []).value, .empty 24, .empty 64⟩ (get out.file)

/-- The strings of a request. What it may leave out is empty, or what the script has stored. -/
def accepted : Command → Json → Outside → List Text
  | .add, pReqRoot, _ => [(pReqRoot.getID false []).value, (pReqRoot.getIP true []).value,
      (pReqRoot.getComment true []).value]
  | .del, pReqRoot, _ => [(pReqRoot.getID false []).value]
  | .set, pReqRoot, out => [(pReqRoot.getID false []).value,
      (pReqRoot.getIP false (stored pReqRoot out).pIP.val).value,
      (pReqRoot.getComment false (stored pReqRoot out).pComment.val).value]

/-- How the script is to be run. -/
def arguments (c : Command) (pReqRoot : Json) (out : Outside) : List Text :=
  match c with
  | .add => script :: "add".toList :: accepted .add pReqRoot out
  | .del => script :: "del".toList :: accepted .del pReqRoot out
  | .set => script :: "add".toList :: accepted .set pReqRoot out

/-- The command lines that a handler puts together. -/
def built (c : Command) (pReqRoot : Json) (out : Outside) : List Text :=
  (lines out.answer (post c pReqRoot)).filter (fun line => line ≠ getCommand)

/-- Wherever the shell is run, it runs the script once, with the strings of the request, and
nothing else. -/
def Exact (c : Command) (pReqRoot : Json) (out : Outside) : Prop :=
  ∀ line ∈ built c pReqRoot out, ∀ env, commands env line = some [arguments c pReqRoot out]

/-- The handler accepts the request. -/
def Accepts (c : Command) (pReqRoot : Json) (out : Outside) : Prop :=
  (pReqRoot.getSSID false []).xRet = retOK ∧
  (out.answer (.call (pReqRoot.getSSID false []).value .ssidVerify) : Reading Unit).xRet = retOK ∧
  (pReqRoot.getID false []).xRet = retOK ∧
  match c with
  | .add => (pReqRoot.getIP true []).xRet = retOK ∧ (pReqRoot.getComment true []).xRet = retOK
  | .del => True
  | .set => (out.answer (.popen getCommand) : Option Text) ≠ none

/-- The strings need no quotation, but where there is one. -/
def Harmless : Command → Json → Outside → Prop
  | .add, pReqRoot, _ => plain (pReqRoot.getID false []).value = true ∧
      plain (pReqRoot.getIP true []).value = true ∧
      verbatim (pReqRoot.getComment true []).value = true
  | .del, pReqRoot, _ => plain (pReqRoot.getID false []).value = true
  | .set, pReqRoot, out =>
    (∃ w, asWord [bare script, bare "add".toList] (stored pReqRoot out).pID.val = some w ∧
      ∀ env : Env, env.fields w = [(pReqRoot.getID false []).value]) ∧
    plain (pReqRoot.getIP false (stored pReqRoot out).pIP.val).value = true ∧
    plain (pReqRoot.getComment false (stored pReqRoot out).pComment.val).value = true

/-- The command line of a request that is accepted. -/
def line : Command → Json → Outside → Text
  | .add, pReqRoot, _ => addCommand ⟨.copy 64 (pReqRoot.getID false []).value,
      .copy 24 (pReqRoot.getIP true []).value, .copy 64 (pReqRoot.getComment true []).value⟩
  | .del, pReqRoot, _ => delCommand (pReqRoot.getID false []).value
  | .set, pReqRoot, out => setCommand { stored pReqRoot out with
      pIP := .copy 24 (pReqRoot.getIP false (stored pReqRoot out).pIP.val).value
      pComment := .copy 64 (pReqRoot.getComment false (stored pReqRoot out).pComment.val).value }

theorem lines_runScript (pCommand : Text) : lines out.answer (runScript pCommand) = [pCommand] := by
  unfold runScript
  rw [lines_popen_bind]
  split
  · rw [lines_check]
  · split <;> rw [lines_check]

theorem lines_verified {α : Type} (f : Text → Cgi α) : lines out.answer (verified pReqRoot >>= f) =
    if (pReqRoot.getSSID false []).xRet = retOK ∧
      (out.answer (.call (pReqRoot.getSSID false []).value .ssidVerify) : Reading Unit).xRet = retOK
    then lines out.answer (f (pReqRoot.getSSID false []).value) else [] := by
  unfold verified
  simp only [Program.bind_assoc, lines_check_bind, lines_call_bind, Program.pure_bind']
  split_ifs <;> simp_all

theorem addCommand_ne (xConfig : LogServerConfig) : addCommand xConfig ≠ getCommand := by
  simp [addCommand, getCommand]

theorem setCommand_ne (xConfig : LogServerConfig) : setCommand xConfig ≠ getCommand := by
  simp [setCommand, getCommand]

theorem delCommand_ne (pID : Text) : delCommand pID ≠ getCommand := by
  simp [delCommand, getCommand]

/-- A handler that accepts a request puts one command line together. -/
theorem built_of_accepts {c : Command} (h : Accepts c pReqRoot out) :
    built c pReqRoot out = [line c pReqRoot out] := by
  cases c with
  | add =>
    obtain ⟨hssid, hverify, hid, hip, hcomment⟩ := h
    simp only [built, post, syslogAdd, lines_verified, lines_check_bind, lines_runScript, hssid,
      hverify, hid, hip, hcomment, and_self, ↓reduceIte, line]
    simp [addCommand_ne]
  | del =>
    obtain ⟨hssid, hverify, hid, -⟩ := h
    simp only [built, post, syslogDel, lines_verified, lines_check_bind, lines_runScript, hssid,
      hverify, hid, and_self, ↓reduceIte, line]
    simp [delCommand_ne]
  | set =>
    obtain ⟨hssid, hverify, hid, hget⟩ := h
    cases houtput : (out.answer (.popen getCommand) : Option Text) with
    | none => exact absurd houtput hget
    | some output =>
      simp only [built, post, syslogSet, lines_verified, lines_check_bind, lines_popen_bind, hssid,
        hverify, hid, and_self, ↓reduceIte]
      rw [houtput]
      simp only [lines_runScript, out.printed output houtput]
      simp [line, stored, setCommand_ne]

/-- One that does not puts none together. -/
theorem built_of_not {c : Command} (h : ¬Accepts c pReqRoot out) : built c pReqRoot out = [] := by
  cases c with
  | add =>
    simp only [built, post, syslogAdd, lines_verified, lines_check_bind, lines_runScript]
    split_ifs with hssid hid hip hcomment
    · exact absurd ⟨hssid.1, hssid.2, hid, hip, hcomment⟩ h
    all_goals rfl
  | del =>
    simp only [built, post, syslogDel, lines_verified, lines_check_bind, lines_runScript]
    split_ifs with hssid hid
    · exact absurd ⟨hssid.1, hssid.2, hid, trivial⟩ h
    all_goals rfl
  | set =>
    simp only [built, post, syslogSet, lines_verified, lines_check_bind, lines_popen_bind]
    split_ifs with hssid hid
    · cases houtput : (out.answer (.popen getCommand) : Option Text) with
      | none =>
        simp only [lines_check]
        rfl
      | some output =>
        refine absurd ⟨hssid.1, hssid.2, hid, ?_⟩ h
        exact houtput ▸ Option.some_ne_none output
    all_goals rfl

theorem copy_of_le {n : Nat} {t : Text} (h : t.length ≤ n) : (Field.copy n t).val = t :=
  List.take_of_length_le h

theorem plain_script : plain script = true := by decide +kernel

theorem plain_add : plain "add".toList = true := by decide +kernel

theorem plain_del : plain "del".toList = true := by decide +kernel

theorem add_exact_iff {id ip comment : Text} (hid : id.length ≤ 64) (hip : ip.length ≤ 24)
    (hcomment : comment.length ≤ 64) :
    (∀ env, commands env (addCommand ⟨.copy 64 id, .copy 24 ip, .copy 64 comment⟩) =
      some [[script, "add".toList, id, ip, comment]]) ↔
      plain id = true ∧ plain ip = true ∧ verbatim comment = true := by
  have hline : addCommand ⟨.copy 64 id, .copy 24 ip, .copy 64 comment⟩ =
      lead [script, "add".toList, id, ip] ++ '\x22' :: (comment ++ ['\x22']) := by
    simp [addCommand, lead, copy_of_le hid, copy_of_le hip, copy_of_le hcomment]
  have hiff : (∀ env, commands env (lead [script, "add".toList, id, ip] ++
      '\x22' :: (comment ++ ['\x22'])) = some [[script, "add".toList, id, ip] ++ [comment]]) ↔ _ :=
    commands_quoted_iff
  rw [hline]
  refine hiff.trans ?_
  simp only [List.forall_mem_cons, List.not_mem_nil, false_implies, implies_true, plain_script,
    plain_add, true_and, and_true, and_assoc]

theorem del_exact_iff {id : Text} :
    (∀ env, commands env (delCommand id) = some [[script, "del".toList, id]]) ↔ plain id = true := by
  have hline : delCommand id = lead [script, "del".toList] ++ id := by simp [delCommand, lead]
  have hiff : (∀ env, commands env (lead [script, "del".toList] ++ id) =
      some [[script, "del".toList] ++ [id]]) ↔ _ := commands_bare_iff
  rw [hline]
  refine hiff.trans ?_
  simp only [List.cons_append, List.nil_append, List.forall_mem_cons, List.not_mem_nil,
    false_implies, implies_true, plain_script, plain_del, true_and, and_true]

theorem kind_ne_blank {c : Char} (h : c ≠ ' ' ∧ c ≠ '\t') : kind c ≠ .blank := by
  unfold kind
  split_ifs with hblank
  · exact absurd hblank (not_or.mpr h)
  all_goals decide

theorem set_exact_iff {pID : ID} {id ip comment : Text} (hip : ip.length ≤ 24)
    (hcomment : comment.length ≤ 64) (h : pID.val = id ∨ Clear pID.val) :
    (∀ env, commands env (setCommand ⟨pID, .copy 24 ip, .copy 64 comment⟩) =
      some [[script, "add".toList, id, ip, comment]]) ↔
      (∃ w, asWord [bare script, bare "add".toList] pID.val = some w ∧
        ∀ env : Env, env.fields w = [id]) ∧ plain ip = true ∧ plain comment = true := by
  have hline : setCommand ⟨pID, .copy 24 ip, .copy 64 comment⟩ =
      lead [script, "add".toList, pID.val, ip] ++ comment := by
    simp [setCommand, lead, copy_of_le hip, copy_of_le hcomment]
  rw [hline]
  rcases h with rfl | hclear
  · -- the ID stands in the line as it was sent
    have hiff : (∀ env, commands env (lead [script, "add".toList, pID.val, ip] ++ comment) =
        some [[script, "add".toList, pID.val, ip] ++ [comment]]) ↔ _ := commands_bare_iff
    refine hiff.trans ?_
    rw [asWord_self_iff]
    simp only [List.cons_append, List.nil_append, List.forall_mem_cons, List.not_mem_nil,
      false_implies, implies_true, plain_script, plain_add, true_and, and_true]
  · -- the script's takes its place, and no blank ends a word in it
    have hxs : ∀ x ∈ [script, "add".toList], plain x = true := by
      simp only [List.forall_mem_cons, List.not_mem_nil, false_implies, implies_true, plain_script,
        plain_add, and_self]
    have hblank : ∀ c ∈ pID.val, kind c ≠ .blank := fun c hc => kind_ne_blank (hclear c hc)
    have hiff : (∀ env, commands env (lead ([script, "add".toList] ++ pID.val :: [ip]) ++ comment) =
        some [[script, "add".toList] ++ id :: ([ip] ++ [comment])]) ↔ _ :=
      commands_word_iff hxs (by simp) hblank
    refine hiff.trans ?_
    simp only [List.map_cons, List.map_nil, List.cons_append, List.nil_append,
      List.forall_mem_cons, List.not_mem_nil, false_implies, implies_true, and_true]

/-- The line of a request that is accepted is read as it was meant just for harmless strings. -/
theorem line_exact_iff (c : Command) :
    (∀ env, commands env (line c pReqRoot out) = some [arguments c pReqRoot out]) ↔
      Harmless c pReqRoot out := by
  cases c with
  | add =>
    have hempty : ∀ n, ([] : Text).length ≤ n := Nat.zero_le
    exact add_exact_iff (Json.length_getString (hempty 64)) (Json.length_getString (hempty 24))
      (Json.length_getString (hempty 64))
  | del => exact del_exact_iff
  | set =>
    have hid : (Field.copy 64 (pReqRoot.getID false []).value).val =
        (pReqRoot.getID false []).value := copy_of_le (Json.length_getString (Nat.zero_le _))
    have hstored : (stored pReqRoot out).pID.val = (pReqRoot.getID false []).value ∨
        Clear (stored pReqRoot out).pID.val :=
      (pID_load _ out.file).imp_left (fun h => (congrArg Subtype.val h).trans hid)
    exact set_exact_iff (Json.length_getString (stored pReqRoot out).pIP.property)
      (Json.length_getString (stored pReqRoot out).pComment.property) hstored

/-- A request that the handlers accept reaches the script as it was sent if, and only if, its
strings are harmless. -/
theorem exact_iff (c : Command) (pReqRoot : Json) (out : Outside) :
    Exact c pReqRoot out ↔ (Accepts c pReqRoot out → Harmless c pReqRoot out) := by
  by_cases h : Accepts c pReqRoot out
  · rw [Exact, built_of_accepts h]
    simp only [List.mem_singleton, forall_eq, h, forall_true_left]
    exact line_exact_iff c
  · simp [Exact, built_of_not h, h]

/-- A request that a log server be deleted whose ID is a command's name and a command. -/
def reboot : Json :=
  .object [("ssid".toList, .string "0123456789abcdef".toList), ("id".toList, .string "x;reboot".toList)]

/-- The session is valid, and there are no settings. -/
def welcoming : Outside where
  file := []
  answer := fun
    | .call _ c => (⟨retOK, default⟩ : Reading c.Reply)
    | .popen _ => some ([] : Text)
    | .fopen _ _ => none
    | .setTime _ => retOK
    | .measure => retOK
    | .malloc _ => true
  printed := by
    rintro output ⟨⟩
    rfl

/-- The shell runs the script, and then `reboot`. -/
theorem reboot_runs :
    built .del reboot welcoming = ["/usr/bin/server.sh del x;reboot".toList] ∧
    (∀ env, commands env "/usr/bin/server.sh del x;reboot".toList =
      some [["/usr/bin/server.sh".toList, "del".toList, "x".toList], ["reboot".toList]]) ∧
    ¬Exact .del reboot welcoming := by
  have hbuilt : built .del reboot welcoming = ["/usr/bin/server.sh del x;reboot".toList] := by
    decide +kernel
  have hwords : words "/usr/bin/server.sh del x;reboot".toList =
      some [[bare script, bare "del".toList, bare "x".toList], [bare "reboot".toList]] := by
    decide +kernel
  have hcommands : ∀ env, commands env "/usr/bin/server.sh del x;reboot".toList =
      some [[script, "del".toList, "x".toList], ["reboot".toList]] := by
    intro env
    rw [commands, hwords]
    rfl
  refine ⟨hbuilt, hcommands, fun h => ?_⟩
  have hexact := h _ (hbuilt ▸ List.mem_singleton_self _) Env.still
  rw [hcommands] at hexact
  cases hexact

end Catchb.Proofs.SyslogCommand
