import Catchb.SetAC

/-! When a call that applies a script and returns OK has brought all of it to the switch. -/

namespace Catchb.Proofs.ScriptApplied
open Lib

/-- In the exchange, the input of the line with this number gets to the device in answer to the
line's prompt. -/
def Answers (line : SwsCmd × Nat) (exchange : AcExchange) : Prop :=
  exchange.ulLine = line.2 ∧ (∃ pReadLine, exchange.pReadLine = some pReadLine ∧
    line.1.prompted pReadLine = true) ∧ line.1.pInput.val ∈ exchange.sent ∧ exchange.written = true

/-- The input of every line is sent, in the script's order, each after its prompt was seen. -/
def Applied (pLines : List SwsCmd) (exchanges : List AcExchange) : Prop :=
  List.SublistForall₂ Answers pLines.zipIdx exchanges

/-- The script waits for the line's prompt, the turn brings it, and the connection takes the
input. -/
def TelnetBrings (line : SwsCmd × Nat) (s : TelnetLoop) (turn : TelnetTurn) : Prop :=
  s.ulLine = line.2 ∧ (∃ pReadLine, (s.read turn).1 = some pReadLine ∧
    line.1.prompted pReadLine = true) ∧ turn.written = true

def SshBrings (line : SwsCmd × Nat) (s : SshLoop) (turn : SshTurn) : Prop :=
  s.ulLine = line.2 ∧ (∃ pReadLine, (s.read turn).1 = some pReadLine ∧
    line.1.prompted pReadLine = true) ∧ (s.opened && turn.written) = true

/-- The call fails and says so, the script is empty, or the turns of the loop bring its lines before
it is left. -/
def TelnetServes (pLines : List SwsCmd) (run : TelnetRun) : Prop :=
  run.created ≠ .ok ∨ pLines = [] ∨ run.opened = .ok ∧
    Serves (fun s : TelnetLoop => pLines[s.ulLine]?) TelnetLoop.step TelnetBrings pLines.zipIdx
      run.start run.turns

def SshServes (pLines : List SwsCmd) (run : SshRun) : Prop :=
  run.created ≠ .ok ∨ run.connected ≠ .ok ∨ run.channel ≠ .ok ∨ run.opened ≠ .ok ∨
    Comes (fun s : SshLoop => pLines[s.ulLine]?) SshLoop.step (fun s => s.pChannel.pChannel = false)
      run.start run.turns ∨
    Serves (fun s : SshLoop => pLines[s.ulLine]?) SshLoop.step SshBrings pLines.zipIdx
      run.start run.turns

section
variable {pLines : List SwsCmd} {line : SwsCmd × Nat} {pLine : SwsCmd} {k : Nat}

/-- The line with the number that the script has come to. -/
theorem line_eq (hline : line ∈ pLines.zipIdx) (hk : k = line.2) (hdo : pLines[k]? = some pLine) :
    line.1 = pLine := by
  have hget := List.mem_zipIdx_iff_getElem?.mp hline
  rw [← hk, hdo] at hget
  exact (Option.some.inj hget).symm

theorem telnet_answers (hline : line ∈ pLines.zipIdx) (s : TelnetLoop) (turn : TelnetTurn)
    (hdo : pLines[s.ulLine]? = some pLine) :
    Answers line (TelnetLoop.step pLine s turn).out ↔ TelnetBrings line s turn := by
  simp only [Answers, TelnetBrings, TelnetLoop.step]
  refine and_congr_right fun hk => ?_
  have heq := line_eq hline hk hdo
  constructor
  · rintro ⟨hprompt, -, hwritten⟩
    exact ⟨hprompt, hwritten⟩
  · rintro ⟨⟨pReadLine, hread, hprompt⟩, hwritten⟩
    refine ⟨⟨pReadLine, hread, hprompt⟩, ?_, hwritten⟩
    rw [hread, TelnetLoop.answer, if_pos (heq ▸ hprompt), heq]
    exact List.mem_singleton_self _

/-- Checking the timer can only add to what is sent. -/
theorem check_out (s : SshLoop) (turn : SshTurn) (exchange : AcExchange) :
    ∃ exits, (s.check turn exchange).out = { exchange with sent := exchange.sent ++ exits } := by
  unfold SshLoop.check
  split
  · exact ⟨_, rfl⟩
  · exact ⟨[], by rw [List.append_nil]⟩

/-- The exchange of a turn that reads a printable line. -/
theorem step_out {s : SshLoop} {turn : SshTurn} {pReadLine : Text}
    (hread : (s.read turn).1 = some pReadLine) (pLine : SwsCmd) : ∃ exits,
      (SshLoop.step pLine s turn).out =
        ⟨some pReadLine, s.ulLine,
          (SshLoop.answer pLine (s.read turn).2 turn (.of pLine pReadLine)).1 ++ exits,
          s.opened && turn.written⟩ := by
  simp only [SshLoop.step, hread]
  split
  · exact ⟨[], by rw [List.append_nil]⟩
  · exact check_out _ _ _

theorem step_out_none {s : SshLoop} {turn : SshTurn} (hread : (s.read turn).1 = none)
    (pLine : SwsCmd) : (SshLoop.step pLine s turn).out.pReadLine = none := by
  simp only [SshLoop.step, hread]
  obtain ⟨exits, hout⟩ := check_out (s.read turn).2 turn
    ⟨none, s.ulLine, [], s.opened && turn.written⟩
  rw [hout]

theorem ssh_answers (hline : line ∈ pLines.zipIdx) (s : SshLoop) (turn : SshTurn)
    (hdo : pLines[s.ulLine]? = some pLine) :
    Answers line (SshLoop.step pLine s turn).out ↔ SshBrings line s turn := by
  rw [Answers, SshBrings]
  cases hread : (s.read turn).1 with
  | none =>
    rw [step_out_none hread]
    constructor
    · rintro ⟨-, ⟨pReadLine, hsome, -⟩, -⟩
      cases hsome
    · rintro ⟨-, ⟨pReadLine, hsome, -⟩, -⟩
      cases hsome
  | some pReadLine =>
    obtain ⟨exits, hout⟩ := step_out hread pLine
    rw [hout]
    refine and_congr_right fun hk => ?_
    have heq := line_eq hline hk hdo
    constructor
    · rintro ⟨hprompt, -, hwritten⟩
      exact ⟨hprompt, hwritten⟩
    · rintro ⟨⟨pReadLine', hsome, hprompt⟩, hwritten⟩
      cases hsome
      refine ⟨⟨pReadLine, rfl, hprompt⟩, ?_, hwritten⟩
      rw [SshReply.of, if_pos (heq ▸ hprompt), SshLoop.answer, heq]
      exact List.mem_append_left _ (List.mem_singleton_self _)

end

section
variable {b : Buffer} {n : Nat} {pLine : SwsCmd} {s : SshLoop} {turn : SshTurn}

theorem sub_min_one (x : UInt32) : x.toNat ≤ (x - if x < 1 then x else 1).toNat + 1 := by
  split
  · rename_i hlt
    have hx : x.toNat < 1 := hlt
    omega
  · rename_i hge
    have hx : 1 ≤ x := UInt32.not_lt.mp hge
    rw [UInt32.toNat_sub_of_le _ _ hx, UInt32.toNat_one]
    omega

/-- No more than one byte is taken. -/
theorem popFront_ulDataLen (b : Buffer) :
    b.ulDataLen.toNat ≤ (b.popFront 1).2.ulDataLen.toNat + 1 := by
  unfold Buffer.popFront
  split
  · exact Nat.le_succ _
  · have hn := sub_min_one b.ulDataLen
    simp only
    generalize (if b.ulDataLen < 1 then b.ulDataLen else 1) = n at hn ⊢
    split
    · exact hn
    · exact hn

/-- A reading of no more than there is does not fail. -/
theorem readLoop_ok (h : n ≤ b.ulDataLen.toNat) : (SshChannel.readLoop n b).1 = .ok := by
  induction n generalizing b with
  | zero => rfl
  | succ n ih =>
    have hlen : b.ulDataLen ≠ 0 := by
      intro hz
      rw [hz] at h
      exact absurd h (Nat.not_succ_le_zero n)
    have hpop := popFront_ulDataLen (b.touch b.ulFirst.toNat 1)
    have hkeep : (b.touch b.ulFirst.toNat 1).ulDataLen = b.ulDataLen := rfl
    rw [hkeep] at hpop
    simp only [SshChannel.readLoop, Buffer.getFirst, if_neg hlen]
    split
    · rfl
    · split
      · exact ih (by omega)
      · exact ih (by omega)

theorem received_pChannel (received : List (List UInt8)) (ch : SshChannel) :
    (received.foldl SshChannel.threadMain ch).pChannel = ch.pChannel := by
  induction received generalizing ch with
  | nil => rfl
  | cons chunk received ih =>
    rw [List.foldl_cons, ih]
    rfl

theorem channel_read (ch : SshChannel) (ulBufferSize : UInt32) :
    ((ch.read ulBufferSize).1 ≠ .ok ↔ ch.pChannel = false) ∧
      (ch.read ulBufferSize).2.2.pChannel = ch.pChannel := by
  unfold SshChannel.read
  split
  · rename_i hnone
    exact ⟨iff_of_true (fun h => nomatch h) hnone, rfl⟩
  · rename_i hsome
    simp only
    split
    · exact ⟨iff_of_false (fun h => h rfl) hsome, rfl⟩
    · refine ⟨iff_of_false (fun h => h ?_) hsome, rfl⟩
      exact readLoop_ok (Nat.min_le_left _ _)

/-- A reading fails if and only if there is no channel, and leaves it so. -/
theorem read_channel (s : SshLoop) (turn : SshTurn) :
    ((s.read turn).2.xRet ≠ .ok ↔ s.pChannel.pChannel = false) ∧
      (s.read turn).2.pChannel.pChannel = s.pChannel.pChannel := by
  have hreceived : (if s.opened then turn.received.foldl SshChannel.threadMain s.pChannel
      else s.pChannel).pChannel = s.pChannel.pChannel := by
    split
    · exact received_pChannel _ _
    · rfl
  have hread := channel_read (if s.opened then turn.received.foldl SshChannel.threadMain s.pChannel
    else s.pChannel) 511
  rw [hreceived] at hread
  exact hread

theorem check_next (s : SshLoop) (turn : SshTurn) (exchange : AcExchange) :
    (s.check turn exchange).next.xRet = s.xRet ∧
      (s.check turn exchange).next.pChannel = s.pChannel := by
  unfold SshLoop.check
  split
  · exact ⟨rfl, rfl⟩
  · exact ⟨rfl, rfl⟩

theorem answer_next (pLine : SwsCmd) (s : SshLoop) (turn : SshTurn) (reply : SshReply) :
    (SshLoop.answer pLine s turn reply).2.xRet = s.xRet ∧
      (s.pChannel.pChannel = false →
        (SshLoop.answer pLine s turn reply).2.pChannel.pChannel = false) := by
  cases reply with
  | stars =>
    rw [SshLoop.answer]
    cases turn.reopened with
    | opened => exact ⟨rfl, id⟩
    | closed => exact ⟨rfl, id⟩
    | lost => exact ⟨rfl, fun _ => rfl⟩
  | _ => exact ⟨rfl, id⟩

/-- The result after a turn is that of its reading, and there is no channel where there was none. -/
theorem step_next (pLine : SwsCmd) (s : SshLoop) (turn : SshTurn) :
    (SshLoop.step pLine s turn).next.xRet = (s.read turn).2.xRet ∧
      ((s.read turn).2.pChannel.pChannel = false →
        (SshLoop.step pLine s turn).next.pChannel.pChannel = false) := by
  cases hread : (s.read turn).1 with
  | none =>
    simp only [SshLoop.step, hread]
    obtain ⟨hret, hchannel⟩ := check_next (s.read turn).2 turn
      ⟨none, s.ulLine, [], s.opened && turn.written⟩
    exact ⟨hret, fun h => by rw [hchannel, h]⟩
  | some pReadLine =>
    obtain ⟨hret, hchannel⟩ := answer_next pLine (s.read turn).2 turn (.of pLine pReadLine)
    simp only [SshLoop.step, hread]
    split
    · exact ⟨hret, hchannel⟩
    · obtain ⟨hret', hchannel'⟩ := check_next
        { (SshLoop.answer pLine (s.read turn).2 turn (.of pLine pReadLine)).2 with
          xTimer := .initMS turn.now 3000 } turn
        ⟨some pReadLine, s.ulLine,
          (SshLoop.answer pLine (s.read turn).2 turn (.of pLine pReadLine)).1,
          s.opened && turn.written⟩
      exact ⟨hret'.trans hret, fun h => by rw [hchannel', hchannel h]⟩

end

/-- The result of the loop is not OK if and only if it comes to a turn without a channel. -/
theorem ssh_fails_iff {pLines : List SwsCmd} {run : SshRun} {exchanges : List AcExchange}
    {s : SshLoop} (hloop : loop (fun s : SshLoop => pLines[s.ulLine]?) SshLoop.step run.start
      run.turns = some (exchanges, s)) :
    ¬s.xRet = .ok ↔ Comes (fun s : SshLoop => pLines[s.ulLine]?) SshLoop.step
      (fun s => s.pChannel.pChannel = false) run.start run.turns := by
  refine comes_iff _ (fun s => ¬s.xRet = .ok) hloop ?_ ?_ (fun h => h rfl)
  · intro pLine s turn
    rw [(step_next pLine s turn).1]
    exact (read_channel s turn).1
  · intro pLine s turn hnone
    exact (step_next pLine s turn).2 ((read_channel s turn).2.trans hnone)

section
variable {pLines : List SwsCmd} {outcome : AcOutcome}

/-- A call that stops before the loop says that it failed. -/
theorem stopped_iff {xRet : Ret} {applied served : Prop} (h : xRet ≠ .ok) :
    (xRet = .ok → applied) ↔ xRet ≠ .ok ∨ served :=
  iff_of_true (fun hok => absurd hok h) (.inl h)

/-- Over telnet the result is OK wherever the client could be made. -/
theorem telnet_applied_iff {run : TelnetRun} (h : run.setAC pLines = some outcome) :
    (outcome.xRet = .ok → Applied pLines outcome.exchanges) ↔ TelnetServes pLines run := by
  unfold TelnetRun.setAC at h
  split at h
  · rename_i hcreated
    cases h
    exact stopped_iff hcreated
  · rename_i hcreated
    rw [TelnetServes, or_iff_right hcreated]
    split at h
    · rename_i hopened
      cases h
      rw [or_iff_left (fun h => hopened h.1), Applied, sublistForall₂_nil, List.zipIdx_eq_nil_iff]
      exact ⟨fun h => h rfl, fun h _ => h⟩
    · rename_i hopened
      obtain ⟨⟨exchanges, s⟩, hloop, heq⟩ := Option.map_eq_some_iff.mp h
      cases heq
      have hserves := serves_iff hloop fun line hline pLine s turn hdo =>
        telnet_answers hline s turn hdo
      rw [and_iff_right (not_not.mp hopened), ← hserves, Applied]
      constructor
      · exact fun h => .inr (h rfl)
      · rintro (hnil | h) -
        · rw [hnil]
          exact .nil
        · exact h

/-- Over SSH the result is that of the first step that fails, or that of the loop's last turn. -/
theorem ssh_applied_iff {run : SshRun} (h : run.setAC pLines = some outcome) :
    (outcome.xRet = .ok → Applied pLines outcome.exchanges) ↔ SshServes pLines run := by
  unfold SshRun.setAC at h
  split at h
  · rename_i hcreated
    cases h
    exact stopped_iff hcreated
  · rename_i hcreated
    rw [SshServes, or_iff_right hcreated]
    split at h
    · rename_i hconnected
      cases h
      exact stopped_iff hconnected
    · rename_i hconnected
      rw [or_iff_right hconnected]
      split at h
      · rename_i hchannel
        cases h
        exact stopped_iff hchannel
      · rename_i hchannel
        rw [or_iff_right hchannel]
        split at h
        · rename_i hopened
          cases h
          exact stopped_iff hopened
        · rename_i hopened
          obtain ⟨⟨exchanges, s⟩, hloop, heq⟩ := Option.map_eq_some_iff.mp h
          cases heq
          have hserves := serves_iff hloop fun line hline pLine s turn hdo =>
            ssh_answers hline s turn hdo
          rw [or_iff_right hopened, ← hserves, ← ssh_fails_iff hloop, Applied]
          exact imp_iff_not_or

end

/-- A call that returns OK has applied the script if and only if its turns bring the script's
lines. -/
theorem script_applied_iff (pLines : List SwsCmd) :
    (∀ (run : TelnetRun) (outcome : AcOutcome), run.setAC pLines = some outcome →
      ((outcome.xRet = .ok → Applied pLines outcome.exchanges) ↔ TelnetServes pLines run)) ∧
    ∀ (run : SshRun) (outcome : AcOutcome), run.setAC pLines = some outcome →
      ((outcome.xRet = .ok → Applied pLines outcome.exchanges) ↔ SshServes pLines run) :=
  ⟨fun _ _ h => telnet_applied_iff h, fun _ _ h => ssh_applied_iff h⟩

def login : SwsCmd := ⟨Field.copy _ "login:".toList, Field.copy _ "admin".toList⟩

/-- The device asks for the login at once, and reads the answer. -/
def promptly : TelnetRun :=
  ⟨.ok, .ok, 100000000,
    [⟨[[0x6C, 0x6F, 0x67, 0x69, 0x6E, 0x3A, 0x20]], 100100000, 100101000, true⟩]⟩

/-- The prompt is read, and the input sent. -/
theorem login_answered : (∃ logs, promptly.setAC [login] =
      some ⟨.ok, [⟨some "login: ".toList, 0, ["admin".toList], true⟩], logs⟩) ∧
    TelnetServes [login] promptly :=
  ⟨⟨_, rfl⟩, ((script_applied_iff [login]).1 promptly _ rfl).mp fun _ =>
    .cons ⟨rfl, ⟨_, rfl, rfl⟩, List.mem_singleton_self _, rfl⟩ .nil⟩

/-- The call also returns OK where there is no connection over telnet, and where the device stays
silent for four seconds over SSH. -/
theorem nothing_applied :
    (¬∀ (pLines : List SwsCmd) (run : TelnetRun) (outcome : AcOutcome),
      run.setAC pLines = some outcome → outcome.xRet = .ok →
        Applied pLines outcome.exchanges) ∧
    ¬∀ (pLines : List SwsCmd) (run : SshRun) (outcome : AcOutcome),
      run.setAC pLines = some outcome → outcome.xRet = .ok →
        Applied pLines outcome.exchanges := by
  constructor
  · intro h
    have happlied := h [login] ⟨.ok, .error, 100000000, []⟩ _ rfl rfl
    cases happlied
  · intro h
    have happlied := h [login] ⟨.ok, .ok, .ok, .ok, 100000000,
      [⟨[], .opened, 100000000, 104000000, true, 0⟩]⟩ _ rfl rfl
    cases happlied with
    | cons hanswers _ =>
      obtain ⟨-, ⟨pReadLine, hread, -⟩, -⟩ := hanswers
      cases hread
    | cons_right hrest => cases hrest

end Catchb.Proofs.ScriptApplied
