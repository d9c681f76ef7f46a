import Catchb.Smtpc

/-! When a mail that is reported as sent has reached the server, as it was composed. -/

namespace Catchb.Proofs.MailDelivery
open Lib Smtpc Notifier

/-! The server. -/

structure Reply where
  code : Nat
  more : List Text
  last : Text

/-- Every line has the code, and all but the last a dash behind it. -/
def Reply.text (r : Reply) : Text :=
  r.more.flatMap (fun line => decimal r.code ++ '-' :: line ++ DotLines.crlf) ++
    (decimal r.code ++ ' ' :: r.last ++ DotLines.crlf)

def reads : List SmtpCommand := [.greeting, .ehlo, .auth, .passwd, .mail, .rcpt, .data, .finish]

def data (x : SmtpExchange) : Text :=
  match x.poll with
  | .recv (some data) => data
  | _ => []

/-- A server's replies, and how they are cut into what is read: no more is read than the server has
said by then. -/
structure Session where
  net : Network
  reply : SmtpCommand → Reply
  cut : ∀ k, (reads.take k).flatMap (fun command => data (net.exchange command)) <+:
    (reads.take k).flatMap (fun command => (reply command).text)
  short : ∀ command, (data (net.exchange command)).length ≤ 2048

/-- The server takes the sender, the receiver, the beginning of the text and the text. -/
def Accepts (reply : SmtpCommand → Reply) : Prop :=
  (reply .mail).code / 100 = 2 ∧ (reply .rcpt).code / 100 = 2 ∧ (reply .data).code / 100 = 3 ∧
    (reply .finish).code / 100 = 2

instance (reply : SmtpCommand → Reply) : Decidable (Accepts reply) :=
  inferInstanceAs (Decidable (_ ∧ _))

/-- The text, and its end. -/
def textSent (sent : List (SmtpCommand × Text)) : List (SmtpCommand × Text) :=
  sent.filter (fun s => s.1 = .body ∨ s.1 = .finish)

/-- The mail that the server stores when it has answered the end of the text. -/
def stored (reply : SmtpCommand → Reply) (sent : List (SmtpCommand × Text)) : Option Text :=
  if Accepts reply ∧ .finish ∈ (textSent sent).map Prod.fst then
    DotLines.mailOf ((textSent sent).flatMap Prod.snd)
  else none

/-- A mail reported as sent has been accepted, and what is stored is what was composed. -/
structure Delivered (xSMTP : NotifierSmtpConfig) (pDate : Field 63) (pAlarm : FtmAlarm)
    (s : Session) : Prop where
  accepted : (onSendAlarm xSMTP pDate pAlarm s.net).1 = .ok → Accepts s.reply
  exact : ∀ mail, stored s.reply (onSendAlarm xSMTP pDate pAlarm s.net).2 = some mail →
    mail = pBody pDate xSMTP.pSender pAlarm

/-! The client. -/

section
variable {net : Network} {pSMTPC : Smtpc}

/-- Something is read. -/
def Reads (net : Network) (command : SmtpCommand) : Prop :=
  ∃ pBuff, Smtpc.read (net.exchange command) = .ok pBuff

/-- A command is written, and something is read behind it. -/
def Answered (net : Network) (command : SmtpCommand) : Prop :=
  (net.exchange command).writes = true ∧ Reads net command

/-- What is read begins with the code. -/
def Answers (net : Network) (command : SmtpCommand) (nCode : Int) : Prop :=
  (net.exchange command).writes = true ∧
    ∃ pBuff, Smtpc.read (net.exchange command) = .ok pBuff ∧ atol pBuff = nCode

/-- The login succeeds, and everything up to the text is written and followed by something. -/
structure BodySent (net : Network) : Prop where
  alloc : net.alloc = true
  socket : net.socket = true
  greeting : Reads net .greeting
  ehlo : Answers net .ehlo 250
  auth : Answers net .auth 334
  passwd : Answers net .passwd 235
  mail : Answered net .mail
  rcpt : Answered net .rcpt
  data : Answered net .data
  body : (net.exchange .body).writes = true

theorem andThen_ok {r : Ret × Smtpc} {next : Smtpc → Ret × Smtpc} :
    (andThen r next).1 = .ok ↔ r.1 = .ok ∧ (next r.2).1 = .ok := by
  obtain ⟨ret, p⟩ := r
  cases ret with
  | ok => exact (and_iff_right rfl).symm
  | _ => exact iff_of_false (by simp [andThen]) (by simp)

theorem andThen_assoc (r : Ret × Smtpc) (f g : Smtpc → Ret × Smtpc) :
    andThen r (fun p => andThen (f p) g) = andThen (andThen r f) g := by
  obtain ⟨ret, p⟩ := r
  cases ret <;> rfl

theorem write_ok {command : SmtpCommand} {pData : Text} :
    (write net command pData pSMTPC).1 = .ok ↔ (net.exchange command).writes = true := by
  unfold write
  split <;> simp_all

theorem read_error {x : SmtpExchange} {ret : Ret} (h : Smtpc.read x = .error ret) : ret ≠ .ok := by
  unfold Smtpc.read at h
  split at h <;> cases h <;> decide

theorem receive_ok {command : SmtpCommand} :
    (receive net command pSMTPC).1 = .ok ↔ Reads net command := by
  unfold receive
  split
  · rename_i pBuff hread
    exact iff_of_true rfl ⟨pBuff, hread⟩
  · rename_i ret hread
    refine iff_of_false (read_error hread) ?_
    rintro ⟨pBuff, hbuff⟩
    rw [hread] at hbuff
    cases hbuff

theorem sendAndReceive_ok {command : SmtpCommand} {pData : Text} :
    (sendAndReceive net command pData pSMTPC).1 = .ok ↔ Answered net command := by
  rw [sendAndReceive, andThen_ok, write_ok, receive_ok, Answered]

theorem expect_ok {nCode : Int} : (expect nCode pSMTPC).1 = .ok ↔ pSMTPC.nCode = nCode := by
  unfold expect
  split <;> simp_all

/-- The code is that of what is read last. -/
theorem expected_ok {command : SmtpCommand} {pData : Text} {nCode : Int} :
    (andThen (sendAndReceive net command pData pSMTPC) (expect nCode)).1 = .ok ↔
      Answers net command nCode := by
  rw [andThen_ok, sendAndReceive_ok, Answered, expect_ok, Answers]
  constructor
  · rintro ⟨⟨hwrites, pBuff, hbuff⟩, hcode⟩
    refine ⟨hwrites, pBuff, hbuff, ?_⟩
    rw [sendAndReceive, write, if_pos hwrites, andThen, receive, hbuff] at hcode
    exact hcode
  · rintro ⟨hwrites, pBuff, hbuff, hcode⟩
    refine ⟨⟨hwrites, pBuff, hbuff⟩, ?_⟩
    rw [sendAndReceive, write, if_pos hwrites, andThen, receive, hbuff]
    exact hcode

theorem sendGreeting_ok : (sendGreeting net pSMTPC).1 = .ok ↔ Answers net .ehlo 250 := expected_ok

theorem encode_ok {n : Nat} (t : Field n) (h : 4 * ((n + 2) / 3) ≤ 1024) :
    ∃ e, Base64.encode t.val 1024 = .ok e := by
  have := t.property
  exact ⟨_, if_neg (by omega)⟩

theorem sendAuth_ok (pUserID : Field 64) (pPasswd : Field 32) :
    (sendAuth net pUserID.val pPasswd.val pSMTPC).1 = .ok ↔
      Answers net .auth 334 ∧ Answers net .passwd 235 := by
  obtain ⟨pEncodedID, hid⟩ := encode_ok pUserID (by decide)
  obtain ⟨pEncodedPW, hpw⟩ := encode_ok pPasswd (by decide)
  simp only [sendAuth, hid, hpw]
  rw [andThen_ok, expected_ok, expected_ok]

theorem connect_ok : (connect net pSMTPC).1 = .ok ↔
    net.socket = true ∧ Reads net .greeting := by
  unfold connect
  split
  · rename_i hsocket
    rw [receive_ok, and_iff_right hsocket]
  · rename_i hsocket
    exact iff_of_false (fun h => by cases h) (fun h => hsocket h.1)

end

section
variable (xSMTP : NotifierSmtpConfig) (pDate : Field 63) (pAlarm : FtmAlarm) (net : Network)

def newSmtpc : Smtpc := ⟨xSMTP.pServer, if xSMTP.usPort = 0 then 25 else xSMTP.usPort, 0, []⟩

/-- The run up to the command that begins the text. -/
def beforeBody : Ret × Smtpc :=
  let r := connect net (newSmtpc xSMTP)
  let r := andThen r (sendGreeting net)
  let r := andThen r (sendAuth net xSMTP.pUserID.val xSMTP.pPasswd.val)
  let r := andThen r (sendFrom net xSMTP.pSender.val)
  let r := andThen r (sendTo net pAlarm.pEmail.val)
  andThen r (startBody net)

def afterBody : Ret × Smtpc :=
  andThen (beforeBody xSMTP pAlarm net) (sendRawBody net (pBody pDate xSMTP.pSender pAlarm))

theorem andThen_sendMessage (r : Ret × Smtpc) (pMessage : Text) :
    andThen r (sendMessage net pMessage) =
      andThen (andThen (andThen r (startBody net)) (sendRawBody net pMessage)) (endBody net) := by
  have hmessage : sendMessage net pMessage = fun p =>
      andThen (andThen (startBody net p) (sendRawBody net pMessage)) (endBody net) := rfl
  rw [hmessage, andThen_assoc r (fun p => andThen (startBody net p) (sendRawBody net pMessage)),
    andThen_assoc]

theorem onSendAlarm_eq (h : xSMTP.bEnable = true) (halloc : net.alloc = true) :
    onSendAlarm xSMTP pDate pAlarm net =
      let r := andThen (afterBody xSMTP pDate pAlarm net) (endBody net)
      (r.1, r.2.sent) := by
  simp only [onSendAlarm, h, halloc, Bool.not_true, Bool.false_eq_true, ↓reduceIte,
    andThen_sendMessage]
  rfl

theorem beforeBody_ok : (beforeBody xSMTP pAlarm net).1 = .ok ↔
    net.socket = true ∧ Reads net .greeting ∧ Answers net .ehlo 250 ∧
      Answers net .auth 334 ∧ Answers net .passwd 235 ∧ Answered net .mail ∧ Answered net .rcpt ∧
      Answered net .data := by
  simp only [beforeBody, andThen_ok, connect_ok, sendGreeting_ok, sendAuth_ok, sendFrom, sendTo,
    sendCmdAndArg, startBody, sendAndReceive_ok, and_assoc]

theorem afterBody_ok (halloc : net.alloc = true) :
    (afterBody xSMTP pDate pAlarm net).1 = .ok ↔ BodySent net := by
  rw [afterBody, andThen_ok, beforeBody_ok, sendRawBody, write_ok]
  constructor
  · rintro ⟨⟨hsocket, hgreeting, hehlo, hauth, hpasswd, hmail, hrcpt, hdata⟩, hbody⟩
    exact ⟨halloc, hsocket, hgreeting, hehlo, hauth, hpasswd, hmail, hrcpt, hdata, hbody⟩
  · intro h
    exact ⟨⟨h.socket, h.greeting, h.ehlo, h.auth, h.passwd, h.mail, h.rcpt, h.data⟩, h.body⟩

end

/-! What is sent. -/

theorem textSent_append (sent : List (SmtpCommand × Text)) (command : SmtpCommand) (t : Text) :
    textSent (sent ++ [(command, t)]) =
      textSent sent ++ if command = .body ∨ command = .finish then [(command, t)] else [] := by
  rw [textSent, textSent, List.filter_append, List.filter_singleton]
  simp only [Bool.cond_decide]

/-- A step that sends nothing of the text. -/
def Quiet (next : Smtpc → Ret × Smtpc) : Prop := ∀ p, textSent (next p).2.sent = textSent p.sent

section
variable {net : Network}

theorem Quiet.result {g : Smtpc → Ret × Smtpc} (hg : Quiet g) (r : Ret × Smtpc) :
    textSent (Smtpc.andThen r g).2.sent = textSent r.2.sent := by
  obtain ⟨ret, q⟩ := r
  cases ret with
  | ok => exact hg q
  | _ => rfl

theorem Quiet.andThen {f g : Smtpc → Ret × Smtpc} (hf : Quiet f) (hg : Quiet g) :
    Quiet (fun p => Smtpc.andThen (f p) g) :=
  fun p => (hg.result (f p)).trans (hf p)

theorem receive_sent (command : SmtpCommand) (p : Smtpc) :
    (receive net command p).2.sent = p.sent := by
  unfold receive
  split <;> rfl

theorem quiet_sendAndReceive {command : SmtpCommand} (h : ¬(command = .body ∨ command = .finish))
    (pData : Text) : Quiet (sendAndReceive net command pData) := by
  refine Quiet.andThen (f := write net command pData) ?_ ?_
  · intro p
    unfold write
    split
    · rw [textSent_append, if_neg h, List.append_nil]
    · rfl
  · intro p
    rw [receive_sent]

theorem quiet_expect (nCode : Int) : Quiet (expect nCode) := fun _ => rfl

theorem quiet_sendAuth (pUserID pPasswd : Text) : Quiet (sendAuth net pUserID pPasswd) := by
  intro p
  unfold sendAuth
  split
  · exact Quiet.andThen (f := fun p => andThen (sendAndReceive net .auth _ p) (expect 334))
      (Quiet.andThen (quiet_sendAndReceive (by decide) _) (quiet_expect _))
      (Quiet.andThen (quiet_sendAndReceive (by decide) _) (quiet_expect _)) p
  · rfl
  · rfl

end

section
variable (xSMTP : NotifierSmtpConfig) (pDate : Field 63) (pAlarm : FtmAlarm) {net : Network}

theorem textSent_beforeBody : textSent (beforeBody xSMTP pAlarm net).2.sent = [] := by
  have hconnect : textSent (connect net (newSmtpc xSMTP)).2.sent = [] := by
    unfold connect
    split
    · rw [receive_sent]
      rfl
    · rfl
  have hgreeting : Quiet (sendGreeting net) :=
    fun p => Quiet.andThen (quiet_sendAndReceive (by decide) _) (quiet_expect 250) p
  have hcommand {command : SmtpCommand} (h : ¬(command = .body ∨ command = .finish))
      (pCmd pArg : Text) :
      Quiet (sendCmdAndArg net command pCmd pArg) := quiet_sendAndReceive h _
  have hfrom : Quiet (sendFrom net xSMTP.pSender.val) := hcommand (by decide) _ _
  have hto : Quiet (sendTo net pAlarm.pEmail.val) := hcommand (by decide) _ _
  have hstart : Quiet (startBody net) := quiet_sendAndReceive (by decide) _
  simp only [beforeBody]
  rw [hstart.result, hto.result, hfrom.result, (quiet_sendAuth _ _).result, hgreeting.result,
    hconnect]

theorem andThen_of_ok {r : Ret × Smtpc} (h : r.1 = .ok) (g : Smtpc → Ret × Smtpc) :
    Smtpc.andThen r g = g r.2 := by
  obtain ⟨ret, q⟩ := r
  cases h
  rfl

theorem andThen_of_not_ok {r : Ret × Smtpc} (h : r.1 ≠ .ok) (g : Smtpc → Ret × Smtpc) :
    Smtpc.andThen r g = r := by
  obtain ⟨ret, q⟩ := r
  cases ret with
  | ok => exact absurd rfl h
  | _ => rfl

theorem textSent_afterBody (halloc : net.alloc = true) :
    (BodySent net → textSent (afterBody xSMTP pDate pAlarm net).2.sent =
      [(.body, pBody pDate xSMTP.pSender pAlarm)]) ∧
    (¬BodySent net → textSent (afterBody xSMTP pDate pAlarm net).2.sent = []) := by
  have hbefore : textSent (beforeBody xSMTP pAlarm net).2.sent = [] :=
    textSent_beforeBody xSMTP pAlarm
  have hafter := afterBody_ok xSMTP pDate pAlarm net halloc
  constructor
  · intro hsent
    rw [afterBody, andThen_of_ok (andThen_ok.mp (hafter.mpr hsent)).1, sendRawBody, write,
      if_pos hsent.body, textSent_append, hbefore]
    rfl
  · intro hsent
    by_cases hok : (beforeBody xSMTP pAlarm net).1 = .ok
    · have hfail : ¬(net.exchange .body).writes = true := fun hwrites => hsent (hafter.mp (by
        rw [afterBody, andThen_ok, sendRawBody, write_ok]
        exact ⟨hok, hwrites⟩))
      rw [afterBody, andThen_of_ok hok, sendRawBody, write, if_neg hfail, hbefore]
    · rw [afterBody, andThen_of_not_ok hok, hbefore]

/-- What the end of the text adds, where it is written. -/
def endSent (net : Network) : List (SmtpCommand × Text) :=
  if (net.exchange .finish).writes then [(.finish, DotLines.ending)] else []

/-- The text is sent as far as the run gets. -/
theorem textSent_onSendAlarm (h : xSMTP.bEnable = true) :
    (BodySent net → textSent (onSendAlarm xSMTP pDate pAlarm net).2 =
      (.body, pBody pDate xSMTP.pSender pAlarm) :: endSent net) ∧
    (¬BodySent net → textSent (onSendAlarm xSMTP pDate pAlarm net).2 = []) := by
  cases halloc : net.alloc with
  | false =>
    have hnone : (onSendAlarm xSMTP pDate pAlarm net).2 = [] := by
      rw [onSendAlarm, h, halloc]
      rfl
    rw [hnone]
    exact ⟨fun hsent => absurd (hsent.alloc.symm.trans halloc) (by decide), fun _ => rfl⟩
  | true =>
    have hafter := textSent_afterBody xSMTP pDate pAlarm halloc
    have hok := afterBody_ok xSMTP pDate pAlarm net halloc
    rw [onSendAlarm_eq xSMTP pDate pAlarm net h halloc]
    change (_ → textSent (andThen (afterBody xSMTP pDate pAlarm net) (endBody net)).2.sent = _) ∧
      (_ → textSent (andThen (afterBody xSMTP pDate pAlarm net) (endBody net)).2.sent = _)
    constructor
    · intro hsent
      have hbody := hafter.1 hsent
      rw [andThen_of_ok (hok.mpr hsent), endBody, sendAndReceive, endSent]
      generalize (afterBody xSMTP pDate pAlarm net).2 = p at hbody
      by_cases hwrites : (net.exchange .finish).writes = true
      · rw [write, if_pos hwrites, if_pos hwrites, andThen, receive_sent, textSent_append,
          hbody]
        rfl
      · rw [write, if_neg hwrites, if_neg hwrites, ← hbody]
        rfl
    · intro hsent
      rw [andThen_of_not_ok (fun h => hsent (hok.mp h)), hafter.2 hsent]

theorem onSendAlarm_ok (h : xSMTP.bEnable = true) :
    (onSendAlarm xSMTP pDate pAlarm net).1 = .ok ↔ BodySent net ∧ Answered net .finish := by
  cases halloc : net.alloc with
  | false =>
    have hnot : ¬BodySent net := fun hsent => by
      rw [hsent.alloc] at halloc
      cases halloc
    rw [onSendAlarm, h, halloc]
    exact iff_of_false (fun h => by cases h) (fun h => hnot h.1)
  | true =>
    rw [onSendAlarm_eq xSMTP pDate pAlarm net h halloc]
    change (andThen (afterBody xSMTP pDate pAlarm net) (endBody net)).1 = _ ↔ _
    rw [andThen_ok, afterBody_ok _ _ _ _ halloc, endBody, sendAndReceive_ok]

/-- No line of the text begins with a dot, wherever the text has its lines from. -/
structure Plain (pDate : Field 63) (pSender : Field 32) (pAlarm : FtmAlarm) : Prop where
  date : ¬DotLines.Dotted pDate.val
  sender : ¬DotLines.Dotted pSender.val
  email : ¬DotLines.Dotted pAlarm.pEmail.val
  message : ¬DotLines.Dotted (DotLines.crlf ++ pAlarm.pMessage.val)

/-- The fields of the body, with a character before and behind each that no line begins with. -/
theorem pBody_lines (pSender : Field 32) : DotLines.crlf ++ pBody pDate pSender pAlarm =
    (DotLines.crlf ++ "Date".toList) ++ ':' :: (pDate.val ++ DotLines.crlf ++ 'F' ::
      ("rom:".toList ++ '<' :: (pSender.val ++ '>' :: ((DotLines.crlf ++ "To:".toList) ++ '<' ::
        (pAlarm.pEmail.val ++ '>' :: ((DotLines.crlf ++ "Subject:ALARM".toList) ++ '!' ::
          (DotLines.crlf ++ (DotLines.crlf ++ pAlarm.pMessage.val ++ DotLines.crlf ++
            DotLines.crlf)))))))) := by
  have hdate : "Date:".toList = "Date".toList ++ [':'] := by decide
  have hfrom : "From:<".toList = 'F' :: ("rom:".toList ++ ['<']) := by decide
  have hto : "To:<".toList = "To:".toList ++ ['<'] := by decide
  have hsubject : "Subject:".toList ++ "ALARM!".toList = "Subject:ALARM".toList ++ ['!'] := by decide
  have hline : "\r\n".toList = DotLines.crlf := by decide
  have hclose : ">\r\n".toList = '>' :: DotLines.crlf := by decide
  have hempty : "\r\n\r\n".toList = DotLines.crlf ++ DotLines.crlf := by decide
  unfold pBody
  simp only [hsubject, hdate, hfrom, hto, hline, hclose, hempty, List.append_assoc,
    List.cons_append, List.nil_append]

theorem plain_iff (pSender : Field 32) :
    ¬DotLines.Dotted (DotLines.crlf ++ pBody pDate pSender pAlarm) ↔
      Plain pDate pSender pAlarm := by
  have hempty (t : Text) : DotLines.Dotted (DotLines.crlf ++ (DotLines.crlf ++ t)) ↔
      DotLines.Dotted (DotLines.crlf ++ t) := by
    change DotLines.Dotted ('\r' :: '\n' :: (DotLines.crlf ++ t)) ↔ _
    rw [DotLines.dotted_cons (by simp [DotLines.crlf, DotLines.crlfDot]),
      DotLines.dotted_cons (by simp [DotLines.crlfDot])]
  have hmessage : DotLines.Dotted (DotLines.crlf ++ (DotLines.crlf ++ pAlarm.pMessage.val ++
      DotLines.crlf ++ DotLines.crlf)) ↔ DotLines.Dotted (DotLines.crlf ++ pAlarm.pMessage.val) := by
    rw [← List.append_assoc, ← List.append_assoc, DotLines.dotted_append_crlf,
      DotLines.dotted_append_crlf, hempty]
  have hdate : ¬DotLines.Dotted (DotLines.crlf ++ "Date".toList) := by decide
  have hfrom : ¬DotLines.Dotted "rom:".toList := by decide
  have hto : ¬DotLines.Dotted (DotLines.crlf ++ "To:".toList) := by decide
  have hsubject : ¬DotLines.Dotted (DotLines.crlf ++ "Subject:ALARM".toList) := by decide
  rw [pBody_lines, DotLines.dotted_append_cons (by decide), DotLines.dotted_append_cons (by decide),
    DotLines.dotted_append_crlf, DotLines.dotted_append_cons (by decide),
    DotLines.dotted_append_cons (by decide), DotLines.dotted_append_cons (by decide),
    DotLines.dotted_append_cons (by decide), DotLines.dotted_append_cons (by decide), hmessage,
    or_iff_right hdate, or_iff_right hfrom, or_iff_right hto, or_iff_right hsubject]
  simp only [not_or]
  constructor
  · rintro ⟨hd, hs, he, hm⟩
    exact ⟨hd, hs, he, hm⟩
  · intro h
    exact ⟨h.date, h.sender, h.email, h.message⟩

/-- For every server, every way its replies are cut, and every text. -/
theorem delivered_iff (h : xSMTP.bEnable = true) (s : Session) :
    Delivered xSMTP pDate pAlarm s ↔
      (BodySent s.net ∧ Answered s.net .finish → Accepts s.reply) ∧
      (BodySent s.net ∧ (s.net.exchange .finish).writes = true ∧ Accepts s.reply →
        Plain pDate xSMTP.pSender pAlarm) := by
  have hok : (onSendAlarm xSMTP pDate pAlarm s.net).1 = .ok ↔
      BodySent s.net ∧ Answered s.net .finish := onSendAlarm_ok xSMTP pDate pAlarm h
  have hsent : BodySent s.net → textSent (onSendAlarm xSMTP pDate pAlarm s.net).2 =
      (.body, pBody pDate xSMTP.pSender pAlarm) :: endSent s.net :=
    (textSent_onSendAlarm xSMTP pDate pAlarm h).1
  have hunsent : ¬BodySent s.net → textSent (onSendAlarm xSMTP pDate pAlarm s.net).2 = [] :=
    (textSent_onSendAlarm xSMTP pDate pAlarm h).2
  obtain ⟨mail, hmail, hexact⟩ := DotLines.mailOf_append_ending (pBody pDate xSMTP.pSender pAlarm)
  rw [plain_iff] at hexact
  have hstored (hb : BodySent s.net) (hw : (s.net.exchange .finish).writes = true)
      (ha : Accepts s.reply) :
      stored s.reply (onSendAlarm xSMTP pDate pAlarm s.net).2 = some mail := by
    rw [stored, hsent hb, endSent, if_pos hw, if_pos ⟨ha, by simp⟩, ← hmail]
    simp
  have hnone (hn : ¬(BodySent s.net ∧ (s.net.exchange .finish).writes = true ∧ Accepts s.reply)) :
      stored s.reply (onSendAlarm xSMTP pDate pAlarm s.net).2 = none := by
    rw [stored, if_neg]
    rintro ⟨ha, hfinish⟩
    by_cases hb : BodySent s.net
    · rw [hsent hb, endSent] at hfinish
      by_cases hw : (s.net.exchange .finish).writes = true
      · exact hn ⟨hb, hw, ha⟩
      · simp [hw] at hfinish
    · rw [hunsent hb] at hfinish
      cases hfinish
  constructor
  · intro hd
    refine ⟨fun hrun => hd.accepted (hok.mpr hrun), ?_⟩
    rintro ⟨hb, hw, ha⟩
    exact hexact.mp (hd.exact mail (hstored hb hw ha))
  · rintro ⟨haccepts, hplain⟩
    refine ⟨fun hret => haccepts (hok.mp hret), ?_⟩
    intro mail' hmail'
    by_cases hall : BodySent s.net ∧ (s.net.exchange .finish).writes = true ∧ Accepts s.reply
    · rw [hstored hall.1 hall.2.1 hall.2.2] at hmail'
      rw [← Option.some.inj hmail']
      exact hexact.mpr (hplain hall)
    · rw [hnone hall] at hmail'
      cases hmail'

end
/-- A server whose replies are one line each, read as a whole. -/
def answering (code : SmtpCommand → Nat)
    (h : ∀ command, (Reply.text ⟨code command, [], []⟩).length ≤ 2048) : Session where
  net := ⟨true, true, fun command => ⟨true, .recv (some (Reply.text ⟨code command, [], []⟩)),
    Vector.replicate 256 'x', Vector.replicate 2048 'x'⟩⟩
  reply command := ⟨code command, [], []⟩
  cut _ := List.prefix_rfl
  short := h

def goodCode : SmtpCommand → Nat
  | .greeting => 220
  | .auth => 334
  | .passwd => 235
  | .data => 354
  | _ => 250

/-- The receiver is not known to the server, which then refuses the text as well. -/
def refusing : SmtpCommand → Nat
  | .rcpt => 550
  | .data => 503
  | .finish => 500
  | command => goodCode command

def enabled : NotifierSmtpConfig := { NotifierSmtpConfig.default with bEnable := true }

def date : Field 63 := Field.copy _ "2015-01-01 00:00:00".toList

def offline : FtmAlarm :=
  ⟨Field.copy _ "admin".toList, Field.copy _ "a@b.c".toList, Field.copy _ "Camera lost".toList⟩

theorem short_good (command : SmtpCommand) : (Reply.text ⟨goodCode command, [], []⟩).length ≤ 2048 := by
  cases command <;> decide +kernel

theorem short_refusing (command : SmtpCommand) :
    (Reply.text ⟨refusing command, [], []⟩).length ≤ 2048 := by
  cases command <;> decide +kernel

theorem good_delivered : Delivered enabled date offline (answering goodCode short_good) :=
  (delivered_iff enabled date offline rfl _).mpr
    ⟨fun _ => by decide, fun _ => ⟨by decide, by decide, by decide, by decide⟩⟩

theorem refused_sent : BodySent (answering refusing short_refusing).net where
  alloc := rfl
  socket := rfl
  greeting := ⟨_, rfl⟩
  ehlo := ⟨rfl, _, rfl, by decide +kernel⟩
  auth := ⟨rfl, _, rfl, by decide +kernel⟩
  passwd := ⟨rfl, _, rfl, by decide +kernel⟩
  mail := ⟨rfl, _, rfl⟩
  rcpt := ⟨rfl, _, rfl⟩
  data := ⟨rfl, _, rfl⟩
  body := rfl

theorem refused_reported : ¬Delivered enabled date offline (answering refusing short_refusing) := by
  intro h
  have hok := (onSendAlarm_ok enabled date offline rfl).mpr ⟨refused_sent, rfl, _, rfl⟩
  have haccepts := h.accepted hok
  revert haccepts
  decide

end Catchb.Proofs.MailDelivery
