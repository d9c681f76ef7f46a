import Catchb.Proofs.FirstReaders
import Catchb.Proofs.Stream
import Catchb.ReaderLocks

/-! Which readers give the channel's lock back as often as they take it. -/

namespace Catchb.Proofs.LockBalance
open Lib SshChannel Buffer Proofs.Stream

/-- A ring buffer with the bytes that it holds. -/
structure HeldRing where
  buffer : Buffer
  bytes : List UInt8
  holding : Holding buffer bytes

/-- The readers. An SSH channel's buffer is found when the lock is taken. -/
inductive ReaderCall
  | telnetRead (pClient : TelnetClient) (ulBufferSize : UInt32)
  | telnetReadline (pClient : TelnetClient) (ulBufferSize : UInt32)
  | telnetReadline2 (pClient : TelnetClient) (ulBufferSize : UInt32)
  | sshRead (ch : SshChannel) (held : HeldRing) (ulBufferSize : UInt32)

def ReaderCall.reading : ReaderCall → ChannelReading
  | .telnetRead pClient ulBufferSize => pClient.read ulBufferSize
  | .telnetReadline pClient ulBufferSize => pClient.lockedReadline ulBufferSize
  | .telnetReadline2 pClient ulBufferSize => pClient.readline2 ulBufferSize
  | .sshRead ch held ulBufferSize => ch.lockedRead held.buffer ulBufferSize

/-- The lock is given back as often as it is taken. -/
def Balanced (sem : List SemCall) : Prop := sem.count .wait = sem.count .post

instance (sem : List SemCall) : Decidable (Balanced sem) := inferInstanceAs (Decidable (_ = _))

/-- There is a line feed among the bytes, and not only where the front index comes to the end of the
ring, behind which the byte is read. -/
def LineFeed (b : Buffer) (q : List UInt8) : Prop :=
  ∃ i, q[i]? = some lf ∧ i ≠ b.ulMaxSize.toNat - b.ulFirst.toNat

/-- The telnet connection is open. Over SSH the channel is closed, or the bytes that the size
promised are still there when the lock is taken, or a line feed ends the loop before. -/
def Keeps : ReaderCall → Prop
  | .telnetRead pClient _ | .telnetReadline pClient _ | .telnetReadline2 pClient _ =>
    pClient.pHandler = true
  | .sshRead ch held ulBufferSize => ch.pChannel = false ∨
      min ch.pBuffer.ulDataLen.toNat ulBufferSize.toNat ≤ held.bytes.length ∨
        LineFeed held.buffer held.bytes

section Telnet
variable (pClient : TelnetClient) (ulBufferSize : UInt32)

/-- What a telnet reader does to the lock. -/
def telnetSem (pHandler : Bool) : List SemCall := if pHandler then [.wait, .post] else [.post]

theorem read_sem : (pClient.read ulBufferSize).sem = telnetSem pClient.pHandler := by
  cases hopen : pClient.pHandler with
  | false => simp [TelnetClient.read, TelnetClient.finished, hopen, telnetSem]
  | true => simp [TelnetClient.read, TelnetClient.finished, hopen, telnetSem]

theorem readline_sem :
    (pClient.lockedReadline ulBufferSize).sem = telnetSem pClient.pHandler := by
  unfold TelnetClient.lockedReadline
  cases hopen : pClient.pHandler with
  | false => rfl
  | true =>
    dsimp only
    split
    · contradiction
    · split
      · rfl
      · split <;> rfl

theorem readline2_sem : (pClient.readline2 ulBufferSize).sem = telnetSem pClient.pHandler := by
  unfold TelnetClient.readline2
  cases hopen : pClient.pHandler with
  | false => rfl
  | true =>
    dsimp only
    split
    · contradiction
    · split
      · rfl
      · split
        · split <;> rfl
        · rfl

/-- Without its lock, the reader is the one of the switch's script. -/
theorem lockedReadline_eq :
    ((pClient.lockedReadline ulBufferSize).xRet, (pClient.lockedReadline ulBufferSize).bytes,
      { pClient with pBuffer := (pClient.lockedReadline ulBufferSize).pBuffer }) =
    pClient.readline ulBufferSize := by
  unfold TelnetClient.lockedReadline TelnetClient.readline
  dsimp only
  split
  · rfl
  · split
    · rfl
    · generalize TelnetClient.seek _ _ _ _ = found
      obtain ⟨xRet, item, b⟩ := found
      cases item <;> rfl

end Telnet

section Ssh
variable {b : Buffer} {q : List UInt8} {c : UInt8} {n : Nat}

theorem first_lt (h : Holding b q) (hend : b.ulFirst ≠ b.ulMaxSize) :
    b.ulFirst.toNat < b.ulMaxSize.toNat :=
  Nat.lt_of_le_of_ne h.first (fun he => hend (UInt32.toNat_inj.mp he))

/-- Behind a byte that is not taken for a line feed the same ones are left. -/
theorem lineFeed_cons {b' : Buffer} (h : Holding b (c :: q)) (hsize : b'.ulMaxSize = b.ulMaxSize)
    (hfirst : b'.ulFirst.toNat = if b.ulFirst = b.ulMaxSize then 1 else b.ulFirst.toNat + 1)
    (hc : (if b.ulFirst = b.ulMaxSize then 0 else c) ≠ lf) :
    LineFeed b (c :: q) ↔ LineFeed b' q := by
  have hroom := h.room
  rw [List.length_cons] at hroom
  have hplace : ∀ i < q.length, i + 1 ≠ b.ulMaxSize.toNat - b.ulFirst.toNat ↔
      i ≠ b'.ulMaxSize.toNat - b'.ulFirst.toNat := by
    intro i hi
    rw [hsize, hfirst]
    split
    · rename_i hend
      rw [hend]
      omega
    · rename_i hend
      have hlt := first_lt h hend
      omega
  constructor
  · rintro ⟨i, hi, hne⟩
    cases i with
    | zero =>
      rw [List.getElem?_cons_zero, Option.some.injEq] at hi
      have hend : b.ulFirst ≠ b.ulMaxSize := by
        intro hend
        rw [hend, Nat.sub_self] at hne
        exact hne rfl
      rw [if_neg hend] at hc
      exact absurd hi hc
    | succ i =>
      rw [List.getElem?_cons_succ] at hi
      exact ⟨i, hi, (hplace i (List.getElem?_eq_some_iff.mp hi).1).mp hne⟩
  · rintro ⟨i, hi, hne⟩
    refine ⟨i + 1, by rwa [List.getElem?_cons_succ], ?_⟩
    exact (hplace i (List.getElem?_eq_some_iff.mp hi).1).mpr hne

/-- The loop fails exactly where the bytes run out before its bound and before a line feed. -/
theorem readLoop_ok_iff (h : Holding b q) :
    (readLoop n b).1 = .ok ↔ n ≤ q.length ∨ LineFeed b q := by
  induction n generalizing b q with
  | zero => exact iff_of_true rfl (.inl (Nat.zero_le _))
  | succ n ih =>
    cases q with
    | nil =>
      have hempty : b.ulDataLen = 0 := UInt32.toNat.inj h.len
      have hfail : (readLoop (n + 1) b).1 = .listEmpty := by
        simp [readLoop, getFirst, hempty]
      rw [hfail]
      refine iff_of_false (by decide) ?_
      rintro (hle | ⟨i, hi, -⟩)
      · simp at hle
      · simp at hi
    | cons c q =>
      obtain ⟨b', hpop, hrest, hsize, hfirst⟩ := take_holding h
      simp only [readLoop, getFirst_holding h, hpop]
      by_cases hc : (if b.ulFirst = b.ulMaxSize then 0 else c) = lf
      · have hend : b.ulFirst ≠ b.ulMaxSize := by
          intro hend
          rw [if_pos hend] at hc
          exact absurd hc (by decide)
        have hlt := first_lt h hend
        rw [if_pos hc]
        rw [if_neg hend] at hc
        exact iff_of_true rfl (.inr ⟨0, by rw [List.getElem?_cons_zero, hc], by omega⟩)
      · rw [if_neg hc, lineFeed_cons h hsize hfirst hc, List.length_cons, Nat.succ_le_succ_iff,
          ← ih hrest]
        generalize (if b.ulFirst = b.ulMaxSize then 0 else c) = nData
        split <;> rfl

end Ssh

section Calls
variable {ch : SshChannel} {ulBufferSize : UInt32}

theorem given_back_iff {p : Prop} [Decidable p] :
    Balanced (if p then [.wait, .post] else [.wait]) ↔ p := by
  split
  · rename_i hp
    exact iff_of_true rfl hp
  · rename_i hp
    exact iff_of_false (by decide) hp

theorem lockedRead_balanced_iff (held : HeldRing) :
    Balanced (ch.lockedRead held.buffer ulBufferSize).sem ↔ ch.pChannel = false ∨
      min ch.pBuffer.ulDataLen.toNat ulBufferSize.toNat ≤ held.bytes.length ∨
        LineFeed held.buffer held.bytes := by
  have hloop := readLoop_ok_iff (n := min ch.pBuffer.ulDataLen.toNat ulBufferSize.toNat)
    held.holding
  unfold SshChannel.lockedRead
  by_cases hclosed : ch.pChannel = false
  · rw [if_pos hclosed]
    exact iff_of_true rfl (.inl hclosed)
  · rw [if_neg hclosed, or_iff_right hclosed]
    by_cases hempty : ch.pBuffer.ulDataLen = 0
    · simp only [getSize, hempty, ↓reduceIte]
      refine iff_of_true rfl (.inl ?_)
      rw [UInt32.toNat_zero, Nat.zero_min]
      exact Nat.zero_le _
    · simp only [getSize, hempty, ↓reduceIte]
      rw [← hloop]
      exact given_back_iff

/-- A reader gives the lock back as often as it takes it exactly if its telnet connection is open,
or if its SSH loop is not short of bytes. -/
theorem balanced_iff (call : ReaderCall) : Balanced call.reading.sem ↔ Keeps call := by
  have htelnet : ∀ pHandler, Balanced (telnetSem pHandler) ↔ pHandler = true := by decide
  cases call with
  | telnetRead pClient ulBufferSize =>
    rw [ReaderCall.reading, read_sem]
    exact htelnet pClient.pHandler
  | telnetReadline pClient ulBufferSize =>
    rw [ReaderCall.reading, readline_sem]
    exact htelnet pClient.pHandler
  | telnetReadline2 pClient ulBufferSize =>
    rw [ReaderCall.reading, readline2_sem]
    exact htelnet pClient.pHandler
  | sshRead ch held ulBufferSize => exact lockedRead_balanced_iff held

/-- A ring that another reader has left empty. -/
def noBytes : HeldRing :=
  ⟨.create 4096, [], ⟨Fifo.create_queues (by decide) (by decide), rfl⟩⟩

/-- A closed client gives back a lock that it has not taken, and an SSH channel whose only byte is
taken before it has the lock keeps it. -/
theorem lock_unbalanced :
    ¬ Balanced (ReaderCall.telnetRead ⟨false, .create 4096⟩ 512).reading.sem ∧
      ¬ Balanced (ReaderCall.sshRead ⟨true, (Buffer.create 4096).pushBack [65], 0⟩ noBytes
        511).reading.sem := by
  constructor
  · decide
  · decide

end Calls

section Receiver
variable {ch : SshChannel} {b : Buffer} {q : List UInt8}

theorem holding_bounds (h : Holding b q) : FirstReaders.Bounds b where
  len := by
    have hroom := h.room
    rw [h.len]
    omega
  first := h.first
  last := fun _ => h.last
  behind := h.slack

/-- A push keeps the ring's bytes or drops one for its own. -/
theorem push_grows (h : Holding b q) (c : UInt8) :
    ∃ q', Holding (b.pushBack [c]) q' ∧ q.length ≤ q'.length := by
  have hmin := h.min
  have hroom := h.room
  have hone : [c].length < b.ulMaxSize.toNat := by
    rw [List.length_singleton]
    omega
  have hqueues := Fifo.pushBack_queues h.toQueues hone
  refine ⟨_, ⟨hqueues, (FirstReaders.pushBack_bounds (holding_bounds h) hone).behind⟩, ?_⟩
  rw [List.length_append, List.length_drop, List.length_singleton, Fifo.excess]
  omega

theorem pushChunk_grows (h : Holding b q) (cs : List UInt8) :
    ∃ q', Holding (pushChunk b cs) q' ∧ q.length ≤ q'.length := by
  fun_induction pushChunk b cs generalizing q with
  | case1 b c₁ c₂ cs ih => exact ih h
  | case2 b c c₁ c₂ cs hc ih =>
    obtain ⟨q₁, h₁, hle⟩ := push_grows h c
    obtain ⟨q', h', hle'⟩ := ih h₁
    exact ⟨q', h', hle.trans hle'⟩
  | case3 b c c₁ =>
    obtain ⟨q₁, h₁, hle⟩ := push_grows h c
    obtain ⟨q', h', hle'⟩ := push_grows h₁ c₁
    exact ⟨q', h', hle.trans hle'⟩
  | case4 b c => exact push_grows h c
  | case5 b => exact ⟨q, h, le_rfl⟩

theorem chunks_grow (h : Holding b q) (chunks : List (List UInt8)) :
    ∃ q', Holding (chunks.foldl pushChunk b) q' ∧ q.length ≤ q'.length := by
  induction chunks generalizing b q with
  | nil => exact ⟨q, h, le_rfl⟩
  | cons cs chunks ih =>
    obtain ⟨q₁, h₁, hle⟩ := pushChunk_grows h cs
    obtain ⟨q', h', hle'⟩ := ih h₁
    exact ⟨q', h', hle.trans hle'⟩

/-- Whatever the receiving thread adds before the lock is taken, the reader gives the lock back. It
takes a second reader to leave it with too few bytes. -/
theorem receiver_balanced (h : Holding ch.pBuffer q) (chunks : List (List UInt8))
    (ulBufferSize : UInt32) :
    Balanced (ch.lockedRead (chunks.foldl pushChunk ch.pBuffer) ulBufferSize).sem := by
  obtain ⟨q', h', hle⟩ := chunks_grow h chunks
  refine (lockedRead_balanced_iff ⟨_, q', h'⟩).mpr (.inr (.inl ?_))
  rw [h.len]
  exact (Nat.min_le_left _ _).trans hle

/-- With its own buffer, the reader is the one of the switch's script. -/
theorem lockedRead_eq (ch : SshChannel) (ulBufferSize : UInt32) :
    ch.read ulBufferSize =
      ((ch.lockedRead ch.pBuffer ulBufferSize).xRet, (ch.lockedRead ch.pBuffer ulBufferSize).bytes,
        { ch with
          pBuffer := (ch.lockedRead ch.pBuffer ulBufferSize).pBuffer
          pLock := ch.pLock + (ch.lockedRead ch.pBuffer ulBufferSize).sem.count .wait -
            (ch.lockedRead ch.pBuffer ulBufferSize).sem.count .post }) := by
  unfold SshChannel.lockedRead SshChannel.read
  by_cases hclosed : ch.pChannel = false
  · rw [if_pos hclosed, if_pos hclosed]
    rfl
  rw [if_neg hclosed, if_neg hclosed]
  by_cases hempty : ch.pBuffer.ulDataLen = 0
  · simp [getSize, hempty]
  · simp only [getSize, hempty, ↓reduceIte]
    by_cases hok : (readLoop (min ch.pBuffer.ulDataLen.toNat ulBufferSize.toNat)
      ch.pBuffer).1 = .ok
    · simp [hok]
    · simp [hok]

/-- Every buffer that comes from small pushes and from pops holds its bytes. -/
theorem run_held {ulMaxSize : UInt32} {calls : List LongPush.BufferCall}
    (hmin : 2 ≤ ulMaxSize.toNat) (hmax : ulMaxSize.toNat ≤ Fifo.limit)
    (hcalls : ∀ c ∈ calls, FirstReaders.Small ulMaxSize c) :
    ∃ held : HeldRing, held.buffer = LongPush.after ulMaxSize calls := by
  obtain ⟨q, hq⟩ := FirstReaders.foldl_queues (Fifo.create_queues hmin hmax) hcalls
  have hb := FirstReaders.foldl_bounds (FirstReaders.create_bounds ulMaxSize) hcalls
  exact ⟨⟨_, q, ⟨hq, hb.behind⟩⟩, rfl⟩

end Receiver

section Runs
variable {c : TelnetChannel} {r : ChannelReading} {call : TelnetCall}

/-- Nothing is read from a client that is not open. -/
def Connected (c : TelnetChannel) : TelnetCall → Prop
  | .read _ | .readline _ | .readline2 _ => c.pHandler = true
  | _ => True

theorem finish_xLock (pHandler : Bool) (hlock : 0 < c.xLock) (hsem : r.sem = telnetSem pHandler) :
    (c.finish r).xLock = if pHandler then c.xLock else c.xLock + 1 := by
  obtain ⟨n, hn⟩ := Nat.exists_eq_succ_of_ne_zero hlock.ne'
  cases pHandler <;> simp [TelnetChannel.finish, hsem, telnetSem, hn, SemCall.run]

/-- A call leaves the semaphore as it was, but a read from a closed client adds to it. -/
theorem step_xLock (hlock : 0 < c.xLock) (call : TelnetCall) : (Connected c call ∧
    (c.step call).xLock = c.xLock) ∨ (¬ Connected c call ∧ (c.step call).xLock = c.xLock + 1) := by
  have hread : ∀ r : ChannelReading, r.sem = telnetSem c.pHandler →
      (c.pHandler = true ∧ (c.finish r).xLock = c.xLock) ∨
        (¬ c.pHandler = true ∧ (c.finish r).xLock = c.xLock + 1) := by
    intro r hsem
    rw [finish_xLock c.pHandler hlock hsem]
    cases c.pHandler <;> simp
  cases call with
  | recv pData =>
    refine .inl ⟨trivial, ?_⟩
    rw [TelnetChannel.step]
    split
    · exact finish_xLock true hlock rfl
    · rfl
  | read ulBufferSize => exact hread _ (read_sem c.toTelnetClient ulBufferSize)
  | readline ulBufferSize => exact hread _ (readline_sem c.toTelnetClient ulBufferSize)
  | readline2 ulBufferSize => exact hread _ (readline2_sem c.toTelnetClient ulBufferSize)
  | opened resolved success =>
    refine .inl ⟨trivial, ?_⟩
    rw [TelnetChannel.step]
    split <;> rfl
  | close => exact .inl ⟨trivial, rfl⟩

/-- One thread at a time can have the lock. -/
def OneKey (c : TelnetChannel) : Prop := c.xLock = 1

/-- In every run one thread at a time can have the lock exactly if nothing is read from a client
that is not open. -/
theorem one_key_iff (calls : List TelnetCall) :
    (∀ c ∈ states TelnetChannel.step TelnetChannel.create calls, OneKey c) ↔
      Admitted TelnetChannel.step Connected TelnetChannel.create calls := by
  have hgood : ∀ c call, OneKey c → Connected c call → OneKey (c.step call) := by
    intro c call hc hok
    rcases step_xLock (Nat.lt_of_lt_of_eq Nat.one_pos hc.symm) call with ⟨-, hsame⟩ | ⟨hbad, -⟩
    · exact hsame.trans hc
    · exact absurd hok hbad
  have hbad : ∀ c call, OneKey c → OneKey (c.step call) → Connected c call := by
    intro c call hc hsafe
    rcases step_xLock (Nat.lt_of_lt_of_eq Nat.one_pos hc.symm) call with ⟨hok, -⟩ | ⟨-, hmore⟩
    · exact hok
    · rw [OneKey] at hc hsafe
      omega
  have hstart : OneKey TelnetChannel.create := rfl
  exact safe_iff_admitted (fun _ h => h) hgood hbad hstart calls

/-- What was given back too often stays. -/
theorem xLock_grows (hlock : 0 < c.xLock) (calls : List TelnetCall) :
    c.xLock ≤ (calls.foldl TelnetChannel.step c).xLock := by
  induction calls generalizing c with
  | nil => exact le_rfl
  | cons call calls ih =>
    have hstep : c.xLock ≤ (c.step call).xLock := by
      rcases step_xLock hlock call with ⟨-, hsame⟩ | ⟨-, hmore⟩ <;> omega
    exact hstep.trans (ih (Nat.lt_of_lt_of_le hlock hstep))

end Runs

end Catchb.Proofs.LockBalance
