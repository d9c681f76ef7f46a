import Catchb.SetAC

/-! The buffer of a telnet write, which is bounded by what is read and not by what is written. -/

namespace Catchb.Proofs.TelnetWrites
open Lib TelnetClient

def newline (c : Char) : Bool := c = '\n' || c = '\r'

/-- Every line feed or carriage return is both. -/
def expansion (t : Text) : Text := t.flatMap (fun c => if newline c then ['\r', '\n'] else [c])

theorem length_expansion (t : Text) : (expansion t).length = t.length + t.countP newline := by
  induction t with
  | nil => rfl
  | cons c t ih =>
    rw [expansion, List.flatMap_cons, List.length_append, ← expansion, ih, List.length_cons,
      List.countP_cons]
    cases newline c <;> simp only [Bool.false_eq_true, if_false, if_true, List.length_cons,
      List.length_nil] <;> omega

/-- The loop writes the expansion of the characters that are below the bound. -/
theorem fill_eq (bound : Nat) (pData : Text) (i : Nat) (pBuffer : Text) :
    fill bound pData i pBuffer = pBuffer ++ expansion (pData.take (bound - i)) := by
  induction pData generalizing i pBuffer with
  | nil =>
    rw [fill, List.take_nil]
    exact (List.append_nil pBuffer).symm
  | cons c pData ih =>
    rw [fill]
    split
    case isTrue hlt =>
      obtain ⟨k, hk⟩ : ∃ k, bound - i = k + 1 := ⟨bound - i - 1, by omega⟩
      have hnext : bound - (i + 1) = k := by omega
      rw [hk, List.take_succ_cons, expansion, List.flatMap_cons, ← expansion, ih, ih, hnext,
        List.append_assoc, List.append_assoc]
      by_cases hc : c = '\n' ∨ c = '\r'
      · have hnew : newline c = true := by simpa [newline] using hc
        rw [if_pos hc, if_pos hnew]
      · have hnew : ¬ newline c = true := by simpa [newline] using hc
        rw [if_neg hc, if_neg hnew]
    case isFalse hge =>
      have hzero : bound - i = 0 := by omega
      rw [hzero, List.take_zero]
      exact (List.append_nil pBuffer).symm

/-- A call keeps to its buffer, and over an open connection it sends what fits in there whole. -/
def Stays (pClient : TelnetClient) (r : TelnetSending) (whole : Text) : Prop :=
  r.pBuffer.length ≤ bufferSize ∧
    (pClient.pHandler = true → whole.length + 1 ≤ bufferSize → r.sent = some whole)

/-- The characters that are read, and the line ends among them once more. -/
def room (bound : Nat) (pData : Text) : Nat :=
  (pData.take bound).length + (pData.take bound).countP newline

variable {pClient : TelnetClient} {bound : Nat} {ending pData : Text}

theorem send_open (hopen : pClient.pHandler = true) :
    send bound ending pClient pData =
      ⟨.ok, expansion (pData.take bound) ++ ending ++ ['\x00'],
        some (expansion (pData.take bound) ++ ending)⟩ := by
  unfold send
  rw [hopen, fill_eq, List.nil_append]
  rfl

theorem stays_send_iff (pClient : TelnetClient) (pData : Text)
    (hbound : bound + ending.length + 1 = bufferSize) :
    Stays pClient (send bound ending pClient pData) (expansion pData ++ ending) ↔
      pClient.pHandler = false ∨ room bound pData ≤ bound := by
  cases hopen : pClient.pHandler with
  | false =>
    have hclosed : send bound ending pClient pData = ⟨.socketClosed, [], none⟩ := by
      unfold send
      rw [hopen]
      rfl
    rw [hclosed, Stays, hopen]
    exact iff_of_true ⟨Nat.zero_le _, nofun⟩ (.inl rfl)
  | true =>
    rw [send_open hopen, Stays]
    simp only [List.length_append, List.length_cons, List.length_nil, length_expansion]
    constructor
    · rintro ⟨hin, -⟩
      refine .inr ?_
      unfold room
      omega
    · rintro (hclosed | hroom)
      · cases hclosed
      · refine ⟨?_, fun _ hfits => ?_⟩
        · unfold room at hroom
          omega
        · rw [List.take_of_length_le (by omega)]

/-- A write keeps to its buffer if and only if the characters that it reads are no more than the
bound with their line ends counted twice. -/
theorem writes_stay_iff (pClient : TelnetClient) (pData : Text) :
    (Stays pClient (pClient.write pData) (expansion pData) ↔
      pClient.pHandler = false ∨ room 511 pData ≤ 511) ∧
    (Stays pClient (pClient.writel pData) (expansion pData ++ ['\r', '\n']) ↔
      pClient.pHandler = false ∨ room 509 pData ≤ 509) := by
  refine ⟨?_, stays_send_iff pClient pData rfl⟩
  have hwrite : Stays pClient (pClient.write pData) (expansion pData ++ []) ↔ _ :=
    stays_send_iff pClient pData rfl
  rwa [List.append_nil] at hwrite

/-- 256 line feeds are 512 bytes without the terminator, and 255 are with those of the last line. -/
theorem line_feeds_overflow :
    ¬ Stays ⟨true, .create 4096⟩ (write ⟨true, .create 4096⟩ (List.replicate 256 '\n'))
      (expansion (List.replicate 256 '\n')) ∧
    ¬ Stays ⟨true, .create 4096⟩ (writel ⟨true, .create 4096⟩ (List.replicate 255 '\n'))
      (expansion (List.replicate 255 '\n') ++ ['\r', '\n']) :=
  ⟨fun h => absurd h.1 (by decide +kernel), fun h => absurd h.1 (by decide +kernel)⟩

end Catchb.Proofs.TelnetWrites
