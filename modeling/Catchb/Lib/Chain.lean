import Mathlib.Data.List.Basic

/-! Block ciphers chained along a message. -/

namespace Catchb.Lib.Chain
variable {β : Type*}

/-- Each block is combined with the encrypted block before it, the first one with `iv`. -/
def encrypt (mix : β → β → β) (enc : β → β) : β → List β → List β
  | _, [] => []
  | iv, b :: bs => enc (mix b iv) :: encrypt mix enc (enc (mix b iv)) bs

def decrypt (mix : β → β → β) (dec : β → β) : β → List β → List β
  | _, [] => []
  | iv, c :: cs => mix (dec c) iv :: decrypt mix dec c cs

variable {mix : β → β → β} {enc dec : β → β}

theorem length_encrypt (iv : β) (bs : List β) : (encrypt mix enc iv bs).length = bs.length := by
  induction bs generalizing iv with
  | nil => rfl
  | cons b bs ih => rw [encrypt, List.length_cons, List.length_cons, ih]

/-- Where combining twice changes nothing, what decrypts a block decrypts a message. -/
theorem decrypt_encrypt (hmix : ∀ a b, mix (mix a b) b = a) (hdec : ∀ b, dec (enc b) = b) (iv : β)
    (bs : List β) : decrypt mix dec iv (encrypt mix enc iv bs) = bs := by
  induction bs generalizing iv with
  | nil => rfl
  | cons b bs ih => rw [encrypt, decrypt, hdec, hmix, ih]

end Catchb.Lib.Chain
