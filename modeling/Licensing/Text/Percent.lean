import Licensing.Text.Hex
import Licensing.Text.Utf8

/-!
# Percent-encoding

`%` and two hexadecimal digits stand for a byte. A `%` that is followed by anything else stands for
itself, so every text can be decoded; a text without `%` is decoded to its own bytes
(`decode_eq_encode`).
-/

namespace Licensing.Text.Percent

/-- The bytes that a text stands for. -/
def decode : List Char → List UInt8
  | [] => []
  | [c] => Utf8.encode [c]
  | [c, d] => Utf8.encode [c, d]
  | c :: a :: b :: rest =>
    if c = '%' then
      match Hex.digit? a, Hex.digit? b with
      | some high, some low => UInt8.ofNat (high * 16 + low) :: decode rest
      | _, _ => Utf8.encode [c] ++ decode (a :: b :: rest)
    else Utf8.encode [c] ++ decode (a :: b :: rest)

theorem decode_eq_encode : ∀ {s : List Char}, '%' ∉ s → decode s = Utf8.encode s
  | [], _ => rfl
  | [_], _ => rfl
  | [_, _], _ => rfl
  | c :: a :: b :: rest, h => by
    have hc : c ≠ '%' := fun e ↦ h (by simp [e])
    have ht : '%' ∉ a :: b :: rest := fun e ↦ h (List.mem_cons_of_mem c e)
    rw [decode, if_neg hc, decode_eq_encode ht]
    simp [Utf8.encode]

end Licensing.Text.Percent
