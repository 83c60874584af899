/-!
# Powers of two and of ten

The bounds of numbers of a fixed width are powers of two, and a decimal exponent stands for a
power of ten.
-/

namespace Licensing

/-- A power of two. -/
abbrev twoTo (exponent : Nat) : Nat := Nat.pow 2 exponent

/-- A power of ten. -/
abbrev tenTo (exponent : Nat) : Nat := Nat.pow 10 exponent

end Licensing
