/-
# Bytes as hexadecimal digits
-/

namespace DemoTape.Text
set_option autoImplicit false

/-- Two upper-case digits. -/
def hexUpper (b : UInt8) : String :=
  String.ofList ([b.toNat / 16, b.toNat % 16].map fun d => (Nat.digitChar d).toUpper)

end DemoTape.Text
