/-!
# Powers

Powers of natural numbers and of integers are computed by these types themselves, also where an algebra
library has powers of its own.
-/
namespace FlowEngine

@[default_instance 20000]
instance (priority := 2000) ownPower {α : Type} [NatPow α] : Pow α Nat := instPowNat

end FlowEngine
