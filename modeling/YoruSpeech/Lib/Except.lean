/-
YoruSpeech.Lib.Except — postconditions of computations that may fail.

`Ends P Q x` says that `x` ends with a value that satisfies `P` or with an
error that satisfies `Q`. The rules follow the shape of a `do` block: one
for `return`, one for `throw`, one for sequencing.
-/

namespace YoruSpeech.Lib

section Ends

variable {ε α β : Type} {P : α → Prop} {R : β → Prop} {Q : ε → Prop}

def Ends (P : α → Prop) (Q : ε → Prop) : Except ε α → Prop
  | .ok a => P a
  | .error e => Q e

theorem Ends.pure {a : α} (h : P a) : Ends P Q (Except.ok a : Except ε α) := h

theorem Ends.throw {e : ε} (h : Q e) : Ends P Q (Except.error e : Except ε α) := h

theorem Ends.bind {x : Except ε α} {f : α → Except ε β} (hx : Ends P Q x)
    (hf : ∀ a, P a → Ends R Q (f a)) : Ends R Q (x >>= f) := by
  cases x with
  | ok a => exact hf a hx
  | error e => exact hx

theorem Ends.of_ok {x : Except ε α} {a : α} (h : Ends P Q x) (hx : x = .ok a) : P a := by
  subst hx
  exact h

theorem Ends.of_error {x : Except ε α} {e : ε} (h : Ends P Q x) (hx : x = .error e) : Q e := by
  subst hx
  exact h

end Ends

end YoruSpeech.Lib
