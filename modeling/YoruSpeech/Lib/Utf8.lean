/-
YoruSpeech.Lib.Utf8 — well-formed UTF-8 as a finite automaton.

`Utf8State.next` is the transition table of RFC 3629: it rejects overlong
forms, surrogates and code points above U+10FFFF by narrowing the range of
the second byte. A byte string is well formed when the automaton reads it
from `start` back to `start`, which makes well-formedness compose along
concatenation.
-/

namespace YoruSpeech.Lib

/-- What is left of the current code point. -/
inductive Utf8State where
  | start
  /-- One, two or three continuation bytes to go. -/
  | one
  | two
  | three
  /-- After `E0`, `ED`, `F0`, `F4`, whose second byte is restricted. -/
  | afterE0
  | afterED
  | afterF0
  | afterF4
  deriving DecidableEq, Repr

/-- The state after one more byte; `none` when it cannot stand there. -/
def Utf8State.next : Utf8State → UInt8 → Option Utf8State
  | .start, b =>
    if b < 0x80 then some .start
    else if 0xC2 ≤ b ∧ b ≤ 0xDF then some .one
    else if b = 0xE0 then some .afterE0
    else if b = 0xED then some .afterED
    else if 0xE1 ≤ b ∧ b ≤ 0xEF then some .two
    else if b = 0xF0 then some .afterF0
    else if 0xF1 ≤ b ∧ b ≤ 0xF3 then some .three
    else if b = 0xF4 then some .afterF4
    else none
  | .one, b => if 0x80 ≤ b ∧ b ≤ 0xBF then some .start else none
  | .two, b => if 0x80 ≤ b ∧ b ≤ 0xBF then some .one else none
  | .three, b => if 0x80 ≤ b ∧ b ≤ 0xBF then some .two else none
  | .afterE0, b => if 0xA0 ≤ b ∧ b ≤ 0xBF then some .one else none
  | .afterED, b => if 0x80 ≤ b ∧ b ≤ 0x9F then some .one else none
  | .afterF0, b => if 0x90 ≤ b ∧ b ≤ 0xBF then some .two else none
  | .afterF4, b => if 0x80 ≤ b ∧ b ≤ 0x8F then some .two else none

/-- The automaton along a byte string. -/
def Utf8State.read (s : Utf8State) : List UInt8 → Option Utf8State
  | [] => some s
  | b :: rest => (s.next b).bind (·.read rest)

/-- The bytes are well-formed UTF-8. -/
def validUtf8 (bytes : List UInt8) : Bool := Utf8State.start.read bytes = some .start

theorem Utf8State.read_append (xs ys : List UInt8) :
    ∀ s : Utf8State, s.read (xs ++ ys) = (s.read xs).bind (·.read ys) := by
  induction xs with
  | nil => intro s; rfl
  | cons x xs ih =>
    intro s
    simp only [List.cons_append, read]
    cases s.next x with
    | none => rfl
    | some t => exact ih t

@[simp] theorem validUtf8_nil : validUtf8 [] = true := rfl

/-- Behind well-formed bytes, the rest decides. -/
theorem validUtf8_append_right {xs : List UInt8} (h : validUtf8 xs = true) (ys : List UInt8) :
    validUtf8 (xs ++ ys) = validUtf8 ys := by
  have hx : Utf8State.start.read xs = some .start := by simpa [validUtf8] using h
  simp only [validUtf8, Utf8State.read_append, hx, Option.bind_some]

theorem validUtf8_append {xs ys : List UInt8} (hx : validUtf8 xs = true)
    (hy : validUtf8 ys = true) : validUtf8 (xs ++ ys) = true := by
  rw [validUtf8_append_right hx, hy]

theorem validUtf8_of_ascii {xs : List UInt8} (h : ∀ x ∈ xs, x < 0x80) : validUtf8 xs = true := by
  induction xs with
  | nil => rfl
  | cons x xs ih =>
    have hx : Utf8State.start.next x = some .start := by
      simp only [Utf8State.next, h x List.mem_cons_self, if_true]
    have hxs := ih fun y hy => h y (List.mem_cons_of_mem x hy)
    simpa only [validUtf8, Utf8State.read, hx, Option.bind_some] using hxs

theorem validUtf8_flatMap {α : Type} {f : α → List UInt8} {xs : List α}
    (h : ∀ x ∈ xs, validUtf8 (f x) = true) : validUtf8 (xs.flatMap f) = true := by
  induction xs with
  | nil => rfl
  | cons x xs ih =>
    rw [List.flatMap_cons]
    exact validUtf8_append (h x List.mem_cons_self)
      (ih fun y hy => h y (List.mem_cons_of_mem x hy))

end YoruSpeech.Lib
