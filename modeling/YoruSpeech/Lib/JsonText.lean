/-
YoruSpeech.Lib.JsonText — the compact text of a JSON value.

* `render` prints without blanks; in strings it escapes the quote, the
  backslash and the control characters, and copies every other byte.
* `read` is a reader for that text, by recursive descent with the length of
  the input as fuel.
* `read_render`: reading what was printed gives the value back.
* `newline_not_mem_render`: the text fits on one line.
-/
import YoruSpeech.Lib.Json

namespace YoruSpeech.Lib.Json

/-! ## Numbers -/

/-- The digits of `n`, least significant first; `fuel` above `n` is
enough. -/
def digitsRev : Nat → Nat → List UInt8
  | 0, _ => []
  | fuel + 1, n =>
    if n < 10 then [UInt8.ofNat (48 + n)]
    else UInt8.ofNat (48 + n % 10) :: digitsRev fuel (n / 10)

/-- The decimal digits of `n`. -/
def digits (n : Nat) : List UInt8 := (digitsRev (n + 1) n).reverse

def isDigit (b : UInt8) : Bool := 48 ≤ b.toNat ∧ b.toNat ≤ 57

/-- The number a run of digits stands for. -/
def ofDigits (ds : List UInt8) : Nat := ds.foldl (fun n d => 10 * n + (d.toNat - 48)) 0

/-- The leading digits, and the rest. -/
def spanDigits : List UInt8 → List UInt8 × List UInt8
  | [] => ([], [])
  | b :: rest =>
    if isDigit b then
      let (ds, after) := spanDigits rest
      (b :: ds, after)
    else ([], b :: rest)

/-- A decimal number at the start of the input. -/
def readNat (input : List UInt8) : Option (Nat × List UInt8) :=
  match spanDigits input with
  | ([], _) => none
  | (d :: ds, rest) => some (ofDigits (d :: ds), rest)

theorem digit_toNat {n : Nat} (h : n < 10) : (UInt8.ofNat (48 + n)).toNat = 48 + n := by
  rw [UInt8.toNat_ofNat']
  omega

theorem isDigit_digit {n : Nat} (h : n < 10) : isDigit (UInt8.ofNat (48 + n)) = true := by
  simp only [isDigit, digit_toNat h, decide_eq_true_eq]
  omega

theorem isDigit_of_mem_digitsRev {b : UInt8} :
    ∀ {fuel n : Nat}, b ∈ digitsRev fuel n → isDigit b = true
  | 0, _, h => by cases h
  | fuel + 1, n, h => by
      simp only [digitsRev] at h
      by_cases hn : n < 10
      · rw [if_pos hn, List.mem_singleton] at h
        rw [h]
        exact isDigit_digit hn
      · rw [if_neg hn, List.mem_cons] at h
        rcases h with rfl | h
        · exact isDigit_digit (by omega)
        · exact isDigit_of_mem_digitsRev h

theorem digits_ne_nil (n : Nat) : digits n ≠ [] := by
  intro h
  rw [digits, List.reverse_eq_nil_iff, digitsRev] at h
  by_cases hn : n < 10
  · simp [hn] at h
  · simp [hn] at h

theorem ofDigits_digits (n : Nat) : ofDigits (digits n) = n := by
  have hrev : ∀ fuel n, n < fuel →
      (digitsRev fuel n).foldr (fun d n => 10 * n + (d.toNat - 48)) 0 = n := by
    intro fuel
    induction fuel with
    | zero => intro n h; omega
    | succ fuel ih =>
      intro n h
      simp only [digitsRev]
      by_cases hn : n < 10
      · rw [if_pos hn, List.foldr_cons, List.foldr_nil, digit_toNat hn]
        omega
      · rw [if_neg hn, List.foldr_cons, ih (n / 10) (by omega), digit_toNat (by omega)]
        omega
  rw [ofDigits, digits, List.foldl_reverse]
  exact hrev (n + 1) n (by omega)

theorem validUtf8_digits (n : Nat) : validUtf8 (digits n) = true := by
  refine validUtf8_of_ascii ?_
  intro d hmem
  have hdigit := isDigit_of_mem_digitsRev (List.mem_reverse.mp hmem)
  simp only [isDigit, decide_eq_true_eq] at hdigit
  show d.toNat < 128
  omega

/-- The input does not go on with a digit. -/
def NoDigit (input : List UInt8) : Prop := ∀ b ∈ input.head?, isDigit b = false

theorem spanDigits_append {ds : List UInt8} (hd : ∀ d ∈ ds, isDigit d = true)
    {rest : List UInt8} (hr : NoDigit rest) : spanDigits (ds ++ rest) = (ds, rest) := by
  induction ds with
  | nil =>
    cases rest with
    | nil => rfl
    | cons b rest => simp [spanDigits, hr b rfl]
  | cons d ds ih =>
    have hrest := ih (fun x hx => hd x (List.mem_cons_of_mem d hx))
    simp [spanDigits, hd d List.mem_cons_self, hrest]

theorem readNat_digits (n : Nat) {rest : List UInt8} (hr : NoDigit rest) :
    readNat (digits n ++ rest) = some (n, rest) := by
  have hd : ∀ d ∈ digits n, isDigit d = true := by
    intro d hmem
    exact isDigit_of_mem_digitsRev (List.mem_reverse.mp hmem)
  rw [readNat, spanDigits_append hd hr]
  have hvalue := ofDigits_digits n
  cases h : digits n with
  | nil => exact absurd h (digits_ne_nil n)
  | cons d ds =>
    rw [h] at hvalue
    simp only [hvalue]

/-! ## Strings -/

/-- A hexadecimal digit, in lower case. -/
def hexDigit (n : UInt8) : UInt8 := if n < 10 then 48 + n else 87 + n

def hexValue (b : UInt8) : UInt8 := if b < 58 then b - 48 else b - 87

/-- The letter of a two-character escape, and back. -/
def escapeLetter (b : UInt8) : Option UInt8 :=
  if b = 34 then some 34
  else if b = 92 then some 92
  else if b = 8 then some 98
  else if b = 9 then some 116
  else if b = 10 then some 110
  else if b = 12 then some 102
  else if b = 13 then some 114
  else none

def unescapeLetter (e : UInt8) : Option UInt8 :=
  if e = 34 then some 34
  else if e = 92 then some 92
  else if e = 98 then some 8
  else if e = 116 then some 9
  else if e = 110 then some 10
  else if e = 102 then some 12
  else if e = 114 then some 13
  else none

/-- One byte of a string. -/
def escapeByte (b : UInt8) : List UInt8 :=
  match escapeLetter b with
  | some e => [92, e]
  | none => if b < 32 then [92, 117, 48, 48, hexDigit (b / 16), hexDigit (b % 16)] else [b]

/-- A string with its quotes. -/
def renderStr (bytes : List UInt8) : List UInt8 := 34 :: (bytes.flatMap escapeByte ++ [34])

/-- Where the reader is inside a string. -/
inductive Scan where
  | plain
  /-- Behind a backslash. -/
  | escape
  /-- Behind `u`, with three, two and one of the four digits to go. -/
  | first
  | second
  | third
  | fourth (high : UInt8)

/-- The rest of a string, up to its closing quote. -/
def readChars : Scan → List UInt8 → Option (List UInt8 × List UInt8)
  | _, [] => none
  | .plain, b :: rest =>
    if b = 34 then some ([], rest)
    else if b = 92 then readChars .escape rest
    else (readChars .plain rest).map fun (bytes, after) => (b :: bytes, after)
  | .escape, e :: rest =>
    if e = 117 then readChars .first rest
    else
      match unescapeLetter e with
      | some b => (readChars .plain rest).map fun (bytes, after) => (b :: bytes, after)
      | none => none
  | .first, _ :: rest => readChars .second rest
  | .second, _ :: rest => readChars .third rest
  | .third, high :: rest => readChars (.fourth high) rest
  | .fourth high, low :: rest =>
    (readChars .plain rest).map fun (bytes, after) =>
      ((hexValue high * 16 + hexValue low) :: bytes, after)

theorem unescapeLetter_of_escapeLetter {b e : UInt8} (h : escapeLetter b = some e) :
    unescapeLetter e = some b ∧ e ≠ 117 ∧ e ≠ 10 := by
  unfold escapeLetter at h
  repeat' split at h
  all_goals first
    | (cases h; subst_vars; decide)
    | cases h

theorem hexValue_hexDigit {b : UInt8} (h : b < 32) :
    hexValue (hexDigit (b / 16)) * 16 + hexValue (hexDigit (b % 16)) = b ∧
      hexDigit (b / 16) ≠ 10 ∧ hexDigit (b % 16) ≠ 10 := by
  have hall : ∀ n, n < 32 →
      hexValue (hexDigit (UInt8.ofNat n / 16)) * 16 + hexValue (hexDigit (UInt8.ofNat n % 16)) =
        UInt8.ofNat n ∧
      hexDigit (UInt8.ofNat n / 16) ≠ 10 ∧ hexDigit (UInt8.ofNat n % 16) ≠ 10 := by
    decide
  have hb := hall b.toNat h
  rwa [UInt8.ofNat_toNat] at hb

theorem readChars_escapeByte (b : UInt8) (rest : List UInt8) :
    readChars .plain (escapeByte b ++ rest) =
      (readChars .plain rest).map fun (bytes, after) => (b :: bytes, after) := by
  unfold escapeByte
  cases he : escapeLetter b with
  | some e =>
    obtain ⟨hun, hne, -⟩ := unescapeLetter_of_escapeLetter he
    show readChars .plain (92 :: e :: rest) = _
    rw [readChars, if_neg (by decide), if_pos rfl, readChars, if_neg hne, hun]
  | none =>
    by_cases hb : b < 32
    · obtain ⟨hval, -, -⟩ := hexValue_hexDigit hb
      simp only [hb, if_true, List.cons_append, List.nil_append]
      rw [readChars, if_neg (by decide), if_pos rfl, readChars, if_pos rfl, readChars, readChars,
        readChars, readChars, hval]
    · have hquote : b ≠ 34 := by
        rintro rfl
        cases he
      have hslash : b ≠ 92 := by
        rintro rfl
        cases he
      simp only [hb, if_false, List.cons_append, List.nil_append]
      rw [readChars, if_neg hquote, if_neg hslash]

theorem readChars_render (bytes rest : List UInt8) :
    readChars .plain (bytes.flatMap escapeByte ++ 34 :: rest) = some (bytes, rest) := by
  induction bytes with
  | nil =>
    rw [List.flatMap_nil, List.nil_append, readChars, if_pos rfl]
  | cons b bytes ih =>
    rw [List.flatMap_cons, List.append_assoc, readChars_escapeByte, ih]
    rfl

theorem newline_not_mem_renderStr (bytes : List UInt8) : (10 : UInt8) ∉ renderStr bytes := by
  have hbyte : ∀ b : UInt8, (10 : UInt8) ∉ escapeByte b := by
    intro b hmem
    unfold escapeByte at hmem
    cases he : escapeLetter b with
    | some e =>
      obtain ⟨-, -, hne⟩ := unescapeLetter_of_escapeLetter he
      simp [he, Ne.symm hne] at hmem
    | none =>
      by_cases hb : b < 32
      · obtain ⟨-, hhigh, hlow⟩ := hexValue_hexDigit hb
        simp [he, hb, Ne.symm hhigh, Ne.symm hlow] at hmem
      · simp only [he, hb, if_false, List.mem_singleton] at hmem
        subst hmem
        exact hb (by decide)
  intro hmem
  simp only [renderStr, List.mem_cons, List.mem_append, List.mem_flatMap, List.not_mem_nil,
    or_false] at hmem
  rcases hmem with h | ⟨b, -, hb⟩ | h
  · cases h
  · exact hbyte b hb
  · cases h

/-! ## Values -/

mutual

/-- The compact text of a value. -/
def render : Json → List UInt8
  | .null => [110, 117, 108, 108]
  | .bool true => [116, 114, 117, 101]
  | .bool false => [102, 97, 108, 115, 101]
  | .unsigned n => digits n
  | .negative n => 45 :: digits (n + 1)
  -- not the digits of the number: no canonical value prints one
  | .float _ => [48, 46, 48]
  | .str bytes => renderStr bytes
  | .arr items => 91 :: ((renderItems items).drop 1 ++ [93])
  | .obj fields => 123 :: ((renderFields fields).drop 1 ++ [125])

/-- The items, each behind a comma. -/
def renderItems : List Json → List UInt8
  | [] => []
  | v :: rest => 44 :: (v.render ++ renderItems rest)

/-- The fields, each behind a comma. -/
def renderFields : List (List UInt8 × Json) → List UInt8
  | [] => []
  | (k, v) :: rest => 44 :: (renderStr k ++ 58 :: (v.render ++ renderFields rest))

end

/-- Strip these bytes from the front of the input. -/
def expect : List UInt8 → List UInt8 → Option (List UInt8)
  | [], input => some input
  | _ :: _, [] => none
  | b :: bytes, c :: input => if b = c then expect bytes input else none

mutual

/-- A value at the start of the input. -/
def readValue : Nat → List UInt8 → Option (Json × List UInt8)
  | 0, _ => none
  | _ + 1, [] => none
  | fuel + 1, b :: rest =>
    if b = 110 then (expect [117, 108, 108] rest).map (Json.null, ·)
    else if b = 116 then (expect [114, 117, 101] rest).map (Json.bool true, ·)
    else if b = 102 then (expect [97, 108, 115, 101] rest).map (Json.bool false, ·)
    else if b = 34 then (readChars .plain rest).map fun (bytes, rest) => (.str bytes, rest)
    else if b = 91 then
      -- the first item is read as if a comma stood before it
      (readItems fuel (if rest.head? = some 93 then rest else 44 :: rest)).map
        fun (items, rest) => (.arr items, rest)
    else if b = 123 then
      (readFields fuel (if rest.head? = some 125 then rest else 44 :: rest)).map
        fun (fields, rest) => (.obj fields, rest)
    else if b = 45 then
      (readNat rest).bind fun (n, rest) => if n = 0 then none else some (.negative (n - 1), rest)
    else (readNat (b :: rest)).map fun (n, rest) => (.unsigned n, rest)

/-- Items behind commas, up to the closing bracket. -/
def readItems : Nat → List UInt8 → Option (List Json × List UInt8)
  | 0, _ => none
  | _ + 1, [] => none
  | fuel + 1, b :: rest =>
    if b = 93 then some ([], rest)
    else if b = 44 then
      (readValue fuel rest).bind fun (v, rest) =>
        (readItems fuel rest).map fun (items, rest) => (v :: items, rest)
    else none

/-- Fields behind commas, up to the closing brace. -/
def readFields : Nat → List UInt8 → Option (List (List UInt8 × Json) × List UInt8)
  | 0, _ => none
  | _ + 1, [] => none
  | fuel + 1, b :: rest =>
    if b = 125 then some ([], rest)
    else if b = 44 then
      (expect [34] rest).bind fun rest =>
        (readChars .plain rest).bind fun (k, rest) =>
          (expect [58] rest).bind fun rest =>
            (readValue fuel rest).bind fun (v, rest) =>
              (readFields fuel rest).map fun (fields, rest) => ((k, v) :: fields, rest)
    else none

end

/-- The value the whole input stands for. -/
def read (input : List UInt8) : Option Json :=
  match readValue (2 * input.length) input with
  | some (v, []) => some v
  | _ => none

/-! ## Round trip -/

mutual

/-- How deep the reader goes into the text of a value. -/
def size : Json → Nat
  | .arr items => 1 + sizeItems items
  | .obj fields => 1 + sizeFields fields
  | _ => 1

def sizeItems : List Json → Nat
  | [] => 1
  | v :: rest => 1 + v.size + sizeItems rest

def sizeFields : List (List UInt8 × Json) → Nat
  | [] => 1
  | (_, v) :: rest => 1 + v.size + sizeFields rest

end

theorem digits_length_pos (n : Nat) : 0 < (digits n).length :=
  List.length_pos_iff.mpr (digits_ne_nil n)

mutual

/-- Twice the length of the text is fuel enough. -/
theorem size_le_length : ∀ v : Json, v.size ≤ 2 * v.render.length
  | .null => by simp [size, render]
  | .bool true => by simp [size, render]
  | .bool false => by simp [size, render]
  | .unsigned n => by
      have := digits_length_pos n
      simp only [size, render]
      omega
  | .negative n => by
      simp only [size, render, List.length_cons]
      omega
  | .float _ => by simp [size, render]
  | .str bytes => by
      simp only [size, render, renderStr, List.length_cons]
      omega
  | .arr items => by
      have h := sizeItems_le_length items
      cases items with
      | nil => simp [size, sizeItems, render, renderItems]
      | cons v rest =>
        simp only [size, render, renderItems, List.length_cons, List.length_append, List.length_nil,
          List.drop_succ_cons, List.drop_zero] at h ⊢
        omega
  | .obj fields => by
      have h := sizeFields_le_length fields
      cases fields with
      | nil => simp [size, sizeFields, render, renderFields]
      | cons f rest =>
        simp only [size, render, renderFields, List.length_cons, List.length_append,
          List.length_nil, List.drop_succ_cons, List.drop_zero] at h ⊢
        omega

theorem sizeItems_le_length : ∀ items : List Json,
    sizeItems items ≤ 2 * (renderItems items).length + 1
  | [] => by simp [sizeItems, renderItems]
  | v :: rest => by
      have hv := size_le_length v
      have hrest := sizeItems_le_length rest
      simp only [sizeItems, renderItems, List.length_cons, List.length_append]
      omega

theorem sizeFields_le_length : ∀ fields : List (List UInt8 × Json),
    sizeFields fields ≤ 2 * (renderFields fields).length + 1
  | [] => by simp [sizeFields, renderFields]
  | (k, v) :: rest => by
      have hv := size_le_length v
      have hrest := sizeFields_le_length rest
      simp only [sizeFields, renderFields, List.length_cons, List.length_append]
      omega

end

theorem digits_eq_cons (n : Nat) : ∃ d ds, digits n = d :: ds ∧ isDigit d = true := by
  cases h : digits n with
  | nil => exact absurd h (digits_ne_nil n)
  | cons d ds =>
    have hmem : d ∈ digits n := by
      rw [h]
      exact List.mem_cons_self
    exact ⟨d, ds, rfl, isDigit_of_mem_digitsRev (List.mem_reverse.mp hmem)⟩

/-- A digit is none of the bytes the other values start with. -/
theorem ne_of_isDigit {d : UInt8} (h : isDigit d = true) :
    d ≠ 110 ∧ d ≠ 116 ∧ d ≠ 102 ∧ d ≠ 34 ∧ d ≠ 91 ∧ d ≠ 123 ∧ d ≠ 45 ∧ d ≠ 93 := by
  refine ⟨?_, ?_, ?_, ?_, ?_, ?_, ?_, ?_⟩ <;>
  · rintro rfl
    revert h
    decide

/-- No value starts with a closing bracket. -/
theorem render_eq_cons : ∀ v : Json, ∃ b bytes, v.render = b :: bytes ∧ b ≠ 93
  | .null | .bool true | .bool false | .negative _ | .float _ | .str _ | .arr _ | .obj _ =>
    ⟨_, _, rfl, by decide⟩
  | .unsigned n => by
      obtain ⟨d, ds, hd, hdigit⟩ := digits_eq_cons n
      exact ⟨d, ds, hd, (ne_of_isDigit hdigit).2.2.2.2.2.2.2⟩

theorem noDigit_cons {b : UInt8} (h : isDigit b = false) (rest : List UInt8) :
    NoDigit (b :: rest) := by
  intro x hx
  simp only [List.head?_cons, Option.mem_def, Option.some.injEq] at hx
  exact hx ▸ h

/-- The text behind an item or a field never goes on with a digit. -/
theorem noDigit_renderItems (items : List Json) (rest : List UInt8) :
    NoDigit (renderItems items ++ 93 :: rest) := by
  cases items with
  | nil => exact noDigit_cons (by decide) _
  | cons v items => exact noDigit_cons (by decide) _

theorem noDigit_renderFields (fields : List (List UInt8 × Json)) (rest : List UInt8) :
    NoDigit (renderFields fields ++ 125 :: rest) := by
  cases fields with
  | nil => exact noDigit_cons (by decide) _
  | cons f fields => exact noDigit_cons (by decide) _

mutual

theorem readValue_render : ∀ (v : Json) (fuel : Nat) (rest : List UInt8),
    v.Canonical → v.size ≤ fuel → NoDigit rest →
      readValue fuel (v.render ++ rest) = some (v, rest)
  | v, 0, _, _, hf, _ => by
      cases v <;> simp [size] at hf
  | .null, fuel + 1, rest, _, _, _ => by simp [render, readValue, expect]
  | .bool true, fuel + 1, rest, _, _, _ => by simp [render, readValue, expect]
  | .bool false, fuel + 1, rest, _, _, _ => by simp [render, readValue, expect]
  | .unsigned n, fuel + 1, rest, _, _, hr => by
      have hread := readNat_digits n hr
      obtain ⟨d, ds, hd, hdigit⟩ := digits_eq_cons n
      obtain ⟨h₁, h₂, h₃, h₄, h₅, h₆, h₇, -⟩ := ne_of_isDigit hdigit
      rw [hd] at hread
      show readValue (fuel + 1) (digits n ++ rest) = _
      rw [hd, List.cons_append, readValue]
      simp only [h₁, h₂, h₃, h₄, h₅, h₆, h₇, if_false]
      rw [← List.cons_append, hread]
      rfl
  | .negative n, fuel + 1, rest, _, _, hr => by
      show readValue (fuel + 1) (45 :: (digits (n + 1) ++ rest)) = _
      rw [readValue, readNat_digits (n + 1) hr]
      simp
  | .float _, _, _, hc, _, _ => hc.elim
  | .str bytes, fuel + 1, rest, _, _, _ => by
      show readValue (fuel + 1) (34 :: (bytes.flatMap escapeByte ++ [34]) ++ rest) = _
      rw [List.cons_append, List.append_assoc, readValue]
      simp only [List.singleton_append, readChars_render]
      rfl
  | .arr items, fuel + 1, rest, hc, hf, _ => by
      have hitems := readItems_render items fuel rest hc (by simp only [size] at hf; omega)
      show readValue (fuel + 1) (91 :: ((renderItems items).drop 1 ++ [93]) ++ rest) = _
      rw [List.cons_append, List.append_assoc, readValue]
      cases items with
      | nil =>
        simp only [renderItems, List.nil_append] at hitems
        simp [renderItems, hitems]
      | cons v items =>
        obtain ⟨b, bytes, hb, hne⟩ := render_eq_cons v
        simp only [renderItems, hb, List.cons_append, List.append_assoc] at hitems
        simp [renderItems, hb, hne, hitems]
  | .obj fields, fuel + 1, rest, hc, hf, _ => by
      have hfields := readFields_render fields fuel rest hc.2 (by simp only [size] at hf; omega)
      show readValue (fuel + 1) (123 :: ((renderFields fields).drop 1 ++ [125]) ++ rest) = _
      rw [List.cons_append, List.append_assoc, readValue]
      cases fields with
      | nil =>
        simp only [renderFields, List.nil_append] at hfields
        simp [renderFields, hfields]
      | cons f fields =>
        obtain ⟨k, v⟩ := f
        simp only [renderFields, renderStr, List.cons_append, List.append_assoc,
          List.nil_append] at hfields
        simp [renderFields, renderStr, hfields]

theorem readItems_render : ∀ (items : List Json) (fuel : Nat) (rest : List UInt8),
    CanonicalItems items → sizeItems items ≤ fuel →
      readItems fuel (renderItems items ++ 93 :: rest) = some (items, rest)
  | [], 0, _, _, hf => by simp [sizeItems] at hf
  | _ :: _, 0, _, _, hf => by simp [sizeItems] at hf
  | [], fuel + 1, rest, _, _ => by simp [renderItems, readItems]
  | v :: items, fuel + 1, rest, hc, hf => by
      simp only [sizeItems] at hf
      have hv := readValue_render v fuel (renderItems items ++ 93 :: rest) hc.1 (by omega)
        (noDigit_renderItems items rest)
      have hitems := readItems_render items fuel rest hc.2 (by omega)
      rw [renderItems, List.cons_append, List.append_assoc, readItems]
      simp [hv, hitems]

theorem readFields_render : ∀ (fields : List (List UInt8 × Json)) (fuel : Nat)
    (rest : List UInt8), CanonicalFields fields → sizeFields fields ≤ fuel →
      readFields fuel (renderFields fields ++ 125 :: rest) = some (fields, rest)
  | [], 0, _, _, hf => by simp [sizeFields] at hf
  | _ :: _, 0, _, _, hf => by simp [sizeFields] at hf
  | [], fuel + 1, rest, _, _ => by simp [renderFields, readFields]
  | (k, v) :: fields, fuel + 1, rest, hc, hf => by
      simp only [sizeFields] at hf
      have hv := readValue_render v fuel (renderFields fields ++ 125 :: rest) hc.1 (by omega)
        (noDigit_renderFields fields rest)
      have hfields := readFields_render fields fuel rest hc.2 (by omega)
      have hk := readChars_render k (58 :: (v.render ++ (renderFields fields ++ 125 :: rest)))
      rw [renderFields, List.cons_append, readFields]
      simp [renderStr, expect, hk, hv, hfields]

end

/-- Reading what was printed gives the value back. -/
theorem read_render {v : Json} (h : v.Canonical) : read v.render = some v := by
  have hv := readValue_render v (2 * v.render.length) [] h (size_le_length v)
    (fun _ hb => by cases hb)
  rw [List.append_nil] at hv
  simp only [read, hv]

/-! ## One line -/

theorem newline_not_mem_digits (n : Nat) : (10 : UInt8) ∉ digits n := by
  intro hmem
  have hdigit := isDigit_of_mem_digitsRev (List.mem_reverse.mp hmem)
  revert hdigit
  decide

mutual

/-- The text of a value has no raw newline in it. -/
theorem newline_not_mem_render : ∀ v : Json, (10 : UInt8) ∉ v.render
  | .null => by simp [render]
  | .bool true => by simp [render]
  | .bool false => by simp [render]
  | .unsigned n => newline_not_mem_digits n
  | .negative n => by
      simp only [render, List.mem_cons, not_or]
      exact ⟨by decide, newline_not_mem_digits (n + 1)⟩
  | .float _ => by simp [render]
  | .str bytes => newline_not_mem_renderStr bytes
  | .arr items => by
      have hitems := newline_not_mem_renderItems items
      intro hmem
      simp only [render, List.mem_cons, List.mem_append, List.not_mem_nil, or_false] at hmem
      rcases hmem with h | h | h
      · cases h
      · exact hitems (List.mem_of_mem_drop h)
      · cases h
  | .obj fields => by
      have hfields := newline_not_mem_renderFields fields
      intro hmem
      simp only [render, List.mem_cons, List.mem_append, List.not_mem_nil, or_false] at hmem
      rcases hmem with h | h | h
      · cases h
      · exact hfields (List.mem_of_mem_drop h)
      · cases h

theorem newline_not_mem_renderItems : ∀ items : List Json, (10 : UInt8) ∉ renderItems items
  | [] => by simp [renderItems]
  | v :: rest => by
      have hv := newline_not_mem_render v
      have hrest := newline_not_mem_renderItems rest
      simp [renderItems, hv, hrest]

theorem newline_not_mem_renderFields : ∀ fields : List (List UInt8 × Json),
    (10 : UInt8) ∉ renderFields fields
  | [] => by simp [renderFields]
  | (k, v) :: rest => by
      have hk := newline_not_mem_renderStr k
      have hv := newline_not_mem_render v
      have hrest := newline_not_mem_renderFields rest
      simp [renderFields, hk, hv, hrest]

end

end YoruSpeech.Lib.Json
