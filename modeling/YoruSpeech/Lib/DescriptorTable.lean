/-
YoruSpeech.Lib.DescriptorTable — the descriptor table of a process.

A table maps descriptor numbers to open files, each with its close-on-exec
flag. `fork` copies the table as it is, so it needs no operation here;
`exec` drops the flagged descriptors. `Holds t f` says that some descriptor
of the table refers to the file: an open file lives as long as some table
holds it, and no operation but `openAt` makes a table hold a new one.
-/

namespace YoruSpeech.Lib

structure Descriptor (φ : Type) where
  file : φ
  closeOnExec : Bool := false
  deriving DecidableEq, Repr

abbrev DescriptorTable (φ : Type) := Nat → Option (Descriptor φ)

namespace DescriptorTable

variable {φ : Type} {t : DescriptorTable φ} {f g : φ} {fd : Nat}

/-- The kernel hands out this number. -/
def openAt (t : DescriptorTable φ) (fd : Nat) (file : φ) (closeOnExec : Bool) :
    DescriptorTable φ :=
  fun x => if x = fd then some ⟨file, closeOnExec⟩ else t x

/-- `close` on each of these. -/
def close (t : DescriptorTable φ) (fds : List Nat) : DescriptorTable φ :=
  fun x => if x ∈ fds then none else t x

/-- `dup2`: the copy has the flag cleared; a closed descriptor is not
copied. -/
def dup2 (t : DescriptorTable φ) (old new : Nat) : DescriptorTable φ :=
  match t old with
  | none => t
  | some d => t.openAt new d.file false

/-- `exec`. -/
def exec (t : DescriptorTable φ) : DescriptorTable φ :=
  fun x => (t x).filter fun d => !d.closeOnExec

/-- Some descriptor refers to the file. -/
def Holds (t : DescriptorTable φ) (f : φ) : Prop := ∃ fd d, t fd = some d ∧ d.file = f

theorem openAt_same (t : DescriptorTable φ) (fd : Nat) (file : φ) (closeOnExec : Bool) :
    t.openAt fd file closeOnExec fd = some ⟨file, closeOnExec⟩ := by
  simp [openAt]

theorem openAt_other (t : DescriptorTable φ) {fd x : Nat} (file : φ) (closeOnExec : Bool)
    (h : x ≠ fd) : t.openAt fd file closeOnExec x = t x := by
  simp [openAt, h]

theorem close_other (t : DescriptorTable φ) {fds : List Nat} (h : fd ∉ fds) :
    t.close fds fd = t fd := by
  simp [close, h]

theorem close_eq_some {fds : List Nat} {d : Descriptor φ} (h : t.close fds fd = some d) :
    fd ∉ fds ∧ t fd = some d := by
  unfold close at h
  split at h
  · cases h
  · rename_i hfd
    exact ⟨hfd, h⟩

theorem openAt_eq_some {x : Nat} {closeOnExec : Bool} {d : Descriptor φ}
    (h : t.openAt fd f closeOnExec x = some d) :
    (x = fd ∧ d = ⟨f, closeOnExec⟩) ∨ (x ≠ fd ∧ t x = some d) := by
  unfold openAt at h
  split at h
  · rename_i hx
    exact .inl ⟨hx, (Option.some.inj h).symm⟩
  · rename_i hx
    exact .inr ⟨hx, h⟩

theorem holds_openAt {closeOnExec : Bool} (h : (t.openAt fd g closeOnExec).Holds f) :
    f = g ∨ t.Holds f := by
  obtain ⟨x, d, hd, rfl⟩ := h
  rcases openAt_eq_some hd with ⟨-, rfl⟩ | ⟨-, hd⟩
  · exact .inl rfl
  · exact .inr ⟨x, d, hd, rfl⟩

theorem holds_close {fds : List Nat} (h : (t.close fds).Holds f) : t.Holds f := by
  obtain ⟨x, d, hd, rfl⟩ := h
  exact ⟨x, d, (close_eq_some hd).2, rfl⟩

theorem holds_dup2 {old new : Nat} (h : (t.dup2 old new).Holds f) : t.Holds f := by
  unfold dup2 at h
  split at h
  · exact h
  · rename_i d hd
    rcases holds_openAt h with rfl | h
    · exact ⟨old, d, hd, rfl⟩
    · exact h

theorem dup2_other {old new x : Nat} (h : x ≠ new) : t.dup2 old new x = t x := by
  unfold dup2
  cases t old with
  | none => rfl
  | some d => exact openAt_other t _ _ h

theorem holds_exec (h : t.exec.Holds f) : t.Holds f := by
  obtain ⟨x, d, hd, rfl⟩ := h
  exact ⟨x, d, (Option.filter_eq_some_iff.mp hd).1, rfl⟩

/-- A descriptor without the flag survives `exec`. -/
theorem exec_kept (h : t fd = some ⟨f, false⟩) : t.exec fd = some ⟨f, false⟩ := by
  simp [exec, h]

end DescriptorTable

end YoruSpeech.Lib
