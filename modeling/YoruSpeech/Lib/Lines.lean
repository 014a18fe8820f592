/-
YoruSpeech.Lib.Lines — a stream cut at a separator.

`Lines sep s bodies tail` says that `s` is the pieces `bodies`, each closed
by the separator, followed by `tail`, which is not closed. A stream has one
such cut (`Lines.unique`), so the relation names its lines without saying
how they are found.
-/
import Mathlib.Data.List.Infix

namespace YoruSpeech.Lib

variable {α : Type} {sep : α} {s tail : List α} {bodies : List (List α)}

structure Lines (sep : α) (s : List α) (bodies : List (List α)) (tail : List α) : Prop where
  stream : s = bodies.flatMap (· ++ [sep]) ++ tail
  closed : ∀ body ∈ bodies, sep ∉ body
  unclosed : sep ∉ tail

/-- Two ways to write a list as separator-free, separator and rest agree. -/
theorem append_sep_inj {xs ys xs' ys' : List α} (h : xs ++ sep :: ys = xs' ++ sep :: ys')
    (hx : sep ∉ xs) (hx' : sep ∉ xs') : xs = xs' ∧ ys = ys' := by
  induction xs generalizing xs' with
  | nil =>
    cases xs' with
    | nil => exact ⟨rfl, List.cons.inj h |>.2⟩
    | cons x rest =>
      have hhead := (List.cons.inj h).1
      exact absurd (hhead ▸ List.mem_cons_self) hx'
  | cons x rest ih =>
    cases xs' with
    | nil =>
      have hhead := (List.cons.inj h).1
      exact absurd (hhead ▸ List.mem_cons_self) hx
    | cons x' rest' =>
      obtain ⟨rfl, htail⟩ := List.cons.inj h
      obtain ⟨rfl, rfl⟩ := ih htail (fun hm => hx (List.mem_cons_of_mem _ hm))
        (fun hm => hx' (List.mem_cons_of_mem _ hm))
      exact ⟨rfl, rfl⟩

/-- A stream has one cut into lines. -/
theorem Lines.unique {bodies' : List (List α)} {tail' : List α} (h : Lines sep s bodies tail)
    (h' : Lines sep s bodies' tail') : bodies = bodies' ∧ tail = tail' := by
  induction bodies generalizing s bodies' with
  | nil =>
    cases bodies' with
    | nil => exact ⟨rfl, by simpa using h.stream.symm.trans h'.stream⟩
    | cons body rest =>
      have hstream := h.stream.symm.trans h'.stream
      have hmem : sep ∈ tail := by
        simp only [List.flatMap_nil, List.nil_append] at hstream
        simp [hstream]
      exact absurd hmem h.unclosed
  | cons body rest ih =>
    cases bodies' with
    | nil =>
      have hstream := h.stream.symm.trans h'.stream
      have hmem : sep ∈ tail' := by
        simp only [List.flatMap_nil, List.nil_append] at hstream
        simp [← hstream]
      exact absurd hmem h'.unclosed
    | cons body' rest' =>
      have hstream := h.stream.symm.trans h'.stream
      simp only [List.flatMap_cons, List.append_assoc, List.singleton_append] at hstream
      obtain ⟨rfl, hrest⟩ := append_sep_inj hstream (h.closed _ List.mem_cons_self)
        (h'.closed _ List.mem_cons_self)
      have hleft : Lines sep (rest.flatMap (· ++ [sep]) ++ tail) rest tail :=
        ⟨rfl, fun b hb => h.closed b (List.mem_cons_of_mem _ hb), h.unclosed⟩
      have hright : Lines sep (rest.flatMap (· ++ [sep]) ++ tail) rest' tail' :=
        ⟨hrest, fun b hb => h'.closed b (List.mem_cons_of_mem _ hb), h'.unclosed⟩
      obtain ⟨rfl, rfl⟩ := ih hleft hright
      exact ⟨rfl, rfl⟩

/-- Every stream can be cut into lines. -/
theorem Lines.exists [DecidableEq α] (sep : α) (s : List α) :
    ∃ bodies tail, Lines sep s bodies tail := by
  induction s with
  | nil => exact ⟨[], [], rfl, by simp, by simp⟩
  | cons x rest ih =>
    obtain ⟨bodies, tail, hstream, hclosed, hunclosed⟩ := ih
    by_cases hx : x = sep
    · subst hx
      refine ⟨[] :: bodies, tail, by simp [hstream], ?_, hunclosed⟩
      intro body hbody
      rcases List.mem_cons.mp hbody with rfl | hbody
      · simp
      · exact hclosed body hbody
    · cases bodies with
      | nil =>
        refine ⟨[], x :: tail, by simp [hstream], by simp, ?_⟩
        simp [Ne.symm hx, hunclosed]
      | cons body bodies =>
        refine ⟨(x :: body) :: bodies, tail, by simp [hstream], ?_, hunclosed⟩
        intro b hb
        rcases List.mem_cons.mp hb with rfl | hb
        · simp [Ne.symm hx, hclosed body List.mem_cons_self]
        · exact hclosed b (List.mem_cons_of_mem _ hb)

/-- Lines cut off the front are the first lines of the stream. -/
theorem Lines.isPrefix [DecidableEq α] {front : List (List α)} {rest : List α}
    (h : Lines sep s bodies tail) (hs : s = front.flatMap (· ++ [sep]) ++ rest)
    (hfront : ∀ body ∈ front, sep ∉ body) : front <+: bodies := by
  obtain ⟨more, last, hrest⟩ := Lines.exists sep rest
  have hall : Lines sep s (front ++ more) last := by
    refine ⟨?_, ?_, hrest.unclosed⟩
    · rw [hs, hrest.stream, List.flatMap_append, List.append_assoc]
    · intro body hbody
      rcases List.mem_append.mp hbody with hbody | hbody
      · exact hfront body hbody
      · exact hrest.closed body hbody
  rw [(h.unique hall).1]
  exact List.prefix_append front more

/-- A run without separator lies on one side of it. -/
theorem infix_of_infix_append_sep {run xs ys : List α} (h : run <:+: xs ++ sep :: ys)
    (hsep : sep ∉ run) : run <:+: xs ∨ run <:+: ys := by
  have hstart : ∀ u : List α, u <+: sep :: ys → sep ∉ u → u = [] := by
    intro u hu hnot
    cases u with
    | nil => rfl
    | cons x rest =>
      obtain ⟨rfl, -⟩ := List.cons_prefix_cons.mp hu
      exact absurd List.mem_cons_self hnot
  rcases List.infix_append_iff.mp h with h | h | ⟨u, v, rfl, hu, hv⟩
  · exact .inl h
  · rcases List.infix_cons_iff.mp h with h | h
    · rw [hstart run h hsep]
      exact .inl (List.nil_infix)
    · exact .inr h
  · rw [hstart v hv fun hm => hsep (List.mem_append_right u hm), List.append_nil]
    exact .inl hu.isInfix

/-- A run without separator is no longer than the longest line. -/
theorem Lines.length_le_of_isInfix {n : Nat} (h : Lines sep s bodies tail)
    (hbodies : ∀ body ∈ bodies, body.length ≤ n) (htail : tail.length ≤ n) {run : List α}
    (hrun : run <:+: s) (hsep : sep ∉ run) : run.length ≤ n := by
  induction bodies generalizing s with
  | nil =>
    have hstream : s = tail := h.stream
    exact (hstream ▸ hrun).length_le.trans htail
  | cons body rest ih =>
    have hrest : Lines sep (rest.flatMap (· ++ [sep]) ++ tail) rest tail :=
      ⟨rfl, fun b hb => h.closed b (List.mem_cons_of_mem _ hb), h.unclosed⟩
    have hstream : s = body ++ sep :: (rest.flatMap (· ++ [sep]) ++ tail) := by
      simp [h.stream]
    rcases infix_of_infix_append_sep (hstream ▸ hrun) hsep with hin | hin
    · exact hin.length_le.trans (hbodies body List.mem_cons_self)
    · exact ih hrest (fun b hb => hbodies b (List.mem_cons_of_mem _ hb)) hin

end YoruSpeech.Lib
