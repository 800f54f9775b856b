import Mathlib.Data.List.Basic

/-!
# Words between blanks

A list is cut at every blank and the empty pieces are left out. What remains
are its words. `Spelled ws s` says that `s` is the lists `ws` with blanks
behind each of them; the blanks may be missing only behind the last one.
-/

namespace Words

variable {α : Type*} (blank : α → Bool)

def words (s : List α) : List (List α) := (s.splitOnP blank).filter fun w => !w.isEmpty

def IsWord (w : List α) : Prop := w ≠ [] ∧ ∀ a ∈ w, blank a = false

inductive Spelled : List (List α) → List α → Prop
  | nil : Spelled [] []
  | cons {w blanks s : List α} {ws : List (List α)}
      (blanks_blank : ∀ a ∈ blanks, blank a = true) (apart : ws ≠ [] → blanks ≠ [])
      (rest : Spelled ws s) : Spelled (w :: ws) (w ++ blanks ++ s)

variable {blank}

/-- A blank ends the word before it. -/
theorem words_append_cons {b : α} (is_blank : blank b = true) (s t : List α) :
    words blank (s ++ b :: t) = words blank s ++ words blank t := by
  rw [words, List.splitOnP_append_cons s t is_blank, List.filter_append]
  rfl

theorem words_word {w : List α} (word : IsWord blank w) : words blank w = [w] := by
  rw [words, List.splitOnP_eq_singleton word.2]
  exact List.filter_cons_of_pos (by simpa using word.1)

theorem words_blanks_append {blanks : List α} (all : ∀ a ∈ blanks, blank a = true)
    (s : List α) : words blank (blanks ++ s) = words blank s := by
  induction blanks with
  | nil => rfl
  | cons b blanks ih =>
    have first := words_append_cons (all b List.mem_cons_self) [] (blanks ++ s)
    have rest := ih fun a mem => all a (List.mem_cons_of_mem b mem)
    rw [List.cons_append, ← rest]
    exact first

theorem words_blanks {blanks : List α} (all : ∀ a ∈ blanks, blank a = true) :
    words blank blanks = [] := by
  have without := words_blanks_append all []
  rwa [List.append_nil] at without

theorem words_append_blanks {blanks : List α} (all : ∀ a ∈ blanks, blank a = true)
    (s : List α) : words blank (s ++ blanks) = words blank s := by
  cases blanks with
  | nil => rw [List.append_nil]
  | cons b blanks =>
    rw [words_append_cons (all b List.mem_cons_self),
      words_blanks fun a mem => all a (List.mem_cons_of_mem b mem), List.append_nil]

/-- The words of a spelled list are the words it was spelled from. -/
theorem words_spelled {ws : List (List α)} {s : List α} (spelled : Spelled blank ws s)
    (are_words : ∀ w ∈ ws, IsWord blank w) : words blank s = ws := by
  induction spelled with
  | nil => rfl
  | @cons w blanks s ws all apart rest ih =>
    have word := are_words w List.mem_cons_self
    have ih := ih fun w' mem => are_words w' (List.mem_cons_of_mem w mem)
    cases blanks with
    | nil =>
      have last : ws = [] := by
        by_contra more
        exact apart more rfl
      subst last
      cases rest
      rw [List.append_nil, List.append_nil]
      exact words_word word
    | cons b blanks =>
      have blanks_rest := words_blanks_append
        (fun a mem => all a (List.mem_cons_of_mem b mem)) s
      rw [List.append_assoc, List.cons_append, words_append_cons (all b List.mem_cons_self),
        words_word word, blanks_rest, ih]
      rfl

section Closed

variable [DecidableEq α] {sep : α}

/-- Pieces with a separator behind each are cut back into the pieces and an empty rest. -/
theorem splitOn_closed {pieces : List (List α)} (clean : ∀ w ∈ pieces, sep ∉ w) :
    (pieces.flatMap (· ++ [sep])).splitOn sep = pieces ++ [[]] := by
  induction pieces with
  | nil => rfl
  | cons w pieces ih =>
    have rest := ih fun w' mem => clean w' (List.mem_cons_of_mem w mem)
    rw [List.flatMap_cons, List.append_assoc, List.singleton_append,
      List.splitOn_append_cons_self_of_not_mem (clean w List.mem_cons_self), rest,
      List.cons_append]

end Closed

end Words
