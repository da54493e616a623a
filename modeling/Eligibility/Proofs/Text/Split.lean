import Mathlib.Data.List.DropRight
/-!
# Where a run of characters stops

Words, quoted strings and names are cut off by `takeWhile` and `dropWhile`. A run is found again
where it was put before a text that does not go on with it (`Stops`), and at the end of a text.
-/

namespace Eligibility.Text

/-- A text that does not start with a character of some kind. -/
def Stops (p : Char → Bool) (rest : List Char) : Prop :=
  ∀ c ∈ rest.head?, p c = false

variable {p : Char → Bool} {run rest : List Char}

theorem stops_nil : Stops p [] := by
  rintro c ⟨⟩

theorem stops_cons {c : Char} (h : p c = false) : Stops p (c :: rest) := by
  rintro d ⟨⟩
  exact h

theorem stops_dropWhile (cs : List Char) : Stops p (cs.dropWhile p) := by
  intro c hc
  have hhead := List.head?_dropWhile_not p cs
  rw [Option.mem_def.1 hc] at hhead
  exact hhead

/-- What follows the beginning of a text does not matter to how it starts. -/
theorem Stops.of_append {cs ds : List Char} (h : Stops p (cs ++ ds)) : Stops p cs := by
  cases cs with
  | nil => exact stops_nil
  | cons c cs => exact h

theorem mem_takeWhile {cs : List Char} : ∀ c ∈ cs.takeWhile p, p c = true :=
  List.all_eq_true.1 List.all_takeWhile

theorem Stops.takeWhile_append (hrest : Stops p rest) (hrun : ∀ c ∈ run, p c = true) :
    (run ++ rest).takeWhile p = run := by
  rw [List.takeWhile_append_of_pos hrun]
  rcases rest with _ | ⟨c, rest⟩
  · simp
  · simp [hrest c rfl]

theorem Stops.dropWhile_append (hrest : Stops p rest) (hrun : ∀ c ∈ run, p c = true) :
    (run ++ rest).dropWhile p = rest := by
  rw [List.dropWhile_append_of_pos hrun]
  rcases rest with _ | ⟨c, rest⟩
  · simp
  · simp [hrest c rfl]

/-- A run at the end of a text is dropped, up to the last character that is not in it. -/
theorem rdropWhile_concat_append {init : List Char} {c : Char} (hc : p c = false)
    (hrun : ∀ d ∈ run, p d = true) : (init ++ [c] ++ run).rdropWhile p = init ++ [c] := by
  have hstop : Stops p (c :: init.reverse) := stops_cons hc
  rw [List.rdropWhile, List.reverse_append, List.reverse_concat,
    hstop.dropWhile_append (by simpa using hrun)]
  simp

end Eligibility.Text
