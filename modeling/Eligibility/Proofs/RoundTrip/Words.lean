import Eligibility.Proofs.RoundTrip.Obtained
import Eligibility.Proofs.RoundTrip.Respacing
/-!
# Words are what the tokenizer keeps whole

A text is one token from its first byte on just when it is the written form of a token that a text
can have, with nothing but blanks behind it (`scan_eq_singleton_iff`): a blank in front would move
the token, and anything else behind it would be a token of its own.

The words of `isWord` are the texts that are one word token and nothing more (`isWord_iff_scan`), so
that the checked constructors of conditions and of bare literals accept these texts and no others.
-/

namespace Eligibility

open Text Token

namespace Token

variable {text : String} {kind : Kind}

/-- A layout without tokens is blank. -/
theorem Tiles.all_isBlank {offset : Nat} {cs : List Char} (h : Tiles offset cs []) :
    cs.all isBlank = true := by
  generalize hnone : ([] : List Token) = tokens at h
  induction h with
  | nil => rfl
  | blank hblank _ ih => simp [hblank, ih hnone]
  | token => cases hnone

/-- **A text is a single token** from its first byte on, just when it is the token as it is written,
with blanks behind it. -/
theorem scan_eq_singleton_iff : scan text = .ok [⟨kind, 0⟩] ↔
    kind.isWritable = true ∧
      ∃ gap : String, gap.toList.all isBlank = true ∧ text = kind.display ++ gap := by
  constructor
  · intro h
    have hscans := scanFrom_eq_ok_iff.1 h
    refine ⟨hscans.isWritable kind (by simp), ?_⟩
    have htiles := hscans.tiles
    generalize htext : text.toList = cs at htiles
    cases htiles with
    | @blank _ c _ _ _ hrest =>
      -- a blank in front takes at least the byte at which the token starts
      have hle : 0 + c.utf8Size ≤ 0 := hrest.offset_le List.mem_cons_self
      have hpos := c.utf8Size_pos
      omega
    | @token _ _ written rest _ hwritten _ hrest =>
      refine ⟨String.ofList rest, by simpa using hrest.all_isBlank, ?_⟩
      rw [hwritten, ← String.ofList_append, ← htext, String.ofList_toList]
  · rintro ⟨hkind, gap, hgap, rfl⟩
    have hdisplay := Kind.scans_display hkind 0
    have hblank : Scans (0 + byteCount kind.display.toList) gap.toList [] := by
      rw [← List.append_nil gap.toList]
      exact .blanks (isBlank_of_all hgap) .nil
    have hcut : Stops isWordChar gap.toList := by
      by_cases hne : gap = ""
      · subst hne
        exact stops_nil
      · rw [← List.append_nil gap.toList]
        exact stops_blank hne hgap
    have hscans := hdisplay.append hblank (.inr hcut)
    rw [← String.toList_append] at hscans
    exact scanFrom_eq_ok_iff.2 hscans

end Token

/-- A text that is a word token and nothing more is a word. -/
theorem isWord_of_scan {text : String} (h : scan text = .ok [⟨.word text, 0⟩]) :
    isWord text = true :=
  (scan_eq_singleton_iff.1 h).1

/-- A word is a word token and nothing more. -/
theorem scan_of_isWord {text : String} (h : isWord text = true) :
    scan text = .ok [⟨.word text, 0⟩] :=
  scan_eq_singleton_iff.2 ⟨h, "", rfl, by simp [Kind.display]⟩

theorem Condition.of?_eq_ok_iff {field : String} {comparator : Comparator} {literal : Literal}
    {c : Condition} : of? field comparator literal = .ok c ↔
      c = ⟨field, comparator, literal⟩ ∧ isWord field = true := by
  rw [of?]
  split <;> grind

/-- **Words are the texts that the tokenizer keeps whole**: those that are a single word token,
which holds the whole text and starts at its first byte. Such a text makes a bare literal and the
field of a condition, and no other text does. -/
theorem isWord_iff_scan (text : String) :
    (isWord text = true ↔ scan text = .ok [⟨.word text, 0⟩]) ∧
      (∀ literal, Literal.bare? text = .ok literal ↔
        literal = .bare text ∧ scan text = .ok [⟨.word text, 0⟩]) ∧
      ∀ comparator literal c, Condition.of? text comparator literal = .ok c ↔
        c = ⟨text, comparator, literal⟩ ∧ scan text = .ok [⟨.word text, 0⟩] := by
  have hiff : isWord text = true ↔ scan text = .ok [⟨.word text, 0⟩] :=
    ⟨scan_of_isWord, isWord_of_scan⟩
  refine ⟨hiff, fun literal => ?_, fun comparator literal c => ?_⟩
  · rw [Literal.bare?_eq_ok_iff, ← hiff]
    refine and_congr_right fun hliteral => ?_
    rw [hliteral, Literal.isWritable]
  · rw [Condition.of?_eq_ok_iff, hiff]

end Eligibility
