import Eligibility.Proofs.RoundTrip.Writable
import Eligibility.Proofs.Token.Placement
/-!
# Blanks between tokens do not matter

Tokens that are written one after the other with blanks between them are scanned again, each at the
offset that the lengths before it add up to (`scans_between`). There need not be a blank in front of
the first token or behind the last one, but there has to be one between any two.

The tokens of a text are of the kinds for which this holds. So a text may be spaced anew: its tokens
keep their kinds, and it is compiled to the same rule (`scan_spaced`).
-/

namespace Eligibility

open Text Token

namespace Token

variable {gap last : String} {gaps : List String} {kind : Kind} {kinds : List Kind}
  {tokens : List Token} {offset : Nat}

/-! ## Single tokens -/

theorem Kind.spells_display (h : kind.isWritable = true) : Spells kind.display [kind] := by
  cases kind with
  | openParen => exact .openParen
  | closeParen => exact .closeParen
  | connective op => exact .connective op
  | comparator op => exact .comparator op
  | word text => exact .word h
  | quoted text => exact .quoted h

/-- A token that is written down is scanned where it starts. -/
theorem Kind.scans_display (h : kind.isWritable = true) (offset : Nat) :
    Scans offset kind.display.toList [⟨kind, offset⟩] := by
  obtain ⟨tokens, hscans, hkinds⟩ := spells_display h offset
  obtain ⟨⟨_, start⟩, rest, rfl, rfl, hrest⟩ := List.map_eq_cons_iff.1 hkinds
  obtain rfl := List.map_eq_nil_iff.1 hrest
  -- the token takes up the whole text, so that nothing stands in front of it
  obtain ⟨before, after, htext, hstart⟩ := hscans.tiles.exists_append List.mem_cons_self
  have hlength := congrArg List.length htext
  simp only [List.length_append] at hlength
  obtain rfl : before = [] := List.eq_nil_of_length_eq_zero (by omega)
  obtain rfl : start = offset := hstart
  exact hscans

/-! ## Written tokens -/

/-- The tokens of some kinds, each behind a gap, one after the other from a byte offset on. -/
def place (offset : Nat) : List String → List Kind → List Token
  | gap :: gaps, kind :: kinds =>
    let token : Token := ⟨kind, offset + gap.utf8ByteSize⟩
    token :: place token.endOffset gaps kinds
  | _, _ => []

/-- Gaps that stand in front of so many tokens, and what follows the last one: all of them blank,
and none of those between two tokens empty. -/
structure Separates (gaps : List String) (count : Nat) (last : String) : Prop where
  length_eq : gaps.length = count
  blank : ∀ gap ∈ last :: gaps, gap.toList.all isBlank = true
  apart : ∀ gap ∈ gaps.tail, gap ≠ ""

theorem map_kind_place (h : gaps.length = kinds.length) :
    (place offset gaps kinds).map Token.kind = kinds := by
  induction gaps generalizing kinds offset with
  | nil =>
    obtain rfl := List.eq_nil_of_length_eq_zero h.symm
    rfl
  | cons gap gaps ih =>
    obtain ⟨kind, kinds, rfl⟩ := List.exists_cons_of_length_eq_add_one h.symm
    exact congrArg (kind :: ·) (ih (Nat.succ.inj h))

theorem between_nil (tokens : List Token) (last : String) : between [] tokens last = last := by
  simp [between]

theorem between_cons (gap : String) (gaps : List String) (token : Token) (tokens : List Token)
    (last : String) : between (gap :: gaps) (token :: tokens) last =
      gap ++ (token.kind.display ++ between gaps tokens last) := by
  simp [between, String.append_assoc]

/-- Only the kinds of tokens are written. -/
theorem between_congr {tokens' : List Token}
    (h : tokens.map Token.kind = tokens'.map Token.kind) (gaps : List String) (last : String) :
    between gaps tokens last = between gaps tokens' last := by
  have hzip : ∀ tokens : List Token,
      List.zipWith (fun gap token => gap ++ token.kind.display) gaps tokens =
        List.zipWith (fun gap kind => gap ++ kind.display) gaps (tokens.map Token.kind) :=
    fun tokens => by rw [List.zipWith_map_right]
  rw [between, hzip, h, ← hzip, ← between]

theorem isBlank_of_all (h : gap.toList.all isBlank = true) : ∀ c ∈ gap.toList, isBlank c = true :=
  List.all_eq_true.1 h

/-- No token goes on in blanks. -/
theorem stops_blank {cs : List Char} (hne : gap ≠ "") (h : gap.toList.all isBlank = true) :
    Stops isWordChar (gap.toList ++ cs) := by
  obtain ⟨c, rest, hcons⟩ := List.exists_cons_of_ne_nil (mt String.toList_eq_nil_iff.1 hne)
  have hc : isBlank c = true := isBlank_of_all h c (hcons ▸ List.mem_cons_self)
  rw [hcons]
  exact stops_cons (by simp [isWordChar, hc])

/-- No token goes on in what is written behind it. -/
theorem stops_between (hblank : ∀ gap ∈ last :: gaps, gap.toList.all isBlank = true)
    (hne : ∀ gap ∈ gaps, gap ≠ "") : Stops isWordChar (between gaps tokens last).toList := by
  obtain ⟨hlast, hgaps⟩ := List.forall_mem_cons.1 hblank
  have hend : Stops isWordChar last.toList := by
    by_cases h : last = ""
    · subst h
      exact stops_nil
    · rw [← List.append_nil last.toList]
      exact stops_blank h hlast
  cases gaps with
  | nil => rwa [between_nil]
  | cons gap gaps =>
    cases tokens with
    | nil => simpa [between] using hend
    | cons token tokens =>
      rw [between_cons, String.toList_append]
      exact stops_blank (hne gap List.mem_cons_self) (hgaps gap List.mem_cons_self)

/-- **Tokens that are written down with blanks between them** are scanned again. -/
theorem scans_between (hkinds : ∀ kind ∈ kinds, kind.isWritable = true)
    (h : Separates gaps kinds.length last) :
    Scans offset (between gaps (place offset gaps kinds) last).toList
      (place offset gaps kinds) := by
  induction gaps generalizing kinds offset with
  | nil =>
    have hlast := isBlank_of_all (h.blank last List.mem_cons_self)
    rw [between_nil, ← List.append_nil last.toList]
    exact .blanks hlast (by unfold place; exact .nil)
  | cons gap gaps ih =>
    obtain ⟨kind, kinds, rfl⟩ := List.exists_cons_of_length_eq_add_one h.length_eq.symm
    obtain ⟨hkind, hkinds⟩ := List.forall_mem_cons.1 hkinds
    obtain ⟨hlast, hblank⟩ := List.forall_mem_cons.1 h.blank
    obtain ⟨hgap, hgaps⟩ := List.forall_mem_cons.1 hblank
    have hrest : Separates gaps kinds.length last :=
      ⟨Nat.succ.inj h.length_eq, List.forall_mem_cons.2 ⟨hlast, hgaps⟩,
        fun gap hmem => h.apart gap (List.mem_of_mem_tail hmem)⟩
    rw [place, between_cons, String.toList_append, String.toList_append]
    refine .blanks (isBlank_of_all hgap) ?_
    rw [byteCount_toList]
    refine (kind.scans_display hkind _).append ?_ (.inr (stops_between hrest.blank h.apart))
    rw [byteCount_toList]
    exact ih hkinds hrest

/-! ## Texts -/

/-- The tokens of a text, written down with other gaps, keep their kinds. -/
theorem exists_scan_between {text : String} (hscan : scan text = .ok tokens)
    (h : Separates gaps tokens.length last) : ∃ respaced,
      scan (between gaps tokens last) = .ok respaced ∧
        respaced.map Token.kind = tokens.map Token.kind := by
  have hkinds := (scanFrom_eq_ok_iff.1 hscan).isWritable
  rw [← tokens.length_map Token.kind] at h
  have hplaced : (place 0 gaps (tokens.map Token.kind)).map Token.kind = _ :=
    map_kind_place h.length_eq
  refine ⟨_, ?_, hplaced⟩
  rw [between_congr hplaced.symm]
  exact scanFrom_eq_ok_iff.2 (scans_between hkinds h)

/-- What a text is compiled to depends on the kinds of its tokens. -/
theorem compile_eq_ok_iff_of_kinds {text text' : String} {tokens' : List Token}
    (h : scan text = .ok tokens) (h' : scan text' = .ok tokens')
    (hkinds : tokens'.map Token.kind = tokens.map Token.kind) (tree : RuleTree) :
    RuleTree.compile text' = .ok tree ↔ RuleTree.compile text = .ok tree := by
  simp only [RuleTree.compile_eq_ok_iff, h, h', Except.ok.injEq, exists_eq_left', hkinds]

/-- **Blanks between tokens do not matter.** Words, quoted strings without quotes, operators and
parentheses are scanned as what they are when they are written down with blanks between them, each
at the offset that the lengths before it add up to. A text has no other tokens than these; so its
tokens, written down with other gaps, are of the same kinds again, and are compiled to the same
rule. -/
theorem scan_spaced :
    (∀ kinds gaps last, (∀ kind ∈ kinds, kind.isWritable = true) →
      Separates gaps kinds.length last →
        scan (between gaps (place 0 gaps kinds) last) = .ok (place 0 gaps kinds) ∧
          (place 0 gaps kinds).map Token.kind = kinds) ∧
    ∀ text tokens, scan text = .ok tokens →
      (∀ token ∈ tokens, token.kind.isWritable = true) ∧
        ∀ gaps last, Separates gaps tokens.length last →
          (∃ respaced, scan (between gaps tokens last) = .ok respaced ∧
            respaced.map Token.kind = tokens.map Token.kind) ∧
          ∀ tree, RuleTree.compile (between gaps tokens last) = .ok tree ↔
            RuleTree.compile text = .ok tree := by
  refine ⟨fun kinds gaps last hkinds h => ?_, fun text tokens hscan => ⟨?_, fun gaps last h => ?_⟩⟩
  · exact ⟨scanFrom_eq_ok_iff.2 (scans_between hkinds h), map_kind_place h.length_eq⟩
  · exact List.forall_mem_map.1 (scanFrom_eq_ok_iff.1 hscan).isWritable
  · obtain ⟨respaced, hrespaced, hkinds⟩ := exists_scan_between hscan h
    exact ⟨⟨respaced, hrespaced, hkinds⟩, compile_eq_ok_iff_of_kinds hscan hrespaced hkinds⟩

/-- Five tokens that are no rule, and a rule whose text has no blank next to its parentheses: with
other gaps the former are at the offsets 2, 6, 10, 12 and 14, and the latter is the same rule. -/
theorem scan_spaced_crowdedRule :
    scan "\u00a0x\u3000'(' <\t) é" = .ok [⟨.word "x", 2⟩, ⟨.quoted "(", 6⟩,
        ⟨.comparator .less, 10⟩, ⟨.closeParen, 12⟩, ⟨.word "é", 14⟩] ∧
      RuleTree.compile "(é = 'a (b')AND(x'y > 1)" =
        .ok (.join .and (.condition ⟨"é", .equal, .quoted "a (b"⟩)
          (.condition ⟨"x'y", .greater, .bare "1"⟩)) ∧
      RuleTree.compile "( é\n= 'a (b' )\tAND ( x'y > 1 ) " =
        .ok (.join .and (.condition ⟨"é", .equal, .quoted "a (b"⟩)
          (.condition ⟨"x'y", .greater, .bare "1"⟩)) := by
  have hscan : scan "(é = 'a (b')AND(x'y > 1)" = .ok
      [⟨.openParen, 0⟩, ⟨.word "é", 1⟩, ⟨.comparator .equal, 4⟩, ⟨.quoted "a (b", 6⟩,
        ⟨.closeParen, 12⟩, ⟨.connective .and, 13⟩, ⟨.openParen, 16⟩, ⟨.word "x'y", 17⟩,
        ⟨.comparator .greater, 21⟩, ⟨.word "1", 23⟩, ⟨.closeParen, 24⟩] := by decide +kernel
  have hcompile : RuleTree.compile "(é = 'a (b')AND(x'y > 1)" =
      .ok (.join .and (.condition ⟨"é", .equal, .quoted "a (b"⟩)
        (.condition ⟨"x'y", .greater, .bare "1"⟩)) := by
    rw [RuleTree.compile, hscan]
    rfl
  obtain ⟨-, hrespaced⟩ := scan_spaced.2 _ _ hscan
  obtain ⟨-, hiff⟩ := hrespaced ["", " ", "\n", " ", " ", "\t", " ", " ", " ", " ", " "] " "
    ⟨rfl, by decide, by decide⟩
  obtain ⟨hplaced, -⟩ := scan_spaced.1
    [.word "x", .quoted "(", .comparator .less, .closeParen, .word "é"]
    ["\u00a0", "\u3000", " ", "\t", " "] "" (by decide) ⟨rfl, by decide, by decide⟩
  exact ⟨hplaced, hcompile, (hiff _).2 hcompile⟩

end Token

end Eligibility
