import Eligibility.Proofs.Service.Compiling
import Eligibility.Proofs.Service.FlatRule
import Eligibility.Proofs.Token.Placement
/-!
# How deep a rule of some length can be

A rule has at most as many levels as conditions (`RuleTree.depth_le_conditionCount`), and a text has
room for one condition in every nine bytes, four of which the last one can do without
(`RuleTree.nine_mul_conditionCount_le`).

The bytes are shared out to the tokens, each with the blank behind it (`Kind.room`). Words,
connectives and comparators cannot do without that blank, unless there is a parenthesis in its place
or the end of the text; so a parenthesis is given nothing, and the end one byte less
(`Token.Scans.room_le`). What is left is a sum over the tokens, and in every derivation it comes to
nine for each condition but three for the missing connective (`RuleTree.Derives.room_eq`).

As `compile` has no other limit on depth, the length of the texts is what bounds it, and the bound
is reached (`Service.depth_within_room`).
-/

namespace Eligibility

open Text Token

namespace Token

/-! ## The room of tokens -/

/-- The bytes that a token takes at least, with the blank behind it. Parentheses take the place of a
blank, and a quoted string needs none. -/
def Kind.room : Kind → Nat
  | .openParen | .closeParen => 0
  | .connective _ => 3
  | .comparator _ | .word _ | .quoted _ => 2

/-- The bytes that some tokens take at least, with a blank behind the last one. -/
def room : List Kind → Nat
  | [] => 0
  | kind :: kinds => kind.room + room kinds

@[simp] theorem room_nil : room [] = 0 := rfl

@[simp] theorem room_cons (kind : Kind) (kinds : List Kind) :
    room (kind :: kinds) = kind.room + room kinds := rfl

@[simp] theorem room_append (kinds kinds' : List Kind) :
    room (kinds ++ kinds') = room kinds + room kinds' := by
  induction kinds with
  | nil => exact (Nat.zero_add _).symm
  | cons kind kinds ih => rw [List.cons_append, room_cons, room_cons, ih, Nat.add_assoc]

/-- A run of word characters and the byte behind it make up the room of its token. -/
theorem Kind.room_ofWord_le (c : Char) (cs : List Char) :
    (Kind.ofWord (String.ofList (c :: cs))).room ≤ byteCount (c :: cs) + 1 := by
  have hpos : 0 < byteCount (c :: cs) := Nat.add_pos_left c.utf8Size_pos _
  have hsize := congrArg String.utf8ByteSize (Kind.display_ofWord (String.ofList (c :: cs)))
  rw [utf8ByteSize_ofList] at hsize
  cases hkind : Kind.ofWord (String.ofList (c :: cs)) with
  | openParen | closeParen | comparator _ | word _ | quoted _ =>
    simp only [Kind.room]
    omega
  | connective op =>
    rw [hkind, Kind.display] at hsize
    have hkeyword : 2 ≤ op.keyword.utf8ByteSize := by cases op <;> decide
    simp only [Kind.room]
    omega

/-- **The tokens of a text have room in it**, but for the blank behind the last one. In a text that
starts with a blank or a parenthesis they have room even with that blank, or there are none. -/
theorem Scans.room_le {offset : Nat} {cs : List Char} {tokens : List Token}
    (h : Scans offset cs tokens) : room (tokens.map Token.kind) ≤ byteCount cs + 1 ∧
      (Stops isWordChar cs → room (tokens.map Token.kind) ≤ byteCount cs) := by
  induction h with
  | nil => exact ⟨Nat.zero_le _, fun _ => Nat.zero_le _⟩
  | @blank offset c rest tokens _ _ ih =>
    have hpos := c.utf8Size_pos
    rw [byteCount_cons]
    omega
  | openParen _ ih | closeParen _ ih =>
    have hparen : '('.utf8Size = 1 ∧ ')'.utf8Size = 1 := ⟨rfl, rfl⟩
    simp only [List.map_cons, room_cons, Kind.room, byteCount_cons]
    omega
  | @quoted offset content rest tokens _ _ ih =>
    have hquote : '\''.utf8Size = 1 := rfl
    have hroom : (Kind.quoted (String.ofList content)).room = 2 := rfl
    refine ⟨?_, fun hstop => absurd (hstop _ rfl) (by decide)⟩
    simp only [List.map_cons, room_cons, byteCount_cons, byteCount_append]
    omega
  | @run offset c cs rest tokens _ hrun hrest _ ih =>
    have hroom := Kind.room_ofWord_le c cs
    have htail := ih.2 hrest
    refine ⟨?_, fun hstop => ?_⟩
    · simp only [← List.cons_append, byteCount_append, List.map_cons, room_cons]
      omega
    · have hword := hrun c List.mem_cons_self
      rw [hstop c rfl] at hword
      cases hword

end Token

namespace RuleTree

/-! ## The room of rules -/

/-- A rule has at most as many levels as conditions. -/
theorem depth_le_conditionCount (tree : RuleTree) : tree.depth ≤ tree.conditionCount := by
  rw [depth_eq_height]
  have hpos : ∀ tree : RuleTree, 0 < tree.conditionCount := by
    intro tree
    induction tree with
    | condition c => exact Nat.one_pos
    | join connective left right ihl _ => exact Nat.add_pos_left ihl _
  induction tree with
  | condition c => exact Nat.le_refl 1
  | join connective left right ihl ihr =>
    have hl := hpos left
    have hr := hpos right
    rw [height, conditionCount]
    omega

/-- **Tokens that derive a rule** take nine bytes for each condition, where the last one lacks its
connective. -/
theorem Derives.room_eq {category : Category} {kinds : List Kind} {tree : RuleTree}
    (h : Derives category kinds tree) : room kinds + 3 = 9 * tree.conditionCount := by
  induction h with
  | ofTerm _ ih | ofFactor _ ih => exact ih
  | or _ _ ihl ihr | and _ _ ihl ihr =>
    rw [room_append, room_cons, Kind.room, conditionCount]
    omega
  | condition c =>
    obtain ⟨field, comparator, literal⟩ := c
    cases literal <;> rfl
  | group _ ih =>
    rw [List.cons_append, room_cons, room_append, room_cons, room_nil, Kind.room, Kind.room]
    omega

/-- **A text has room for one condition in nine bytes**, four of which the last one does without. -/
theorem nine_mul_conditionCount_le {text : String} {tree : RuleTree} (h : compile text = .ok tree) :
    9 * tree.conditionCount ≤ text.utf8ByteSize + 4 := by
  obtain ⟨tokens, hscan, hderives⟩ := compile_eq_ok_iff.1 h
  have hroom := (scanFrom_eq_ok_iff.1 hscan).room_le.1
  rw [byteCount_toList] at hroom
  have heq := hderives.room_eq
  omega

end RuleTree

namespace Service

/-- **The length of a text bounds the depth of its rule**, by way of the number of conditions. So
the limit on length is a limit on the depth of compiled rules. Whatever the other limits are, there
is no better one, if all fields are allowed: every depth up to that bound is reached. -/
theorem depth_within_room :
    (∀ text tree, RuleTree.compile text = .ok tree → tree.depth ≤ tree.conditionCount ∧
      9 * tree.conditionCount ≤ text.utf8ByteSize + 4) ∧
    ∀ limits : Limits,
      (∀ text tree, compile limits text = .ok tree →
        tree.depth ≤ (limits.maxRuleLength + 4) / 9) ∧
      (limits.allowedAttributes = [] → ∀ depth, 0 < depth →
        depth ≤ (limits.maxRuleLength + 4) / 9 →
          ∃ text tree, compile limits text = .ok tree ∧ tree.depth = depth) := by
  refine ⟨fun text tree h => ⟨tree.depth_le_conditionCount, RuleTree.nine_mul_conditionCount_le h⟩,
    fun limits => ⟨fun text tree h => ?_, fun hall depth hpos hdepth => ?_⟩⟩
  · obtain ⟨hread, hadmits, -⟩ := compile_eq_ok_iff_core.1 h
    have hlength := hadmits.length_le
    have hdepth := tree.depth_le_conditionCount
    have hroom := RuleTree.nine_mul_conditionCount_le hread
    omega
  · obtain ⟨joins, rfl⟩ := Nat.exists_eq_add_one.2 hpos
    exact ⟨_, _, compile_flatRule limits joins (by omega) hall, RuleTree.depth_flatRule joins⟩

/-- Two conditions take fourteen bytes, even if an empty string saves the blank before the
connective. Under the default limits rules have up to 455 levels, more than may be evaluated. -/
theorem depth_within_room_default :
    let text := "a > ''OR b > 2"
    let tree : RuleTree :=
      .join .or (.condition ⟨"a", .greater, .quoted ""⟩) (.condition ⟨"b", .greater, .bare "2"⟩)
    RuleTree.compile text = .ok tree ∧ tree.depth ≤ tree.conditionCount ∧
      9 * tree.conditionCount ≤ text.utf8ByteSize + 4 ∧ text.utf8ByteSize = 14 ∧
      compile .default text = .ok tree ∧ tree.depth ≤ 455 ∧
      Limits.default.allowedAttributes = [] ∧
      ∃ text tree, compile .default text = .ok tree ∧ tree.depth = 455 := by
  intro text tree
  obtain ⟨hroom, hlimits⟩ := depth_within_room
  obtain ⟨hdepth, hreached⟩ := hlimits .default
  have hread : RuleTree.compile text = .ok tree := by decide +kernel
  have hcompiled : compile .default text = .ok tree := by decide +kernel
  exact ⟨hread, (hroom text tree hread).1, (hroom text tree hread).2, by decide, hcompiled,
    hdepth text tree hcompiled, rfl, hreached rfl 455 (by decide) (by decide)⟩

end Service

end Eligibility
