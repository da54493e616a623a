import Eligibility.Proofs.Grammar.Machine
/-!
# The reader reads the grammar

`ofTokens` accepts the expressions of the grammar, with the rule that each of them stands for, and
nothing else (`ofTokens_eq_ok_iff_derives`).

*Every expression is accepted* (`ofTokens_of_derives`). A run over the tokens of a phrase, from any
state in which the phrase may stand, ends with its rule at hand (`reads_of_derives`, by induction
on the derivation). The rule need not be a single tree of the frame yet, since connectives of the
phrase may still wait: the frame settles to it at the strength of the category.

*Nothing else is accepted* (`derives_of_ofTokens`). `State.Follows` gives every state that a run
reaches the tokens that led to it, as phrases with holes: `Frame.Opens` says of a frame what has
been read at its level and which category may come next, `Surrounds` says the same of the
suspended frames. Every move keeps it (`State.Follows.move`).
-/

namespace Eligibility.RuleTree

open Token (Kind)

/-- The strength from which connectives belong to a phrase of a category. -/
def Category.strength : Category → Nat
  | .expression => 1
  | .term => 2
  | .factor => 3

/-! ## Every expression is accepted -/

/-- `Reads category tokens tree`: wherever a phrase of a category may stand, the reader takes the
tokens and has the rule then, once the frame is settled at the strength of the category. -/
def Reads (category : Category) (tokens : List Token) (tree : RuleTree) : Prop :=
  ∀ (suspended : List Suspended) (frame : Frame), frame.LooserThan category.strength →
    ∃ after : Frame,
      State.run ⟨suspended, frame, .operand⟩ tokens = .ok ⟨suspended, after, .connective⟩ ∧
        after.Settles category.strength (frame.push tree)

namespace Reads

variable {tokens tokens' : List Token} {tree left right : RuleTree}

/-- A phrase of a tighter category is one of a looser category. -/
theorem mono {tight loose : Category} (hle : loose.strength ≤ tight.strength)
    (h : Reads tight tokens tree) : Reads loose tokens tree := by
  intro suspended frame hloose
  obtain ⟨after, hrun, hset⟩ := h suspended frame (hloose.mono hle)
  have hpush : (frame.push tree).LooserThan loose.strength := hloose
  exact ⟨after, hrun, hset.trans hle hpush.settles⟩

/-- Two phrases around a connective: the left one as tight as the connective, the right one
tighter. -/
theorem join {category tighter : Category} {connective : Connective} {offset : Nat}
    (hleft : category.strength = connective.precedence)
    (hright : tighter.strength = connective.precedence + 1)
    (hl : Reads category tokens left) (hr : Reads tighter tokens' right) :
    Reads category (tokens ++ ⟨.connective connective, offset⟩ :: tokens')
      (.join connective left right) := by
  intro suspended frame hloose
  obtain ⟨afterLeft, hrunLeft, hsetLeft⟩ := hl suspended frame hloose
  -- the left rule is settled when the connective starts to wait
  have hawait := Frame.Settles.await ⟨connective, offset⟩ (hleft ▸ hsetLeft)
  have hloose' : Frame.LooserThan tighter.strength
      ⟨left :: frame.trees, ⟨connective, offset⟩ :: frame.waiting⟩ := by
    intro pending hp
    obtain rfl := Option.some.inj hp
    rw [hright]
    exact Nat.lt_succ_self _
  obtain ⟨after, hrun, hset⟩ := hr suspended _ hloose'
  refine ⟨after, ?_, hset.trans (by omega) (Frame.settles_join (Nat.le_of_eq hleft) hloose)⟩
  rw [State.run_append hrunLeft, State.run_cons (.connective hawait)]
  exact hrun

/-- The three tokens of a condition. -/
theorem condition {c : Condition} (h : tokens.map Token.kind = c.kinds) :
    Reads .factor tokens (.condition c) := by
  intro suspended frame hloose
  obtain ⟨⟨_, _⟩, rest, rfl, rfl, h₁⟩ := List.map_eq_cons_iff.1 h
  obtain ⟨⟨_, _⟩, rest, rfl, rfl, h₂⟩ := List.map_eq_cons_iff.1 h₁
  obtain ⟨⟨_, _⟩, rest, rfl, rfl, h₃⟩ := List.map_eq_cons_iff.1 h₂
  obtain rfl := List.map_eq_nil_iff.1 h₃
  have hpush : (frame.push (.condition c)).LooserThan Category.factor.strength := hloose
  refine ⟨_, ?_, hpush.settles⟩
  rw [State.run_cons .word, State.run_cons .comparator, State.run_cons .literal]
  rfl

/-- An expression in parentheses. -/
theorem group {first last : Nat} (h : Reads .expression tokens tree) :
    Reads .factor (⟨.openParen, first⟩ :: tokens ++ [⟨.closeParen, last⟩]) tree := by
  intro suspended frame hloose
  obtain ⟨after, hrun, hset⟩ := h (⟨frame, first⟩ :: suspended) .empty (Frame.looserThan_empty _)
  have hpush : (frame.push tree).LooserThan Category.factor.strength := hloose
  refine ⟨_, ?_, hpush.settles⟩
  rw [List.cons_append, State.run_cons .openParen, State.run_append hrun,
    State.run_cons (.closeParen hset.finish)]
  rfl

end Reads

/-- **The reader takes every phrase for its rule.** -/
theorem reads_of_derives {category : Category} {kinds : List Kind} {tree : RuleTree}
    (h : Derives category kinds tree) {tokens : List Token}
    (hk : tokens.map Token.kind = kinds) : Reads category tokens tree := by
  induction h generalizing tokens with
  | ofTerm _ ih => exact (ih hk).mono (by decide)
  | ofFactor _ ih => exact (ih hk).mono (by decide)
  | or _ _ ihl ihr | and _ _ ihl ihr =>
    obtain ⟨tokensLeft, rest, rfl, hleft, hrest⟩ := List.map_eq_append_iff.1 hk
    obtain ⟨⟨_, _⟩, tokensRight, rfl, rfl, hright⟩ := List.map_eq_cons_iff.1 hrest
    exact (ihl hleft).join rfl rfl (ihr hright)
  | condition c => exact .condition hk
  | group _ ih =>
    obtain ⟨init, rest, rfl, hinit, hlast⟩ := List.map_eq_append_iff.1 hk
    obtain ⟨⟨_, _⟩, inner, rfl, rfl, hinner⟩ := List.map_eq_cons_iff.1 hinit
    obtain ⟨⟨_, _⟩, _, rfl, rfl, hnil⟩ := List.map_eq_cons_iff.1 hlast
    obtain rfl := List.map_eq_nil_iff.1 hnil
    exact (ih hinner).group

/-- A token list whose kinds are an expression is read as the rule of the expression. -/
theorem ofTokens_of_derives {tokens : List Token} {tree : RuleTree}
    (h : Derives .expression (tokens.map Token.kind) tree) : ofTokens tokens = .ok tree := by
  have hne : tokens.isEmpty = false := by
    have := h.ne_nil
    simp_all
  obtain ⟨after, hrun, hset⟩ := reads_of_derives h rfl [] .empty (Frame.looserThan_empty _)
  rw [ofTokens, hne, State.start, hrun]
  exact hset.finish

/-! ## Nothing else is accepted -/

namespace Frame

/-- `Opens category frame kinds`: the tokens `kinds` of one level have been read, `frame` holds
what they amount to, and a phrase of a category may come next. -/
inductive Opens : Category → Frame → List Kind → Prop
  | start : Opens .expression .empty []
  | afterOr {kinds : List Kind} {left : RuleTree} {offset : Nat} :
    Derives .expression kinds left →
      Opens .term ⟨[left], [⟨.or, offset⟩]⟩ (kinds ++ [.connective .or])
  | ofExpression {frame : Frame} {kinds : List Kind} :
    Opens .expression frame kinds → Opens .term frame kinds
  | afterAnd {frame : Frame} {kinds kinds' : List Kind} {left : RuleTree} {offset : Nat} :
    Opens .term frame kinds → Derives .term kinds' left →
      Opens .factor ⟨left :: frame.trees, ⟨.and, offset⟩ :: frame.waiting⟩
        (kinds ++ kinds' ++ [.connective .and])
  | ofTerm {frame : Frame} {kinds : List Kind} :
    Opens .term frame kinds → Opens .factor frame kinds

namespace Opens

variable {category : Category} {frame : Frame} {kinds kinds' : List Kind} {tree : RuleTree}

theorem looserThan (h : Opens category frame kinds) : frame.LooserThan category.strength := by
  induction h with
  | start => exact looserThan_empty _
  | afterOr _ | afterAnd _ _ =>
    intro pending hp
    obtain rfl := Option.some.inj hp
    exact Nat.lt_succ_self _
  | ofExpression _ ih | ofTerm _ ih => exact ih.mono (by decide)

/-- After a factor, `AND` joins what waits for it: a term is complete. -/
theorem settles_term (h : Opens .factor frame kinds) (hd : Derives .factor kinds' tree) :
    ∃ outer before whole term, Settles 2 (frame.push tree) (outer.push whole) ∧
      Opens .term outer before ∧ Derives .term term whole ∧ before ++ term = kinds ++ kinds' := by
  cases h with
  | ofTerm h =>
    have hloose : (frame.push tree).LooserThan 2 := h.looserThan
    exact ⟨_, _, _, _, hloose.settles, h, .ofFactor hd, rfl⟩
  | afterAnd h hleft =>
    exact ⟨_, _, _, _, settles_join (Nat.le_refl _) h.looserThan, h, .and hleft hd, by simp⟩

/-- After a term, `OR` joins what waits for it: an expression is complete. -/
theorem settles_expression (h : Opens .term frame kinds) (hd : Derives .term kinds' tree) :
    ∃ whole, Settles 1 (frame.push tree) (empty.push whole) ∧
      Derives .expression (kinds ++ kinds') whole := by
  cases h with
  | ofExpression h =>
    cases h
    exact ⟨tree, rfl, .ofTerm hd⟩
  | afterOr hleft =>
    refine ⟨_, settles_join (Nat.le_refl _) (looserThan_empty _), ?_⟩
    simpa using Derives.or hleft hd

/-- After a factor, everything joins at the end of a level. -/
theorem settles_level (h : Opens .factor frame kinds) (hd : Derives .factor kinds' tree) :
    ∃ whole, Settles 1 (frame.push tree) (empty.push whole) ∧
      Derives .expression (kinds ++ kinds') whole := by
  obtain ⟨outer, before, term, _, hterm, hopens, hderives, hkinds⟩ := h.settles_term hd
  obtain ⟨whole, hset, hwhole⟩ := hopens.settles_expression hderives
  exact ⟨whole, hterm.trans (by decide) hset, hkinds ▸ hwhole⟩

/-- After a factor and a connective, a factor may come next. -/
theorem await {connective : Connective} {offset : Nat} {awaiting : Frame}
    (h : Opens .factor frame kinds) (hd : Derives .factor kinds' tree)
    (ha : (frame.push tree).await ⟨connective, offset⟩ = .ok awaiting) :
    Opens .factor awaiting (kinds ++ kinds' ++ [.connective connective]) := by
  cases connective with
  | and =>
    obtain ⟨outer, before, term, _, hset, hopens, hderives, hkinds⟩ := h.settles_term hd
    obtain rfl := Except.ok.inj ((hset.await ⟨.and, offset⟩).symm.trans ha)
    exact hkinds ▸ .afterAnd hopens hderives
  | or =>
    obtain ⟨whole, hset, hwhole⟩ := h.settles_level hd
    obtain rfl := Except.ok.inj ((hset.await ⟨.or, offset⟩).symm.trans ha)
    exact .ofTerm (.afterOr hwhole)

/-- At the end of a level the frame is the rule of an expression. -/
theorem finish {root : RuleTree} (h : Opens .factor frame kinds) (hd : Derives .factor kinds' tree)
    (hf : (frame.push tree).finish = .ok root) : Derives .expression (kinds ++ kinds') root := by
  obtain ⟨whole, hset, hwhole⟩ := h.settles_level hd
  obtain rfl := Except.ok.inj (hset.finish.symm.trans hf)
  exact hwhole

end Opens

end Frame

/-- `Surrounds suspended kinds`: the tokens `kinds` open the groups around the current level. -/
inductive Surrounds : List Suspended → List Kind → Prop
  | nil : Surrounds [] []
  | cons {suspended : List Suspended} {frame : Frame} {kinds kinds' : List Kind} (offset : Nat) :
    Surrounds suspended kinds → frame.Opens .factor kinds' →
      Surrounds (⟨frame, offset⟩ :: suspended) (kinds ++ kinds' ++ [.openParen])

/-- `Follows state kinds`: the tokens `kinds` lead to a state. -/
inductive State.Follows : State → List Kind → Prop
  | operand {suspended : List Suspended} {frame : Frame} {kinds kinds' : List Kind} :
    Surrounds suspended kinds → frame.Opens .factor kinds' →
      Follows ⟨suspended, frame, .operand⟩ (kinds ++ kinds')
  | comparator {suspended : List Suspended} {frame : Frame} {kinds : List Kind} {field : String} :
    Follows ⟨suspended, frame, .operand⟩ kinds →
      Follows ⟨suspended, frame, .comparator field⟩ (kinds ++ [.word field])
  | literal {suspended : List Suspended} {frame : Frame} {kinds : List Kind} {field : String}
      {comparator : Comparator} : Follows ⟨suspended, frame, .comparator field⟩ kinds →
      Follows ⟨suspended, frame, .literal field comparator⟩ (kinds ++ [.comparator comparator])
  | connective {suspended : List Suspended} {frame : Frame} {kinds kinds' kinds'' : List Kind}
      {tree : RuleTree} :
    Surrounds suspended kinds → frame.Opens .factor kinds' → Derives .factor kinds'' tree →
      Follows ⟨suspended, frame.push tree, .connective⟩ (kinds ++ kinds' ++ kinds'')

namespace State

theorem follows_start : start.Follows [] :=
  .operand .nil (.ofTerm (.ofExpression .start))

/-- **Every move keeps the tokens that led to the state.** -/
theorem Follows.move {state next : State} {token : Token} {kinds : List Kind}
    (h : state.Follows kinds) (hm : Move state token next) :
    next.Follows (kinds ++ [token.kind]) := by
  cases hm with
  | @openParen _ _ offset =>
    cases h with
    | operand hs hf =>
      have hgroup := Follows.operand (.cons offset hs hf) (.ofTerm (.ofExpression .start))
      simpa using hgroup
  | word => exact .comparator h
  | comparator => exact .literal h
  | literal =>
    rename_i c _
    cases h with
    | literal h =>
      cases h with
      | comparator h =>
        cases h with
        | operand hs hf => simpa [Condition.kinds] using Follows.connective hs hf (.condition c)
  | connective ha =>
    cases h with
    | connective hs hf hd =>
      have hnext := Follows.operand hs (hf.await hd ha)
      simpa using hnext
  | closeParen ht =>
    cases h with
    | connective hs hf hd =>
      cases hs with
      | cons _ hs houter =>
        have hgroup := Follows.connective hs houter (.group (hf.finish hd ht))
        simpa using hgroup

theorem follows_of_run {tokens : List Token} {state : State} (h : start.run tokens = .ok state) :
    state.Follows (tokens.map Token.kind) :=
  run_induction (motive := Follows) (fun hm hf => hf.move hm) h follows_start

/-- A state at the end of the input stands for the expression that led to it. -/
theorem Follows.finish {state : State} {kinds : List Kind} {endOffset : Nat} {tree : RuleTree}
    (h : state.Follows kinds) (hf : state.finish endOffset = .ok tree) :
    Derives .expression kinds tree := by
  cases h with
  | operand hs _ => cases hs <;> simp [State.finish] at hf
  | comparator _ | literal _ => simp [State.finish] at hf
  | connective hs hopens hd =>
    cases hs with
    | nil => exact hopens.finish hd (by simpa [State.finish] using hf)
    | cons => simp [State.finish] at hf

end State

/-- A token list that is read has the kinds of an expression for the rule. -/
theorem derives_of_ofTokens {tokens : List Token} {tree : RuleTree}
    (h : ofTokens tokens = .ok tree) : Derives .expression (tokens.map Token.kind) tree := by
  unfold ofTokens at h
  split at h
  · simp at h
  · obtain ⟨state, hrun, hfinish⟩ := Except.bind_eq_ok_iff.1 h
    exact (State.follows_of_run hrun).finish hfinish

/-- A text is compiled to a rule when its tokens are an expression that stands for the rule. -/
theorem compile_eq_ok_iff {text : String} {tree : RuleTree} : compile text = .ok tree ↔
    ∃ tokens, Token.scan text = .ok tokens ∧
      Derives .expression (tokens.map Token.kind) tree := by
  rw [compile, Except.bind_eq_ok_iff]
  exact exists_congr fun tokens => and_congr_right fun _ =>
    ⟨derives_of_ofTokens, ofTokens_of_derives⟩

/-! ## The language of the reader -/

/-- **The reader is the grammar.** A token list is read as a rule just when its kinds are an
expression that stands for the rule; the expression stands for no other rule; and the same kinds
at other offsets are read as the same rule. -/
theorem ofTokens_eq_ok_iff_derives (tokens : List Token) (tree : RuleTree) :
    (ofTokens tokens = .ok tree ↔ Derives .expression (tokens.map Token.kind) tree) ∧
      (∀ other, Derives .expression (tokens.map Token.kind) tree →
        Derives .expression (tokens.map Token.kind) other → other = tree) ∧
      ∀ moved : List Token, moved.map Token.kind = tokens.map Token.kind →
        (ofTokens moved = .ok tree ↔ ofTokens tokens = .ok tree) := by
  have hiff : ∀ tokens, ofTokens tokens = .ok tree ↔
      Derives .expression (tokens.map Token.kind) tree :=
    fun tokens => ⟨derives_of_ofTokens, ofTokens_of_derives⟩
  refine ⟨hiff tokens, fun other h hother => ?_, fun moved hkinds => ?_⟩
  · exact Except.ok.inj ((ofTokens_of_derives hother).symm.trans (ofTokens_of_derives h))
  · rw [hiff, hiff, hkinds]

/-- The rule `a > 1 OR b < 2 AND c = 'x'`. -/
def mixedRule : RuleTree :=
  .join .or (.condition ⟨"a", .greater, .bare "1"⟩)
    (.join .and (.condition ⟨"b", .less, .bare "2"⟩) (.condition ⟨"c", .equal, .quoted "x"⟩))

/-- With every token at offset 0 or at offset 7, the tokens of `mixedRule` are read as it, and they
stand for no other rule. -/
theorem ofTokens_mixedRule :
    (mixedRule.kinds.map (Token.mk · 7)).map Token.kind =
        (mixedRule.kinds.map (Token.mk · 0)).map Token.kind ∧
      ofTokens (mixedRule.kinds.map (Token.mk · 0)) = .ok mixedRule ∧
      ofTokens (mixedRule.kinds.map (Token.mk · 7)) = .ok mixedRule ∧
      ∀ other, Derives .expression ((mixedRule.kinds.map (Token.mk · 0)).map Token.kind) other →
        other = mixedRule := by
  obtain ⟨hiff, hunique, hmoved⟩ :=
    ofTokens_eq_ok_iff_derives (mixedRule.kinds.map (Token.mk · 0)) mixedRule
  have hread : ofTokens (mixedRule.kinds.map (Token.mk · 0)) = .ok mixedRule := rfl
  exact ⟨rfl, hread, (hmoved _ rfl).2 hread, fun other => hunique other (hiff.1 hread)⟩

end Eligibility.RuleTree
