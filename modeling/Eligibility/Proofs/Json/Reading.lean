import Eligibility.Proofs.Json.Lexing
import Eligibility.Json.Reader
/-!
# Written JSON is read up to the limit of nesting

The lexemes of a value are read as that value, at any place where one may stand, if and only if the
containers open around it and those within it do not exceed the limit (`Progress.run_lexemes`). So
a value without numbers is read back from its written form exactly when its own nesting is within
the limit (`readWithin?_render`).

A value is delivered only when its last lexeme is read. The induction is on the value, with any
stack below it.
-/

namespace Eligibility.Json

/-- Induction on a value, with the hypothesis for everything that it holds. -/
@[elab_as_elim]
theorem induction {motive : Json → Prop} (null : motive null)
    (bool : ∀ value, motive (bool value)) (number : ∀ value, motive (number value))
    (string : ∀ value, motive (string value))
    (array : ∀ items, (∀ item ∈ items, motive item) → motive (array items))
    (object : ∀ members, (∀ member ∈ members, motive member.2) → motive (object members)) :
    ∀ value, motive value
  | .null => null
  | .bool value => bool value
  | .number value => number value
  | .string value => string value
  | .array items => array items fun item _ =>
    induction null bool number string array object item
  | .object members => object members fun member hmember =>
    have : sizeOf member.2 < sizeOf members :=
      Nat.lt_trans (by cases member; simp only [Prod.mk.sizeOf_spec]; omega)
        (List.sizeOf_lt_of_mem hmember)
    induction null bool number string array object member.2

/-! ## Nesting -/

mutual

/-- The number of containers that are open at once within a value. -/
def nesting : Json → Nat
  | array items => nestingOfItems items + 1
  | object members => nestingOfMembers members + 1
  | _ => 0

/-- The nesting of the items of an array. -/
def nestingOfItems : List Json → Nat
  | [] => 0
  | item :: rest => max item.nesting (nestingOfItems rest)

/-- The nesting of the members of an object. -/
def nestingOfMembers : List (String × Json) → Nat
  | [] => 0
  | (_, value) :: rest => max value.nesting (nestingOfMembers rest)

end

/-! ## Runs -/

namespace Progress

variable {limit : Nat} {stack : List Container}

theorem run_cons (progress : Progress) (lexeme : Lexeme) (rest : List Lexeme) :
    run limit progress (lexeme :: rest) = (step limit progress lexeme).bind (run limit · rest) :=
  List.foldlM_cons

theorem run_singleton (progress : Progress) (lexeme : Lexeme) :
    run limit progress [lexeme] = step limit progress lexeme :=
  (run_cons progress lexeme []).trans (Option.bind_fun_some _)

theorem run_append (progress : Progress) (lexemes rest : List Lexeme) :
    run limit progress (lexemes ++ rest) = (run limit progress lexemes).bind (run limit · rest) :=
  List.foldlM_append

/-- A progress on the way to which `count` containers are open at once. -/
def opening (limit count : Nat) (progress : Option Progress) : Option Progress :=
  if count ≤ limit then progress else none

theorem opening_bind {count : Nat} (progress : Progress) (f : Progress → Option Progress) :
    (opening limit count (some progress)).bind f = opening limit count (f progress) := by
  by_cases h : count ≤ limit
  · simp [opening, h]
  · simp [opening, h]

theorem opening_opening {count count' : Nat} (progress : Option Progress) :
    opening limit count (opening limit count' progress) =
      opening limit (max count count') progress := by
  by_cases h : count ≤ limit
  · simp only [opening, Nat.max_le, h, true_and, if_true]
  · simp only [opening, Nat.max_le, h, false_and, if_false]

/-- Two pieces with a comma between them. -/
theorem run_comma {start middle next last : Progress} {lexemes lexemes' : List Lexeme}
    {count count' : Nat} (h : run limit start lexemes = opening limit count (some middle))
    (hcomma : step limit middle .comma = some next)
    (h' : run limit next lexemes' = opening limit count' (some last)) :
    run limit start (lexemes ++ .comma :: lexemes') =
      opening limit (max count count') (some last) := by
  rw [run_append, h, opening_bind, run_cons, hcomma, Option.bind_some, h', opening_opening]

/-- The lexemes of a value are read as that value, if the containers around it and within it are
not too many. -/
def Reads (limit : Nat) (value : Json) : Prop :=
  ∀ stack, valueExpected stack = true → stack.length ≤ limit →
    run limit (.within stack) value.lexemes =
      opening limit (stack.length + value.nesting) (deliver value stack)

/-- An array takes items one after the other. -/
theorem run_items {container : Container} {read items : List Json} (hne : items ≠ [])
    (hroom : stack.length < limit) (hitems : ∀ item ∈ items, Reads limit item)
    (hplace : valueExpected (container :: stack) = true)
    (hdeliver : ∀ item, deliver item (container :: stack) =
      some (.within (.arrayNext (item :: read) :: stack))) :
    run limit (.within (container :: stack)) (lexemesOfItems items) =
      opening limit (stack.length + 1 + nestingOfItems items)
        (some (.within (.arrayNext (items.reverse ++ read) :: stack))) := by
  induction items generalizing container read with
  | nil => exact absurd rfl hne
  | cons item items ih =>
    obtain ⟨hitem, hrest⟩ := List.forall_mem_cons.1 hitems
    have hrun := hitem (container :: stack) hplace hroom
    rw [hdeliver, List.length_cons] at hrun
    cases items with
    | nil => simpa [lexemesOfItems, nestingOfItems] using hrun
    | cons next items =>
      -- After an item the array waits for its end; a comma makes it wait for an item again, which
      -- is where the hypothesis applies to the rest.
      have hcomma : step limit (.within (.arrayNext (item :: read) :: stack)) .comma =
          some (.within (.arrayItem (item :: read) :: stack)) := rfl
      have htail := @ih (.arrayItem (item :: read)) (item :: read) (by simp) hrest rfl fun _ => rfl
      rw [lexemesOfItems_cons, nestingOfItems, run_comma hrun hcomma htail, Nat.add_max_add_left,
        List.reverse_cons (a := item), List.append_assoc, List.singleton_append]

/-- An object takes a member as its name, a colon and its value. -/
theorem run_member {container : Container} {read : List (String × Json)} {member : String × Json}
    (hroom : stack.length < limit) (hmember : Reads limit member.2)
    (hname : step limit (.within (container :: stack)) (.string member.1) =
      some (.within (.objectColon read member.1 :: stack))) :
    run limit (.within (container :: stack)) (lexemesOfMembers [member]) =
      opening limit (stack.length + 1 + member.2.nesting)
        (some (.within (.objectNext (member :: read) :: stack))) := by
  have hcolon : step limit (.within (.objectColon read member.1 :: stack)) .colon =
      some (.within (.objectValue read member.1 :: stack)) := rfl
  rw [lexemesOfMembers, run_cons, hname, Option.bind_some, run_cons, hcolon, Option.bind_some]
  exact hmember (.objectValue read member.1 :: stack) rfl hroom

/-- An object takes members one after the other. -/
theorem run_members {container : Container} {read members : List (String × Json)}
    (hne : members ≠ []) (hroom : stack.length < limit)
    (hmembers : ∀ member ∈ members, Reads limit member.2)
    (hname : ∀ name, step limit (.within (container :: stack)) (.string name) =
      some (.within (.objectColon read name :: stack))) :
    run limit (.within (container :: stack)) (lexemesOfMembers members) =
      opening limit (stack.length + 1 + nestingOfMembers members)
        (some (.within (.objectNext (members.reverse ++ read) :: stack))) := by
  induction members generalizing container read with
  | nil => exact absurd rfl hne
  | cons member members ih =>
    obtain ⟨hmember, hrest⟩ := List.forall_mem_cons.1 hmembers
    have hrun := run_member hroom hmember (hname member.1)
    cases members with
    | nil => simpa [nestingOfMembers] using hrun
    | cons next members =>
      have hcomma : step limit (.within (.objectNext (member :: read) :: stack)) .comma =
          some (.within (.objectName (member :: read) :: stack)) := rfl
      have htail := @ih (.objectName (member :: read)) (member :: read) (by simp) hrest fun _ => rfl
      rw [lexemesOfMembers_cons, nestingOfMembers, run_comma hrun hcomma htail,
        Nat.add_max_add_left, List.reverse_cons (a := member), List.append_assoc,
        List.singleton_append]

/-- A container is read if what it holds is, once there is room for the container. -/
theorem reads_container {value : Json} {first last : Lexeme} {inner : List Lexeme}
    {container : Container} {count : Nat} (hlexemes : value.lexemes = first :: inner ++ [last])
    (hnesting : value.nesting = count + 1)
    (hfirst : ∀ stack, step limit (.within stack) first = enter limit container stack)
    (hinner : ∀ stack, stack.length < limit → ∃ progress,
      run limit (.within (container :: stack)) inner =
        opening limit (stack.length + 1 + count) (some progress) ∧
      step limit progress last = deliver value stack) : Reads limit value := by
  intro stack hplace _
  rw [hlexemes, hnesting, List.cons_append, run_cons, hfirst]
  by_cases hroom : stack.length < limit
  · obtain ⟨progress, hrun, hlast⟩ := hinner stack hroom
    have henter : enter limit container stack = some (.within (container :: stack)) := by
      simp [enter, hplace, hroom]
    rw [henter, Option.bind_some, run_append, hrun, opening_bind, run_singleton, hlast,
      Nat.add_assoc, Nat.add_comm 1]
  · -- The container itself is one too many, so the count is beyond the limit as well.
    have henter : enter limit container stack = none := by
      simp [enter, hroom]
    rw [henter, opening, if_neg (by omega)]
    rfl

theorem reads_array {items : List Json} (hitems : ∀ item ∈ items, Reads limit item) :
    Reads limit (array items) := by
  refine reads_container rfl rfl (fun _ => rfl) fun stack hroom => ?_
  by_cases hne : items = []
  · subst hne
    exact ⟨.within (.arrayStart :: stack), (if_pos hroom).symm, rfl⟩
  · refine ⟨_, run_items hne hroom hitems rfl fun _ => rfl, ?_⟩
    rw [List.append_nil]
    exact congrArg (fun items => deliver (array items) stack) (List.reverse_reverse items)

theorem reads_object {members : List (String × Json)}
    (hmembers : ∀ member ∈ members, Reads limit member.2) : Reads limit (object members) := by
  refine reads_container rfl rfl (fun _ => rfl) fun stack hroom => ?_
  by_cases hne : members = []
  · subst hne
    exact ⟨.within (.objectStart :: stack), (if_pos hroom).symm, rfl⟩
  · refine ⟨_, run_members hne hroom hmembers fun _ => rfl, ?_⟩
    rw [List.append_nil]
    exact congrArg (fun members => deliver (object members) stack) (List.reverse_reverse members)

/-- A value of one lexeme is read wherever a value may stand. -/
theorem reads_of_step {value : Json} {lexeme : Lexeme} (hlexemes : value.lexemes = [lexeme])
    (hnesting : value.nesting = 0)
    (hstep : ∀ stack, valueExpected stack = true →
      step limit (.within stack) lexeme = deliver value stack) : Reads limit value := by
  intro stack hplace hroom
  rw [hlexemes, hnesting, run_singleton, hstep stack hplace]
  exact (if_pos hroom).symm

/-- **The lexemes of a value are read as that value.** -/
theorem run_lexemes (value : Json) : Reads limit value := by
  induction value using Json.induction with
  | null | bool value | number value => exact reads_of_step rfl rfl fun _ _ => rfl
  | string value =>
    refine reads_of_step rfl rfl fun stack hplace => ?_
    rcases stack with _ | ⟨container, stack⟩
    · rfl
    · cases container <;> first | rfl | cases hplace
  | array items ih => exact reads_array ih
  | object members ih => exact reads_object ih

end Progress

/-- **A value without numbers is read back from its written form, if it nests within the limit.** -/
theorem readWithin?_render {value : Json} (h : Numberless value) (limit : Nat) :
    readWithin? limit value.render = if value.nesting ≤ limit then some value else none := by
  have hrun := Progress.run_lexemes value [] rfl (Nat.zero_le limit)
  rw [List.length_nil, Nat.zero_add] at hrun
  rw [readWithin?, lexemes?_render h, Option.bind_eq_bind, Option.bind_some, hrun]
  by_cases hlimit : value.nesting ≤ limit
  · simp [Progress.opening, Progress.deliver, Progress.finish?, hlimit]
  · simp [Progress.opening, hlimit]

end Eligibility.Json
