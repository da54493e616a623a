import Eligibility.Token.Basic
/-!
# Failures

Everything that can go wrong with a rule, by cause: its text does not follow the grammar
(`ParseError`), a structure or an input is refused (`ValidationError`), or a comparison cannot be
made (`EvaluationError`). `Failure` is any of these, or a rule that is not in the catalog, or JSON
that cannot be read. The `message` functions word each cause for the user.
-/

namespace Eligibility

/-! ## Grammar -/

/-- The part of a condition that is looked for after its field. -/
inductive ConditionPart
  | comparator
  | literal
  deriving DecidableEq, Repr

/-- The name of a part of a condition. -/
def ConditionPart.name : ConditionPart → String
  | comparator => "比较操作符"
  | literal => "字面量"

/-- Why a text or a token list is no rule. Offsets count bytes. -/
inductive ParseError
  /-- There is no token at all. -/
  | empty
  /-- The quote at this offset is never closed. -/
  | unterminatedString (offset : Nat)
  /-- The closing parenthesis at this offset has no partner. -/
  | unmatchedCloseParen (offset : Nat)
  /-- The opening parenthesis at this offset has no partner. -/
  | unclosedParen (offset : Nat)
  /-- An operand was due at this offset. -/
  | missingOperand (offset : Nat)
  /-- The condition on this field lacks a part that was due at this offset. -/
  | incompleteCondition (field : String) (expected : ConditionPart) (offset : Nat)
  /-- This token cannot stand at this offset. -/
  | unexpectedToken (token : String) (offset : Nat)
  deriving DecidableEq, Repr

/-- The wording of a grammar error. -/
def ParseError.message : ParseError → String
  | empty => "规则文本为空"
  | unterminatedString offset => s!"字符串未闭合: 起始于偏移 {offset}"
  | unmatchedCloseParen offset => s!"多余的右括号: 偏移 {offset}"
  | unclosedParen offset => s!"左括号未闭合: 偏移 {offset}"
  | missingOperand offset => s!"逻辑连接词缺少操作数: 偏移 {offset}"
  | incompleteCondition field expected offset =>
    s!"条件 '{field}' 不完整: 偏移 {offset} 处期望{expected.name}"
  | unexpectedToken token offset => s!"意外的词元 '{token}': 偏移 {offset}"

/-- A token stands where no rule continues with it. -/
def Token.unexpected (token : Token) : ParseError :=
  .unexpectedToken token.kind.display token.offset

/-! ## Structure and limits -/

/-- A step from a node of an encoded rule to one of its two children. -/
inductive Side
  | left
  | right
  deriving DecidableEq, Repr

/-- The name of a side, which is also its member name in an encoded rule. -/
def Side.name : Side → String
  | left => "left"
  | right => "right"

/-- The written form of the path from the root to a node. -/
def pathText (path : List Side) : String :=
  path.foldl (fun text side => text ++ "." ++ side.name) "root"

/-- What is wrong with one node of an encoded rule. -/
inductive NodeFault
  /-- The text around the node is not JSON. -/
  | invalidJson
  /-- The node is a value of this kind instead of an object. -/
  | notObject (actual : String)
  | missingType
  | missingValue
  | unknownConnective (value : String)
  | missingChild (side : Side)
  | unexpectedChild
  | badCondition (value : String) (cause : ParseError)
  | unknownType (type : String)
  deriving DecidableEq, Repr

/-- The wording of a fault of a node. -/
def NodeFault.message : NodeFault → String
  | invalidJson => "无效的 JSON"
  | notObject actual => s!"期望对象，实际为 {actual}"
  | missingType => "缺少 type 字段"
  | missingValue => "缺少字符串类型的 value 字段"
  | unknownConnective value => s!"未知的逻辑连接词 '{value}'"
  | missingChild side => s!"操作符节点缺少 {side.name} 子树"
  | unexpectedChild => "条件节点不能包含子树"
  | badCondition value cause => s!"条件 '{value}' 无效: {cause.message}"
  | unknownType type => s!"未知的节点类型 '{type}'"

/-- Why a structure or an input is refused. -/
inductive ValidationError
  | emptyCombination
  | unsupportedConnective (word : String)
  | malformedNode (path : List Side) (fault : NodeFault)
  | invalidField (field : String)
  | invalidLiteral (literal : String)
  | unknownAttribute (field : String)
  | ruleTooLong (length limit : Nat)
  | nestingTooDeep (depth limit : Nat)
  | treeTooDeep (depth limit : Nat)
  deriving DecidableEq, Repr

/-- The wording of a refusal. -/
def ValidationError.message : ValidationError → String
  | emptyCombination => "至少需要一条规则才能组合"
  | unsupportedConnective word => s!"不支持的逻辑连接词: '{word}'，仅允许 AND 或 OR"
  | malformedNode path fault => s!"节点 '{pathText path}' 结构无效: {fault.message}"
  | invalidField field => s!"字段名无效: '{field}'，必须是单个不含空白与括号的词"
  | invalidLiteral literal => s!"字面量无效: '{literal}'"
  | unknownAttribute field => s!"不允许的属性: '{field}'"
  | ruleTooLong length limit => s!"规则文本过长: {length} 字节，上限 {limit}"
  | nestingTooDeep depth limit => s!"括号嵌套过深: {depth} 层，上限 {limit}"
  | treeTooDeep depth limit => s!"规则树过深: {depth} 层，上限 {limit}"

/-! ## Evaluation -/

/-- Why a condition has no truth value on some facts. -/
inductive EvaluationError
  | missingField (field : String)
  | nonNumericFact (field value : String)
  | nonNumericLiteral (field literal : String)
  deriving DecidableEq, Repr

/-- The wording of an evaluation error. -/
def EvaluationError.message : EvaluationError → String
  | missingField field => s!"字段不存在: {field}"
  | nonNumericFact field value => s!"字段 '{field}' 的值 '{value}' 不是数值"
  | nonNumericLiteral field literal => s!"条件 '{field}' 的字面量 '{literal}' 不是数值"

/-! ## Any failure -/

/-- Any failure of an operation on rules. -/
inductive Failure
  | parse (cause : ParseError)
  | validation (cause : ValidationError)
  | evaluation (cause : EvaluationError)
  | ruleNotFound (id : String)
  | invalidJson
  deriving DecidableEq, Repr

namespace Failure

/-- The stable code of a failure. -/
def code : Failure → String
  | parse _ => "PARSE_ERROR"
  | validation _ => "VALIDATION_ERROR"
  | evaluation _ => "EVAL_ERROR"
  | ruleNotFound _ => "RULE_NOT_FOUND"
  | invalidJson => "INVALID_JSON"

/-- The wording of the cause alone. Unreadable JSON has none; a missing rule is its own cause. -/
def causeMessage? : Failure → Option String
  | parse cause => some cause.message
  | validation cause => some cause.message
  | evaluation cause => some cause.message
  | ruleNotFound _ | invalidJson => none

/-- The wording of a failure, with the stage at which it arose in front. -/
def message? : Failure → Option String
  | parse cause => some s!"规则解析失败: {cause.message}"
  | validation cause => some s!"规则校验失败: {cause.message}"
  | evaluation cause => some s!"规则执行失败: {cause.message}"
  | ruleNotFound id => some s!"规则未找到: {id}"
  | invalidJson => none

end Failure

end Eligibility
