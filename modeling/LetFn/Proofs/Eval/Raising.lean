import LetFn.Eval

/-! Evaluation with exceptions. A `return` and a runtime error are raised instead of passed on as
values: nothing to the right of what raises is evaluated, a call catches a `return`, and a program
catches both. -/

namespace LetFn

/-- A value that does not unwind. -/
inductive Plain where
  | int (value : Int64)
  | bool (value : Bool)
  | fn (closure : Closure)
  | null

/-- What evaluation can raise. -/
inductive Signal where
  | returned (value : Plain)
  | error (message : String)

/-- How evaluation ends: with a value, or with what was raised and not caught. -/
abbrev Ending := Except Signal Plain

def Ending.raise (e : RuntimeError) : Ending := .error (.error e.message)

namespace Plain

def type : Plain → ValueType
  | int _ => .int
  | bool _ => .bool
  | fn _ => .fn
  | null => .null

def isTruthy : Plain → Bool
  | bool false | null => false
  | _ => true

def unary (operator : String) (operand : Plain) : Ending :=
  match operator with
  | "!" => .ok (bool (!operand.isTruthy))
  | "-" =>
    match operand with
    | int n => .ok (int (-n))
    | _ => .raise (.unknownUnary "-" operand.type)
  | _ => .raise (.unknownUnary operator operand.type)

def integers (operator : String) (m n : Int64) : Ending :=
  match operator with
  | "+" => .ok (int (m + n))
  | "-" => .ok (int (m - n))
  | "*" => .ok (int (m * n))
  | "/" => if n = 0 then .raise (.divisionByZero m n) else .ok (int (m / n))
  | "<" => .ok (bool (m < n))
  | ">" => .ok (bool (n < m))
  | "==" => .ok (bool (m = n))
  | "!=" => .ok (bool (m ≠ n))
  | _ => .raise (.unknownBinary .int operator .int)

def booleans (operator : String) (a b : Bool) : Ending :=
  match operator with
  | "==" => .ok (bool (a = b))
  | "!=" => .ok (bool (a ≠ b))
  | _ => .raise (.unknownBinary .bool operator .bool)

def binary (operator : String) : Plain → Plain → Ending
  | int m, int n => integers operator m n
  | bool a, bool b => booleans operator a b
  | v, w =>
    if v.type = w.type then .raise (.unknownBinary v.type operator w.type)
    else .raise (.typeMismatch v.type operator w.type)

end Plain

/-! ### The rules -/

mutual

/-- `ExprEnds e scope h r h'`: in `scope` and on the heap `h`, the expression ends as `r` and leaves
the heap `h'` behind. -/
inductive ExprEnds : Expr → ScopeId → Heap Plain → Ending → Heap Plain → Prop where
  | int {token value scope h} : ExprEnds (.int token value) scope h (.ok (.int value)) h
  | bool {token value scope h} : ExprEnds (.bool token value) scope h (.ok (.bool value)) h
  | found {name scope h v} (hv : h.get? scope name.name = some v) :
      ExprEnds (.ident name) scope h (.ok v) h
  | notFound {name scope h} (hn : h.get? scope name.name = none) :
      ExprEnds (.ident name) scope h (.raise (.notFound name.name)) h
  | unary {token operator e span scope h v h₁} : ExprEnds e scope h (.ok v) h₁ →
      ExprEnds (.unary token operator e span) scope h (Plain.unary operator v) h₁
  | unaryRaises {token operator e span scope h x h₁} : ExprEnds e scope h (.error x) h₁ →
      ExprEnds (.unary token operator e span) scope h (.error x) h₁
  | binary {token left operator right span scope h v h₁ w h₂} :
      ExprEnds left scope h (.ok v) h₁ → ExprEnds right scope h₁ (.ok w) h₂ →
      ExprEnds (.binary token left operator right span) scope h (Plain.binary operator v w) h₂
  | leftRaises {token left operator right span scope h x h₁} :
      ExprEnds left scope h (.error x) h₁ →
      ExprEnds (.binary token left operator right span) scope h (.error x) h₁
  | rightRaises {token left operator right span scope h v h₁ x h₂} :
      ExprEnds left scope h (.ok v) h₁ → ExprEnds right scope h₁ (.error x) h₂ →
      ExprEnds (.binary token left operator right span) scope h (.error x) h₂
  | consequence {token test block alternative span scope h v h₁ r h₂} :
      ExprEnds test scope h (.ok v) h₁ → v.isTruthy = true →
      StmtsEnd .null block.statements scope h₁ r h₂ →
      ExprEnds (.cond token test block alternative span) scope h r h₂
  | alternative {token test block other span scope h v h₁ r h₂} :
      ExprEnds test scope h (.ok v) h₁ → v.isTruthy = false →
      StmtsEnd .null other.statements scope h₁ r h₂ →
      ExprEnds (.cond token test block (some other) span) scope h r h₂
  | noAlternative {token test block span scope h v h₁} :
      ExprEnds test scope h (.ok v) h₁ → v.isTruthy = false →
      ExprEnds (.cond token test block none span) scope h (.ok .null) h₁
  | testRaises {token test block alternative span scope h x h₁} :
      ExprEnds test scope h (.error x) h₁ →
      ExprEnds (.cond token test block alternative span) scope h (.error x) h₁
  | fn {token parameters body span scope h} :
      ExprEnds (.fn token parameters body span) scope h
        (.ok (.fn ⟨h.closures, parameters, body, scope⟩)) { h with closures := h.closures + 1 }
  | call {token callee arguments span scope h f h₁ vs h₂ r h₃} :
      ExprEnds callee scope h (.ok f) h₁ → ArgsEnd arguments scope h₁ (.ok vs) h₂ →
      CallEnds f vs h₂ r h₃ → ExprEnds (.call token callee arguments span) scope h r h₃
  | calleeRaises {token callee arguments span scope h x h₁} :
      ExprEnds callee scope h (.error x) h₁ →
      ExprEnds (.call token callee arguments span) scope h (.error x) h₁
  | argumentRaises {token callee arguments span scope h f h₁ x h₂} :
      ExprEnds callee scope h (.ok f) h₁ → ArgsEnd arguments scope h₁ (.error x) h₂ →
      ExprEnds (.call token callee arguments span) scope h (.error x) h₂

/-- Arguments are evaluated from left to right. -/
inductive ArgsEnd : List Expr → ScopeId → Heap Plain → Except Signal (List Plain) → Heap Plain →
    Prop where
  | nil {scope h} : ArgsEnd [] scope h (.ok []) h
  | cons {e es scope h v h₁ vs h₂} :
      ExprEnds e scope h (.ok v) h₁ → ArgsEnd es scope h₁ (.ok vs) h₂ →
      ArgsEnd (e :: es) scope h (.ok (v :: vs)) h₂
  | firstRaises {e es scope h x h₁} : ExprEnds e scope h (.error x) h₁ →
      ArgsEnd (e :: es) scope h (.error x) h₁
  | restRaises {e es scope h v h₁ x h₂} :
      ExprEnds e scope h (.ok v) h₁ → ArgsEnd es scope h₁ (.error x) h₂ →
      ArgsEnd (e :: es) scope h (.error x) h₂

/-- A call catches what its body returns, and nothing else. The body runs in a fresh scope within
the one that the function was made in. -/
inductive CallEnds : Plain → List Plain → Heap Plain → Ending → Heap Plain → Prop where
  | notAFunction {f vs h} (hf : ∀ closure, f ≠ .fn closure) :
      CallEnds f vs h (.raise (.notAFunction f.type)) h
  | argumentCount {closure vs h} (hc : closure.parameters.length ≠ vs.length) :
      CallEnds (.fn closure) vs h
        (.raise (.argumentCount closure.parameters.length vs.length)) h
  | completes {closure vs h v h₁} (hc : closure.parameters.length = vs.length) :
      StmtsEnd .null closure.body.statements h.next
        (Eval.bindAll h.next closure.parameters vs (h.add closure.scope)) (.ok v) h₁ →
      CallEnds (.fn closure) vs h (.ok v) h₁
  | returns {closure vs h v h₁} (hc : closure.parameters.length = vs.length) :
      StmtsEnd .null closure.body.statements h.next
        (Eval.bindAll h.next closure.parameters vs (h.add closure.scope))
        (.error (.returned v)) h₁ →
      CallEnds (.fn closure) vs h (.ok v) h₁
  | fails {closure vs h message h₁} (hc : closure.parameters.length = vs.length) :
      StmtsEnd .null closure.body.statements h.next
        (Eval.bindAll h.next closure.parameters vs (h.add closure.scope))
        (.error (.error message)) h₁ →
      CallEnds (.fn closure) vs h (.error (.error message)) h₁

/-- The value of the last statement, or `last` if there is none. -/
inductive StmtsEnd : (last : Plain) → List Stmt → ScopeId → Heap Plain → Ending → Heap Plain →
    Prop where
  | nil {last scope h} : StmtsEnd last [] scope h (.ok last) h
  | cons {last s ss scope h v h₁ r h₂} :
      StmtEnds s scope h (.ok v) h₁ → StmtsEnd v ss scope h₁ r h₂ →
      StmtsEnd last (s :: ss) scope h r h₂
  | raises {last s ss scope h x h₁} : StmtEnds s scope h (.error x) h₁ →
      StmtsEnd last (s :: ss) scope h (.error x) h₁

inductive StmtEnds : Stmt → ScopeId → Heap Plain → Ending → Heap Plain → Prop where
  | expr {token e span scope h r h₁} : ExprEnds e scope h r h₁ →
      StmtEnds (.expr token e span) scope h r h₁
  | ret {token e span scope h v h₁} : ExprEnds e scope h (.ok v) h₁ →
      StmtEnds (.ret token e span) scope h (.error (.returned v)) h₁
  | retRaises {token e span scope h x h₁} : ExprEnds e scope h (.error x) h₁ →
      StmtEnds (.ret token e span) scope h (.error x) h₁
  | bind {token name e span scope h v h₁} : ExprEnds e scope h (.ok v) h₁ →
      StmtEnds (.bind token name e span) scope h (.ok .null) (h₁.set scope name.name v)
  | bindRaises {token name e span scope h x h₁} : ExprEnds e scope h (.error x) h₁ →
      StmtEnds (.bind token name e span) scope h (.error x) h₁

end

/-- A program catches both, and answers an error by its message. -/
inductive ProgramEnds : Program → ScopeId → Heap Plain → Except String Plain → Heap Plain →
    Prop where
  | completes {ss scope h v h₁} : StmtsEnd .null ss scope h (.ok v) h₁ →
      ProgramEnds ⟨ss⟩ scope h (.ok v) h₁
  | returns {ss scope h v h₁} : StmtsEnd .null ss scope h (.error (.returned v)) h₁ →
      ProgramEnds ⟨ss⟩ scope h (.ok v) h₁
  | fails {ss scope h message h₁} : StmtsEnd .null ss scope h (.error (.error message)) h₁ →
      ProgramEnds ⟨ss⟩ scope h (.error message) h₁

end LetFn
