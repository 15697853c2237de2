import LetFn.Program

/-! Trees with other tokens and places, and trees without them. -/

namespace LetFn

section

variable (f : Token → Token) (g : Span → Span)

def Ident.relabel (i : Ident) : Ident := ⟨f i.token, i.name⟩

mutual

def Expr.relabel : Expr → Expr
  | .ident name => .ident (name.relabel f)
  | .int token value => .int (f token) value
  | .bool token value => .bool (f token) value
  | .unary token operator operand span => .unary (f token) operator operand.relabel (g span)
  | .binary token left operator right span =>
    .binary (f token) left.relabel operator right.relabel (g span)
  | .cond token test consequence alternative span =>
    .cond (f token) test.relabel consequence.relabel (relabelElse alternative) (g span)
  | .fn token parameters body span =>
    .fn (f token) (parameters.map (Ident.relabel f)) body.relabel (g span)
  | .call token callee arguments span =>
    .call (f token) callee.relabel (relabelArguments arguments) (g span)

def relabelElse : Option Block → Option Block
  | none => none
  | some alternative => some alternative.relabel

def relabelArguments : List Expr → List Expr
  | [] => []
  | e :: es => e.relabel :: relabelArguments es

def Stmt.relabel : Stmt → Stmt
  | .bind token name value span => .bind (f token) (name.relabel f) value.relabel (g span)
  | .ret token value span => .ret (f token) value.relabel (g span)
  | .expr token value span => .expr (f token) value.relabel (g span)

def Block.relabel : Block → Block
  | .mk token statements span => .mk (f token) (relabelBody statements) (g span)

def relabelBody : List Stmt → List Stmt
  | [] => []
  | s :: ss => s.relabel :: relabelBody ss

end

end

/-! ### Trees without tokens and places -/

def Ident.erase : Ident → Ident := Ident.relabel fun _ => .eof 0

def Expr.erase : Expr → Expr := Expr.relabel (fun _ => .eof 0) fun _ => .point 0

def eraseElse : Option Block → Option Block := relabelElse (fun _ => .eof 0) fun _ => .point 0

def eraseArguments : List Expr → List Expr :=
  relabelArguments (fun _ => .eof 0) fun _ => .point 0

def Stmt.erase : Stmt → Stmt := Stmt.relabel (fun _ => .eof 0) fun _ => .point 0

def Block.erase : Block → Block := Block.relabel (fun _ => .eof 0) fun _ => .point 0

def eraseBody : List Stmt → List Stmt := relabelBody (fun _ => .eof 0) fun _ => .point 0

section

variable {t : Token} {s : Span} {operator : String} {name : Ident} {e e' : Expr} {b : Block}

@[simp] theorem Ident.erase_mk {name : String} : (Ident.mk t name).erase = ⟨.eof 0, name⟩ := rfl

namespace Expr

@[simp] theorem erase_ident : (ident name).erase = ident name.erase := rfl

@[simp] theorem erase_int {value : Int64} : (int t value).erase = int (.eof 0) value := rfl

@[simp] theorem erase_bool {value : Bool} : (bool t value).erase = bool (.eof 0) value := rfl

@[simp] theorem erase_unary :
    (unary t operator e s).erase = unary (.eof 0) operator e.erase (.point 0) := rfl

@[simp] theorem erase_binary :
    (binary t e operator e' s).erase = binary (.eof 0) e.erase operator e'.erase (.point 0) := rfl

@[simp] theorem erase_cond {alternative : Option Block} :
    (cond t e b alternative s).erase =
      cond (.eof 0) e.erase b.erase (eraseElse alternative) (.point 0) := rfl

@[simp] theorem erase_fn {names : List Ident} :
    (fn t names b s).erase = fn (.eof 0) (names.map Ident.erase) b.erase (.point 0) := rfl

@[simp] theorem erase_call {args : List Expr} :
    (call t e args s).erase = call (.eof 0) e.erase (eraseArguments args) (.point 0) := rfl

end Expr

@[simp] theorem eraseElse_none : eraseElse none = none := rfl

@[simp] theorem eraseElse_some : eraseElse (some b) = some b.erase := rfl

@[simp] theorem eraseArguments_nil : eraseArguments [] = [] := rfl

@[simp] theorem eraseArguments_cons {es : List Expr} :
    eraseArguments (e :: es) = e.erase :: eraseArguments es := rfl

@[simp] theorem Block.erase_mk {ss : List Stmt} :
    (Block.mk t ss s).erase = .mk (.eof 0) (eraseBody ss) (.point 0) := rfl

namespace Stmt

@[simp] theorem erase_bind :
    (bind t name e s).erase = bind (.eof 0) name.erase e.erase (.point 0) := rfl

@[simp] theorem erase_ret : (ret t e s).erase = ret (.eof 0) e.erase (.point 0) := rfl

@[simp] theorem erase_expr : (expr t e s).erase = expr (.eof 0) e.erase (.point 0) := rfl

end Stmt

@[simp] theorem eraseBody_nil : eraseBody [] = [] := rfl

@[simp] theorem eraseBody_cons {st : Stmt} {ss : List Stmt} :
    eraseBody (st :: ss) = st.erase :: eraseBody ss := rfl

end

end LetFn
