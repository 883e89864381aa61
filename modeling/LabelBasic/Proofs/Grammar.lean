import LabelBasic.Parse.Program

/-!
# The grammar of the dialect

Which runs of tokens are which expressions, commands and statements, said without regard to how a
parser would find them. Operations of a level are left-recursive, so they group from the left. That
the parser finds nothing else, and misses nothing, is proved in the modules beside this one.
-/
namespace LabelBasic.Grammar

mutual

/-- The tokens are the expression, as one of a level. -/
inductive Derives : Level → List Token → Expr → Prop
  | number {t : Token} {value : Value} (kind : t.kind = .number)
      (read : Value.ofNumeral? t.text = some value) : Derives .factor [t] (.literal value)
  | string {t : Token} (kind : t.kind = .string) : Derives .factor [t] (.literal (.string t.text))
  | variable {t : Token} (kind : t.kind = .word) : Derives .factor [t] (.variable ⟨t.text⟩)
  | group {l r : Token} {p : List Token} {e : Expr} (opened : l.kind = .symbol .leftParen)
      (inner : Derives .sum p e) (closed : r.kind = .symbol .rightParen) :
      Derives .factor (l :: (p ++ [r])) e
  | call {t l : Token} {f : Builtin} {p : List Token} {es : List Expr} (kind : t.kind = .word)
      (named : Builtin.ofName? t.text = some f) (opened : l.kind = .symbol .leftParen)
      (inner : DerivesArguments p es) (fits : f.accepts (es.map Expr.kind) = true) :
      Derives .factor (t :: l :: p) (.call f es)
  | product {p : List Token} {e : Expr} (inner : Derives .factor p e) : Derives .product p e
  | sum {p : List Token} {e : Expr} (inner : Derives .product p e) : Derives .sum p e
  | operation {level : Level} {op : Operator} {t : Token} {p q : List Token} {left right : Expr}
      (kind : t.kind = .symbol (.operator op)) (binds : op.level = level)
      (first : Derives level p left) (second : Derives level.tighter q right) :
      Derives level (p ++ t :: q) (.arithmetic op left right)

/-- The tokens are the arguments of a call and its closing parenthesis. -/
inductive DerivesArguments : List Token → List Expr → Prop
  | none {r : Token} (closed : r.kind = .symbol .rightParen) : DerivesArguments [r] []
  | some {r : Token} {p : List Token} {es : List Expr} (inner : DerivesList p es)
      (closed : r.kind = .symbol .rightParen) : DerivesArguments (p ++ [r]) es

/-- The tokens are the expressions with commas between them. -/
inductive DerivesList : List Token → List Expr → Prop
  | one {p : List Token} {e : Expr} (inner : Derives .sum p e) : DerivesList p [e]
  | more {c : Token} {p q : List Token} {e : Expr} {es : List Expr} (inner : Derives .sum p e)
      (comma : c.kind = .symbol .comma) (rest : DerivesList q es) :
      DerivesList (p ++ c :: q) (e :: es)

end

/-- Two expressions and a relation between them. -/
inductive DerivesComparison : List Token → Expr → Prop
  | intro {relation : Relation} {t : Token} {p q : List Token} {left right : Expr}
      (first : Derives .sum p left) (kind : t.kind = .symbol (.relation relation))
      (second : Derives .sum q right) :
      DerivesComparison (p ++ t :: q) (.comparison relation left right)

/-- Items of one token each, with commas between them. -/
inductive DerivesItems {α : Type} (item : Token → α → Prop) : List Token → List α → Prop
  | one {t : Token} {a : α} (first : item t a) : DerivesItems item [t] [a]
  | more {t c : Token} {a : α} {q : List Token} {as : List α} (first : item t a)
      (comma : c.kind = .symbol .comma) (rest : DerivesItems item q as) :
      DerivesItems item (t :: c :: q) (a :: as)

/-- The token names the variable. -/
def Names (t : Token) (v : Ident) : Prop := t.kind = .word ∧ v = ⟨t.text⟩

/-- The token is the literal. -/
def Denotes (t : Token) (e : Expr) : Prop := ∃ value, e = .literal value ∧
  (t.kind = .string ∧ value = .string t.text ∨
    t.kind = .number ∧ Value.ofNumeral? t.text = some value)

/-- The tokens are the command. -/
inductive DerivesCommand : List Token → Command → Prop
  | assign {t s : Token} {p : List Token} {e : Expr} (kind : t.kind = .word)
      (equals : s.kind = .symbol (.relation .equal)) (value : Derives .sum p e) :
      DerivesCommand (t :: s :: p) (.assign ⟨t.text⟩ e)
  | print {k : Token} {p : List Token} {es : List Expr} (keyword : k.kind = .keyword .PRINT)
      (items : DerivesList p es) : DerivesCommand (k :: p) (.print es)
  | data {k : Token} {p : List Token} {es : List Expr} (keyword : k.kind = .keyword .DATA)
      (items : DerivesItems Denotes p es) : DerivesCommand (k :: p) (.data es)
  | read {k : Token} {p : List Token} {vs : List Ident} (keyword : k.kind = .keyword .READ)
      (targets : DerivesItems Names p vs) : DerivesCommand (k :: p) (.read vs)
  | input {k : Token} {p : List Token} {vs : List Ident} (keyword : k.kind = .keyword .INPUT)
      (targets : DerivesItems Names p vs) : DerivesCommand (k :: p) (.input (vs.map .variable))
  | prompt {k t : Token} (keyword : k.kind = .keyword .INPUT) (kind : t.kind = .string) :
      DerivesCommand [k, t] (.input [.literal (.string t.text)])
  | promptedInput {k t c : Token} {p : List Token} {vs : List Ident}
      (keyword : k.kind = .keyword .INPUT) (kind : t.kind = .string)
      (comma : c.kind = .symbol .comma) (targets : DerivesItems Names p vs) :
      DerivesCommand (k :: t :: c :: p) (.input (.literal (.string t.text) :: vs.map .variable))
  | gosub {k t : Token} (keyword : k.kind = .keyword .GOSUB) (kind : t.kind = .word) :
      DerivesCommand [k, t] (.gosub t.text)
  | ret {k : Token} (keyword : k.kind = .keyword .RETURN) : DerivesCommand [k] .ret
  | stop {k : Token} (keyword : k.kind = .keyword .END) : DerivesCommand [k] .stop
  | loop {k t s till : Token} {p q : List Token} {first last : Expr}
      (keyword : k.kind = .keyword .FOR) (kind : t.kind = .word)
      (equals : s.kind = .symbol (.relation .equal)) (lower : Derives .sum p first)
      (upTo : till.kind = .keyword .TO) (upper : Derives .sum q last) :
      DerivesCommand (k :: t :: s :: (p ++ till :: q))
        (.loop ⟨t.text⟩ first last (.literal (.integer 1)))
  | loopStep {k t s till by_ : Token} {p q r : List Token} {first last step : Expr}
      (keyword : k.kind = .keyword .FOR) (kind : t.kind = .word)
      (equals : s.kind = .symbol (.relation .equal)) (lower : Derives .sum p first)
      (upTo : till.kind = .keyword .TO) (upper : Derives .sum q last)
      (stepped : by_.kind = .keyword .STEP) (increment : Derives .sum r step) :
      DerivesCommand (k :: t :: s :: (p ++ till :: (q ++ by_ :: r)))
        (.loop ⟨t.text⟩ first last step)
  | next {k : Token} (keyword : k.kind = .keyword .NEXT) : DerivesCommand [k] (.next none)
  | nextOf {k t : Token} (keyword : k.kind = .keyword .NEXT) (kind : t.kind = .word) :
      DerivesCommand [k, t] (.next (some ⟨t.text⟩))
  | branch {k then_ t : Token} {p : List Token} {e : Expr} (keyword : k.kind = .keyword .IF)
      (condition : DerivesComparison p e) (consequent : then_.kind = .keyword .THEN)
      (kind : t.kind = .word) : DerivesCommand (k :: (p ++ [then_, t])) (.branch e t.text)
  | whileLoop {k t : Token} {p : List Token} {e : Expr} (keyword : k.kind = .keyword .WHILE)
      (condition : DerivesComparison p e) (kind : t.kind = .word) :
      DerivesCommand (k :: (p ++ [t])) (.whileLoop e t.text)

/-- The tokens are the statement: labels, then a command. Each line is that of the first token. -/
inductive DerivesStatement : List Token → Statement → Prop
  | command {t : Token} {p : List Token} {c : Command} (inner : DerivesCommand (t :: p) c) :
      DerivesStatement (t :: p) ⟨[], ⟨t.line, c⟩⟩
  | label {t : Token} {p : List Token} {s : Statement} (kind : t.kind = .label)
      (inner : DerivesStatement p s) :
      DerivesStatement (t :: p) { s with labels := ⟨t.text, t.line⟩ :: s.labels }

/-- The tokens are the statements, with one line end between each and the next. -/
inductive DerivesProgram : List Token → List Statement → Prop
  | nil : DerivesProgram [] []
  | last {p : List Token} {s : Statement} (only : DerivesStatement p s) : DerivesProgram p [s]
  | more {t : Token} {p q : List Token} {s : Statement} {ss : List Statement}
      (first : DerivesStatement p s) (lineEnd : t.kind = .endOfLine) (rest : DerivesProgram q ss) :
      DerivesProgram (p ++ t :: q) (s :: ss)

end LabelBasic.Grammar
