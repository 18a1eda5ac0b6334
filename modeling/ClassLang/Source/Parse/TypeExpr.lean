import ClassLang.Source.Cursor
/-!
# Source — reading types and declarations of variables

A type is a base type and any number of bracket pairs. A variable takes
its identity between its type and its name.
-/


namespace ClassLang.Source

/-- `int`, `boolean` or a class name. -/
def parseBaseType (c : Cursor) : Reads TypeExpr c.left :=
  match c.take with
  | some ⟨t, c₁, h₁⟩ =>
    match t.kind with
    | .keyword .int => .ok ⟨.int, c₁, h₁⟩
    | .keyword .boolean => .ok ⟨.bool, c₁, h₁⟩
    | .ident name => .ok ⟨.class_ name, c₁, h₁⟩
    | _ => .error (c.expected .type)
  | none => .error (c.expected .type)

/-- The array type that the bracket pairs at the front make of a type, and
the tokens behind them. -/
def bracketPairs (ty : TypeExpr) : List Located → TypeExpr × List Located
  | t :: u :: rest =>
    if t.kind = .symbol .lbracket ∧ u.kind = .symbol .rbracket then
      bracketPairs (.array ty) rest
    else (ty, t :: u :: rest)
  | ts => (ty, ts)

theorem length_bracketPairs_le (ty : TypeExpr) (ts : List Located) :
    (bracketPairs ty ts).2.length ≤ ts.length := by
  fun_induction bracketPairs ty ts <;> simp_all
  omega

/-- Wraps a type once for each bracket pair that follows. -/
def parseBrackets (ty : TypeExpr) (c : Cursor) : Step TypeExpr (c.left + 1) where
  value := (bracketPairs ty c.tokens).1
  cursor := ⟨(bracketPairs ty c.tokens).2, c.next⟩
  lt := Nat.lt_succ_of_le (length_bracketPairs_le ty c.tokens)

/-- A type. -/
def parseType (c : Cursor) : Reads TypeExpr c.left := do
  let ⟨base, c₁, h₁⟩ ← parseBaseType c
  return (parseBrackets base c₁).within h₁

/-- A type and a name. -/
def parseVarDecl (c : Cursor) : Reads VarDecl c.left := do
  let ⟨ty, c₁, h₁⟩ ← parseType c
  let ⟨id, c₂, h₂⟩ := c₁.fresh
  let name ← c₂.ident
  let var := name.map fun (name, pos) => (⟨id, ty, name, some pos⟩ : VarDecl)
  return (var.behind h₂).within h₁

end ClassLang.Source
