import ClassLang.Ir.Program
import ClassLang.Text.Quoted
/-!
# Intermediate form — the written form

Structs come first, a line each, then the globals, then the procedures,
each after an empty line. A temporary is written with its name and its
number, a procedure without body as a declaration.
-/


namespace ClassLang.Ir

/-- Texts with `", "` between them. -/
def commas (xs : List String) : String := String.intercalate ", " xs

/-- How an operation is written. -/
def BinOp.mnemonic : BinOp → String
  | add => "add"
  | sub => "sub"
  | mul => "mul"
  | div => "sdiv"
  | lt => "slt"
  | eq => "eq"
  | and => "and"
  | or => "or"

variable (p : Program)

mutual

/-- How a type is written. -/
def Ty.text : Ty → String
  | .int => "i32"
  | .bool => "i1"
  | .byte => "i8"
  | .null => "null"
  | .ptr target => target.text ++ "*"
  | .struct id =>
    match p.structs[id]? with
    | some s => "%" ++ s.name
    | none => "%struct." ++ toString id
  | .array elem length => "[" ++ toString length ++ " x " ++ elem.text ++ "]"
  | .proc ret params => ret.text ++ " (" ++ commas (tyTexts params) ++ ")*"

/-- How types are written. -/
def tyTexts : List Ty → List String
  | [] => []
  | t :: rest => t.text :: tyTexts rest

end

/-- How a procedure is named. -/
def procText (id : ProcId) : String :=
  match p.procs[id]? with
  | some f => "@" ++ f.name
  | none => "@proc." ++ toString id

mutual

/-- How a constant is written. -/
def Const.text : Const → String
  | .int value => toString value.toInt
  | .bool value => toString value
  | .null => "null"
  | .proc id => procText p id
  | .struct _ fields => "\x7b " ++ commas (constTexts fields) ++ " \x7d"

/-- How constants are written. -/
def constTexts : List Const → List String
  | [] => []
  | c :: rest => c.text :: constTexts rest

end

variable (f : Proc)

/-- How a temporary of a procedure is written. -/
def tempText (id : TempId) : String :=
  match f.temps[id]? with
  | some t => if t.name.isEmpty then "%" ++ toString id else "%" ++ t.name ++ "." ++ toString id
  | none => "%" ++ toString id

/-- How an operand is written in a procedure. -/
def Operand.text : Operand → String
  | .int value => toString value.toInt
  | .bool value => toString value
  | .null => "null"
  | .temp id => tempText f id
  | .param index =>
    match f.params[index]? with
    | some field => "%" ++ field.name
    | none => "%arg" ++ toString index
  | .global id =>
    match p.globals[id]? with
    | some g => "@" ++ g.name
    | none => "@global." ++ toString id
  | .proc id => procText p id

/-- How an instruction is written in a procedure. -/
def Instr.text : Instr → String
  | .alloca dst ty => tempText f dst ++ " = alloca " ++ ty.text p
  | .load dst addr => tempText f dst ++ " = load " ++ addr.text p f
  | .store addr value => "store " ++ addr.text p f ++ ", " ++ value.text p f
  | .binary dst op lhs rhs =>
    tempText f dst ++ " = " ++ op.mnemonic ++ " " ++ lhs.text p f ++ ", " ++ rhs.text p f
  | .elementPtr dst base indices =>
    tempText f dst ++ " = gep " ++ commas ((base :: indices).map (·.text p f))
  | .bitcast dst value =>
    let ty := (f.temps[dst]?.map (·.ty.text p)).getD ""
    tempText f dst ++ " = bitcast " ++ value.text p f ++ " to " ++ ty
  | .alloc dst size => tempText f dst ++ " = alloc " ++ size.text p f
  | .call dst callee args =>
    tempText f dst ++ " = call " ++ callee.text p f ++ "(" ++ commas (args.map (·.text p f)) ++ ")"
  | .print value => "print " ++ value.text p f
  | .comment text => "; " ++ text

/-- How a block is named. -/
def labelText (id : BlockId) : String :=
  match f.blocks[id]? with
  | some b => b.name
  | none => "block." ++ toString id

/-- How a terminator is written in a procedure. -/
def Terminator.text : Terminator → String
  | .branch cond yes no =>
    "br " ++ commas [cond.text p f, labelText f yes, labelText f no]
  | .jump target => "jump " ++ labelText f target
  | .ret value => "ret " ++ value.text p f
  | .halt message => "halt " ++ Text.quotedString message

/-- The lines of a block. -/
def Block.lines (b : Block) : List String :=
  [b.name ++ ":"] ++ b.instrs.map (fun i => "    " ++ i.text p f)
    ++ ["    " ++ b.terminator.text p f]

/-- The lines of a procedure. -/
def Proc.lines : List String :=
  let params := commas (f.params.map fun field => field.ty.text p ++ " %" ++ field.name)
  let heading := f.ret.text p ++ " @" ++ f.name ++ "(" ++ params ++ ")"
  if f.isDefined then
    ["proc " ++ heading ++ " \x7b"] ++ f.blocks.flatMap (·.lines p f) ++ ["\x7d"]
  else ["declare " ++ heading]

/-- The line of a struct. -/
def StructDef.line (s : StructDef) : String :=
  "%" ++ s.name ++ " = type \x7b " ++ commas (s.fields.map (·.ty.text p)) ++ " \x7d"

/-- The line of a global. -/
def Global.line (g : Global) : String :=
  let kind := if g.constant then "constant" else "global"
  "@" ++ g.name ++ " = " ++ kind ++ " " ++ g.ty.text p ++ " " ++ g.init.text p

/-- How a program is written; every line ends with a newline. -/
def Program.text : String :=
  let lines := p.structs.map (·.line p) ++ p.globals.map (·.line p)
    ++ p.procs.flatMap fun f => "" :: f.lines p
  String.join (lines.map (· ++ "\n"))

end ClassLang.Ir
