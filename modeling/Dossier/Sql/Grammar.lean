import Dossier.Sql.Expr
import Dossier.Sql.Lexeme

/-!
# The grammar of expressions

`Grammar.expr` reads the longest expression at the front of a list of lexemes. Operators bind by
strength: an operand takes in every operator that binds at least as strongly as asked for, and
operators of one strength group to the left. The strengths, from `OR` at 1 to `COLLATE` at 11, are
those of the engine; `NOT` in front of `IN`, `LIKE` and `BETWEEN` binds like the prefix `NOT`.
-/

namespace Dossier.Sql.Grammar

open Text

/-- The words that are no names. -/
def reserved : List String :=
  ["add", "all", "alter", "and", "as", "autoincrement", "between", "case", "check", "collate",
    "commit", "constraint", "create", "default", "deferrable", "delete", "distinct", "drop", "else",
    "escape", "except", "exists", "foreign", "from", "group", "having", "in", "index", "insert",
    "intersect", "into", "is", "isnull", "join", "limit", "not", "nothing", "notnull", "null", "on",
    "or", "order", "primary", "references", "returning", "select", "set", "table", "then", "to",
    "transaction", "union", "unique", "update", "using", "values", "when", "where"]

/-- The word of a lexeme in lower case. -/
def word? : Lexeme → Option String
  | .word w => some (foldCase w)
  | _ => none

/-- The first lexeme is the word. -/
def atWord (w : String) : List Lexeme → Bool
  | l :: _ => word? l == some w
  | [] => false

/-- Drops the word at the front. -/
def takeWord (w : String) (ls : List Lexeme) : Option (List Lexeme) :=
  if atWord w ls then some (ls.drop 1) else none

/-- Drops the symbol at the front. -/
def takeSymbol (s : String) : List Lexeme → Option (List Lexeme)
  | .symbol t :: rest => if t = s then some rest else none
  | _ => none

/-! ## Functions -/

/-- The first value that is not null. -/
def coalesce : List Expr → Expr
  | [] => .value .null
  | [x] => x
  | x :: rest => .binary .ifNull x (coalesce rest)

/-- A function of its arguments. -/
def applied (f : String) (args : List Expr) : Expr :=
  match foldCase f, args with
  | "lower", [x] => .unary .lower x
  | "upper", [x] => .unary .upper x
  | "length", [x] => .unary .length x
  | "abs", [x] => .unary .abs x
  | "typeof", [x] => .unary .typeOf x
  | "coalesce", x :: y :: rest => coalesce (x :: y :: rest)
  | "ifnull", [x, y] => .binary .ifNull x y
  | "nullif", [x, y] => .binary .nullIf x y
  | "json_extract", [x, path] => .binary .extract x path
  | "json_type", [x] => .binary .typeAt x (.value (.text "$"))
  | "json_type", [x, path] => .binary .typeAt x path
  | _, _ => .unknown

/-- A call of a function. -/
def call (f : String) (args : List Expr) : Expr :=
  if limits.arguments < args.length then .unknown else applied f args

/-- The type of a cast. -/
def castType? (w : String) : Option CastType :=
  match foldCase w with
  | "integer" | "int" | "bigint" => some .integer
  | "real" | "double" | "float" => some .real
  | "text" | "varchar" => some .text
  | _ => none

/-- An expression under a collation. -/
def collated (name : String) (x : Expr) : Expr :=
  match foldCase name with
  | "binary" => .unary (.collate .binary) x
  | "nocase" => .unary (.collate .noCase) x
  | "rtrim" => .unary (.collate .trimmed) x
  | _ => .unknown

/-! ## Operators -/

/-- What may follow an operand. -/
inductive Connective
  | binary (op : BinaryOp)
  | isNull
  | notNull
  | like (negated : Bool)
  | between (negated : Bool)
  | member (negated : Bool)
  | collate
  | unsupported

/-- The operator that a symbol is, with its strength. -/
def symbolOp? (s : String) : Option (BinaryOp × Nat) :=
  match s with
  | "=" | "==" => some (.compare .eq, 4)
  | "!=" | "<>" => some (.compare .ne, 4)
  | "<" => some (.compare .lt, 5)
  | "<=" => some (.compare .le, 5)
  | ">" => some (.compare .gt, 5)
  | ">=" => some (.compare .ge, 5)
  | "+" => some (.add, 8)
  | "-" => some (.sub, 8)
  | "*" => some (.mul, 9)
  | "/" => some (.div, 9)
  | "%" => some (.rem, 9)
  | "||" => some (.concat, 10)
  | _ => none

/-- The rest of `IS`: an inequality if `NOT` or `DISTINCT FROM` follows, but not if both do. -/
def isForm (rest : List Lexeme) : Connective × Nat × List Lexeme :=
  let negated := atWord "not" rest
  let rest := if negated then rest.drop 1 else rest
  if atWord "distinct" rest && atWord "from" (rest.drop 1) then
    (.binary (.is !negated), 4, rest.drop 2)
  else (.binary (.is negated), 4, rest)

/-- The operator after `NOT`. -/
def negatedForm (rest : List Lexeme) : Option (Connective × Nat × List Lexeme) :=
  match rest.head?.bind word? with
  | some "null" => some (.notNull, 3, rest.drop 1)
  | some "like" => some (.like true, 3, rest.drop 1)
  | some "between" => some (.between true, 3, rest.drop 1)
  | some "in" => some (.member true, 3, rest.drop 1)
  | some "glob" | some "regexp" | some "match" => some (.unsupported, 3, rest.drop 1)
  | _ => none

/-- The operator at the front, its strength, and what follows it. -/
def connective? : List Lexeme → Option (Connective × Nat × List Lexeme)
  | .symbol s :: rest => (symbolOp? s).map fun (op, strength) => (.binary op, strength, rest)
  | .word w :: rest =>
    match foldCase w with
    | "or" => some (.binary .or, 1, rest)
    | "and" => some (.binary .and, 2, rest)
    | "not" => negatedForm rest
    | "is" => some (isForm rest)
    | "isnull" => some (.isNull, 4, rest)
    | "notnull" => some (.notNull, 4, rest)
    | "like" => some (.like false, 4, rest)
    | "between" => some (.between false, 4, rest)
    | "in" => some (.member false, 4, rest)
    | "glob" | "regexp" | "match" => some (.unsupported, 4, rest)
    | "collate" => some (.collate, 11, rest)
    | _ => none
  | _ => none

/-- The integer 0 as it is written, and what `IN ()` stands for. -/
def isFalse : Expr → Bool
  | .value (.integer n) => n == 0
  | _ => false

/-- An operator on two operands. A conjunction with 0 is 0, whatever its other side says. -/
def binaryForm (op : BinaryOp) (x y : Expr) : Expr :=
  if op = .and && (isFalse x || isFalse y) then .value (.integer 0) else .binary op x y

/-- The negation of an expression, if asked for. -/
def negateIf (negated : Bool) (x : Expr) : Expr := if negated then .unary .not x else x

/-- `x BETWEEN low AND high`. -/
def betweenForm (x low high : Expr) : Expr :=
  .binary .and (.binary (.compare .ge) x low) (.binary (.compare .le) x high)

/-- `x IN (…)`. -/
def memberForm (x : Expr) (items : List Expr) : Expr :=
  items.foldr (fun y rest => .binary .or (.binary .element x y) rest) (.value (.ofBool false))

/-- The minus of an expression. The least integer is written as a minus before `0x8000000000000000`. -/
def minus (ls : List Lexeme) (x : Expr) : Expr :=
  match ls, x with
  | .whole n :: _, .value _ =>
    if 0 < n && n ≤ 0x8000000000000000 then .value (.integer (-n)) else .unary .negate x
  | .real y :: _, .value _ => .value (.real (-y))
  | _, x => .unary .negate x

/-- A whole number: a double past 64 signed bits. -/
def wholeValue (n : Nat) : Value :=
  if n < 0x8000000000000000 then .integer n else .real (Decimal.nearest n 0)

/-! ## Expressions -/

mutual
/-- An expression whose operators bind with at least the given strength. -/
def expr : (fuel : Nat) → (least : Nat) → List Lexeme → Option (Expr × List Lexeme)
  | 0, _, _ => none
  | fuel + 1, least, ls => do
    let (x, rest) ← operand fuel ls
    operators fuel least x rest

/-- What begins an expression. -/
def operand : (fuel : Nat) → List Lexeme → Option (Expr × List Lexeme)
  | 0, _ => none
  | _, [] => none
  | fuel + 1, l :: rest =>
    match l with
    | .string s => some (.value (.text s), rest)
    | .whole n => some (.value (wholeValue n), rest)
    | .real x => some (.value (.real x), rest)
    | .param n => some (.param n, rest)
    | .symbol "(" => do
      let (x, rest) ← expr fuel 0 rest
      return (x, ← takeSymbol ")" rest)
    | .symbol "-" => do
      let (x, after) ← expr fuel 12 rest
      return (minus rest x, after)
    | .symbol "+" => do
      let (x, rest) ← expr fuel 12 rest
      return (.unary .keep x, rest)
    | .symbol _ => none
    | .quoted text isDouble => named fuel text isDouble rest
    | .word w =>
      match foldCase w with
      | "not" => do
        let (x, rest) ← expr fuel 3 rest
        return (.unary .not x, rest)
      | "null" => some (.value .null, rest)
      | "case" =>
        if atWord "when" rest then arms fuel none rest
        else do
          let (base, rest) ← expr fuel 0 rest
          arms fuel (some base) rest
      | "cast" => do
        let (x, rest) ← expr fuel 0 (← takeSymbol "(" rest)
        match ← takeWord "as" rest with
        | .word type :: rest =>
          return (.unary (.cast (← castType? type)) x, ← takeSymbol ")" rest)
        | _ => none
      | folded => if reserved.contains folded then none else named fuel w false rest

/-- A name: of a function if arguments follow it, else of a column. -/
def named : (fuel : Nat) → (name : String) → (isDouble : Bool) → List Lexeme →
    Option (Expr × List Lexeme)
  | 0, _, _, _ => none
  | fuel + 1, name, isDouble, ls =>
    match ls with
    | .symbol "(" :: .symbol ")" :: rest => some (call name [], rest)
    | .symbol "(" :: rest => do
      let (args, rest) ← list fuel rest
      return (call name args, rest)
    | .symbol "." :: .word column :: rest => some (.name (some name) column false, rest)
    | .symbol "." :: .quoted column _ :: rest => some (.name (some name) column false, rest)
    | .symbol "." :: _ => none
    | _ => some (.name none name isDouble, ls)

/-- Expressions between commas up to a closing parenthesis. -/
def list : (fuel : Nat) → List Lexeme → Option (List Expr × List Lexeme)
  | 0, _ => none
  | fuel + 1, ls => do
    let (x, rest) ← expr fuel 0 ls
    match rest with
    | .symbol ")" :: rest => return ([x], rest)
    | .symbol "," :: rest =>
      let (others, rest) ← list fuel rest
      return (x :: others, rest)
    | _ => none

/-- The arms of a `CASE` up to its `END`. -/
def arms : (fuel : Nat) → (base : Option Expr) → List Lexeme → Option (Expr × List Lexeme)
  | 0, _, _ => none
  | fuel + 1, base, ls => do
    let (test, rest) ← expr fuel 0 (← takeWord "when" ls)
    let (result, rest) ← expr fuel 0 (← takeWord "then" rest)
    let test := match base with
      | some x => .binary (.compare .eq) x test
      | none => test
    if atWord "when" rest then
      let (other, rest) ← arms fuel base rest
      return (.ternary .choose test result other, rest)
    else if atWord "else" rest then
      let (other, rest) ← expr fuel 0 (rest.drop 1)
      return (.ternary .choose test result other, ← takeWord "end" rest)
    else return (.ternary .choose test result (.value .null), ← takeWord "end" rest)

/-- Takes in the operators after an operand. -/
def operators : (fuel : Nat) → (least : Nat) → Expr → List Lexeme → Option (Expr × List Lexeme)
  | 0, _, _, _ => none
  | fuel + 1, least, x, ls =>
    match connective? ls with
    | none => some (x, ls)
    | some (c, strength, rest) =>
      if strength < least then some (x, ls)
      else match c with
        | .binary op => do
          let (y, rest) ← expr fuel (strength + 1) rest
          operators fuel least (binaryForm op x y) rest
        | .isNull => operators fuel least (.unary .isNull x) rest
        | .notNull => operators fuel least (.unary .notNull x) rest
        | .like negated => do
          let (pattern, rest) ← expr fuel 5 rest
          if atWord "escape" rest then
            let (escape, rest) ← expr fuel 5 (rest.drop 1)
            operators fuel least (negateIf negated (.ternary .likeEscape x pattern escape)) rest
          else operators fuel least (negateIf negated (.binary .like x pattern)) rest
        | .between negated => do
          let (low, rest) ← expr fuel 3 rest
          let (high, rest) ← expr fuel 5 (← takeWord "and" rest)
          operators fuel least (negateIf negated (betweenForm x low high)) rest
        | .member negated => do
          match ← takeSymbol "(" rest with
          | .symbol ")" :: rest => operators fuel least (negateIf negated (memberForm x [])) rest
          | rest =>
            let (items, rest) ← list fuel rest
            operators fuel least (negateIf negated (memberForm x items)) rest
        | .collate =>
          match rest with
          | .word name :: rest => operators fuel least (collated name x) rest
          | .quoted name _ :: rest => operators fuel least (collated name x) rest
          | _ => none
        | .unsupported => do
          let (_, rest) ← expr fuel 5 rest
          operators fuel least .unknown rest
end

/-- Reads an expression off the front; every lexeme takes fewer than four calls. -/
def expression (ls : List Lexeme) : Option (Expr × List Lexeme) := expr (4 * ls.length + 4) 0 ls

end Dossier.Sql.Grammar
