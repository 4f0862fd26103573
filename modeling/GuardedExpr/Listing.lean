import GuardedExpr.Expr.Purpose
import GuardedExpr.Json.Text

/-!
# Listings

The listing of an expression is a function text that shows what its evaluation
does: the temporaries it fills, the guards it passes and the links it makes.
Nothing ever runs it. A listing is first a list of statements, so what stands
inside a condition and what does not can be told without reading text.
-/

namespace GuardedExpr.Listing

/-- A statement without a condition. -/
inductive Step where
  /-- Guards a fixed member name. -/
  | guardName (name : String)
  /-- Guards a callee. -/
  | guardFunction (code : String)
  | assign (target : String) (value : String)
deriving DecidableEq, Repr

/-- A statement of a listing. -/
inductive Statement where
  | step (s : Step)
  /-- Steps that run only if a test holds. -/
  | when (test : String) (steps : List Step)
deriving DecidableEq, Repr

/-- Listings quote strings with every character but ASCII letters, digits and the blank escaped. -/
def quoting : Text.Quoting where
  quote := '\x27'
  spell c := if c.isAlphanum || c == ' ' then [c] else (Text.units c).flatMap Text.unitEscape

/-- A string as listings write it. -/
def quote (s : String) : String :=
  String.ofList (quoting.write s.toList)

/-- A literal as listings write it. -/
def literal : Json → String
  | .string s => quote s
  | .int n => Number.text (Number.ofInt n)
  | .float x => Number.text x
  | j => j.text

/-- The text of a step. -/
def Step.text : Step → String
  | guardName name => "ensureSafeMemberName(" ++ quote name ++ ");"
  | guardFunction code => "ensureSafeFunction(" ++ code ++ ");"
  | assign target value => target ++ " = " ++ value ++ ";"

/-- The text of a statement. -/
def Statement.text : Statement → String
  | step s => s.text
  | when test steps =>
    "if(" ++ test ++ ")\x7b " ++ " ".intercalate (steps.map Step.text) ++ " \x7d"

/-- The text that guards a value. -/
def guarded (code : String) : String :=
  "ensureSafeObject(" ++ code ++ ")"

/-- The text of a member under a name. -/
def dotted (owner name : String) : String :=
  "(" ++ owner ++ ")." ++ name

/-- The text of a member under a key. -/
def bracketed (owner key : String) : String :=
  "(" ++ owner ++ ")[" ++ key ++ "]"

/-- What an expression lists as. -/
structure Fragment where
  /-- The statements that come before its value is used. -/
  statements : List Statement
  /-- The text of its place. -/
  place : String
  /-- The text of its value. -/
  value : String

/-- The fragment of an expression that is only a value. -/
def Fragment.plain (statements : List Statement) (code : String) : Fragment :=
  ⟨statements, code, code⟩

def temporary (i : Nat) : String :=
  "v" ++ toString i

/-- Takes the next temporary. -/
def takeTemporary : StateM Nat String := do
  let i ← get
  set (i + 1)
  return temporary i

/-- The test that a name is the locals' own. -/
def isLocal (name : String) : String :=
  "l && (" ++ quote name ++ " in l)"

/-- The fragment of an identifier. -/
def identifier (purpose : Purpose) (name : String) : StateM Nat Fragment := do
  let check := isLocal name
  let place := dotted ("(" ++ check ++ " ? l : s)") name
  let guard := Statement.step (.guardName name)
  if purpose = .store then return ⟨[guard], place, place⟩
  else
    let temp ← takeTemporary
    let reads : List Statement :=
      [.when check [.assign temp (dotted "l" name)],
        .when ("!(" ++ check ++ ") && s") [.assign temp (dotted "s" name)]]
    let makes : List Statement :=
      if purpose = .make then [.when (temp ++ " == null") [.assign temp (place ++ " = \x7b\x7d")]]
      else []
    return ⟨guard :: (reads ++ makes ++ [.step (.assign temp (guarded temp))]), place, temp⟩

/-- The fragment of a link, whose owner and key are listed before it. -/
def link (purpose : Purpose) (before : List Statement) (owner place : String) :
    StateM Nat Fragment := do
  if purpose = .store then return ⟨before, place, place⟩
  else
    let temp ← takeTemporary
    let makes : List Statement :=
      if purpose = .make then
        [.when (owner ++ " && " ++ place ++ " == null") [.assign place "\x7b\x7d"]]
      else []
    return ⟨before ++ makes ++ [.when owner [.assign temp (guarded place)]], place, temp⟩

/-- The value that an expression has before it runs. -/
def literalValue? : Expr → Option Json
  | .program body => literalValue? body
  | .literal value => some value
  | _ => none

/-- The key of a property as listings write it. -/
def propertyKey : PropertyKey → String
  | .name s => s
  | .literal value => literal value

mutual

/-- The fragment of an expression. -/
def fragment (purpose : Purpose) : Expr → StateM Nat Fragment
  | .program body => do
    let f ← fragment purpose.forBody body
    return .plain f.statements f.value
  | .literal value => return .plain [] (literal value)
  | .array elements => do
    let fs ← fragments elements
    return .plain (fs.flatMap Fragment.statements)
      ("[" ++ ",".intercalate (fs.map Fragment.value) ++ "]")
  | .object properties => do
    let fs ← propertyFragments properties
    let codes := fs.map fun p => p.1 ++ ":" ++ p.2.value
    return .plain (fs.flatMap fun p => p.2.statements)
      ("\x7b " ++ ", ".intercalate codes ++ " \x7d")
  | .self => return .plain [] "s"
  | .identifier name => identifier purpose name
  | .member owner name => do
    let owner ← fragment purpose.forOwner owner
    link purpose (owner.statements ++ [.step (.guardName name)]) owner.value
      (dotted owner.value name)
  | .index owner key _ => do
    let owner ← fragment purpose.forOwner owner
    let keyFragment ← fragment .read key
    let before := owner.statements ++ keyFragment.statements
    match literalValue? key with
    | some value =>
      let name := value.keyText
      link purpose (before ++ [.step (.guardName name)]) owner.value
        (bracketed owner.value (quote name))
    | none =>
      let temp ← takeTemporary
      let check := "ensureSafeMemberName(" ++ keyFragment.value ++ ")"
      link purpose (before ++ [.step (.assign temp check)]) owner.value
        (bracketed owner.value temp)
  | .call callee arguments => do
    let callee ← fragment .read callee
    let fs ← fragments arguments
    let temp ← takeTemporary
    let arguments := ", ".intercalate (fs.map fun f => guarded f.value)
    let call : Statement := .when (callee.value ++ " != null")
      [.guardFunction callee.value,
        .assign temp (guarded (callee.place ++ "(" ++ arguments ++ ")"))]
    return .plain (callee.statements ++ fs.flatMap Fragment.statements ++ [call]) temp
  | .assign target value => do
    let target ← fragment .store target
    let value ← fragment .read value
    let temp ← takeTemporary
    return .plain (target.statements ++ value.statements ++
      [.step (.assign temp (guarded value.value)), .step (.assign target.place temp)]) temp
  | .unary operator operand => do
    let operand ← fragment .read operand
    return .plain operand.statements
      (operator.text ++ "(ifDefined(" ++ operand.value ++ ", 0))")

def fragments : List Expr → StateM Nat (List Fragment)
  | [] => return []
  | e :: es => do
    let f ← fragment .read e
    return f :: (← fragments es)

/-- The keys and fragments of properties, in order. -/
def propertyFragments : List (PropertyKey × Expr) → StateM Nat (List (String × Fragment))
  | [] => return []
  | (key, e) :: ps => do
    let f ← fragment .read e
    return (propertyKey key, f) :: (← propertyFragments ps)

end

end Listing

/-- The listing of an expression. -/
structure Listing where
  /-- How many temporaries it declares. -/
  temporaries : Nat
  statements : List Listing.Statement
  /-- The text of the value it returns. -/
  result : String

def Listing.of (e : Expr) : Listing :=
  let (f, temporaries) := (fragment .read e).run 0
  ⟨temporaries, f.statements, f.value⟩

def Listing.declared (listing : Listing) : List String :=
  (List.range listing.temporaries).map temporary

def Listing.text (listing : Listing) : String :=
  let declaration :=
    if listing.temporaries = 0 then "" else "var " ++ ", ".intercalate listing.declared ++ "; "
  let lines := listing.statements.map Statement.text ++ ["return " ++ listing.result ++ ";"]
  "function(s, l) \x7b " ++ declaration ++ " ".intercalate lines ++ " \x7d"

end GuardedExpr
