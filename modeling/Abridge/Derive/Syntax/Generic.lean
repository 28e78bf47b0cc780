import Abridge.Derive.Syntax.Attribute

/-!
Parameters in angle brackets and predicates on them. A list is written with its lifetimes first, and
what holds nothing is not written at all.
-/
namespace Abridge.Derive.Syntax

variable (g : Productions)

/-! ### Lists -/

/-- Entries in angle brackets with commas between them, kept aside; `p` reads one and tells whether
it is a lifetime. -/
def listed (p : Parse Bool) : Parse (List Token.Listed) := do
  let (es, _) ← aside do
    mark "<"
    let es ← repeating
      (fun es => do
        if sees ">" (← rest) then return (es, false)
        let (isLifetime, tokens) ← aside p
        if sees ">" (← rest) then return (⟨isLifetime, tokens, false⟩ :: es, false)
        mark ","
        return (⟨isLifetime, tokens, true⟩ :: es, true))
      []
    mark ">"
    return es.reverse
  return es

/-- Entries in angle brackets, lifetimes first. -/
def writeListed (es : List Token.Listed) : Parse Unit :=
  write (.mark "<" :: Token.lifetimesFirst es ++ [.mark ">"])

/-! ### Bounds behind a colon -/

/-- What `p` reads behind a colon, if one is there. A colon with nothing behind it is dropped. -/
def afterColon (p : Parse Unit) : Parse Bool := do
  if sees ":" (← rest) then
    skip 1
    let (_, ts) ← aside p
    if !ts.isEmpty then write (.mark ":" :: ts)
    return true
  else return false

/-- Bounds joined by plus signs, which may stop in front of what `ends` accepts and behind every
bound. -/
def boundsUntil (ends : List Lexeme → Bool) (bound : Parse Unit) : Parse Unit :=
  whileTrue do
    if ends (← rest) then return false
    bound
    mark? "+"

/-- Bounds joined by plus signs, which go on up to what `ends` accepts. -/
def boundsUpTo (ends : List Lexeme → Bool) (bound : Parse Unit) : Parse Unit :=
  whileTrue do
    if ends (← rest) then return false
    bound
    if ends (← rest) then return false
    mark "+"
    return true

/-- A bound where traits that hold for constants are allowed. -/
def parameterBound : Parse Unit := discard (g.bound false true)

/-! ### Parameters -/

/-- A constant where a type could stand. -/
def constant : Parse Unit := do
  let ls ← rest
  if seesLiteral ls then discard literal
  else if seesName ls then name
  else if seesGroup .curly ls then g.block true
  else unexpected

def lifetimeParameter : Parse Unit := do
  lifetime
  discard (afterColon (boundsUntil (fun ls => ls.isEmpty || seesAny [",", ">"] ls) lifetime))

def typeParameter : Parse Unit := do
  name
  discard
    (afterColon
      (boundsUntil (fun ls => ls.isEmpty || seesAny [",", ">", "="] ls) (parameterBound g)))
  if ← mark? "=" then discard (g.type true)

def constantParameter : Parse Unit := do
  word "const"
  name
  mark ":"
  discard (g.type true)
  if ← mark? "=" then constant g

/-- A parameter of a declaration; is it a lifetime? -/
def parameter : Parse Bool := do
  attributes g
  let ls ← rest
  if seesLifetime ls then
    lifetimeParameter
    return true
  else if seesName ls then typeParameter g
  else if seesWord "const" ls then constantParameter g
  else if seesWord "_" ls then anyWord
  else missing (SyntaxFault.oneOf ["lifetime", "identifier", "`const`"])
  return false

/-- The parameters of a declaration; do angle brackets stand here? -/
def parameters : Parse Bool := do
  if sees "<" (← rest) then
    let es ← listed (parameter g)
    if !es.isEmpty then writeListed es
    return true
  else return false

/-- Do parameters begin here, and not a type in angle brackets? -/
def seesParameters (ls : List Lexeme) : Bool :=
  let second := ls.drop 1
  let third := ls.drop 2
  sees "<" ls &&
    (seesAny [">", "#"] second || seesWord "const" second ||
      ((seesLifetime second || seesName second) &&
        (seesAny [">", ",", "="] third || (sees ":" third && !sees "::" third))))

/-! ### Binders -/

/-- A parameter that holds for what follows. -/
def boundParameter : Parse Unit := do
  attributes g
  let ls ← rest
  if seesName ls then typeParameter g
  else if seesLifetime ls then lifetimeParameter
  else if seesWord "const" ls then constantParameter g
  else missing (SyntaxFault.oneOf ["identifier", "lifetime", "`const`"])

/-- Parameters that hold for what follows, if there are any. -/
def binder? : Parse Bool := do
  if ← word? "for" then
    mark "<"
    whileTrue do
      if sees ">" (← rest) then return false
      boundParameter g
      if sees ">" (← rest) then return false
      mark ","
      return true
    mark ">"
    return true
  else return false

/-! ### Predicates -/

/-- Can predicates end here? -/
def seesPredicatesEnd (ls : List Lexeme) : Bool :=
  ls.isEmpty || seesGroup .curly ls || seesAny [",", ";", "="] ls ||
    (sees ":" ls && !sees "::" ls)

/-- A lifetime or a type with its bounds, of which there may be none. -/
def predicate : Parse Unit := do
  let ls ← rest
  if seesLifetime ls && sees ":" (ls.drop 1) then
    lifetime
    mark ":"
    boundsUntil (fun ls => seesPredicatesEnd ls || sees ":" ls) lifetime
  else
    discard (binder? g)
    discard (g.type true)
    mark ":"
    boundsUntil seesPredicatesEnd (parameterBound g)

/-- Predicates on parameters; does the word for them stand here? -/
def predicates : Parse Bool := do
  if seesWord "where" (← rest) then
    skip 1
    if seesParameters (← rest) then
      throw (.other "generic parameters on `where` clauses are reserved for future use")
    let (_, ts) ← aside do
      whileTrue do
        if seesPredicatesEnd (← rest) then return false
        predicate g
        mark? ","
    if !ts.isEmpty then write (.word "where" :: ts)
    return true
  else return false

end Abridge.Derive.Syntax
