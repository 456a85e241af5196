import Galley.Math.Markup
import Galley.Text.Blank

/-!
# The grammar of formulas

Which formulas a strict typesetter takes: every command must be known and have its arguments, and what is
opened must be closed.

* `Piece`, `pieces` — the pieces that a formula is written in;
* `symbolCommands`, `argumentCount?` — the known commands;
* `formula?` — reads as much of a formula as there is up to what closes it;
* `isWellFormed` — whether all of a text is a formula;
* `strictTypesetter` — refuses what is not.
-/

namespace Galley.Math

/-- A piece of a formula. -/
inductive Piece where
  /-- A backslash and a name. -/
  | command (name : String)
  /-- Any other character but a blank. -/
  | symbol (c : Char)
  deriving Repr, DecidableEq

/-- The pieces of a formula. A percent sign takes the rest of its line along. `fuel` bounds the number of
pieces. -/
def pieces : (fuel : Nat) → List Char → List Piece
  | 0, _ => []
  | _, [] => []
  | fuel + 1, '\\' :: rest =>
    let letters := rest.takeWhile Char.isAlpha
    match letters, rest with
    | [], [] => [.command ""]
    | [], c :: after => .command (.singleton c) :: pieces fuel after
    | _, _ => .command (.ofList letters) :: pieces fuel (rest.drop letters.length)
  | fuel + 1, '%' :: rest => pieces fuel (rest.dropWhile (· != '\n'))
  | fuel + 1, c :: rest => if Text.isBlank c then pieces fuel rest else .symbol c :: pieces fuel rest

/-- Commands that stand for something on their own. -/
def symbolCommands : List String :=
  ["alpha", "beta", "gamma", "delta", "epsilon", "varepsilon", "zeta", "eta", "theta", "vartheta", "iota",
   "kappa", "lambda", "mu", "nu", "xi", "pi", "varpi", "rho", "varrho", "sigma", "varsigma", "tau",
   "upsilon", "phi", "varphi", "chi", "psi", "omega", "Gamma", "Delta", "Theta", "Lambda", "Xi", "Pi",
   "Sigma", "Upsilon", "Phi", "Psi", "Omega", "sum", "prod", "coprod", "int", "iint", "iiint", "oint",
   "bigcup", "bigcap", "bigoplus", "bigotimes", "bigvee", "bigwedge", "sin", "cos", "tan", "cot", "sec",
   "csc", "arcsin", "arccos", "arctan", "sinh", "cosh", "tanh", "exp", "log", "ln", "lg", "lim", "limsup",
   "liminf", "max", "min", "sup", "inf", "det", "dim", "ker", "gcd", "deg", "arg", "hom", "Pr", "infty",
   "partial", "nabla", "forall", "exists", "nexists", "emptyset", "varnothing", "in", "notin", "ni",
   "subset", "supset", "subseteq", "supseteq", "cup", "cap", "setminus", "land", "lor", "lnot", "neg",
   "wedge", "vee", "to", "gets", "mapsto", "leftarrow", "rightarrow", "leftrightarrow", "Leftarrow",
   "Rightarrow", "Leftrightarrow", "longrightarrow", "longleftarrow", "Longrightarrow", "implies", "iff",
   "uparrow", "downarrow", "leq", "le", "geq", "ge", "neq", "ne", "approx", "equiv", "sim", "simeq",
   "cong", "propto", "ll", "gg", "prec", "succ", "perp", "parallel", "mid", "vdash", "models", "pm", "mp",
   "times", "div", "cdot", "ast", "star", "circ", "bullet", "oplus", "ominus", "otimes", "odot", "dots",
   "ldots", "cdots", "vdots", "ddots", "prime", "hbar", "ell", "Re", "Im", "aleph", "angle", "triangle",
   "square", "langle", "rangle", "lfloor", "rfloor", "lceil", "rceil", "vert", "Vert", "lbrace", "rbrace",
   "backslash", "quad", "qquad", "displaystyle", "textstyle", "scriptstyle", "limits", "nolimits", "dagger",
   "ddagger", "top", "bot", "therefore", "because", "degree", "colon", ",", ";", ":", "!", " ", "\x7b",
   "\x7d", "$", "%", "&", "#", "_", "|", "\\"]

/-- How many arguments a command takes. -/
def argumentCount? (name : String) : Option Nat :=
  if symbolCommands.contains name then some 0
  else if ["text", "textbf", "textit", "textrm", "mathrm", "mathbf", "mathit", "mathsf", "mathtt", "mathbb",
      "mathcal", "mathfrak", "mathscr", "operatorname", "boldsymbol", "hat", "bar", "vec", "dot", "ddot",
      "tilde", "acute", "grave", "check", "breve", "overline", "underline", "widehat", "widetilde",
      "overbrace", "underbrace", "boxed", "phantom", "sqrt", "pmod", "bmod", "mathop"].contains name then
    some 1
  else if ["frac", "dfrac", "tfrac", "cfrac", "binom", "dbinom", "tbinom", "overset", "underset",
      "stackrel", "textcolor"].contains name then some 2
  else none

/-- The known environments. -/
def environmentNames : List String :=
  ["matrix", "pmatrix", "bmatrix", "Bmatrix", "vmatrix", "Vmatrix", "smallmatrix", "cases", "aligned",
   "gathered", "split", "array", "align", "equation", "gather"]

/-- The name in braces that some pieces begin with, and what follows it. -/
def bracedName? : List Piece → Option (String × List Piece)
  | .symbol '\x7b' :: rest =>
    let name := rest.takeWhile (· != .symbol '\x7d')
    match rest.drop name.length with
    | _ :: after => some (String.join (name.map fun piece =>
        match piece with
        | .symbol c => .singleton c
        | .command _ => "\\"), after)
    | [] => none
  | _ => none

/-- What follows the delimiter that some pieces begin with. -/
def afterDelimiter? : List Piece → Option (List Piece)
  | .symbol c :: rest => if "()[]|/.<>".toList.contains c then some rest else none
  | .command name :: rest =>
    if ["\x7b", "\x7d", "|", "langle", "rangle", "lfloor", "rfloor", "lceil", "rceil", "vert", "Vert",
        "lbrace", "rbrace", "backslash", "uparrow", "downarrow"].contains name then some rest
    else none
  | [] => none

/-- Whether a character stands for itself. -/
def isPlain (c : Char) : Bool :=
  c.isAlphanum || "()[]+-*/=<>,.;:!?|@\"\x60~".toList.contains c

mutual

/-- Reads a formula up to what closes it, and gives the rest. -/
def formula? : (fuel : Nat) → List Piece → Option (List Piece)
  | 0, _ => none
  | _, [] => some []
  | fuel + 1, piece :: rest =>
    match piece with
    | .symbol '\x7d' => some (piece :: rest)
    | .symbol '&' => some (piece :: rest)
    | .command "right" => some (piece :: rest)
    | .command "end" => some (piece :: rest)
    | .symbol '^' => (scripts? fuel false false (piece :: rest)).bind (formula? fuel)
    | .symbol '_' => (scripts? fuel false false (piece :: rest)).bind (formula? fuel)
    | .symbol '\'' => (scripts? fuel false false (piece :: rest)).bind (formula? fuel)
    | _ => ((atom? fuel (piece :: rest)).bind (scripts? fuel false false)).bind (formula? fuel)

/-- Reads the scripts behind an atom, one above and one below it at most. -/
def scripts? : (fuel : Nat) → (above below : Bool) → List Piece → Option (List Piece)
  | 0, _, _, _ => none
  | fuel + 1, above, below, .symbol '^' :: rest =>
    if above then none else (atom? fuel rest).bind (scripts? fuel true below)
  | fuel + 1, above, below, .symbol '_' :: rest =>
    if below then none else (atom? fuel rest).bind (scripts? fuel above true)
  | fuel + 1, above, below, .symbol '\'' :: rest =>
    if above then none
    else
      let after := rest.dropWhile (· == .symbol '\'')
      match after with
      | .symbol '^' :: more => (atom? fuel more).bind (scripts? fuel true below)
      | _ => scripts? fuel true below after
  | _, _, _, rest => some rest

/-- Reads one atom: a character, a group or a command with its arguments. -/
def atom? : (fuel : Nat) → List Piece → Option (List Piece)
  | 0, _ => none
  | _, [] => none
  | fuel + 1, .symbol c :: rest =>
    if c = '\x7b' then group? fuel rest else if isPlain c then some rest else none
  | fuel + 1, .command name :: rest =>
    if name == "left" then
      match (afterDelimiter? rest).bind (rows? fuel) with
      | some (.command "right" :: after) => afterDelimiter? after
      | _ => none
    else if name == "begin" then
      match bracedName? rest with
      | none => none
      | some (environment, after) =>
        if environmentNames.contains environment then
          let body := if environment == "array" then (bracedName? after).map Prod.snd else some after
          match body.bind (rows? fuel) with
          | some (.command "end" :: stop) =>
            match bracedName? stop with
            | some (found, last) => if found == environment then some last else none
            | none => none
          | _ => none
        else none
    else
      match argumentCount? name with
      | none => none
      | some count =>
        match name, rest with
        | "sqrt", .symbol '[' :: after =>
          arguments? fuel 1 ((after.dropWhile (· != .symbol ']')).drop 1)
        | _, _ => arguments? fuel count rest

/-- Reads the rest of a group. -/
def group? : (fuel : Nat) → List Piece → Option (List Piece)
  | 0, _ => none
  | fuel + 1, rest =>
    match formula? fuel rest with
    | some (.symbol '\x7d' :: after) => some after
    | _ => none

/-- Reads the cells of a table. -/
def rows? : (fuel : Nat) → List Piece → Option (List Piece)
  | 0, _ => none
  | fuel + 1, rest =>
    match formula? fuel rest with
    | some (.symbol '&' :: after) => rows? fuel after
    | other => other

/-- Reads some arguments. -/
def arguments? : (fuel count : Nat) → List Piece → Option (List Piece)
  | 0, _, _ => none
  | _, 0, rest => some rest
  | fuel + 1, count + 1, rest => (atom? fuel rest).bind (arguments? fuel count)

end

/-- Whether all of a text is a formula. -/
def isWellFormed (tex : String) : Bool :=
  let cs := tex.toList
  let all := pieces cs.length cs
  formula? (8 * all.length + 8) all == some []

/-- Formulas as `markupTypesetter` writes them, but only those that are well formed. -/
def strictTypesetter : Typesetter := fun tex display =>
  if Text.isBlankText tex.toList then .error .empty
  else if isWellFormed tex then markupTypesetter tex display
  else .error (.engine "the formula cannot be read")

end Galley.Math
