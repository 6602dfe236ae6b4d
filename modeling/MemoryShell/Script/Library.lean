/-
  MemoryShell/Script/Library.lean
  ===============================
  **The names of what scripts find ready-made: functions, and methods of values.**

  A function stands on its own or in a namespace such as `Math`.  A method belongs to a kind of
  value; which methods a value has depends on its kind alone.
-/

namespace MemoryShell.Script

/-! ### Kinds of error -/

/-- The kinds of error object that the language itself makes. -/
inductive ErrorKind where
  | error
  | typeError
  | rangeError
  | referenceError
  | syntaxError
deriving DecidableEq, Repr

/-- The name that an error object of a kind carries. -/
def ErrorKind.name : ErrorKind → String
  | .error => "Error"
  | .typeError => "TypeError"
  | .rangeError => "RangeError"
  | .referenceError => "ReferenceError"
  | .syntaxError => "SyntaxError"

/-! ### Functions -/

/-- Ready-made functions. -/
inductive Native where
  | consoleLog
  | consoleWarn
  | consoleError
  | require
  | output
  | env
  | cwd
  | exit
  | readFile
  | writeFile
  | unlink
  | makeDirectory
  | fileExists
  | readDirectory
  | floor
  | ceil
  | round
  | trunc
  | abs
  | sign
  | sqrt
  | pow
  | min
  | max
  | random
  | stringify
  | parseJson
  | keys
  | values
  | entries
  | assign
  | isArray
  | toNumber
  | toText
  | toBool
  | parseInt
  | parseFloat
  | isNaN
  | isFinite
  | makeError (kind : ErrorKind)
deriving DecidableEq, Repr

def Native.name : Native → String
  | .consoleLog => "log"
  | .consoleWarn => "warn"
  | .consoleError => "error"
  | .require => "require"
  | .output => "output"
  | .env => "env"
  | .cwd => "cwd"
  | .exit => "exit"
  | .readFile => "readFileSync"
  | .writeFile => "writeFileSync"
  | .unlink => "unlinkSync"
  | .makeDirectory => "mkdirSync"
  | .fileExists => "existsSync"
  | .readDirectory => "readdirSync"
  | .floor => "floor"
  | .ceil => "ceil"
  | .round => "round"
  | .trunc => "trunc"
  | .abs => "abs"
  | .sign => "sign"
  | .sqrt => "sqrt"
  | .pow => "pow"
  | .min => "min"
  | .max => "max"
  | .random => "random"
  | .stringify => "stringify"
  | .parseJson => "parse"
  | .keys => "keys"
  | .values => "values"
  | .entries => "entries"
  | .assign => "assign"
  | .isArray => "isArray"
  | .toNumber => "Number"
  | .toText => "String"
  | .toBool => "Boolean"
  | .parseInt => "parseInt"
  | .parseFloat => "parseFloat"
  | .isNaN => "isNaN"
  | .isFinite => "isFinite"
  | .makeError kind => kind.name

/-! ### Methods -/

/-- Methods of values. -/
inductive Method where
  | at_
  | charAt
  | charCodeAt
  | concat
  | endsWith
  | every
  | filter
  | find
  | findIndex
  | forEach
  | hasOwnProperty
  | includes
  | indexOf
  | join
  | lastIndexOf
  | map
  | padEnd
  | padStart
  | pop
  | push
  | reduce
  | repeat_
  | replace
  | replaceAll
  | reverse
  | shift
  | slice
  | some
  | sort
  | splice
  | split
  | startsWith
  | substring
  | toFixed
  | toLowerCase
  | toText
  | toUpperCase
  | trim
  | trimEnd
  | trimStart
  | unshift
deriving DecidableEq, Repr

namespace Method

def name : Method → String
  | .at_ => "at"
  | .charAt => "charAt"
  | .charCodeAt => "charCodeAt"
  | .concat => "concat"
  | .endsWith => "endsWith"
  | .every => "every"
  | .filter => "filter"
  | .find => "find"
  | .findIndex => "findIndex"
  | .forEach => "forEach"
  | .hasOwnProperty => "hasOwnProperty"
  | .includes => "includes"
  | .indexOf => "indexOf"
  | .join => "join"
  | .lastIndexOf => "lastIndexOf"
  | .map => "map"
  | .padEnd => "padEnd"
  | .padStart => "padStart"
  | .pop => "pop"
  | .push => "push"
  | .reduce => "reduce"
  | .repeat_ => "repeat"
  | .replace => "replace"
  | .replaceAll => "replaceAll"
  | .reverse => "reverse"
  | .shift => "shift"
  | .slice => "slice"
  | .some => "some"
  | .sort => "sort"
  | .splice => "splice"
  | .split => "split"
  | .startsWith => "startsWith"
  | .substring => "substring"
  | .toFixed => "toFixed"
  | .toLowerCase => "toLowerCase"
  | .toText => "toString"
  | .toUpperCase => "toUpperCase"
  | .trim => "trim"
  | .trimEnd => "trimEnd"
  | .trimStart => "trimStart"
  | .unshift => "unshift"

def ofStrings : List Method := [
  .at_, .charAt, .charCodeAt, .concat, .endsWith, .includes, .indexOf, .lastIndexOf, .padEnd,
  .padStart, .repeat_, .replace, .replaceAll, .slice, .split, .startsWith, .substring,
  .toLowerCase, .toText, .toUpperCase, .trim, .trimEnd, .trimStart]

def ofArrays : List Method := [
  .at_, .concat, .every, .filter, .find, .findIndex, .forEach, .includes, .indexOf, .join,
  .lastIndexOf, .map, .pop, .push, .reduce, .reverse, .shift, .slice, .some, .sort, .splice,
  .toText, .unshift]

def ofNumbers : List Method := [.toFixed, .toText]

def ofObjects : List Method := [.hasOwnProperty, .toText]

def ofBools : List Method := [.toText]

/-- The method of a name among those of a kind of value. -/
def named? (methods : List Method) (name : String) : Option Method :=
  methods.find? fun m => m.name = name

end Method

end MemoryShell.Script
