import ModuleGraph.Toml.Char

/-! # Reading quoted text

Each function takes the text after an opening quote and gives the string with what follows its
closing quote. Over several lines, a line end is read as one character however it is written, and
one directly after the opening quotes does not count.
-/

namespace ModuleGraph.Toml

abbrev Reading := Option (List Char × List Char)

def Reading.cons (c : Char) (r : Reading) : Reading := r.map fun (s, rest) => (c :: s, rest)

def shortEscape? : Char → Option Char
  | 'b' => some '\x08'
  | 't' => some '\t'
  | 'n' => some '\n'
  | 'f' => some '\x0c'
  | 'r' => some '\r'
  | '"' => some '"'
  | '\\' => some '\\'
  | _ => none

/-- The number that hexadecimal digits write, after those of a value read so far. -/
def hexNumber? : Nat → List Char → Option Nat
  | n, [] => some n
  | n, c :: cs => do hexNumber? (n * 16 + (← hexValue? c)) cs

def codePoint? (digits : List Char) : Option Char := do
  let n ← hexNumber? 0 digits
  if n.isValidChar then some (.ofNat n) else none

def endsLine (cs : List Char) : Bool := (dropNewline? (cs.dropWhile isBlank)).isSome

/-- The closing quotes of a multi-line string, if they stand here. Of up to five quotes in a row
the last three close the string and the others belong to it. -/
def closing? (q : Char) (cs : List Char) : Reading :=
  let run := min 5 (cs.takeWhile (· == q)).length
  if 3 ≤ run then some (List.replicate (run - 3) q, cs.drop run) else none

/-- The rest of a `"` string on one line. -/
def readBasic : List Char → Reading
  | [] => none
  | c :: cs =>
    if c = '"' then some ([], cs)
    else if c = '\\' then
      match cs with
      | [] => none
      | e :: cs =>
        match shortEscape? e with
        | some x => (readBasic cs).cons x
        | none =>
          if e = 'u' then
            match cs with
            | h₁ :: h₂ :: h₃ :: h₄ :: cs => do (readBasic cs).cons (← codePoint? [h₁, h₂, h₃, h₄])
            | _ => none
          else if e = 'U' then
            match cs with
            | h₁ :: h₂ :: h₃ :: h₄ :: h₅ :: h₆ :: h₇ :: h₈ :: cs => do
              (readBasic cs).cons (← codePoint? [h₁, h₂, h₃, h₄, h₅, h₆, h₇, h₈])
            | _ => none
          else none
    else if isPlain c then (readBasic cs).cons c
    else none

def readLiteral : List Char → Reading
  | [] => none
  | c :: cs =>
    if c = '\'' then some ([], cs)
    else if isPlain c then (readLiteral cs).cons c
    else none

/-- The rest of a `"` string over several lines. A backslash at the end of a line drops the line
end and all blanks and line ends after it: while `skip` holds they are dropped. -/
def readMultilineBasic : (skip : Bool) → List Char → Reading
  | _, [] => none
  | skip, c :: cs =>
    if skip && isBlank c then readMultilineBasic true cs
    else if c = '\n' then
      if skip then readMultilineBasic true cs else (readMultilineBasic false cs).cons '\n'
    else if c = '\r' then
      match cs with
      | [] => none
      | d :: cs =>
        if d = '\n' then
          if skip then readMultilineBasic true cs else (readMultilineBasic false cs).cons '\n'
        else none
    else if c = '"' then
      match closing? '"' (c :: cs) with
      | some r => some r
      | none => (readMultilineBasic false cs).cons c
    else if c = '\\' then
      if endsLine cs then readMultilineBasic true cs
      else match cs with
        | [] => none
        | e :: cs =>
          match shortEscape? e with
          | some x => (readMultilineBasic false cs).cons x
          | none =>
            if e = 'u' then
              match cs with
              | h₁ :: h₂ :: h₃ :: h₄ :: cs => do
                (readMultilineBasic false cs).cons (← codePoint? [h₁, h₂, h₃, h₄])
              | _ => none
            else if e = 'U' then
              match cs with
              | h₁ :: h₂ :: h₃ :: h₄ :: h₅ :: h₆ :: h₇ :: h₈ :: cs => do
                (readMultilineBasic false cs).cons
                  (← codePoint? [h₁, h₂, h₃, h₄, h₅, h₆, h₇, h₈])
              | _ => none
            else none
    else if isPlain c then (readMultilineBasic false cs).cons c
    else none

def readMultilineLiteral : List Char → Reading
  | [] => none
  | c :: cs =>
    if c = '\n' then (readMultilineLiteral cs).cons '\n'
    else if c = '\r' then
      match cs with
      | [] => none
      | d :: cs => if d = '\n' then (readMultilineLiteral cs).cons '\n' else none
    else if c = '\'' then
      match closing? '\'' (c :: cs) with
      | some r => some r
      | none => (readMultilineLiteral cs).cons c
    else if isPlain c then (readMultilineLiteral cs).cons c
    else none

def dropOpening (cs : List Char) : List Char := (dropNewline? cs).getD cs

def readQuoted : List Char → Reading
  | '"' :: '"' :: '"' :: cs => readMultilineBasic false (dropOpening cs)
  | '"' :: cs => readBasic cs
  | '\'' :: '\'' :: '\'' :: cs => readMultilineLiteral (dropOpening cs)
  | '\'' :: cs => readLiteral cs
  | _ => none

end ModuleGraph.Toml
