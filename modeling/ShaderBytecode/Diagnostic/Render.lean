import ShaderBytecode.Diagnostic.Report

/-!
# Messages for a terminal

Each message has a headline, its line number, its text and the line of the source, underlined where
the message is about.
-/

namespace ShaderBytecode

/-- How text shows on a terminal. -/
inductive Style where
  | bright
  | dark
  | red
  | yellow
  | magenta
deriving DecidableEq, Repr

def controlSequence (parameter : Nat) : String :=
  s!"\x1b[{parameter}m"

def Style.code : Style → String
  | bright => controlSequence 1
  | dark => controlSequence 2
  | red => controlSequence 31
  | yellow => controlSequence 33
  | magenta => controlSequence 35

/-- A line of text whose styles end with it. Every part starts with the styles it adds. -/
def styledLine (parts : List (List Style × String)) : String :=
  String.join (parts.map fun (styles, text) => String.join (styles.map Style.code) ++ text) ++
    controlSequence 0 ++ "\n"

def withoutReturn (line : List Char) : List Char :=
  if line.getLast? = some '\r' then line.dropLast else line

/-- The lines of a text, given what is before it on its first line. Lines end in a line feed with or
without a carriage return before it, and what follows the last line feed is a line unless it is
empty. -/
def linesAfter (before : List Char) : List Char → List (List Char)
  | [] => if before.isEmpty then [] else [before]
  | c :: rest =>
    if c = '\n' then withoutReturn before :: linesAfter [] rest
    else linesAfter (before ++ [c]) rest

def sourceLines (source : String) : List String :=
  (linesAfter [] source.toList).map String.ofList

def lineWord (line : Int) : UInt64 :=
  .ofInt line

namespace Span

/-- The headline with the number of the line a span starts on. -/
def lineHeading (s : Span) : String :=
  styledLine [([.dark, .magenta], "Line "),
    ([.bright], toString (lineWord s.start.line + 1).toNat)]

/-- How many columns are underlined. A span over several lines is marked at its start. -/
def underlineLength (s : Span) : Nat :=
  if s.stop.line = s.start.line then (max (s.stop.column - s.start.column) 1).toNat else 1

def underlined (s : Span) (source : String) : String :=
  let line := ((sourceLines source)[(lineWord s.start.line).toNat]?).getD ""
  "\n" ++ line ++ "\n" ++ String.ofList (List.replicate s.start.column.toNat ' ') ++
    styledLine [([.red], String.ofList (List.replicate s.underlineLength '^'))]

end Span

/-- An error about a source for a terminal. Configurations have no source to show. -/
def Report.render (source : String) (r : Report) : String :=
  let body :=
    styledLine [([.red], r.message)] ++
      (match r.details.lookup .primarySuggestion with
      | some suggestion => styledLine [([.dark, .yellow], "Suggestion: " ++ suggestion)]
      | none => "") ++
      r.span.underlined source
  match r.kind with
  | .config => styledLine [([.yellow], "CONFIG ISSUE - "), ([.red], r.message)]
  | .compiler =>
    styledLine [([.yellow], "TRANSLATOR BUG - ")] ++
      styledLine [([.dark, .yellow], "translator developer skill issue (not your fault)")] ++ body
  | kind => styledLine [([.red], kind.title)] ++ r.span.lineHeading ++ body

def Notice.render (source : String) (n : Notice) : String :=
  styledLine [([.yellow], "WARNING: " ++ n.kind.title)] ++ n.span.lineHeading ++
    styledLine [([], n.message)] ++ n.span.underlined source

/-- All messages about a source for a terminal, errors first. -/
def Messages.render (source : String) (m : Messages) : String :=
  String.join (m.errors.map (Report.render source) ++ m.warnings.map (Notice.render source))

end ShaderBytecode
