import CrudLayers.Program.Event
import CrudLayers.Text.Unprintable

namespace CrudLayers

inductive LogLevel where
  | off
  | error
  | warn
  | info
  | debug
  | trace
deriving DecidableEq

namespace LogLevel

def all : List LogLevel :=
  [off, error, warn, info, debug, trace]

def name : LogLevel → String
  | off => "off"
  | error => "error"
  | warn => "warn"
  | info => "info"
  | debug => "debug"
  | trace => "trace"

/-- The number of levels that show less. -/
def rank : LogLevel → Nat
  | off => 0
  | error => 1
  | warn => 2
  | info => 3
  | debug => 4
  | trace => 5

/-- A level by its name, in letters of either case, or by its rank. -/
def ofString? (s : String) : Option LogLevel :=
  let lower := String.ofList (s.toList.map Char.toLower)
  all.find? (fun l => l.name == lower || toString l.rank == s)

end LogLevel

namespace Event

def level : Event → LogLevel
  | generatedFile .. => .info
  | _ => .debug

def target : Event → String
  | loadingConfig .. => "crudgen::config"
  | wroteFile .. => "crudgen::emit::persist"
  | generatedFile .. | staleFile .. => "crudgen::generator"
  | unmatchedExclude .. | excludedField .. => "crudgen::builders::resolver"

def message : Event → String
  | loadingConfig .. => "Loading configuration"
  | wroteFile .. => "Wrote file"
  | generatedFile .. => "Generated file"
  | staleFile .. => "Stale file"
  | unmatchedExclude .. => "Exclude matches no resolver field"
  | excludedField .. => "Excluding resolver field"

end Event

inductive EventValue where
  | text (s : String)
  | number (n : Nat)
  | flag (b : Bool)
deriving DecidableEq

def Event.fields : Event → List (String × EventValue)
  | .loadingConfig path found => [("path", .text path), ("exists", .flag found)]
  | .wroteFile path status bytes =>
    [("path", .text path), ("status", .text status.name), ("bytes", .number bytes)]
  | .generatedFile entity layer status path =>
    [("entity", .text entity), ("kind", .text layer.name), ("status", .text status.name),
      ("path", .text path)]
  | .staleFile entity layer path =>
    [("entity", .text entity), ("kind", .text layer.name), ("path", .text path)]
  | .unmatchedExclude entity exclude => [("entity", .text entity), ("exclude", .text exclude)]
  | .excludedField entity field => [("entity", .text entity), ("field", .text field)]

namespace LogFilter

/-- A level for a target, or for every target. -/
structure Directive where
  target : Option String
  level : LogLevel
deriving DecidableEq

inductive Parsed where
  | plain (d : Directive)
  /-- A directive for what happens within named spans, of which there are none. -/
  | spans

def isTargetChar (c : Char) : Bool :=
  c.isAlphanum || c == '_' || c == ':' || c == '-' || (0x80 ≤ c.toNat && !isUnprintable c)

/-- Reads a directive: a level, or a target with or without one. -/
def parseDirective? (s : String) : Option Parsed :=
  match LogLevel.ofString? s with
  | some level => some (.plain ⟨none, level⟩)
  | none =>
    let target := s.toList.takeWhile isTargetChar
    let rest := s.toList.drop target.length
    let (inSpan, rest) := match rest with
      | '[' :: body =>
        match body.dropWhile (· != ']') with
        | ']' :: rest => (true, rest)
        | _ => (false, rest)
      | rest => (false, rest)
    let name := String.ofList target
    let level? := match rest with
      | [] | ['='] => some LogLevel.trace
      | '=' :: level => LogLevel.ofString? (String.ofList level)
      | _ => none
    if target = [] ∧ inSpan = false then none
    else
      level?.map (fun level =>
        if inSpan then .spans
        else .plain ⟨if (LogLevel.ofString? name).isSome then none else some name, level⟩)

def pieces : List Char → List (List Char)
  | [] => [[]]
  | c :: rest =>
    if c = ',' then [] :: pieces rest
    else
      match pieces rest with
      | [] => [[c]]
      | piece :: more => (c :: piece) :: more

/-- Reads a filter. Without any directive it shows errors only. -/
def parse? (s : String) : Option (List Directive) := do
  let texts := ((pieces s.toList).filter (· ≠ [])).map String.ofList
  let parsed ← texts.mapM parseDirective?
  if parsed.isEmpty then return [⟨none, .error⟩]
  return parsed.filterMap (fun p => match p with
    | .plain d => some d
    | .spans => none)

/-- The filter that holds unless the environment gives another. -/
def standard (verbose : Bool) : String :=
  if verbose then "debug" else "warn,crudgen=info"

/-- The filter of a run; one that cannot be read counts as not given. -/
def ofEnvironment (given : Option String) (verbose : Bool) : List Directive :=
  ((given.bind parse?).or (parse? (standard verbose))).getD []

/-- How closely a directive names a target, if it applies to it. -/
def closeness? (target : String) (d : Directive) : Option Nat :=
  match d.target with
  | none => some 0
  | some t => if t.toList.isPrefixOf target.toList then some (t.length + 1) else none

/-- The level for a target: that of the closest directive, and of the last among equals. -/
def levelFor (target : String) (filter : List Directive) : LogLevel :=
  (filter.foldl (fun (best : Nat × LogLevel) d =>
    match closeness? target d with
    | some n => if best.1 ≤ n then (n, d.level) else best
    | none => best) (0, .off)).2

def shows (filter : List Directive) (e : Event) : Bool :=
  e.level.rank ≤ (levelFor e.target filter).rank

end LogFilter

end CrudLayers
