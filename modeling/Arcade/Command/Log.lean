import Arcade.Pattern.Meaning
import Arcade.Text.Controls

/-! The log: what is recorded, and which records are shown. -/

namespace Arcade.Command

/-- How important a record is. -/
inductive Level where
  | error | warn | info | debug | trace
deriving DecidableEq

namespace Level

def all : List Level := [error, warn, info, debug, trace]

def name : Level → String
  | error => "ERROR"
  | warn => "WARN"
  | info => "INFO"
  | debug => "DEBUG"
  | trace => "TRACE"

/-- How many levels are at least as important. -/
def rank : Level → Nat
  | error => 1
  | warn => 2
  | info => 3
  | debug => 4
  | trace => 5

end Level

/-- A record and the part of the program that it comes from. -/
structure LogRecord where
  level : Level
  target : String
  message : String
deriving DecidableEq

/-- Indents all lines of a message but the first. -/
def indented : List Char → List Char
  | [] => []
  | c :: rest => if c = '\n' then c :: List.replicate 4 ' ' ++ indented rest else c :: indented rest

/-- The record as it is written. Level names are filled up to the same width, and what controls a
terminal is left out. -/
def LogRecord.shown (record : LogRecord) : String :=
  let name := record.level.name
  Text.withoutControls ("[" ++ name ++ String.ofList (List.replicate (5 - name.length) ' ') ++ " "
    ++ record.target ++ "] " ++ String.ofList (indented record.message.toList) ++ "\n")

/-- Shows the levels up to a rank, for the targets that start with a name if one is given. -/
structure LogRule where
  target : Option String
  rank : Nat
deriving DecidableEq

/-- Which records are shown: the rule with the longest name that fits decides. -/
structure LogFilter where
  rules : List LogRule
  /-- What messages must match. -/
  pattern : Option Pattern := none
  /-- Complaints about the description of the filter. -/
  warnings : List String := []

namespace LogFilter

/-- The filter for a number of verbosity flags. -/
def ofVerbosity (count : Nat) : LogFilter := ⟨[⟨none, min (count + 2) 5⟩], none, []⟩

/-- Drops white space around a text. -/
def trim (text : List Char) : List Char :=
  let isBlank := CharSet.blank.contains
  ((text.dropWhile isBlank).reverse.dropWhile isBlank).reverse

/-- The rank of a level name in any case. -/
def rank? (name : List Char) : Option Nat :=
  let upper := name.map Char.toUpper
  if upper = "OFF".toList then some 0
  else (Level.all.find? (·.name.toList = upper)).map Level.rank

/-- One rule: a level, the start of a target, or both with an equals sign between them. -/
def rule? (text : List Char) : Except String LogRule :=
  let named (name : List Char) (rank : Nat) : LogRule := ⟨some (String.ofList name), rank⟩
  match Text.split '=' text with
  | [only] => .ok (match rank? only with
    | some rank => ⟨none, rank⟩
    | none => named only 5)
  | [name, level] =>
    let level := trim level
    if level.isEmpty then .ok (named name 5)
    else match rank? level with
      | some rank => .ok (named name rank)
      | none => .error ("invalid logging spec '" ++ String.ofList level ++ "'")
  | _ => .error ("invalid logging spec '" ++ String.ofList text ++ "'")

/-- Adds a rule. A later rule for the same target replaces an earlier one. -/
def add (filter : LogFilter) (rule : LogRule) : LogFilter :=
  if filter.rules.any (·.target = rule.target) then
    let replaced (old : LogRule) := if old.target = rule.target then rule else old
    { filter with rules := filter.rules.map replaced }
  else { filter with rules := filter.rules ++ [rule] }

def addAll (filter : LogFilter) : List (List Char) → LogFilter
  | [] => filter
  | text :: rest =>
    match rule? text with
    | .ok rule => (filter.add rule).addAll rest
    | .error warning => { filter with warnings := filter.warnings ++ [warning] }.addAll rest

def empty : LogFilter := ⟨[], none, []⟩

/-- The filter with a pattern for messages. A text that is no pattern is passed over. -/
def withPattern (filter : LogFilter) (text : String) : LogFilter :=
  match Pattern.ofText text with
  | .ok pattern => { filter with pattern := some pattern }
  | .error refusal =>
    let warning := "invalid regex filter - " ++ refusal.message text
    { filter with warnings := filter.warnings ++ [warning] }

/-- Reads rules with commas between them, and after a slash a pattern for messages. -/
def ofText (text : String) : LogFilter :=
  let rules part := ((Text.split ',' part).map trim).filter (!·.isEmpty)
  match Text.split '/' text.toList with
  | [part] => empty.addAll (rules part)
  | [part, pattern] => (empty.addAll (rules part)).withPattern (String.ofList pattern)
  | _ => { empty with
      warnings := ["invalid logging spec '" ++ text ++ "' (too many '/'s)"] }

/-- Whether a rule is about a target. -/
def LogRule.fits (rule : LogRule) (target : String) : Bool :=
  rule.target.all fun name => name.toList.isPrefixOf target.toList

/-- Without rules, only errors are shown. -/
def accepts (filter : LogFilter) (record : LogRecord) : Bool :=
  let width (rule : LogRule) := (rule.target.map String.utf8ByteSize).getD 0
  let better (best : Option LogRule) (rule : LogRule) :=
    if best.all fun best => width best ≤ width rule then some rule else best
  let fitting := filter.rules.filter (LogRule.fits · record.target)
  let limit :=
    if filter.rules.isEmpty then Level.error.rank
    else ((fitting.foldl better none).map (·.rank)).getD 0
  record.level.rank ≤ limit
    && filter.pattern.all fun pattern => pattern.occursIn record.message

/-- The complaints, then the records that are shown. -/
def shown (filter : LogFilter) (records : List LogRecord) : String :=
  String.join ((records.filter filter.accepts).map LogRecord.shown)

def complaints (filter : LogFilter) : String :=
  String.join (filter.warnings.map fun warning => "warning: " ++ warning ++ ", ignoring it\n")

end LogFilter
end Arcade.Command
