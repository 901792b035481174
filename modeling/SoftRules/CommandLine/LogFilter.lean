import SoftRules.Log
import SoftRules.Text.Blank

/-!
Which log records are shown. A filter is a list of thresholds, each for the areas whose name
starts in a given way or for all areas; the most specific threshold decides.
-/

set_option autoImplicit false

namespace SoftRules

/-- The parts of the program that write log records. -/
inductive Area where
  | tool
  | encoder
  deriving DecidableEq, Repr

def Area.name : Area → String
  | tool => "lpmln"
  | encoder => "lpmln::translation"

/-- Records up to a rank are shown for the areas whose name starts with `area`. -/
structure Threshold where
  area : Option String
  rank : Nat
  deriving DecidableEq, Repr

structure LogFilter where
  thresholds : List Threshold := []
  /-- Only records whose message contains this text are shown. -/
  message : Option String := none
  deriving DecidableEq, Repr

namespace LogFilter

def highestRank : Nat := Level.trace.rank

/-- The rank of a level, or of none at all, written in upper or lower case. -/
def rank? (text : List Char) : Option Nat :=
  let name := String.ofList (text.map Char.toUpper)
  if name == "OFF" then some 0
  else
    ([.error, .warn, .info, .debug, .trace] : List Level).find? (·.name == name)
      |>.map Level.rank

/-- Sets the threshold of an area. -/
def set (filter : LogFilter) (threshold : Threshold) : LogFilter :=
  let others := filter.thresholds
  { filter with
    thresholds :=
      if others.any (·.area == threshold.area) then
        others.map fun other => if other.area == threshold.area then threshold else other
      else others ++ [threshold] }

/-- A level for all areas, an area, or an area with its level. -/
def threshold? (text : List Char) : Option Threshold :=
  let text := Text.trim text
  match (String.ofList text).splitOn "=" with
  | [_] =>
      if text.isEmpty then none
      else
        match rank? text with
        | some rank => some ⟨none, rank⟩
        | none => some ⟨some (String.ofList text), highestRank⟩
  | [area, level] =>
      let level := Text.trim level.toList
      if level.isEmpty then some ⟨some area, highestRank⟩
      else
        (rank? level).map fun rank => ⟨some area, rank⟩
  | _ => none

/-- Adds a list of thresholds separated by commas. A text after a slash selects messages. -/
def add (filter : LogFilter) (specification : String) : LogFilter :=
  let extend (thresholds : String) (message : Option String) : LogFilter :=
    ((thresholds.splitOn ",").filterMap fun part => threshold? part.toList).foldl set
      { filter with message }
  match specification.splitOn "/" with
  | [thresholds] => extend thresholds none
  | [thresholds, message] => extend thresholds (some message)
  | _ => { filter with message := none }

/-- The threshold with the longest name that fits an area; of equally long ones the last. -/
def decisive? (filter : LogFilter) (area : String) : Option Threshold :=
  let length (threshold : Threshold) : Nat := (threshold.area.map String.utf8ByteSize).getD 0
  filter.thresholds.foldl
    (fun best threshold =>
      if (threshold.area.map fun start => start.toList.isPrefixOf area.toList).getD true then
        match best with
        | some other => if length other ≤ length threshold then some threshold else best
        | none => some threshold
      else best)
    none

def shows (filter : LogFilter) (area : Area) (record : LogRecord) : Bool :=
  (match filter.decisive? area.name with
    | some threshold => record.level.rank ≤ threshold.rank
    | none => false) &&
  (match filter.message with
    | some text => (record.message.splitOn text).length > 1 || text.isEmpty
    | none => true)

end LogFilter

end SoftRules
