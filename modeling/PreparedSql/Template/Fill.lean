import PreparedSql.Layout.Page
import PreparedSql.Template.Basic
import PreparedSql.Template.Step

/-!
# Filling templates

Filling a template for one execution gives its text and the values to bind to
its markers, or tells the first thing that the arguments lack.

Values go to a sink, which answers each one with an ordinal; numbered markers
show the ordinal of their value. Positional markers bind a value for every
occurrence. In the other styles the markers of one slot share the value that was
bound first.
-/

namespace PreparedSql

/-- Where values are collected. -/
structure Sink where
  values : List Value
  /-- The ordinals of the values to come, the next one at zero. -/
  ordinal : Nat → Nat

namespace Sink

/-- A list of values; a value's ordinal is its place, counted from one. -/
def list (values : List Value) : Sink := ⟨values, fun k => values.length + k + 1⟩

/-- An empty sink that counts from `first` in steps. -/
def counting (first step : Nat) : Sink := ⟨[], fun k => first + k * step⟩

def append (s : Sink) (values : List Value) : Sink :=
  ⟨s.values ++ values, fun k => s.ordinal (values.length + k)⟩

end Sink

/-- Text to execute and the values for its markers. -/
structure Sql where
  text : String
  params : List Value
deriving DecidableEq, Repr

namespace Marker

/-- The first marker of each slot that is not among `seen`. -/
def firsts (seen : List Slot) : List Marker → List Marker
  | [] => []
  | m :: ms => if m.slot ∈ seen then firsts seen ms else m :: firsts (m.slot :: seen) ms

/-- The markers whose values are bound, in order. -/
def bound (style : MarkerStyle) (ms : List Marker) : List Marker :=
  if style.shares then firsts [] ms else ms

/-- How a marker is written, given the slots of the bound markers. -/
def spell (style : MarkerStyle) (slots : List Slot) (ordinal : Nat → Nat) (m : Marker) : String :=
  match style with
  | .positional => "?"
  | .dollar => "$" ++ toString (ordinal (slots.idxOf m.slot))
  | .question => "?" ++ toString (ordinal (slots.idxOf m.slot))
  | .named => ":" ++ m.name

end Marker

namespace Step

def marker? : Step → Option Marker
  | .marker m => some m
  | _ => none

def missing? : Step → Option Missing
  | .missing what => some what
  | _ => none

/-- The markers met before anything is missing. -/
def markers (steps : List Step) : List Marker :=
  (steps.takeWhile (·.missing?.isNone)).filterMap marker?

/-- Takes a step on a page. -/
def act (pretty : Bool) (spell : Marker → String) (p : Page) : Step → Page
  | .token s => p.token s
  | .delimiter s kind => p.delimiter pretty s kind
  | .enter => p.enter pretty
  | .exit => p.exit pretty
  | .gap => p.gap
  | .write s => p.write s
  | .marker m => p.write (spell m)
  | .settle glued => p.settle glued
  | .fresh => p.fresh
  | .missing _ => p

/-- Takes steps in order. -/
def actAll (pretty : Bool) (spell : Marker → String) (p : Page) (steps : List Step) : Page :=
  steps.foldl (act pretty spell) p

@[simp] theorem actAll_nil (pretty : Bool) (spell : Marker → String) (p : Page) :
    actAll pretty spell p [] = p := rfl

@[simp] theorem actAll_cons (pretty : Bool) (spell : Marker → String) (p : Page) (step : Step)
    (steps : List Step) :
    actAll pretty spell p (step :: steps) = actAll pretty spell (act pretty spell p step) steps :=
  rfl

theorem actAll_append (pretty : Bool) (spell : Marker → String) (p : Page)
    (steps more : List Step) :
    actAll pretty spell p (steps ++ more) = actAll pretty spell (actAll pretty spell p steps) more := by
  simp [actAll]

end Step

namespace Template

/-- What an execution with these arguments goes through. -/
def steps (t : Template) (a : Arguments) : List Step :=
  Fragment.walkAll a t.format.quote none t.fragments

/-- The markers whose values an execution binds, also when it fails later. -/
def bound (t : Template) (a : Arguments) : List Marker :=
  Marker.bound t.format.markers (Step.markers (t.steps a))

/-- The text of an execution that lacks nothing, for the ordinals of a sink. -/
def textWith (t : Template) (a : Arguments) (ordinal : Nat → Nat) : String :=
  let spell := Marker.spell t.format.markers ((t.bound a).map Marker.slot) ordinal
  (Step.actAll t.format.pretty spell {} (t.steps a)).text

/-- Fills a template, appending the bound values to a sink. Values bound before
something is found missing stay in the sink. -/
def fillInto (t : Template) (a : Arguments) (sink : Sink) : Except Failure String × Sink :=
  let text :=
    match (t.steps a).findSome? Step.missing? with
    | some what => .error ⟨.missing what, []⟩
    | none => .ok (t.textWith a sink.ordinal)
  (text, sink.append ((t.bound a).map Marker.value))

/-- Fills a template for one execution. -/
def fill (t : Template) (a : Arguments) : Except Failure Sql :=
  match t.fillInto a (.list []) with
  | (.ok text, sink) => .ok ⟨text, sink.values⟩
  | (.error f, _) => .error f

end Template

end PreparedSql
