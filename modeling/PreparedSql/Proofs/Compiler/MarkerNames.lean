import PreparedSql.Proofs.Draft.ParamNames
import PreparedSql.Proofs.Template.Condensing
import PreparedSql.Proofs.Template.Markers

/-!
# Names of markers

In the named style, a parameter shows the stem and its number, and a cell its
collection, row and column. The two are made without regard to each other, and
the key of a collection is first turned into a word, so names can clash.
`Slot.Clash` says when, and it is the only way: otherwise two markers of a
compiled statement have the same name exactly when they stand for the same slot.
-/

namespace PreparedSql

/-- A key as it appears in names. -/
def markerWord (key : Key) : String := key.map fun c => if c.isAlphanum then c else '_'

namespace Slot

/-- The name of a slot's markers, given the numbers of the parameters. -/
def markerName (stem : String) (number : Param → Nat) : Slot → String
  | .param p => stem ++ toString (number p)
  | .cell key row column =>
    markerWord key ++ "_" ++ toString row ++ "_" ++ toString column

variable {stem : String} {number : Param → Nat}

theorem solid_markerName (s : Slot) : Solid (s.markerName stem number) := by
  cases s with
  | param p => exact (solid_numeral _).append _
  | cell key row column => exact (solid_numeral _).append _

end Slot

/-- A marker that shows the name of its slot, by a number that no other parameter
has. -/
structure Marker.Named (stem : String) (number : Param → Nat) (m : Marker) : Prop where
  name_eq : m.name = m.slot.markerName stem number
  unshared : ∀ p p', m.slot = .param p → number p = number p' → p = p'

namespace Compiler

variable {c : Compiler} {statement : Statement} {t : Template} {a : Arguments}

/-- A statement is compiled with the stem of the options and without parameters. -/
theorem extends_names (c : Compiler) :
    (Names.start c.options.paramStem c.options.aliasing).Extends c.names := by
  have htake (names : List String) (ns : Names) : ns.Extends (names.foldl Names.take ns) := by
    induction names generalizing ns with
    | nil => exact .refl ns
    | cons name names ih => exact (Names.Extends.take ns name).trans (ih _)
  exact htake _ _

/-- The markers of a compiled statement are named after their slots, by numbers
that tell its parameters apart. -/
theorem exists_number (h : c.compile statement = .ok t) (a : Arguments) :
    ∃ number, ∀ m ∈ (t.steps a).filterMap Step.marker?, m.Named c.options.paramStem number := by
  obtain ⟨ns, hresolves⟩ := resolves_of_compile h
  have hextends := c.extends_names.trans hresolves.names_extend
  have hnumbered : ns.Numbered := hextends.numbered nofun
  refine ⟨ns.place, fun m hm => ?_⟩
  obtain ⟨p, name, v, hin, -, rfl⟩ | ⟨r, column, v, -, -, rfl⟩ := Template.exists_of_mem_markers hm
  · have hcalls := hresolves.calls hin
    refine ⟨by rw [hcalls.name_eq hnumbered, hextends.stem]; rfl, ?_⟩
    rintro _ p' ⟨⟩ hplace
    exact (List.idxOf_inj hcalls.met).1 hplace
  · exact ⟨rfl, fun p p' hslot => nomatch hslot⟩

end Compiler

end PreparedSql
