import PreparedSql.Layout.Page
import PreparedSql.Template.Basic

/-!
# Condensing

Most spacing does not depend on the execution. Condensing lays a template out
once: texts, delimiters and groups between two open fragments become a single
text, and only the open fragments are kept. The branches of choices and the
bodies of repetitions are condensed in turn.

A page collects the text since the last open fragment; it is cleared when that
text is handed over, and goes on as if the text were still there.
-/

namespace PreparedSql

/-- The text collected on a page, if there is any. -/
def Page.collected (p : Page) : List Fragment :=
  if p.ink.isEmpty then [] else [.text p.text]

namespace Fragment

mutual

/-- Lays a fragment out on a page: the condensed fragments it completes, and the
page after it. -/
def condense (pretty : Bool) (p : Page) : Fragment → List Fragment × Page
  | .text s => ([], p.token s)
  | .delimiter s kind => ([], p.delimiter pretty s kind)
  | .group false children => condenseAll pretty p children
  | .group true children =>
    let (done, p) := condenseAll pretty (p.enter pretty) children
    (done, p.exit pretty)
  | .hole h =>
    let p := p.gap
    (p.collected ++ [.hole h], p.cleared.settle h.qualifies)
  | .cell index =>
    let p := p.gap
    (p.collected ++ [.cell index], p.cleared.settle false)
  | .choice key main alternative =>
    let (main, mainEnd) := condenseAll pretty p.cleared main
    let (alternative, alternativeEnd) := condenseAll pretty p.cleared alternative
    (p.collected ++
        [.choice key (main ++ mainEnd.collected) (alternative ++ alternativeEnd.collected)],
      p.cleared.settle false)
  | .each key body empty between =>
    let p := p.gap
    let (body, bodyEnd) := condenseAll pretty p.cleared.fresh body
    let (empty, emptyEnd) := condenseAll pretty p.cleared.fresh empty
    (p.collected ++
        [.each key (body ++ bodyEnd.collected) (empty ++ emptyEnd.collected) between],
      p.cleared.settle false)

def condenseAll (pretty : Bool) (p : Page) : List Fragment → List Fragment × Page
  | [] => ([], p)
  | f :: fs =>
    let (done, p) := condense pretty p f
    let (rest, p) := condenseAll pretty p fs
    (done ++ rest, p)

end

theorem condenseAll_append (pretty : Bool) (p : Page) (fs gs : List Fragment) :
    condenseAll pretty p (fs ++ gs) =
      ((condenseAll pretty p fs).1 ++ (condenseAll pretty (condenseAll pretty p fs).2 gs).1,
        (condenseAll pretty (condenseAll pretty p fs).2 gs).2) := by
  induction fs generalizing p with
  | nil => simp [condenseAll]
  | cons f fs ih => simp [condenseAll, ih]

/-- The condensed form of fragments that stand alone. -/
def condensed (pretty : Bool) (fs : List Fragment) : List Fragment :=
  let (done, p) := condenseAll pretty {} fs
  done ++ p.collected

end Fragment

/-- Resolves the spacing of a template. A template that is condensed already
stays as it is. -/
def Template.condense (t : Template) : Template :=
  if t.condensed then t
  else { t with fragments := Fragment.condensed t.format.pretty t.fragments, condensed := true }

end PreparedSql
