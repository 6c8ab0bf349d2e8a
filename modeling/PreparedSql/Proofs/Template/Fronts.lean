import PreparedSql.Proofs.Layout.Below
import PreparedSql.Proofs.Template.Condensing

/-!
# Fragments over other text

Spacing may look back over what was written before. It cannot do so from fragments that show
something before they close a parenthesis or enter an indented group: `Fragment.frontAll` finds out
whether they do. Such fragments do the same over any text as on a page of their own.
-/

namespace PreparedSql

/-! ## Steps over other text -/

namespace Step

variable {pretty : Bool} {spell : Marker → String} {p : Page} {below : List Char}
  {steps more : List Step}

theorem act_atop_of_grounded (h : p.Grounded) (step : Step) :
    step.act pretty spell (p.atop below) = (step.act pretty spell p).atop below := by
  cases step with
  | token s => exact Page.token_atop (.inl h)
  | delimiter s kind => exact Page.delimiter_atop (.inl h) pretty kind
  | enter => exact Page.enter_atop pretty
  | exit => exact Page.exit_atop h pretty
  | gap => exact Page.gap_atop
  | write s => exact Page.write_atop
  | marker m => exact Page.write_atop
  | settle glued => exact Page.settle_atop glued
  | fresh => exact Page.fresh_atop
  | missing what => rfl

theorem grounded_act (h : p.Grounded) (step : Step) : (step.act pretty spell p).Grounded := by
  cases step with
  | token s => exact h.token s
  | delimiter s kind => exact h.delimiter pretty s kind
  | enter => exact h.enter pretty
  | exit => exact h.exit pretty
  | gap => exact h.gap
  | write s => exact h.write s
  | marker m => exact h.write (spell m)
  | settle glued => exact h
  | fresh => exact h
  | missing what => exact h

theorem grounded_actAll (h : p.Grounded) (steps : List Step) :
    (actAll pretty spell p steps).Grounded := by
  induction steps generalizing p with
  | nil => exact h
  | cons step steps ih => exact ih (grounded_act h step)

theorem actAll_atop_of_grounded (h : p.Grounded) (steps : List Step) :
    actAll pretty spell (p.atop below) steps = (actAll pretty spell p steps).atop below := by
  induction steps generalizing p with
  | nil => rfl
  | cons step steps ih =>
    rw [actAll_cons, actAll_cons, act_atop_of_grounded h]
    exact ih (grounded_act h step)

/-- The steps do the same over any text. -/
def Local (pretty : Bool) (spell : Marker → String) (steps : List Step) : Prop :=
  ∀ p below, actAll pretty spell (p.atop below) steps = (actAll pretty spell p steps).atop below

/-- The steps leave something other than spaces on the page. -/
def Grounding (pretty : Bool) (spell : Marker → String) (steps : List Step) : Prop :=
  ∀ p, (actAll pretty spell p steps).Grounded

namespace Local

theorem nil : Local pretty spell [] := fun _ _ => rfl

theorem append (h : Local pretty spell steps) (h' : Local pretty spell more) :
    Local pretty spell (steps ++ more) := by
  intro p below
  rw [actAll_append, actAll_append, h, h']

/-- Once there is something on the page, anything may follow. -/
theorem append_of_grounding (h : Local pretty spell steps) (hg : Grounding pretty spell steps)
    (more : List Step) : Local pretty spell (steps ++ more) := by
  intro p below
  rw [actAll_append, actAll_append, h, actAll_atop_of_grounded (hg p)]

theorem gap : Local pretty spell [.gap] := fun _ _ => Page.gap_atop

theorem write (s : String) : Local pretty spell [.write s] := fun _ _ => Page.write_atop

theorem settle (glued : Bool) : Local pretty spell [.settle glued] :=
  fun _ _ => Page.settle_atop glued

theorem fresh : Local pretty spell [.fresh] := fun _ _ => Page.fresh_atop

theorem supply {step : Step} (h : step.supplies = true) (glued : Bool) :
    Local pretty spell [.gap, step, .settle glued] := by
  have hstep : Local pretty spell [step] := by
    cases step with
    | write s => exact write s
    | marker m => exact write (spell m)
    | missing what => exact fun _ _ => rfl
    | _ => simp [supplies] at h
  exact gap.append (hstep.append (settle glued))

end Local

theorem Grounding.append (h : Grounding pretty spell steps) (more : List Step) :
    Grounding pretty spell (steps ++ more) := by
  intro p
  rw [actAll_append]
  exact grounded_actAll (h p) more

end Step

/-! ## What fragments begin with -/

/-- What is sure to come first when fragments are written. -/
inductive Front where
  /-- Nothing, spaces, or texts that only an execution knows. -/
  | blank
  /-- A token that shows something. -/
  | shown
  /-- Possibly a closing parenthesis or an indented group, which look back. -/
  | reaching
deriving DecidableEq, Repr

namespace Front

/-- The front of two lists in a row. -/
def orElse : Front → Front → Front
  | .blank, next => next
  | front, _ => front

/-- The front of one of two lists. -/
def either : Front → Front → Front
  | .reaching, _ | _, .reaching => .reaching
  | .shown, .shown => .shown
  | _, _ => .blank

def ofToken (s : String) : Front :=
  if s.toList.head? = some ')' then .reaching
  else if s.toList.all (· == ' ') then .blank
  else .shown

theorem ofToken_eq_shown {s : String} (hink : ∃ c ∈ s.toList, c ≠ ' ')
    (hhead : s.toList.head? ≠ some ')') : ofToken s = .shown := by
  obtain ⟨c, hc, hne⟩ := hink
  have hspaces : s.toList.all (· == ' ') ≠ true := by
    intro hall
    exact hne (by simpa using List.all_eq_true.1 hall c hc)
  rw [ofToken, if_neg hhead, if_neg hspaces]

theorem blank_ne_reaching : blank ≠ reaching := by decide

theorem orElse_ne_reaching {front next : Front} (h : front ≠ .reaching) (h' : next ≠ .reaching) :
    front.orElse next ≠ .reaching := by
  cases front with
  | blank => exact h'
  | shown => exact h
  | reaching => exact absurd rfl h

theorem either_ne_reaching {front next : Front} (h : front ≠ .reaching) (h' : next ≠ .reaching) :
    front.either next ≠ .reaching := by
  cases front <;> cases next <;> simp_all [either]

end Front

namespace Fragment

mutual

def front : Fragment → Front
  | .text s | .delimiter s _ => .ofToken s
  | .group false children => frontAll children
  | .group true _ => .reaching
  | .hole _ | .cell _ => .blank
  | .choice _ main alternative => (frontAll main).either (frontAll alternative)
  | .each _ body empty _ => (frontAll body).either (frontAll empty)

def frontAll : List Fragment → Front
  | [] => .blank
  | f :: fs => (front f).orElse (frontAll fs)

end

theorem frontAll_append (fs gs : List Fragment) :
    frontAll (fs ++ gs) = (frontAll fs).orElse (frontAll gs) := by
  induction fs with
  | nil => rfl
  | cons f fs ih =>
    rw [List.cons_append, frontAll, frontAll, ih]
    cases front f <;> rfl

/-- No repetition in the fragments looks back, whether it has rows or not, and every row shows one
of its cells. -/
def RowsApart (fs : List Fragment) : Prop :=
  ∀ key body empty between, .each key body empty between ∈ partsAll fs →
    frontAll body ≠ .reaching ∧ frontAll empty ≠ .reaching ∧ ∃ index, .cell index ∈ body

namespace RowsApart

variable {fs gs : List Fragment}

theorem nil : RowsApart [] := by simp [RowsApart, partsAll]

theorem mono (h : RowsApart fs) (hsub : partsAll gs ⊆ partsAll fs) : RowsApart gs :=
  fun key body empty between hin => h key body empty between (hsub hin)

theorem append (h : RowsApart fs) (h' : RowsApart gs) : RowsApart (fs ++ gs) := by
  intro key body empty between hin
  rw [partsAll_append, List.mem_append] at hin
  exact hin.elim (h key body empty between) (h' key body empty between)

/-- A fragment without branches, given what is inside it as one list. -/
theorem single {f : Fragment} (hparts : f.parts = f :: partsAll gs) (hbranches : f.branches = [])
    (h : RowsApart gs) : RowsApart [f] := by
  intro key body empty between hin
  rw [partsAll, partsAll, List.append_nil, hparts] at hin
  rcases List.mem_cons.1 hin with rfl | hin
  · cases hbranches
  · exact h key body empty between hin

theorem choice {key : Key} {main alternative : List Fragment} (hmain : RowsApart main)
    (halternative : RowsApart alternative) : RowsApart [.choice key main alternative] := by
  intro key' body empty between hin
  rw [partsAll, partsAll, List.append_nil, parts] at hin
  rcases List.mem_cons.1 hin with hin | hin
  · cases hin
  · rw [← partsAll_append] at hin
    exact (hmain.append halternative) key' body empty between hin

theorem each {key : Key} {body empty : List Fragment} {between : String} (hbody : RowsApart body)
    (hempty : RowsApart empty) (hfront : frontAll body ≠ .reaching)
    (hfront' : frontAll empty ≠ .reaching) (hcell : ∃ index, .cell index ∈ body) :
    RowsApart [.each key body empty between] := by
  intro key' body' empty' between' hin
  rw [partsAll, partsAll, List.append_nil, parts] at hin
  rcases List.mem_cons.1 hin with hin | hin
  · cases hin
    exact ⟨hfront, hfront', hcell⟩
  · rw [← partsAll_append] at hin
    exact (hbody.append hempty) key' body' empty' between' hin

end RowsApart

end Fragment

namespace Front

open Step (Local Grounding)

variable {pretty : Bool} {spell : Marker → String} {front next : Front} {steps more : List Step}

/-- Steps that are written for fragments with this front. -/
def Describes (pretty : Bool) (spell : Marker → String) (front : Front) (steps : List Step) :
    Prop :=
  front ≠ .reaching →
    Local pretty spell steps ∧ (front = .shown → Grounding pretty spell steps)

namespace Describes

theorem blank (h : Local pretty spell steps) : Describes pretty spell .blank steps :=
  fun _ => ⟨h, nofun⟩

theorem append (h : Describes pretty spell front steps) (h' : Describes pretty spell next more) :
    Describes pretty spell (front.orElse next) (steps ++ more) := by
  intro hne
  cases front with
  | reaching => exact absurd rfl hne
  | shown =>
    obtain ⟨hlocal, hground⟩ := h nofun
    exact ⟨hlocal.append_of_grounding (hground rfl) more, fun _ => (hground rfl).append more⟩
  | blank =>
    obtain ⟨hlocal, -⟩ := h nofun
    obtain ⟨hlocal', hground⟩ := h' hne
    refine ⟨hlocal.append hlocal', fun hshown p => ?_⟩
    rw [Step.actAll_append]
    exact hground hshown _

/-- Steps of layout in front or behind change nothing. -/
theorem between {before after : List Step} (h : Describes pretty spell front steps)
    (hbefore : Local pretty spell before) (hafter : Local pretty spell after) :
    Describes pretty spell front (before ++ steps ++ after) := by
  have hall := ((blank hbefore).append h).append (blank hafter)
  cases front <;> exact hall

theorem either_left (h : Describes pretty spell front steps) (next : Front) :
    Describes pretty spell (front.either next) steps := by
  intro hne
  cases front <;> cases next <;> simp_all [either, Describes]

theorem either_right (h : Describes pretty spell next steps) (front : Front) :
    Describes pretty spell (front.either next) steps := by
  intro hne
  cases front <;> cases next <;> simp_all [either, Describes]

end Describes

/-- A token looks back if it closes a parenthesis, and shows something unless it is all spaces. -/
theorem describes_ofToken {s : String} {step : Step}
    (hlocal : s.toList.head? ≠ some ')' → Local pretty spell [step])
    (hground : (∃ c ∈ s.toList, c ≠ ' ') → Grounding pretty spell [step]) :
    (ofToken s).Describes pretty spell [step] := by
  unfold ofToken
  split
  · exact fun hne => absurd rfl hne
  · next hhead =>
    split
    · exact .blank (hlocal hhead)
    · next hspaces => exact fun _ => ⟨hlocal hhead, fun _ => hground (by simpa using hspaces)⟩

end Front

/-! ## Fragments over other text -/

namespace Fragment

variable {pretty : Bool} {spell : Marker → String} {a : Arguments} {q : QuoteMark}

/-- Rows show what the first of them shows. -/
theorem describes_repeated {row : Option RowAt} {key : Key} {body empty : List Fragment}
    (hbody : ∀ row, (frontAll body).Describes pretty spell (walkAll a q row body))
    (hempty : (frontAll empty).Describes pretty spell (walkAll a q row empty)) (between : String) :
    ((frontAll body).either (frontAll empty)).Describes pretty spell
      (repeated a q row key body empty between) := by
  have hrow (row : Option RowAt) : ((frontAll body).either (frontAll empty)).Describes pretty spell
      (.fresh :: walkAll a q row body) := by
    simpa using ((hbody row).between .fresh .nil).either_left (frontAll empty)
  have hnone : ((frontAll body).either (frontAll empty)).Describes pretty spell
      (.fresh :: walkAll a q row empty) := by
    simpa using (hempty.between .fresh .nil).either_right (frontAll body)
  intro hne
  constructor
  · exact repeated_pred Step.Local.append (.write between) (fun _ _ _ => (hrow _ hne).1)
      (hnone hne).1
  · intro hshown
    unfold repeated
    cases a.rows key with
    | nil => exact (hnone hne).2 hshown
    | cons cells rows =>
      have hfirst := (hrow (some ⟨key, 0, cells⟩) hne).2 hshown
      cases rows with
      | nil => simpa using hfirst
      | cons next rows =>
        simp only [List.mapIdx_cons]
        rw [List.intercalate_cons_cons, List.append_assoc]
        exact hfirst.append _

/-- Fragments whose front does not look back do the same over any text. -/
theorem describes_walkAll (row : Option RowAt) (fs : List Fragment) :
    (frontAll fs).Describes pretty spell (walkAll a q row fs) := by
  induction fs using listInduction generalizing row with
  | nil => exact .blank .nil
  | text s fs ih =>
    have htoken : (Front.ofToken s).Describes pretty spell [.token s] :=
      Front.describes_ofToken (fun hhead _ _ => Page.token_atop (.inr hhead))
        fun hink _ => Page.grounded_token hink
    exact htoken.append (ih row)
  | delimiter s kind fs ih =>
    have htoken : (Front.ofToken s).Describes pretty spell [.delimiter s kind] :=
      Front.describes_ofToken (fun hhead _ _ => Page.delimiter_atop (.inr hhead) pretty kind)
        fun hink _ => Page.grounded_delimiter hink pretty kind
    exact htoken.append (ih row)
  | group indented children fs inner ih =>
    cases indented with
    | false => exact (inner row).append (ih row)
    | true => exact fun hne => absurd rfl hne
  | hole h fs ih => exact (Front.Describes.blank (.supply (h.supplies_step a q) _)).append (ih row)
  | choice key main alternative fs first second ih =>
    refine Front.Describes.append ?_ (ih row)
    have hsettle : Step.Local pretty spell [.settle false] := .settle false
    simp only [walk]
    split
    · exact ((second row).between .nil hsettle).either_right _
    · exact ((first row).between .nil hsettle).either_left _
  | each key body empty between fs first second ih =>
    refine Front.Describes.append ?_ (ih row)
    exact (describes_repeated first (second row) between).between .gap (.settle false)
  | cell index fs ih =>
    exact (Front.Describes.blank (.supply (RowAt.supplies_step row index) _)).append (ih row)

/-- Steps that leave the indentation as it is. -/
def Unindented (pretty : Bool) (spell : Marker → String) (steps : List Step) : Prop :=
  ∀ p, (Step.actAll pretty spell p steps).indent = p.indent

theorem Unindented.append {steps more : List Step} (h : Unindented pretty spell steps)
    (h' : Unindented pretty spell more) : Unindented pretty spell (steps ++ more) := by
  intro p
  rw [Step.actAll_append, h', h]

theorem unindented_supply {step : Step} (h : step.supplies = true) (glued : Bool) :
    Unindented pretty spell [.gap, step, .settle glued] := by
  intro p
  cases step with
  | write s | marker m | missing what => exact Page.gap_indent p
  | _ => simp [Step.supplies] at h

theorem unindented_walkAll (row : Option RowAt) (fs : List Fragment) :
    Unindented pretty spell (walkAll a q row fs) := by
  induction fs using listInduction generalizing row with
  | nil => exact fun _ => rfl
  | text s fs ih =>
    have htoken : Unindented pretty spell [.token s] := fun p => Page.token_indent p s
    exact htoken.append (ih row)
  | delimiter s kind fs ih =>
    have htoken : Unindented pretty spell [.delimiter s kind] :=
      fun p => Page.delimiter_indent p pretty s kind
    exact htoken.append (ih row)
  | group indented children fs inner ih =>
    refine Unindented.append ?_ (ih row)
    cases indented with
    | false => exact inner row
    | true =>
      intro p
      simp only [walk, List.cons_append, Step.actAll_cons, Step.actAll_append, Step.act,
        Step.actAll_nil, Page.exit_indent, inner row _, Page.enter_indent]
      cases pretty <;> rfl
  | hole h fs ih => exact (unindented_supply (h.supplies_step a q) _).append (ih row)
  | choice key main alternative fs first second ih =>
    refine Unindented.append ?_ (ih row)
    have hsettle : Unindented pretty spell [.settle false] := fun _ => rfl
    simp only [walk]
    split
    · exact (second row).append hsettle
    · exact (first row).append hsettle
  | each key body empty between fs first second ih =>
    refine Unindented.append ?_ (ih row)
    have hgap : Unindented pretty spell [.gap] := Page.gap_indent
    have hfresh : Unindented pretty spell [.fresh] := fun _ => rfl
    have hsettle : Unindented pretty spell [.settle false] := fun _ => rfl
    have hrows : Unindented pretty spell (repeated a q row key body empty between) :=
      repeated_pred Unindented.append (fun _ => rfl) (fun _ _ _ => hfresh.append (first _))
        (hfresh.append (second row))
    exact (hgap.append hrows).append hsettle
  | cell index fs ih => exact (unindented_supply (RowAt.supplies_step row index) _).append (ih row)

end Fragment

end PreparedSql
