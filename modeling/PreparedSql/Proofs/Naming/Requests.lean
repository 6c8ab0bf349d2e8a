import Mathlib.Data.Fintype.EquivFin
import PreparedSql.Proofs.Draft.ParamNames
import PreparedSql.Proofs.Naming.Fresh

/-!
# Names over a run of requests

Names are asked for and reserved in any order, and scopes open and close between, not
necessarily the last one first. However the requests come, an alias that is given to a table
differs from all names given or reserved before. It stays the table's alias until a scope closes
that was opened when the alias was not visible yet. Parameters have nothing to do with scopes:
each keeps its name throughout.

While the stem stays the same, parameters are told apart by their names. A change of the stem
keeps the names that were given, and one of them may be a name that the new stem gives as well.
`Names.Lettered` says when this cannot happen.

`Names.after` says what one request does to the names. What holds of a run is put together from
what one request keeps.
-/

namespace PreparedSql.Names

/-- What may be asked of the names of a statement. Any mark may be closed at any time, so scopes
need not close in order. -/
inductive Request where
  | aliasOf (t : TableLabel)
  | param (p : Param)
  | reserve (name : String)
  | setAliasing (aliasing : Bool)
  | openScope
  | closeScope (m : Mark)

/-- The names after a request. -/
def after (ns : Names) : Request → Names
  | .aliasOf t => (ns.aliasOf t).2
  | .param p => (ns.param p).2
  | .reserve name => (ns.reserve name).2
  | .setAliasing aliasing => ns.setAliasing aliasing
  | .openScope => ns.openScope
  | .closeScope m => ns.closeScope m

/-- The names after requests in order. -/
def run (ns : Names) (requests : List Request) : Names := requests.foldl after ns

/-- What is to be remembered of a request. -/
inductive Event where
  /-- A table that had no visible alias was given one. -/
  | given (t : TableId) (name : String)
  /-- A parameter was called by a name. -/
  | called (p : Param) (name : String)
  | reserved (name : String)
deriving DecidableEq, Repr

def events (ns : Names) : Request → List Event
  | .aliasOf t => if (ns.lookup t.id).isNone then [.given t.id (ns.aliasOf t).1] else []
  | .param p => [.called p (ns.param p).1]
  | .reserve name => [.reserved name]
  | .setAliasing _ | .openScope | .closeScope _ => []

/-- What happens in a run, in order. -/
def history (ns : Names) : List Request → List Event
  | [] => []
  | request :: requests => ns.events request ++ (ns.after request).history requests

/-- An event and a later one are in accord. An alias differs, in any case, from the aliases and
reserved names before it, and a parameter keeps its name. -/
def Event.Apart : Event → Event → Prop
  | .given _ name, .given _ later | .reserved name, .given _ later =>
    Text.lower name ≠ Text.lower later
  | .called p name, .called q later => p = q → name = later
  | _, _ => True

/-- Whether a request closes a scope that was opened with no more than `place` aliases visible. The
aliases from that place on were given since. -/
def Request.hides (place : Nat) : Request → Bool
  | .closeScope m => m.visible ≤ place
  | _ => false

/-- The alias of a table is found, and found again when it is asked for, which changes nothing. -/
def Shows (ns : Names) (t : TableLabel) (name : String) : Prop :=
  ns.lookup t.id = some name ∧ ns.aliasOf t = (name, ns)

/-- A table shows the alias `name`, which stands at the given place, until a request hides it. Then
the table has no alias. -/
def ShowsUntilHidden (t : TableLabel) (name : String) (place : Nat) : Names → List Request → Prop
  | ns, [] => ns.Shows t name
  | ns, request :: requests =>
    ns.Shows t name ∧
      if request.hides place then (ns.after request).lookup t.id = none
      else ShowsUntilHidden t name place (ns.after request) requests

/-- Parameters are told apart by their names, and no name is still to come. -/
structure Lettered (ns : Names) : Prop where
  apart : ∀ {p q name}, ns.Calls p name → ns.Calls q name → p = q
  ahead : ∀ {p name}, ns.Calls p name → ∀ place, ns.params.length ≤ place →
    name ≠ ns.stem ++ toString place

/-! ## What a request keeps -/

variable {ns ns' : Names} {t : TableLabel} {name : String} {p q : Param}

theorem take_keeps (ns : Names) (name : String) :
    (ns.take name).aliases = ns.aliases ∧ ns.taken ⊆ (ns.take name).taken := by
  unfold take
  split
  · exact ⟨rfl, List.Subset.refl _⟩
  · exact ⟨rfl, List.subset_append_left _ _⟩

theorem lower_mem_take (ns : Names) (name : String) : Text.lower name ∈ (ns.take name).taken := by
  unfold take
  split
  · next htaken => simpa [isTaken] using htaken
  · simp

/-- A name that was given or reserved stays taken. -/
theorem taken_after (ns : Names) (request : Request) : ns.taken ⊆ (ns.after request).taken := by
  cases request with
  | aliasOf t =>
    rcases ns.aliasOf_cases t with ⟨name, -, heq⟩ | ⟨-, -, -, htaken⟩
    · rw [after, heq]
      exact List.Subset.refl _
    · rw [after, htaken]
      exact List.subset_append_left _ _
  | param p => simp [after]
  | reserve name => exact (ns.take_keeps name).2
  | setAliasing aliasing | openScope | closeScope m => exact List.Subset.refl _

/-- Parameters keep their names. -/
theorem extends_after (ns : Names) (request : Request) : ns.Extends (ns.after request) := by
  cases request with
  | aliasOf t => exact .aliasOf ns t
  | param p => exact .param ns p
  | reserve name => exact .take ns name
  | setAliasing aliasing | openScope => exact .of_eq rfl rfl
  | closeScope m => exact .closeScope ns m

/-- All requests but the closing of a scope keep the visible aliases, and may add one. -/
theorem aliases_after {request : Request} (h : ∀ m, request ≠ .closeScope m) :
    ns.aliases <+: (ns.after request).aliases := by
  cases request with
  | aliasOf t =>
    rcases ns.aliasOf_cases t with ⟨name, -, heq⟩ | ⟨-, -, haliases, -⟩
    · have hsame : (ns.after (.aliasOf t)).aliases = ns.aliases := by rw [after, heq]
      exact hsame ▸ List.prefix_rfl
    · rw [after, haliases]
      exact List.prefix_append _ _
  | reserve name =>
    have hsame : (ns.after (.reserve name)).aliases = ns.aliases := (ns.take_keeps name).1
    exact hsame ▸ List.prefix_rfl
  | closeScope m => exact absurd rfl (h m)
  | param p => simp [after]
  | setAliasing aliasing | openScope => exact List.prefix_rfl

/-! ## What a request leaves to remember -/

/-- An alias is given when it is asked for and none is visible. It was free, and then is not. -/
theorem given_mem_events {request : Request} {t : TableId}
    (h : .given t name ∈ ns.events request) :
    Text.lower name ∉ ns.taken ∧ Text.lower name ∈ (ns.after request).taken := by
  cases request with
  | aliasOf label =>
    simp only [events] at h
    split at h
    · next hnone =>
      cases List.mem_singleton.1 h
      rcases ns.aliasOf_cases label with ⟨name, hlookup, -⟩ | ⟨-, hfree, -, htaken⟩
      · simp [hlookup] at hnone
      · refine ⟨by simpa [isTaken] using hfree, ?_⟩
        rw [after, htaken]
        simp
    · cases h
  | param p | reserve name => cases List.mem_singleton.1 h
  | setAliasing aliasing | openScope | closeScope m => cases h

theorem reserved_mem_events {request : Request} (h : .reserved name ∈ ns.events request) :
    Text.lower name ∈ (ns.after request).taken := by
  cases request with
  | aliasOf label =>
    simp only [events] at h
    split at h
    · cases List.mem_singleton.1 h
    · cases h
  | reserve name =>
    cases List.mem_singleton.1 h
    exact ns.lower_mem_take _
  | param p => cases List.mem_singleton.1 h
  | setAliasing aliasing | openScope | closeScope m => cases h

theorem called_mem_events {request : Request} (h : .called p name ∈ ns.events request) :
    (ns.after request).Calls p name := by
  cases request with
  | aliasOf label =>
    simp only [events] at h
    split at h
    · cases List.mem_singleton.1 h
    · cases h
  | param p =>
    cases List.mem_singleton.1 h
    exact ns.calls_param _
  | reserve name => cases List.mem_singleton.1 h
  | setAliasing aliasing | openScope | closeScope m => cases h

/-- There is at most one thing to remember. -/
theorem events_pairwise (ns : Names) (request : Request) :
    (ns.events request).Pairwise Event.Apart := by
  cases request with
  | aliasOf label =>
    simp only [events]
    split
    · exact List.pairwise_singleton _ _
    · exact .nil
  | param p | reserve name => exact List.pairwise_singleton _ _
  | setAliasing aliasing | openScope | closeScope m => exact .nil

/-! ## Aliases and parameters in a run -/

/-- What is given to a table in a run was not taken at its start. -/
theorem notMem_taken_of_given {requests : List Request} {t : TableId}
    (h : .given t name ∈ ns.history requests) : Text.lower name ∉ ns.taken := by
  induction requests generalizing ns with
  | nil => cases h
  | cons request requests ih =>
    rcases List.mem_append.1 h with h | h
    · exact (given_mem_events h).1
    · exact fun hin => ih h (ns.taken_after request hin)

theorem extends_run (ns : Names) (requests : List Request) : ns.Extends (ns.run requests) := by
  induction requests generalizing ns with
  | nil => exact .refl ns
  | cons request requests ih => exact (ns.extends_after request).trans (ih _)

/-- A parameter that is called in a run goes by that name at its end. -/
theorem calls_run_of_called {requests : List Request}
    (h : .called p name ∈ ns.history requests) : (ns.run requests).Calls p name := by
  induction requests generalizing ns with
  | nil => cases h
  | cons request requests ih =>
    rcases List.mem_append.1 h with h | h
    · exact (called_mem_events h).mono (extends_run _ requests)
    · exact ih h

/-- No event of a run goes against an earlier one. -/
theorem history_pairwise (ns : Names) (requests : List Request) :
    (ns.history requests).Pairwise Event.Apart := by
  induction requests generalizing ns with
  | nil => exact .nil
  | cons request requests ih =>
    refine List.pairwise_append.2 ⟨ns.events_pairwise request, ih _, fun event h later h' => ?_⟩
    cases event with
    | given t name =>
      cases later with
      | given u later =>
        have hfree := notMem_taken_of_given h'
        exact fun heq => hfree (heq ▸ (given_mem_events h).2)
      | called _ _ | reserved _ => trivial
    | reserved name =>
      cases later with
      | given u later =>
        have hfree := notMem_taken_of_given h'
        exact fun heq => hfree (heq ▸ reserved_mem_events h)
      | called _ _ | reserved _ => trivial
    | called p name =>
      cases later with
      | called q later =>
        rintro rfl
        have hfirst := (called_mem_events h).mono (extends_run _ requests)
        exact Option.some.inj (hfirst.symm.trans (calls_run_of_called h'))
      | given _ _ | reserved _ => trivial

/-! ## Visible aliases in a run -/

/-- The aliases before an alias, none of them the table's, and the alias itself are still there. -/
theorem shows_of_begins {before : List (TableId × String)} (hbefore : before.lookup t.id = none)
    (h : before ++ [(t.id, name)] <+: ns.aliases) : ns.Shows t name := by
  obtain ⟨rest, hrest⟩ := h
  have hlookup : ns.lookup t.id = some name := by
    rw [lookup, ← hrest, List.lookup_append, List.lookup_append, hbefore]
    simp
  exact ⟨hlookup, by rw [Names.aliasOf, hlookup]⟩

/-- A request that does not hide an alias keeps it where it is. -/
theorem prefix_after {before : List (TableId × String)} {x : TableId × String} {request : Request}
    (hhides : request.hides before.length = false) (h : before ++ [x] <+: ns.aliases) :
    before ++ [x] <+: (ns.after request).aliases := by
  cases request with
  | closeScope m =>
    have hplace : before.length < m.visible := by simpa [Request.hides] using hhides
    refine List.prefix_take_iff.2 ⟨h, ?_⟩
    rw [List.length_append]
    exact hplace
  | aliasOf _ | param _ | reserve _ | setAliasing _ | openScope =>
    exact h.trans (aliases_after fun m => nofun)

/-- One that hides it leaves some of the aliases before it only. -/
theorem lookup_after_hides {before : List (TableId × String)} {x : TableId × String} {u : TableId}
    {request : Request} (hhides : request.hides before.length = true)
    (hbefore : before.lookup u = none) (h : before ++ [x] <+: ns.aliases) :
    (ns.after request).lookup u = none := by
  cases request with
  | closeScope m =>
    have hplace : m.visible ≤ before.length := by simpa [Request.hides] using hhides
    obtain ⟨rest, hrest⟩ := h
    have htake : (ns.closeScope m).aliases = before.take m.visible := by
      show ns.aliases.take m.visible = _
      rw [← hrest, List.append_assoc, List.take_append_of_le_length hplace]
    rw [after, lookup, htake, List.lookup_eq_none_iff]
    exact fun y hy => List.lookup_eq_none_iff.1 hbefore y (List.mem_of_mem_take hy)
  | aliasOf _ | param _ | reserve _ | setAliasing _ | openScope => cases hhides

theorem showsUntilHidden_of_begins {before : List (TableId × String)}
    (hbefore : before.lookup t.id = none) {requests : List Request}
    (h : before ++ [(t.id, name)] <+: ns.aliases) :
    ShowsUntilHidden t name before.length ns requests := by
  induction requests generalizing ns with
  | nil => exact shows_of_begins hbefore h
  | cons request requests ih =>
    refine ⟨shows_of_begins hbefore h, ?_⟩
    split
    · next hhides => exact lookup_after_hides hhides hbefore h
    · next hhides => exact ih (prefix_after (by simpa using hhides) h)

/-! ## Parameters that are told apart -/

/-- The names that a stem gives to different places are different. -/
theorem numeral_of_stem_eq {stem : String} {i j : Nat}
    (h : stem ++ toString i = stem ++ toString j) : i = j := by
  rw [String.append_right_inj] at h
  exact Text.numeral_injective (congrArg String.toList h)

/-- A parameter goes by a name it had before, or it was met later, at the place that its name
says. -/
theorem Extends.calls_cases (h : ns.Extends ns') (hcalls : ns'.Calls p name) :
    ns.Calls p name ∨
      ns.params.length ≤ ns'.place p ∧ name = ns.stem ++ toString (ns'.place p) := by
  obtain ⟨rest, hrest⟩ := h.params
  cases hlookup : ns.params.lookup p with
  | some stored =>
    have hstored : ns'.Calls p stored := Calls.mono hlookup h
    exact .inl (hlookup.trans (hstored.symm.trans hcalls))
  | none =>
    have hplace : ns.params.length ≤ ns'.place p := by
      have hnew : p ∉ ns.params.map Prod.fst := by
        intro hmet
        obtain ⟨⟨_, stored⟩, hentry, rfl⟩ := List.mem_map.1 hmet
        exact absurd (List.lookup_eq_none_iff.1 hlookup _ hentry) (by simp)
      rw [place, ← hrest, List.map_append, List.idxOf_append, if_neg hnew, List.length_map]
      omega
    exact .inr ⟨hplace, h.added _ hplace _ hcalls.getElem?⟩

/-- Parameters that are met later do not get the names of others. -/
theorem Extends.lettered (h : ns.Extends ns') (hns : ns.Lettered) : ns'.Lettered := by
  constructor
  case apart =>
    intro p q name hp hq
    obtain hp' | ⟨hplace, hname⟩ := h.calls_cases hp
    · obtain hq' | ⟨hplace, hname⟩ := h.calls_cases hq
      · exact hns.apart hp' hq'
      · exact absurd hname (hns.ahead hp' _ hplace)
    · obtain hq' | ⟨-, hname'⟩ := h.calls_cases hq
      · exact absurd hname (hns.ahead hq' _ hplace)
      · exact (List.idxOf_inj hp.met).1 (numeral_of_stem_eq (hname.symm.trans hname'))
  case ahead =>
    intro p name hp place hplace heq
    rw [h.stem] at heq
    obtain hp' | ⟨-, hname⟩ := h.calls_cases hp
    · exact hns.ahead hp' place (Nat.le_trans h.params.length_le hplace) heq
    · have hsame := numeral_of_stem_eq (hname.symm.trans heq)
      have hlt := (List.getElem?_eq_some_iff.1 hp.getElem?).1
      omega

/-- Parameters that were all named with the present stem are told apart. -/
theorem Numbered.lettered (h : ns.Numbered) : ns.Lettered := by
  let unmet : Names := { ns with params := [] }
  have hunmet : unmet.Lettered := ⟨nofun, nofun⟩
  have hextends : unmet.Extends ns := ⟨rfl, List.nil_prefix, fun place _ => h place⟩
  exact hextends.lettered hunmet

/-- With another stem, parameters that were named with the present one are told apart from those
to come unless the stem gives one of their names to a later place. -/
theorem lettered_setStem_iff (h : ns.Numbered) (stem : String) :
    (ns.setStem stem).Lettered ↔
      ∀ p name, ns.Calls p name → ∀ place, ns.params.length ≤ place →
        ns.stem ++ toString (ns.place p) ≠ stem ++ toString place := by
  constructor
  · intro hns p name hp place hplace
    rw [← hp.name_eq h]
    exact hns.ahead hp place hplace
  · intro hahead
    refine ⟨h.lettered.apart, fun {p name} hp place hplace => ?_⟩
    have hcalls : ns.Calls p name := hp
    rw [hcalls.name_eq h]
    exact hahead p name hcalls place hplace

theorem exists_unmet (ns : Names) : ∃ p, ns.params.lookup p = none := by
  have hparams : Function.Injective Param.mk := fun _ _ h => congrArg Param.id h
  have : Infinite Param := .of_injective Param.mk hparams
  obtain ⟨p, hp⟩ := Infinite.exists_notMem_finset (ns.params.map Prod.fst).toFinset
  refine ⟨p, List.lookup_eq_none_iff.2 fun x hx => ?_⟩
  simp only [List.mem_toFinset] at hp
  simpa using fun heq : p = x.1 => hp (heq ▸ List.mem_map_of_mem hx)

/-- Every place to come is filled in some run, by a parameter that was not met before. -/
theorem exists_called (ns : Names) (more : Nat) :
    ∃ requests p, ns.params.lookup p = none ∧
      .called p (ns.stem ++ toString (ns.params.length + more)) ∈ ns.history requests := by
  obtain ⟨p, hp⟩ := ns.exists_unmet
  induction more generalizing ns p with
  | zero => exact ⟨[.param p], p, hp, by simp [history, events, param_of_unmet hp]⟩
  | succ more ih =>
    -- One more parameter is met first, and the place is nearer by one.
    obtain ⟨q, hq⟩ := (ns.param p).2.exists_unmet
    obtain ⟨requests, r, hr, hcalled⟩ := ih (ns.param p).2 q hq
    simp only [param_of_unmet hp, List.length_append, List.length_singleton, List.lookup_append,
      Option.or_eq_none_iff] at hr hcalled
    refine ⟨.param p :: requests, r, hr.1, List.mem_append_right _ ?_⟩
    rw [after, param_of_unmet hp, Nat.add_comm more, ← Nat.add_assoc]
    exact hcalled

/-- Asking for the name of a parameter that has one changes nothing. -/
theorem history_param_of_calls (h : ns.Calls p name) (requests : List Request) :
    ns.history (.param p :: requests) = .called p name :: ns.history requests := by
  simp [history, events, after, param_of_calls h]

/-- Parameters are told apart in all runs exactly if the names that were given at the start differ
from each other and from those to come. -/
theorem forall_run_iff_lettered (ns : Names) :
    (∀ requests p q name, .called p name ∈ ns.history requests →
      .called q name ∈ ns.history requests → p = q) ↔ ns.Lettered := by
  constructor
  · intro hall
    constructor
    case apart =>
      intro p q name hp hq
      have hrun := hall [.param p, .param q] p q name
      rw [history_param_of_calls hp, history_param_of_calls hq] at hrun
      exact hrun (by simp) (by simp)
    case ahead =>
      intro p name hp place hplace heq
      obtain ⟨more, rfl⟩ := Nat.exists_eq_add_of_le hplace
      obtain ⟨requests, q, hq, hcalled⟩ := ns.exists_called more
      rw [← heq] at hcalled
      have hrun := hall (.param p :: requests) p q name
      rw [history_param_of_calls hp] at hrun
      have hsame : p = q := hrun List.mem_cons_self (List.mem_cons_of_mem _ hcalled)
      rw [← hsame, hp] at hq
      cases hq
  · intro hns requests p q name hp hq
    have hend : (ns.run requests).Lettered := (ns.extends_run requests).lettered hns
    exact hend.apart (calls_run_of_called hp) (calls_run_of_called hq)

/-- No alias is handed out twice and no parameter changes its name, whatever names a run starts
with. The events of a run are in accord with each other, and what is given to a table was not
taken before. Once given, an alias is shown until a scope closes that was opened when it was not
visible. The names of parameters are kept and those that are called go by their names at the end;
they are told apart in all runs exactly if the names at the start differ from each other and from
those to come. This is so if all were named with the present stem. After a change of the stem it
is so unless the new stem gives one of the old names to a later place. -/
theorem never_handed_out_twice (ns : Names) :
    (∀ requests,
      (ns.history requests).Pairwise Event.Apart ∧
        (∀ t name, .given t name ∈ ns.history requests → Text.lower name ∉ ns.taken) ∧
        (∀ before t rest, requests = before ++ .aliasOf t :: rest →
          (ns.run before).lookup t.id = none →
          ShowsUntilHidden t ((ns.run before).aliasOf t).1 (ns.run before).aliases.length
            ((ns.run before).aliasOf t).2 rest) ∧
        ns.params <+: (ns.run requests).params ∧
        ∀ p name, .called p name ∈ ns.history requests → (ns.run requests).Calls p name) ∧
      ((∀ requests p q name, .called p name ∈ ns.history requests →
        .called q name ∈ ns.history requests → p = q) ↔ ns.Lettered) ∧
      (ns.Numbered → ns.Lettered ∧ ∀ stem, (ns.setStem stem).Lettered ↔
        ∀ p name, ns.Calls p name → ∀ place, ns.params.length ≤ place →
          ns.stem ++ toString (ns.place p) ≠ stem ++ toString place) := by
  refine ⟨fun requests => ⟨ns.history_pairwise requests, fun t name => notMem_taken_of_given, ?_,
    (ns.extends_run requests).params, fun p name => calls_run_of_called⟩,
    ns.forall_run_iff_lettered, fun h => ⟨h.lettered, lettered_setStem_iff h⟩⟩
  rintro before t rest rfl hlookup
  rcases (ns.run before).aliasOf_cases t with ⟨name, hname, -⟩ | ⟨-, -, haliases, -⟩
  · rw [hname] at hlookup
    cases hlookup
  · exact showsUntilHidden_of_begins hlookup (haliases ▸ List.prefix_rfl)

/-- Two ways in which a name is handed out twice. A parameter that was named with the stem `p1`
keeps the name `p10`, which the stem `p` gives to the parameter at place 10. And the name that is
given to a table may be that of a parameter: the two are never compared. -/
theorem name_repeats :
    (let ns : Names := ((start "p1" true).param ⟨0⟩).2.setStem "p"
      let requests : List Request := (List.range 11).map fun id => .param ⟨id⟩
      .called ⟨0⟩ "p10" ∈ ns.history requests ∧ .called ⟨10⟩ "p10" ∈ ns.history requests) ∧
      (start "p" true).history [.aliasOf ⟨⟨0⟩, some "t", some "p0"⟩, .param ⟨0⟩] =
        [.given ⟨0⟩ "p0", .called ⟨0⟩ "p0"] := by
  decide +kernel

end PreparedSql.Names
