import PreparedSql.Proofs.Draft.Resolution
import PreparedSql.Proofs.Template.Tree

/-!
# Names of parameters

A parameter is called by the stem and its place among the parameters met so far.
The names are stored and further ones only ever appended, scopes or not, so a
name once given stays right: at the end of a statement every parameter in it is
called by its place among all.
-/

namespace PreparedSql

namespace Names

/-- The names `ns'` come from `ns` by meeting further parameters, each of which is called by the
stem and its place. -/
structure Extends (ns ns' : Names) : Prop where
  stem : ns'.stem = ns.stem
  params : ns.params <+: ns'.params
  added : ∀ place, ns.params.length ≤ place → ∀ x ∈ ns'.params[place]?,
    x.2 = ns.stem ++ toString place

/-- A parameter that was met, and the name it was given. -/
def Calls (ns : Names) (p : Param) (name : String) : Prop := ns.params.lookup p = some name

/-- The place of a parameter among those that were met. -/
def place (ns : Names) (p : Param) : Nat := (ns.params.map Prod.fst).idxOf p

/-- All parameters are called by the present stem and their places. -/
def Numbered (ns : Names) : Prop :=
  ∀ place : Nat, ∀ x ∈ ns.params[place]?, x.2 = ns.stem ++ toString place

variable {ns ns' ns'' : Names} {p q : Param} {name : String}

theorem param_of_calls (h : ns.Calls p name) : ns.param p = (name, ns) := by
  unfold Calls at h
  rw [param, h]

theorem param_of_unmet (h : ns.params.lookup p = none) :
    ns.param p = (ns.stem ++ toString ns.params.length,
      { ns with params := ns.params ++ [(p, ns.stem ++ toString ns.params.length)] }) := by
  rw [param, h]

namespace Extends

/-- Operations that have to do with tables, scopes and indentation only. -/
theorem of_eq (hstem : ns'.stem = ns.stem) (hparams : ns'.params = ns.params) :
    Extends ns ns' where
  stem := hstem
  params := hparams ▸ List.prefix_rfl
  added place hplace x hx := by
    rw [hparams, List.getElem?_eq_none hplace] at hx
    cases hx

theorem refl (ns : Names) : Extends ns ns := of_eq rfl rfl

theorem trans (h : Extends ns ns') (h' : Extends ns' ns'') : Extends ns ns'' where
  stem := h'.stem.trans h.stem
  params := h.params.trans h'.params
  added place hplace x hx := by
    -- The place was filled on the way to `ns'`, or after.
    by_cases hmiddle : place < ns'.params.length
    · obtain ⟨rest, hrest⟩ := h'.params
      rw [← hrest, List.getElem?_append_left hmiddle] at hx
      exact h.added place hplace x hx
    · rw [h'.added place (Nat.le_of_not_lt hmiddle) x hx, h.stem]

theorem take (ns : Names) (name : String) : Extends ns (ns.take name) := by
  unfold Names.take
  split
  · exact refl ns
  · exact of_eq rfl rfl

theorem aliasOf (ns : Names) (t : TableLabel) : Extends ns (ns.aliasOf t).2 := by
  unfold Names.aliasOf
  split
  · exact refl ns
  · have hchoose : Extends ns (ns.choose t).2 := by
      unfold Names.choose
      split
      · exact refl ns
      · exact of_eq rfl rfl
    exact hchoose.trans ((take _ _).trans (of_eq rfl rfl))

theorem indented (ns : Names) : Extends ns ns.indented := of_eq rfl rfl

theorem outdented (ns : Names) : Extends ns ns.outdented := of_eq rfl rfl

theorem closeScope (ns : Names) (m : Mark) : Extends ns (ns.closeScope m) := of_eq rfl rfl

theorem entered (ns : Names) (kind : ScopeKind) : Extends ns (ns.entered kind) := by
  cases kind with
  | operand => exact of_eq rfl rfl
  | nested => exact of_eq rfl rfl
  | target t =>
    have hopen : Extends ns (ns.openScope.setAliasing false) := of_eq rfl rfl
    exact hopen.trans (aliasOf _ t)

theorem param (ns : Names) (p : Param) : Extends ns (ns.param p).2 := by
  cases hlookup : ns.params.lookup p with
  | some name =>
    rw [param_of_calls hlookup]
    exact refl ns
  | none =>
    rw [param_of_unmet hlookup]
    refine ⟨rfl, List.prefix_append _ _, fun place hplace x hx => ?_⟩
    -- Only the place right after those before is new.
    rw [List.getElem?_append_right hplace, Option.mem_def, List.getElem?_eq_some_iff] at hx
    obtain ⟨hlt, hx⟩ := hx
    have hlength : place = ns.params.length := by
      rw [List.length_singleton] at hlt
      omega
    subst hlength
    rw [← hx]
    simp

/-- Parameters that come later are numbered like those before. -/
theorem numbered (h : Extends ns ns') (hns : ns.Numbered) : ns'.Numbered := by
  intro place x hx
  by_cases hplace : place < ns.params.length
  · obtain ⟨rest, hrest⟩ := h.params
    rw [← hrest, List.getElem?_append_left hplace] at hx
    rw [hns place x hx, h.stem]
  · rw [h.added place (Nat.le_of_not_lt hplace) x hx, h.stem]

end Extends

/-- A name given to a parameter is the one it goes by later. -/
theorem Calls.mono (h : ns.Calls p name) (hext : Extends ns ns') : ns'.Calls p name := by
  obtain ⟨rest, hrest⟩ := hext.params
  rw [Calls, ← hrest, List.lookup_append, h]
  rfl

theorem calls_param (ns : Names) (p : Param) : (ns.param p).2.Calls p (ns.param p).1 := by
  cases hlookup : ns.params.lookup p with
  | some name => rwa [param_of_calls hlookup]
  | none =>
    rw [param_of_unmet hlookup, Calls, List.lookup_append, hlookup]
    simp

/-- What is found under a key stands at the first place of the key. -/
theorem getElem?_idxOf_of_lookup {α β : Type} [BEq α] [LawfulBEq α] {entries : List (α × β)}
    {key : α} {value : β} (h : entries.lookup key = some value) :
    entries[(entries.map Prod.fst).idxOf key]? = some (key, value) := by
  induction entries with
  | nil => cases h
  | cons entry entries ih =>
    obtain ⟨first, stored⟩ := entry
    rw [List.lookup_cons] at h
    rw [List.map_cons, List.idxOf_cons]
    by_cases hkey : first = key
    · subst hkey
      simp_all
    · have hne : (key == first) = false := by simpa using Ne.symm hkey
      have hne' : (first == key) = false := by simpa using hkey
      simp only [hne] at h
      simpa [hne'] using ih h

theorem Calls.getElem? (h : ns.Calls p name) : ns.params[ns.place p]? = some (p, name) :=
  getElem?_idxOf_of_lookup h

theorem Calls.met (h : ns.Calls p name) : p ∈ ns.params.map Prod.fst :=
  List.mem_map_of_mem (List.mem_of_getElem? h.getElem?)

theorem Calls.name_eq (h : ns.Calls p name) (hns : ns.Numbered) :
    name = ns.stem ++ toString (ns.place p) :=
  hns _ _ h.getElem?

end Names

namespace Draft.Resolves

variable {q : QuoteMark} {bare : Option TableId} {ns ns' : Names} {ds : List Draft}
  {fs : List Fragment}

theorem names_extend (h : Resolves q bare ns ds fs ns') : ns.Extends ns' := by
  induction h with
  | nil => exact .refl _
  | text _ _ ih | delimiter _ _ _ ih | hole _ _ _ ih | bareColumn _ _ _ ih | column _ _ _ _ ih
  | cell _ _ ih => exact ih
  | group _ _ inner ih =>
    exact ((Names.Extends.indented _).trans inner).trans ((Names.Extends.outdented _).trans ih)
  | param p _ ih => exact (Names.Extends.param _ p).trans ih
  | introduce t _ ih | ownName _ _ ih | tableName _ _ ih =>
    exact (Names.Extends.aliasOf _ _).trans ih
  | scope kind _ _ inner ih =>
    exact ((Names.Extends.entered _ kind).trans inner).trans
      ((Names.Extends.closeScope _ _).trans ih)
  | choice _ _ _ _ first second ih | each _ _ _ _ _ first second ih =>
    exact first.trans (second.trans ih)

/-- The parameters of a written tree are called as they are at its end. -/
theorem calls (h : Resolves q bare ns ds fs ns') {p : Param} {name : String}
    (hin : .hole (.param p name) ∈ Fragment.partsAll fs) : ns'.Calls p name := by
  induction h with
  | nil => simp [Fragment.partsAll] at hin
  | text _ _ ih | delimiter _ _ _ ih | bareColumn _ _ _ ih | column _ _ _ _ ih | cell _ _ ih
  | tableName _ _ ih =>
    exact ih (by simpa [Fragment.partsAll, Fragment.parts] using hin)
  | hole h unnamed _ ih =>
    rcases List.mem_cons.1 hin with heq | hin
    · cases heq
      cases unnamed
    · exact ih hin
  | param p' hrest ih =>
    rcases List.mem_cons.1 hin with heq | hin
    · cases heq
      exact (Names.calls_param _ _).mono hrest.names_extend
    · exact ih hin
  | introduce _ _ ih | ownName _ _ ih => exact ih hin
  | group _ hrest inner ih =>
    simp only [Fragment.partsAll, Fragment.parts, List.mem_append, List.mem_cons, reduceCtorEq,
      false_or] at hin
    rcases hin with hin | hin
    · exact (inner hin).mono ((Names.Extends.outdented _).trans hrest.names_extend)
    · exact ih hin
  | scope kind _ hrest inner ih =>
    rw [Fragment.partsAll_append, List.mem_append] at hin
    rcases hin with hin | hin
    · exact (inner hin).mono ((Names.Extends.closeScope _ _).trans hrest.names_extend)
    · exact ih hin
  | choice _ _ hsecond hrest first second ih | each _ _ _ hsecond hrest first second ih =>
    simp only [Fragment.partsAll, Fragment.parts, List.mem_append, List.mem_cons, reduceCtorEq,
      false_or] at hin
    rcases hin with (hin | hin) | hin
    · exact (first hin).mono (hsecond.names_extend.trans hrest.names_extend)
    · exact (second hin).mono hrest.names_extend
    · exact ih hin

end Draft.Resolves

end PreparedSql
