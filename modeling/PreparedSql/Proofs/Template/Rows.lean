import PreparedSql.Proofs.Template.Fronts

/-!
# Rows of a repetition stand for themselves

A repetition writes its rows one after the other on the same page. If the front of its body does not
look back, every row is kept apart from what is written before it. With positional markers it is
then written as on an empty page, wherever it stands among the rows, and the repetition is put
together from its rows as they are written alone.

The same holds of condensed repetitions, since condensing is faithful.
-/

namespace PreparedSql

/-! ## Output -/

/-- What was written, or the reason why it was not, and the values that were bound. -/
abbrev Output (α : Type) := Except Failure α × List Value

namespace Output

variable {α β γ : Type}

def map (f : α → β) (out : Output α) : Output β := (out.1.map f, out.2)

/-- Goes on with what was written, unless there was a failure. -/
def andThen (out : Output α) (next : α → Output β) : Output β :=
  match out with
  | (.ok x, values) => ((next x).1, values ++ (next x).2)
  | (.error failure, values) => (.error failure, values)

/-- The outputs up to the first failure, which is the last one. -/
def untilFailure : List (Output α) → List (Output α)
  | [] => []
  | out :: outs => out :: if out.1.isOk then untilFailure outs else []

/-- Texts one after the other with a separator. The first failure decides, and nothing is bound
behind it. -/
def joined (between : String) (outs : List (Output String)) : Output String :=
  ((outs.mapM Prod.fst).map between.intercalate, (untilFailure outs).flatMap Prod.snd)

theorem map_map (f : α → β) (g : β → γ) (out : Output α) :
    (out.map f).map g = out.map (g ∘ f) := by
  obtain ⟨_ | x, values⟩ := out <;> rfl

theorem map_andThen (f : α → β) (next : β → Output γ) (out : Output α) :
    (out.map f).andThen next = out.andThen (next ∘ f) := by
  obtain ⟨_ | x, values⟩ := out <;> rfl

theorem andThen_map (next : α → Output β) (f : β → γ) (out : Output α) :
    (out.andThen next).map f = out.andThen fun x => (next x).map f := by
  obtain ⟨_ | x, values⟩ := out <;> rfl

theorem andThen_ok (f : α → β) (out : Output α) :
    (out.andThen fun x => (.ok (f x), [])) = out.map f := by
  obtain ⟨_ | x, values⟩ := out
  · rfl
  · simp [andThen, map, Except.map]

theorem joined_singleton (between : String) (out : Output String) : joined between [out] = out := by
  obtain ⟨_ | text, values⟩ := out
  · exact congrArg (Prod.mk _) (List.append_nil values)
  · exact congrArg (Prod.mk _) (List.append_nil values)

theorem joined_cons_cons (between : String) (out next : Output String)
    (outs : List (Output String)) :
    joined between (out :: next :: outs) = out.andThen fun text =>
      (joined between (next :: outs)).map fun rest => text ++ between ++ rest := by
  obtain ⟨failure | text, values⟩ := out
  · exact congrArg (Prod.mk _) (List.append_nil values)
  · refine Prod.ext ?_ rfl
    simp only [joined, andThen, map, List.mapM_cons]
    cases next.1 with
    | error failure => rfl
    | ok first =>
      cases outs.mapM (Prod.fst : Output String → Except Failure String) with
      | error failure => rfl
      | ok rest => exact congrArg Except.ok String.intercalate_cons_cons

end Output

namespace Step

variable {pretty : Bool} {steps more : List Step}

/-- What steps do to a page if markers are positional. -/
def output (pretty : Bool) (p : Page) (steps : List Step) : Output Page :=
  ((steps.findSome? missing?).elim (.ok (actAll pretty (fun _ => "?") p steps)) fun what =>
    .error ⟨.missing what, []⟩, (markers steps).map Marker.value)

/-- What steps write on an empty page. -/
def alone (pretty : Bool) (indent : Nat) (steps : List Step) : Output String :=
  (output pretty { indent } steps).map Page.text

theorem output_cons (p : Page) (step : Step) (steps : List Step) :
    output pretty p (step :: steps) =
      step.missing?.elim
        ((output pretty (step.act pretty (fun _ => "?") p) steps).1,
          step.marker?.toList.map Marker.value ++
            (output pretty (step.act pretty (fun _ => "?") p) steps).2)
        fun what => (.error ⟨.missing what, []⟩, []) := by
  cases hstep : step.missing? <;> simp [output, markers_cons, hstep]

theorem output_append (p : Page) (steps more : List Step) :
    output pretty p (steps ++ more) =
      (output pretty p steps).andThen fun page => output pretty page more := by
  induction steps generalizing p with
  | nil => rfl
  | cons step steps ih =>
    rw [List.cons_append, output_cons, output_cons, ih]
    cases hstep : step.missing? with
    | some what => rfl
    | none =>
      generalize output pretty (step.act pretty (fun _ => "?") p) steps = out
      obtain ⟨_ | page, values⟩ := out
      · rfl
      · simp [Output.andThen]

/-- Steps that write the same from a fresh line, whatever is below. -/
structure Apart (pretty : Bool) (steps : List Step) : Prop where
  ink : ∀ p : Page, (actAll pretty (fun _ => "?") p.fresh steps).ink =
    (actAll pretty (fun _ => "?") { indent := p.indent } steps).ink ++ p.ink
  indent : ∀ p, (actAll pretty (fun _ => "?") p steps).indent = p.indent

/-- What is done behind a row depends on what was written and the indentation only. -/
theorem Apart.output_andThen (h : Apart pretty steps) (p : Page) {α : Type} {next : Page → Output α}
    (hnext : ∀ page page' : Page, page.ink = page'.ink → page.indent = page'.indent →
      next page = next page') :
    (output pretty p (.fresh :: steps)).andThen next =
      (alone pretty p.indent steps).andThen fun text => next (p.write text) := by
  have hpage := hnext (actAll pretty (fun _ => "?") p.fresh steps)
    (p.write (actAll pretty (fun _ => "?") { indent := p.indent } steps).text)
    (by simp [h.ink, Page.text]) (h.indent p.fresh)
  have hfresh : output pretty p (.fresh :: steps) = output pretty p.fresh steps := rfl
  rw [hfresh, alone, Output.map_andThen]
  cases hmissing : steps.findSome? missing? with
  | some what => simp [Output.andThen, output, hmissing]
  | none => simp [Output.andThen, output, hmissing, hpage]

/-- Rows that are apart from each other are put together as they are written alone. -/
theorem output_rows {blocks : List (List Step)} (hne : blocks ≠ [])
    (h : ∀ block ∈ blocks, Apart pretty block) (between : String) (p : Page) :
    output pretty p
        (List.intercalate [.write between] (blocks.map (.fresh :: ·)) ++ [.settle false]) =
      (Output.joined between (blocks.map (alone pretty p.indent))).map fun text =>
        (p.write text).settle false := by
  induction blocks generalizing p with
  | nil => exact absurd rfl hne
  | cons block blocks ih =>
    obtain ⟨hblock, hblocks⟩ := List.forall_mem_cons.1 h
    cases blocks with
    | nil =>
      have hsettle (page : Page) : output pretty page [.settle false] =
          (.ok (page.settle false), []) := rfl
      rw [List.map_cons, List.map_nil, List.intercalate_singleton, output_append,
        hblock.output_andThen, List.map_cons, List.map_nil, Output.joined_singleton]
      · simp only [hsettle, Output.andThen_ok]
      · intro page page' hink hindent
        simp [hsettle, Page.settle, hink, hindent]
    | cons next blocks =>
      have hrest := ih (by simp) hblocks
      have hnext (page : Page) : output pretty page
            (.write between :: (List.intercalate [.write between]
              ((next :: blocks).map (.fresh :: ·)) ++ [.settle false])) =
          (Output.joined between ((next :: blocks).map (alone pretty page.indent))).map fun text =>
            ((page.write between).write text).settle false :=
        hrest (page.write between)
      rw [List.map_cons, List.map_cons, List.intercalate_cons_cons, List.append_assoc,
        List.append_assoc, output_append]
      simp only [← List.map_cons, List.singleton_append, hnext]
      rw [hblock.output_andThen]
      · rw [List.map_cons, List.map_cons, Output.joined_cons_cons, Output.andThen_map]
        simp only [Output.map_map]
        congr 1
        funext text
        simp only [Page.write_write, Function.comp_def, String.append_assoc]
        rfl
      · intro page page' hink hindent
        simp only [hindent, Page.write, Page.settle, hink]

end Step

namespace Fragment

variable {pretty : Bool} {a : Arguments} {q : QuoteMark} {fs : List Fragment}

/-! ## Bodies alone -/

/-- Fragments that do not look back are apart. -/
theorem apart_walkAll (h : frontAll fs ≠ .reaching) (row : Option RowAt) :
    Step.Apart pretty (walkAll a q row fs) where
  ink p := by
    have hfresh : p.fresh = Page.atop { indent := p.indent } p.ink := rfl
    rw [hfresh, (describes_walkAll row fs h).1]
    rfl
  indent := unindented_walkAll row fs

/-- So are the fragments to which they are condensed in a branch. -/
theorem apart_condensedFrom (h : frontAll fs ≠ .reaching) (hspaced : WellSpaced pretty fs)
    (hlead : pretty = true → leadAll fs ≠ .indented) (held : Page) (row : Option RowAt) :
    Step.Apart pretty (walkAll a q row (condensedFrom pretty held.cleared.fresh fs)) where
  ink p := by
    let direct (ink : List Char) : Page := { ink, indent := held.indent }
    have hfaithful : Layout.Faithful pretty (fun _ => "?") a q fs := Layout.faithful hspaced
    have hink (filling : Page) :
        (Step.actAll pretty (fun _ => "?") filling.fresh
          (walkAll a q row (condensedFrom pretty held.cleared.fresh fs))).ink =
        (Step.actAll pretty (fun _ => "?") (direct filling.ink).fresh (walkAll a q row fs)).ink :=
      have hlevel : Layout.Level held.indent (direct filling.ink) filling := ⟨rfl, rfl⟩
      (hfaithful.level hlead row hlevel.fresh).ink.symm
    have hempty := hink { indent := p.indent }
    rw [hink p, (apart_walkAll h row).ink]
    exact congrArg (· ++ p.ink) hempty.symm
  indent := unindented_walkAll row _

/-- What fragments write at a row on an empty page, with positional markers. -/
def alone (pretty : Bool) (indent : Nat) (a : Arguments) (q : QuoteMark) (row : Option RowAt)
    (fs : List Fragment) : Output String :=
  Step.alone pretty indent (walkAll a q row fs)

end Fragment

/-- Leaves of a marker what a positional one shows. -/
def Step.unnamed : Step → Step
  | .marker m => .marker ⟨.param ⟨0⟩, "", m.value⟩
  | step => step

/-- Positional markers show neither slots nor names. -/
theorem Step.output_map_unnamed (pretty : Bool) (p : Page) (steps : List Step) :
    output pretty p (steps.map unnamed) = output pretty p steps := by
  induction steps generalizing p with
  | nil => rfl
  | cons step steps ih =>
    rw [List.map_cons, output_cons, output_cons, ih]
    cases step <;> rfl

namespace Fragment

variable {pretty : Bool} {a : Arguments} {q : QuoteMark} {fs : List Fragment}

/-- The place of a row among the rows has a part in the names of markers only. -/
theorem map_unnamed_walkAll {row row' : Option RowAt}
    (h : ∀ column, (RowAt.step row column).unnamed = (RowAt.step row' column).unnamed) :
    (walkAll a q row fs).map Step.unnamed = (walkAll a q row' fs).map Step.unnamed := by
  induction fs using listInduction with
  | nil => rfl
  | text s fs ih | delimiter s kind fs ih | hole hole fs ih =>
    simp only [walkAll, List.map_append, ih]
    rfl
  | group indented children fs inner ih =>
    cases indented <;> simp only [walkAll, walk, List.map_append, List.map_cons, ih, inner]
  | choice key main alternative fs first second ih =>
    simp only [walkAll, walk, List.map_append, ih]
    split
    · rw [second]
    · rw [first]
  | each key body empty between fs first second ih =>
    have hrows : (repeated a q row key body empty between).map Step.unnamed =
        (repeated a q row' key body empty between).map Step.unnamed := by
      unfold repeated
      split
      · rw [List.map_cons, List.map_cons, second]
      · rfl
    simp only [walkAll, walk_each, List.map_append, List.map_cons, ih, hrows]
  | cell index fs ih =>
    simp only [walkAll, walk, List.map_append, List.map_cons, ih, h]

theorem alone_index (indent : Nat) (key : Key) (index index' : Nat) (cells : List Cell) :
    alone pretty indent a q (some ⟨key, index, cells⟩) fs =
      alone pretty indent a q (some ⟨key, index', cells⟩) fs := by
  have hstep (column : Nat) : (RowAt.step (some ⟨key, index, cells⟩) column).unnamed =
      (RowAt.step (some ⟨key, index', cells⟩) column).unnamed := by
    simp only [RowAt.step]
    split <;> rfl
  simp only [alone, Step.alone]
  rw [← Step.output_map_unnamed, map_unnamed_walkAll hstep, Step.output_map_unnamed]

/-- Rows of a collection matter only where it is repeated. -/
theorem walkAll_setRows {key : Key} (rows : List (List Cell)) (row : Option RowAt)
    (h : ∀ body empty between, .each key body empty between ∉ partsAll fs) :
    walkAll (a.setRows key rows) q row fs = walkAll a q row fs := by
  -- What does not occur in fragments does not occur in part of them.
  have part {gs hs : List Fragment} (hsub : partsAll gs ⊆ partsAll hs)
      (h : ∀ body empty between, .each key body empty between ∉ partsAll hs)
      (body empty : List Fragment) (between : String) :
      .each key body empty between ∉ partsAll gs := fun hin => h body empty between (hsub hin)
  induction fs using listInduction generalizing row with
  | nil => rfl
  | text s fs ih | delimiter s kind fs ih | cell index fs ih =>
    rw [walkAll, walkAll, ih row (part (by simp [partsAll]) h)]
    rfl
  | hole hole fs ih =>
    rw [walkAll, walkAll, ih row (part (by simp [partsAll]) h)]
    cases hole <;> rfl
  | group indented children fs inner ih =>
    have hchildren := inner row (part (by simp [partsAll, parts]) h)
    rw [walkAll, walkAll, ih row (part (by simp [partsAll]) h)]
    cases indented <;> simp only [walk, hchildren]
  | choice key' main alternative fs first second ih =>
    have hmain := first row (part (partsAll_subset_of_branch (by simp [branches])) h)
    have halternative := second row (part (partsAll_subset_of_branch (by simp [branches])) h)
    rw [walkAll, walkAll, ih row (part (by simp [partsAll]) h), walk, walk, hmain, halternative]
    rfl
  | each key' body empty between fs first second ih =>
    have hbody row := first row (part (partsAll_subset_of_branch (by simp [branches])) h)
    have hempty := second row (part (partsAll_subset_of_branch (by simp [branches])) h)
    have hne : key' ≠ key := by
      rintro rfl
      exact h body empty between (by simp [partsAll, parts])
    have hrows : (a.setRows key rows).rows key' = a.rows key' := if_neg hne
    rw [walkAll, walkAll, ih row (part (by simp [partsAll]) h)]
    simp only [walk_each, repeated, hrows, hbody, hempty]

section Repetitions

variable {row : Option RowAt} {key : Key} {body empty : List Fragment}

theorem output_each (p : Page) (between : String) :
    Step.output pretty p (walk a q row (.each key body empty between)) =
      Step.output pretty p.gap (repeated a q row key body empty between ++ [.settle false]) := rfl

theorem output_each_nil (hrows : a.rows key = [])
    (hempty : Step.Apart pretty (walkAll a q row empty)) (between : String) (p : Page) :
    Step.output pretty p (walk a q row (.each key body empty between)) =
      (alone pretty p.indent a q row empty).map fun text => (p.gap.write text).settle false := by
  have hne : [walkAll a q row empty] ≠ [] := by simp
  have hrun := Step.output_rows hne (List.forall_mem_singleton.2 hempty) between p.gap
  rw [List.map_singleton, List.map_singleton, List.intercalate_singleton, Output.joined_singleton,
    Page.gap_indent] at hrun
  rw [output_each, repeated, hrows]
  exact hrun

/-- A repetition whose body is apart writes its rows as each of them is written alone. -/
theorem output_each_rows (hrows : a.rows key ≠ [])
    (hbody : ∀ row, Step.Apart pretty (walkAll a q row body)) (between : String) (p : Page) :
    Step.output pretty p (walk a q row (.each key body empty between)) =
      (Output.joined between ((a.rows key).map fun cells =>
        alone pretty p.indent a q (some ⟨key, 0, cells⟩) body)).map fun text =>
          (p.gap.write text).settle false := by
  let block (index : Nat) (cells : List Cell) : List Step :=
    walkAll a q (some ⟨key, index, cells⟩) body
  have hsteps : repeated a q row key body empty between = List.intercalate [.write between]
      (((a.rows key).mapIdx block).map (.fresh :: ·)) := by
    unfold repeated
    split
    · contradiction
    · exact congrArg _ (List.ext_getElem (by simp) fun index _ _ => by simp [block])
  have halone : ((a.rows key).mapIdx block).map (Step.alone pretty p.gap.indent) =
      (a.rows key).map fun cells => alone pretty p.indent a q (some ⟨key, 0, cells⟩) body := by
    rw [Page.gap_indent]
    refine List.ext_getElem (by simp) fun index _ _ => ?_
    rw [List.getElem_map, List.getElem_mapIdx, List.getElem_map]
    exact alone_index p.indent key index 0 _
  have hapart : ∀ steps ∈ (a.rows key).mapIdx block, Step.Apart pretty steps := by
    intro steps hsteps
    obtain ⟨index, hindex, rfl⟩ := List.mem_mapIdx.1 hsteps
    exact hbody _
  rw [output_each, hsteps, Step.output_rows (by simpa using hrows) hapart, halone]

end Repetitions

/-! ## Repetitions in condensed fragments -/

theorem exists_text_of_mem_collected {p : Page} {f : Fragment} (h : f ∈ partsAll p.collected) :
    ∃ s, f = .text s := by
  unfold Page.collected at h
  split at h
  · cases h
  · exact ⟨p.text, by simpa [partsAll, parts] using h⟩

/-- The repetition is the condensed form of one among the fragments. -/
def CondensedEach (pretty : Bool) (key : Key) (body empty : List Fragment) (between : String)
    (fs : List Fragment) : Prop :=
  ∃ rawBody rawEmpty, ∃ held : Page, .each key rawBody rawEmpty between ∈ partsAll fs ∧
    body = condensedFrom pretty held.cleared.fresh rawBody ∧
    empty = condensedFrom pretty held.cleared.fresh rawEmpty

section CondensedEach

variable {key : Key} {body empty : List Fragment} {between : String}

theorem CondensedEach.mono {gs : List Fragment} (h : CondensedEach pretty key body empty between gs)
    (hsub : partsAll gs ⊆ partsAll fs) : CondensedEach pretty key body empty between fs := by
  obtain ⟨rawBody, rawEmpty, held, hin, hbody, hempty⟩ := h
  exact ⟨rawBody, rawEmpty, held, hsub hin, hbody, hempty⟩

/-- No repetition is collected as text. -/
theorem mem_of_mem_condensedFrom {p : Page}
    (h : .each key body empty between ∈ partsAll (condensedFrom pretty p fs)) :
    .each key body empty between ∈ partsAll (condenseAll pretty p fs).1 := by
  rw [condensedFrom, partsAll_append, List.mem_append] at h
  rcases h with h | h
  · exact h
  · obtain ⟨s, hs⟩ := exists_text_of_mem_collected h
    cases hs

/-- Repetitions behind an open fragment are those inside it and those of what follows. -/
theorem mem_of_mem_handOver {p : Page} {f : Fragment} {gs : List Fragment}
    (h : .each key body empty between ∈ partsAll (p.collected ++ [f] ++ gs)) :
    .each key body empty between ∈ f.parts ∨ .each key body empty between ∈ partsAll gs := by
  simp only [partsAll_append, List.mem_append, partsAll, List.append_nil] at h
  rcases h with (h | h) | h
  · obtain ⟨s, hs⟩ := exists_text_of_mem_collected h
    cases hs
  · exact .inl h
  · exact .inr h

theorem condensedEach_of_mem (p : Page)
    (h : .each key body empty between ∈ partsAll (condenseAll pretty p fs).1) :
    CondensedEach pretty key body empty between fs := by
  induction fs using listInduction generalizing p with
  | nil => cases h
  | text s fs ih => exact (ih _ h).mono (by simp [partsAll])
  | delimiter s kind fs ih => exact (ih _ h).mono (by simp [partsAll])
  | group indented children fs inner ih =>
    have hchildren (q : Page) (h : .each key body empty between ∈
        partsAll (condenseAll pretty q children).1) :
        CondensedEach pretty key body empty between (.group indented children :: fs) :=
      (inner q h).mono fun f hf => by simp [partsAll, parts, hf]
    cases indented with
    | false =>
      rcases List.mem_append.1 (partsAll_append _ _ ▸ h) with h | h
      · exact hchildren _ h
      · exact (ih _ h).mono (by simp [partsAll])
    | true =>
      rcases List.mem_append.1 (partsAll_append _ _ ▸ h) with h | h
      · exact hchildren _ h
      · exact (ih _ h).mono (by simp [partsAll])
  | hole hole fs ih =>
    rcases mem_of_mem_handOver h with h | h
    · simp [parts] at h
    · exact (ih _ h).mono (by simp [partsAll])
  | choice key' main alternative fs first second ih =>
    rcases mem_of_mem_handOver h with h | h
    · simp only [parts, List.mem_cons, reduceCtorEq, false_or, List.mem_append] at h
      rcases h with h | h
      · exact (first _ (mem_of_mem_condensedFrom h)).mono
          (partsAll_subset_of_branch (by simp [branches]))
      · exact (second _ (mem_of_mem_condensedFrom h)).mono
          (partsAll_subset_of_branch (by simp [branches]))
    · exact (ih _ h).mono (by simp [partsAll])
  | each key' body' empty' between' fs first second ih =>
    rcases mem_of_mem_handOver h with h | h
    · simp only [parts, List.mem_cons, List.mem_append] at h
      rcases h with h | h | h
      · cases h
        exact ⟨body', empty', p.gap, by simp [partsAll, parts], rfl, rfl⟩
      · exact (first _ (mem_of_mem_condensedFrom h)).mono
          (partsAll_subset_of_branch (by simp [branches]))
      · exact (second _ (mem_of_mem_condensedFrom h)).mono
          (partsAll_subset_of_branch (by simp [branches]))
    · exact (ih _ h).mono (by simp [partsAll])
  | cell index fs ih =>
    rcases mem_of_mem_handOver h with h | h
    · simp [parts] at h
    · exact (ih _ h).mono (by simp [partsAll])

variable (hrows : RowsApart fs) (row : Option RowAt)

include hrows

/-- Where no repetition looks back, rows are apart. -/
theorem apart_of_mem (h : .each key body empty between ∈ partsAll fs) :
    Step.Apart pretty (walkAll a q row body) ∧ Step.Apart pretty (walkAll a q row empty) := by
  obtain ⟨hbody, hempty, -⟩ := hrows key body empty between h
  exact ⟨apart_walkAll hbody row, apart_walkAll hempty row⟩

theorem apart_of_mem_condensed (hspaced : WellSpaced pretty fs)
    (h : .each key body empty between ∈ partsAll (condensed pretty fs)) :
    Step.Apart pretty (walkAll a q row body) ∧ Step.Apart pretty (walkAll a q row empty) := by
  obtain ⟨rawBody, rawEmpty, held, hraw, rfl, rfl⟩ :=
    condensedEach_of_mem {} (mem_of_mem_condensedFrom h)
  obtain ⟨hbody, hempty, -⟩ := hrows key rawBody rawEmpty between hraw
  have hbranch {gs : List Fragment} (hfront : frontAll gs ≠ .reaching)
      (hgs : gs ∈ [rawBody, rawEmpty]) :
      Step.Apart pretty (walkAll a q row (condensedFrom pretty held.cleared.fresh gs)) :=
    have heach : WellSpaced pretty [.each key rawBody rawEmpty between] :=
      hspaced.mono (partsAll_subset_of_mem hraw)
    apart_condensedFrom hfront (heach.branch hgs) (heach.leadAll_branch hgs) held row
  exact ⟨hbranch hbody (by simp), hbranch hempty (by simp)⟩

end CondensedEach

end Fragment

/-- With positional markers, filling a template is writing its fragments alone. -/
theorem Template.fillInto_positional {t : Template} (h : t.format.markers = .positional)
    (a : Arguments) (sink : Sink) :
    t.fillInto a sink =
      ((Fragment.alone t.format.pretty 0 a t.format.quote none t.fragments).1,
        sink.append (Fragment.alone t.format.pretty 0 a t.format.quote none t.fragments).2) := by
  have hspell (slots : List Slot) :
      Marker.spell t.format.markers slots sink.ordinal = fun _ => "?" := by
    funext m
    rw [h]
    rfl
  have hbound : t.bound a = Step.markers (t.steps a) := by
    rw [bound, h]
    rfl
  simp only [fillInto, textWith, hspell, hbound, Fragment.alone, Step.alone, Step.output, steps,
    Output.map]
  cases (Fragment.walkAll a t.format.quote none t.fragments).findSome? Step.missing? <;> rfl

end PreparedSql
