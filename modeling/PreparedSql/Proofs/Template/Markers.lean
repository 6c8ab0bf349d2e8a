import Mathlib.Data.List.Basic
import PreparedSql.Proofs.Template.Glyphs
import PreparedSql.Proofs.Template.Tree
import PreparedSql.Proofs.Text.Numerals

/-!
# Markers and their values

Every marker of an execution stands for a slot, and its value is what the
arguments hold for that slot, so markers of one slot have one value. Sharing
styles bind the first marker of each slot only; `Marker.Numbering` says what
makes this sound: ordinals lead from markers to values, two markers have the same
ordinal exactly when they stand for the same slot, and ordinals are given in the
order in which slots are first met.

The text of an execution that lacks nothing is a list of glyphs that all styles
of markers share.
-/

namespace PreparedSql

/-- The value that arguments hold for a slot. -/
def Arguments.value? (a : Arguments) : Slot → Option Value
  | .param p => a.param p
  | .cell collection row column =>
    match (a.rows collection)[row]? with
    | none => none
    | some cells =>
      match cells[column]? with
      | some (.value v) => some v
      | _ => none

/-- The row is one of the collection that it names. -/
def RowAt.Held (a : Arguments) (row : Option RowAt) : Prop :=
  ∀ r ∈ row, (a.rows r.collection)[r.index]? = some r.cells

namespace Fragment

variable {a : Arguments} {q : QuoteMark}

/-- A property of all steps of a walk: the steps of layout have it, those of the
holes in the tree, and those of the cells of rows. -/
theorem forall_mem_walkAll {P : Step → Prop} (layout : ∀ step, step.asks = false → P step)
    (cell : ∀ row index, RowAt.Held a row → P (RowAt.step row index)) {row : Option RowAt}
    (hrow : RowAt.Held a row) {fs : List Fragment}
    (hole : ∀ h, .hole h ∈ partsAll fs → P (h.step a q)) : ∀ step ∈ walkAll a q row fs, P step := by
  induction fs using listInduction generalizing row with
  | nil => simp
  | text s fs ih =>
    exact List.forall_mem_cons.2
      ⟨layout _ rfl, ih hrow fun h hh => hole h (by simp [partsAll, hh])⟩
  | delimiter s kind fs ih =>
    exact List.forall_mem_cons.2
      ⟨layout _ rfl, ih hrow fun h hh => hole h (by simp [partsAll, hh])⟩
  | group indented children fs inner ih =>
    have hinner := inner hrow fun h hh => hole h (by simp [partsAll, parts, hh])
    refine List.forall_mem_append.2 ⟨?_, ih hrow fun h hh => hole h (by simp [partsAll, hh])⟩
    cases indented with
    | false => exact hinner
    | true =>
      exact List.forall_mem_cons.2 ⟨layout _ rfl, List.forall_mem_append.2
        ⟨hinner, by simpa using layout .exit rfl⟩⟩
  | hole h fs ih =>
    refine List.forall_mem_append.2 ⟨?_, ih hrow fun h hh => hole h (by simp [partsAll, hh])⟩
    have hstep : P (h.step a q) := hole h (by simp [partsAll, parts])
    simpa [walk] using ⟨layout .gap rfl, hstep, layout (.settle h.qualifies) rfl⟩
  | choice key main alternative fs first second ih =>
    refine List.forall_mem_append.2 ⟨?_, ih hrow fun h hh => hole h (by simp [partsAll, hh])⟩
    refine List.forall_mem_append.2 ⟨?_, by simpa using layout (.settle false) rfl⟩
    split
    · exact second hrow fun h hh => hole h (by simp [partsAll, parts, hh])
    · exact first hrow fun h hh => hole h (by simp [partsAll, parts, hh])
  | each key body empty between fs first second ih =>
    refine List.forall_mem_append.2 ⟨?_, ih hrow fun h hh => hole h (by simp [partsAll, hh])⟩
    rw [walk_each]
    refine List.forall_mem_append.2 ⟨List.forall_mem_cons.2 ⟨layout _ rfl, ?_⟩,
      by simpa using layout (.settle false) rfl⟩
    -- A repetition has the property if its rows have it.
    refine repeated_pred (S := fun steps => ∀ step ∈ steps, P step)
      (fun hx hy => List.forall_mem_append.2 ⟨hx, hy⟩) (by simpa using layout (.write between) rfl)
      ?_ ?_
    · intro index cells hcells
      refine List.forall_mem_cons.2 ⟨layout _ rfl, first ?_ ?_⟩
      · rintro r ⟨⟩
        exact hcells
      · exact fun h hh => hole h (by simp [partsAll, parts, hh])
    · exact List.forall_mem_cons.2 ⟨layout _ rfl,
        second hrow fun h hh => hole h (by simp [partsAll, parts, hh])⟩
  | cell index fs ih =>
    refine List.forall_mem_append.2 ⟨?_, ih hrow fun h hh => hole h (by simp [partsAll, hh])⟩
    simpa [walk] using ⟨layout .gap rfl, cell row index hrow, layout (.settle false) rfl⟩

end Fragment

/-- The marker of a hole is that of its parameter. -/
theorem Hole.marker?_step {a : Arguments} {q : QuoteMark} {h : Hole} {m : Marker}
    (hm : (h.step a q).marker? = some m) :
    ∃ p name v, h = .param p name ∧ a.param p = some v ∧ m = ⟨.param p, name, v⟩ := by
  cases h with
  | param p name =>
    cases hp : a.param p with
    | none => simp [Hole.step, hp, Step.marker?] at hm
    | some v => exact ⟨p, name, v, rfl, hp, by simpa [Hole.step, hp, Step.marker?] using hm.symm⟩
  | inline key => cases hi : a.inline key <;> simp [Hole.step, hi, Step.marker?] at hm
  | schema s => cases hm
  | catalog c => cases hm
  | typeId t =>
    cases ht : a.typeId t with
    | some number => simp [Hole.step, ht, Step.marker?] at hm
    | none => cases hi : t.interface <;> simp [Hole.step, ht, hi, Step.marker?] at hm

/-- The marker of a cell is that of a value in a row. -/
theorem RowAt.marker?_step {row : Option RowAt} {column : Nat} {m : Marker}
    (hm : (RowAt.step row column).marker? = some m) :
    ∃ r v, row = some r ∧ r.cells[column]? = some (.value v) ∧
      m = ⟨.cell r.collection r.index column, r.markerName column, v⟩ := by
  cases row with
  | none => cases hm
  | some r =>
    simp only [RowAt.step] at hm
    split at hm
    · cases hm
    · cases hm
    · next v hv =>
      cases hm
      exact ⟨r, v, rfl, hv, rfl⟩

namespace Template

variable {t : Template} {a : Arguments} {m : Marker}

/-- Where the markers of an execution come from: the parameters in the tree, and
the cells of rows. -/
theorem exists_of_mem_markers (h : m ∈ (t.steps a).filterMap Step.marker?) :
    (∃ p name v, .hole (.param p name) ∈ Fragment.partsAll t.fragments ∧ a.param p = some v ∧
        m = ⟨.param p, name, v⟩) ∨
      ∃ (r : RowAt) (column : Nat) (v : Value), (a.rows r.collection)[r.index]? = some r.cells ∧
        r.cells[column]? = some (.value v) ∧
        m = ⟨.cell r.collection r.index column, r.markerName column, v⟩ := by
  obtain ⟨step, hstep, hm⟩ := List.mem_filterMap.1 h
  revert hm
  refine Fragment.forall_mem_walkAll (a := a) (P := fun step => step.marker? = some m → _) ?_ ?_
    (by simp [RowAt.Held]) ?_ step hstep
  · intro step hasks hm
    simp [Step.asks, hm] at hasks
  · intro row column hrow hm
    obtain ⟨r, v, rfl, hv, rfl⟩ := RowAt.marker?_step hm
    exact .inr ⟨r, column, v, hrow r rfl, hv, rfl⟩
  · intro hole hin hm
    obtain ⟨p, name, v, rfl, hv, rfl⟩ := Hole.marker?_step hm
    exact .inl ⟨p, name, v, hin, hv, rfl⟩

/-- A marker has the value that the arguments hold for its slot. -/
theorem value?_slot (h : m ∈ (t.steps a).filterMap Step.marker?) :
    a.value? m.slot = some m.value := by
  obtain ⟨p, name, v, -, hv, rfl⟩ | ⟨r, column, v, hrow, hv, rfl⟩ := exists_of_mem_markers h
  · exact hv
  · simp [Arguments.value?, hrow, hv]

end Template

namespace Marker

section Firsts

variable {seen : List Slot} {ms : List Marker}

/-- The first markers stand for all slots that were not seen before. -/
theorem mem_map_slot_firsts {s : Slot} :
    s ∈ (firsts seen ms).map slot ↔ s ∈ ms.map slot ∧ s ∉ seen := by
  induction ms generalizing seen with
  | nil => simp [firsts]
  | cons m ms ih =>
    by_cases hm : m.slot ∈ seen
    · rw [firsts, if_pos hm, ih, List.map_cons, List.mem_cons]
      constructor
      · exact fun ⟨hs, hseen⟩ => ⟨.inr hs, hseen⟩
      · rintro ⟨rfl | hs, hseen⟩
        · exact absurd hm hseen
        · exact ⟨hs, hseen⟩
    · rw [firsts, if_neg hm, List.map_cons, List.mem_cons, ih, List.map_cons, List.mem_cons]
      by_cases hs : s = m.slot <;> simp [hs, hm]

theorem nodup_slots_firsts (seen : List Slot) (ms : List Marker) :
    ((firsts seen ms).map slot).Nodup := by
  induction ms generalizing seen with
  | nil => simp [firsts]
  | cons m ms ih =>
    by_cases hm : m.slot ∈ seen
    · rw [firsts, if_pos hm]
      exact ih seen
    · rw [firsts, if_neg hm, List.map_cons, List.nodup_cons]
      exact ⟨fun h => (mem_map_slot_firsts.1 h).2 (by simp), ih (m.slot :: seen)⟩

theorem mem_of_mem_firsts {m : Marker} (h : m ∈ firsts seen ms) : m ∈ ms := by
  induction ms generalizing seen with
  | nil => simp [firsts] at h
  | cons first ms ih =>
    by_cases hm : first.slot ∈ seen
    · rw [firsts, if_pos hm] at h
      exact List.mem_cons_of_mem _ (ih h)
    · rw [firsts, if_neg hm] at h
      rcases List.mem_cons.1 h with rfl | h
      · exact List.mem_cons_self
      · exact List.mem_cons_of_mem _ (ih h)

/-- Later markers do not change which came first. -/
theorem firsts_prefix_append (seen : List Slot) (ms more : List Marker) :
    firsts seen ms <+: firsts seen (ms ++ more) := by
  induction ms generalizing seen with
  | nil => exact List.nil_prefix
  | cons m ms ih =>
    by_cases hm : m.slot ∈ seen
    · simpa [firsts, hm] using ih seen
    · simpa [firsts, hm, List.cons_prefix_cons] using ih (m.slot :: seen)

end Firsts

/-- Ordinals that lead from the markers of a text to a list of values. -/
structure Numbering (ms : List Marker) (ordinal : Marker → Nat) (values : List Value) : Prop where
  /-- Ordinals count the values from one. -/
  bounds : ∀ m ∈ ms, 1 ≤ ordinal m ∧ ordinal m ≤ values.length
  /-- A marker leads to its own value. -/
  value : ∀ m ∈ ms, values[ordinal m - 1]? = some m.value
  /-- Markers share a value exactly when they stand for the same slot. -/
  same_iff : ∀ m ∈ ms, ∀ m' ∈ ms, ordinal m = ordinal m' ↔ m.slot = m'.slot
  /-- No value is without a marker. -/
  covers : ∀ k < values.length, ∃ m ∈ ms, ordinal m = k + 1
  /-- A slot that is met later has its value later. -/
  order : ∀ pre m post, ms = pre ++ m :: post → (∀ m' ∈ pre, m'.slot ≠ m.slot) →
    ∀ m' ∈ pre, ordinal m' < ordinal m

/-- Numbering by first occurrence is sound if markers of one slot have one
value. -/
theorem numbering_firsts {ms : List Marker} {value? : Slot → Option Value}
    (hvalue : ∀ m ∈ ms, value? m.slot = some m.value) :
    Numbering ms (fun m => ((firsts [] ms).map slot).idxOf m.slot + 1)
      ((firsts [] ms).map Marker.value) := by
  have hslot {m : Marker} (hm : m ∈ ms) : m.slot ∈ (firsts [] ms).map slot :=
    mem_map_slot_firsts.2 ⟨List.mem_map_of_mem hm, by simp⟩
  have hlt {m : Marker} (hm : m ∈ ms) :
      ((firsts [] ms).map slot).idxOf m.slot < (firsts [] ms).length := by
    simpa using List.idxOf_lt_length_of_mem (hslot hm)
  constructor
  case bounds =>
    intro m hm
    have := hlt hm
    simp only [List.length_map]
    omega
  case value =>
    intro m hm
    -- The first marker of the slot has the same value, both being the slot's.
    have hget := List.getElem?_idxOf (hslot hm)
    rw [List.getElem?_map, Option.map_eq_some_iff] at hget
    obtain ⟨first, hfirst, hsame⟩ := hget
    have hfirstValue := hvalue first (mem_of_mem_firsts (List.mem_of_getElem? hfirst))
    rw [hsame, hvalue m hm] at hfirstValue
    rw [Nat.add_sub_cancel, List.getElem?_map, hfirst, hfirstValue, Option.map_some]
  case same_iff =>
    intro m hm m' hm'
    rw [Nat.add_right_cancel_iff]
    exact List.idxOf_inj (hslot hm)
  case covers =>
    intro k hk
    rw [List.length_map] at hk
    refine ⟨(firsts [] ms)[k], mem_of_mem_firsts (List.getElem_mem hk), ?_⟩
    have hidx := (nodup_slots_firsts [] ms).idxOf_getElem k (by simpa using hk)
    simpa using hidx
  case order =>
    rintro pre m post rfl hnew m' hm'
    obtain ⟨rest, hrest⟩ := firsts_prefix_append [] pre (m :: post)
    have hold : m'.slot ∈ (firsts [] pre).map slot :=
      mem_map_slot_firsts.2 ⟨List.mem_map_of_mem hm', by simp⟩
    have hfresh : m.slot ∉ (firsts [] pre).map slot := by
      intro h
      obtain ⟨other, hother, hsame⟩ := List.mem_map.1 (mem_map_slot_firsts.1 h).1
      exact hnew other hother hsame
    have hbefore := List.idxOf_lt_length_of_mem hold
    rw [← hrest, List.map_append, List.idxOf_append, List.idxOf_append, if_pos hold, if_neg hfresh]
    omega

end Marker

theorem solid_question : Solid "?" := ⟨'?', by decide, by decide⟩

theorem solid_numeral (n : Nat) : Solid (toString n) := by
  obtain ⟨c, hc, hdigit⟩ := Text.exists_getLast?_numeral n
  exact ⟨c, hc, Text.isBlank_of_isDigit hdigit⟩

/-- Only the end of a spelling matters. -/
theorem Solid.append {s : String} (h : Solid s) (front : String) : Solid (front ++ s) := by
  obtain ⟨c, hc, hblank⟩ := h
  refine ⟨c, ?_, hblank⟩
  rw [String.toList_append, List.getLast?_append, hc]
  rfl

/-- Where nothing is missing, all markers are met. -/
theorem Step.markers_of_complete {steps : List Step} (h : steps.findSome? Step.missing? = none) :
    Step.markers steps = steps.filterMap Step.marker? := by
  induction steps with
  | nil => rfl
  | cons step steps ih =>
    obtain ⟨hstep, hsteps⟩ : step.missing? = none ∧ steps.findSome? Step.missing? = none := by
      simpa using h
    cases hm : step.marker? <;> simp [Step.markers_cons, hstep, hm, ih hsteps]

namespace Template

/-- How an execution writes its markers. -/
def spell (t : Template) (a : Arguments) : Marker → String :=
  Marker.spell t.format.markers ((t.bound a).map Marker.slot) (· + 1)

variable {t : Template} {a : Arguments}

theorem fill_of_missing {what : Missing} (h : (t.steps a).findSome? Step.missing? = some what) :
    t.fill a = .error ⟨.missing what, []⟩ := by
  simp [fill, fillInto, h]

theorem fill_of_complete (h : (t.steps a).findSome? Step.missing? = none) :
    t.fill a = .ok ⟨t.textWith a (· + 1), (t.bound a).map Marker.value⟩ := by
  simp [fill, fillInto, h, Sink.list, Sink.append]

/-- The text of an execution that lacks nothing, as glyphs that are the same for
all styles of markers. -/
theorem exists_glyphs (fragments : List Fragment) (quote : QuoteMark) (pretty condensed : Bool)
    (h : (Fragment.walkAll a quote none fragments).findSome? Step.missing? = none) :
    ∃ gs, Glyph.markers gs = (Fragment.walkAll a quote none fragments).filterMap Step.marker? ∧
      ∀ style, let bound := Marker.bound style (Glyph.markers gs)
        let spell := Marker.spell style (bound.map Marker.slot) (· + 1)
        (∀ m ∈ Glyph.markers gs, Solid (spell m)) →
          fill ⟨fragments, ⟨style, quote, pretty⟩, condensed⟩ a =
            .ok ⟨Glyph.text spell gs, bound.map Marker.value⟩ := by
  obtain ⟨gs, hmarkers, htext⟩ :=
    Step.exists_glyphs pretty (Fragment.walkAll a quote none fragments)
  refine ⟨gs, hmarkers, ?_⟩
  intro style bound spell hsolid
  have hbound : Template.bound ⟨fragments, ⟨style, quote, pretty⟩, condensed⟩ a = bound := by
    simp only [Template.bound, steps, Step.markers_of_complete h, ← hmarkers, bound]
  have hfill := fill_of_complete (t := ⟨fragments, ⟨style, quote, pretty⟩, condensed⟩) (a := a) h
  simp only [textWith, hbound] at hfill
  rw [hfill, ← htext spell (hmarkers ▸ hsolid)]
  rfl

end Template

end PreparedSql
