import PreparedSql.Proofs.Template.Markers

/-!
# Values go to a sink one at a time

An execution may hand its values to anything that takes them one after the other and answers each
with an ordinal: `push` gives the ordinal and the next state. The ordinal of a slot is noted when
its value is handed over, and later markers of the slot show it again.

Run in this way, an execution differs from one into an empty list in nothing but the ordinals that
numbered markers show. The values handed over are the same, up to the place where something is
missing, and so is what is reported.
-/

namespace PreparedSql

/-- Takes a value, giving its ordinal. -/
def Sink.push (sink : Sink) (v : Value) : Nat × Sink := (sink.ordinal 0, sink.append [v])

/-- What numbered markers begin with. -/
def MarkerStyle.sign? : MarkerStyle → Option String
  | .dollar => some "$"
  | .question => some "?"
  | .positional | .named => none

variable {σ : Type} (push : σ → Value → Nat × σ)

/-- The state of a sink after values. -/
def pushAll (sink : σ) : List Value → σ
  | [] => sink
  | v :: values => pushAll (push sink v).2 values

/-- The ordinals with which values are answered. -/
def answers (sink : σ) : List Value → List Nat
  | [] => []
  | v :: values => (push sink v).1 :: answers (push sink v).2 values

/-- The ordinal of the value at a place, counted from zero. -/
def answerAt (sink : σ) (values : List Value) (k : Nat) : Nat :=
  (answers push sink values)[k]?.getD 0

/-! ## An execution that hands its values over -/

/-- How far an execution has come. -/
structure Pass (σ : Type) where
  page : Page := {}
  /-- The ordinals of the slots whose values were handed over. -/
  ordinals : Slot → Option Nat := fun _ => none
  sink : σ

namespace Pass

/-- Writes a marker. Its value is handed over, unless it shares one that was handed over before. -/
def mark (style : MarkerStyle) (pass : Pass σ) (m : Marker) : Pass σ :=
  match if style.shares then pass.ordinals m.slot else none with
  | some n => { pass with page := pass.page.write (m.spell style [] fun _ => n) }
  | none =>
    let (n, sink) := push pass.sink m.value
    { page := pass.page.write (m.spell style [] fun _ => n)
      ordinals := Arguments.answer pass.ordinals m.slot (some n)
      sink }

/-- Goes on until the steps end or something is missing. -/
def run (format : Format) (pass : Pass σ) : List Step → Option Missing × Pass σ
  | [] => (none, pass)
  | step :: steps =>
    match step.missing?, step.marker? with
    | some what, _ => (some what, pass)
    | none, some m => run format (pass.mark push format.markers m) steps
    | none, none =>
      run format { pass with page := step.act format.pretty (fun _ => "") pass.page } steps

end Pass

/-- Fills a template, handing every value over as soon as it is met. -/
def Template.fillPushing (t : Template) (a : Arguments) (sink : σ) : Except Failure String × σ :=
  match Pass.run push t.format { sink } (t.steps a) with
  | (some what, pass) => (.error ⟨.missing what, []⟩, pass.sink)
  | (none, pass) => (.ok pass.page.text, pass.sink)

/-! ## What a pass does -/

namespace Step

variable {step : Step} {m : Marker}

theorem eq_marker (h : step.marker? = some m) : step = .marker m := by
  cases step <;> simp_all [marker?]

theorem act_of_marker?_eq_none (h : step.marker? = none) (pretty : Bool) (p : Page)
    (spell spell' : Marker → String) : step.act pretty spell p = step.act pretty spell' p := by
  cases step <;> simp_all [marker?, act]

/-- Only the spelling of the markers among the steps matters. -/
theorem actAll_congr {pretty : Bool} {spell spell' : Marker → String} {steps : List Step}
    (h : ∀ m ∈ steps.filterMap marker?, spell m = spell' m) (p : Page) :
    actAll pretty spell p steps = actAll pretty spell' p steps := by
  induction steps generalizing p with
  | nil => rfl
  | cons step steps ih =>
    rw [actAll_cons, actAll_cons]
    cases hstep : step.marker? with
    | none =>
      rw [act_of_marker?_eq_none hstep pretty p spell spell']
      exact ih (by simpa [hstep] using h) _
    | some m =>
      obtain rfl := eq_marker hstep
      rw [act, act, h m (by simp [marker?])]
      exact ih (fun m hm => h m (by simp [marker?, hm])) _

end Step

/-- What a pass over steps comes to: it stops at the first thing that is missing, hands `values`
over, and writes all steps if nothing is missing. -/
structure Pass.RunsTo (format : Format) (pass : Pass σ) (steps : List Step) (values : List Value)
    (spell : Marker → String) : Prop where
  missing : (run push format pass steps).1 = steps.findSome? Step.missing?
  sink : (run push format pass steps).2.sink = pushAll push pass.sink values
  page : steps.findSome? Step.missing? = none →
    (run push format pass steps).2.page = Step.actAll format.pretty spell pass.page steps

namespace Pass.RunsTo

variable {push} {format : Format} {pass : Pass σ} {step : Step} {steps : List Step} {m : Marker}
  {values : List Value} {spell : Marker → String}

theorem nil : RunsTo push format pass [] [] spell := ⟨rfl, rfl, fun _ => rfl⟩

/-- Nothing behind a missing item counts. -/
theorem stop {what : Missing} (h : step.missing? = some what) :
    RunsTo push format pass (step :: steps) [] spell := by
  constructor <;> simp [run, h, pushAll]

theorem layout (hmissing : step.missing? = none) (hmarker : step.marker? = none)
    (h : RunsTo push format { pass with page := step.act format.pretty (fun _ => "") pass.page }
      steps values spell) : RunsTo push format pass (step :: steps) values spell := by
  have hact := Step.act_of_marker?_eq_none hmarker format.pretty pass.page (fun _ => "") spell
  constructor
  · simpa [run, hmissing, hmarker] using h.missing
  · simpa [run, hmissing, hmarker] using h.sink
  · simpa [run, hmissing, hmarker, hact] using h.page

/-- A marker that shares a value. -/
theorem shared (hsink : (pass.mark push format.markers m).sink = pass.sink)
    (hpage : (pass.mark push format.markers m).page = pass.page.write (spell m))
    (h : RunsTo push format (pass.mark push format.markers m) steps values spell) :
    RunsTo push format pass (.marker m :: steps) values spell := by
  refine ⟨h.missing, ?_, fun hcomplete => ?_⟩
  · rw [← hsink]
    exact h.sink
  · rw [Step.actAll_cons, Step.act, ← hpage]
    exact h.page hcomplete

/-- A marker that hands its value over. -/
theorem pushed (hsink : (pass.mark push format.markers m).sink = (push pass.sink m.value).2)
    (hpage : (pass.mark push format.markers m).page = pass.page.write (spell m))
    (h : RunsTo push format (pass.mark push format.markers m) steps values spell) :
    RunsTo push format pass (.marker m :: steps) (m.value :: values) spell := by
  refine ⟨h.missing, ?_, fun hcomplete => ?_⟩
  · rw [pushAll, ← hsink]
    exact h.sink
  · rw [Step.actAll_cons, Step.act, ← hpage]
    exact h.page hcomplete

end Pass.RunsTo

namespace Pass

variable {push} {format : Format} {pass : Pass σ}

/-- Positional markers hand over the value of every marker. -/
theorem runsTo_positional (h : format.markers = .positional) (pass : Pass σ) (steps : List Step) :
    RunsTo push format pass steps ((Step.markers steps).map Marker.value) fun _ => "?" := by
  induction steps generalizing pass with
  | nil => exact .nil
  | cons step steps ih =>
    rw [Step.markers_cons]
    cases hmissing : step.missing? with
    | some what => exact .stop hmissing
    | none =>
      cases hmarker : step.marker? with
      | none => exact .layout hmissing hmarker (ih _)
      | some m =>
        obtain rfl := Step.eq_marker hmarker
        exact .pushed (by simp [mark, h, MarkerStyle.shares])
          (by simp [mark, h, MarkerStyle.shares, Marker.spell]) (ih _)

/-- The ordinals noted at the end: those that were noted before, and for the slots of the markers in
`ms` the answers to their values. -/
def noted (push : σ → Value → Nat × σ) (pass : Pass σ) (ms : List Marker) (slot : Slot) :
    Option Nat :=
  (pass.ordinals slot).or
    (answers push pass.sink (ms.map Marker.value))[(ms.map Marker.slot).idxOf slot]?

theorem noted_of_known {slot : Slot} {n : Nat} (h : pass.ordinals slot = some n)
    (ms : List Marker) : noted push pass ms slot = some n := by
  simp [noted, h]

/-- The value that is handed over first is the first one to be answered. -/
theorem noted_cons {m : Marker} (hnew : pass.ordinals m.slot = none) (page : Page)
    (ms : List Marker) :
    noted push ⟨page, Arguments.answer pass.ordinals m.slot (some (push pass.sink m.value).1),
      (push pass.sink m.value).2⟩ ms = noted push pass (m :: ms) := by
  funext slot
  by_cases hslot : slot = m.slot
  · simp [noted, Arguments.answer, answers, hslot, hnew]
  · have hidx := List.idxOf_cons_ne (ms.map Marker.slot) (Ne.symm hslot)
    simp [noted, Arguments.answer, answers, hslot, hidx]

/-- Other markers hand over the value of the first one of each slot, and all markers of a slot show
the ordinal that is noted for it. `seen` are the slots that have one already. -/
theorem runsTo_sharing (h : format.markers.shares = true) (pass : Pass σ) (seen : List Slot)
    (hseen : ∀ slot, slot ∈ seen ↔ (pass.ordinals slot).isSome) (steps : List Step) :
    RunsTo push format pass steps
      ((Marker.firsts seen (Step.markers steps)).map Marker.value) fun m =>
        m.spell format.markers [] fun _ =>
          (noted push pass (Marker.firsts seen (Step.markers steps)) m.slot).getD 0 := by
  induction steps generalizing pass seen with
  | nil => exact .nil
  | cons step steps ih =>
    rw [Step.markers_cons]
    cases hmissing : step.missing? with
    | some what => exact .stop hmissing
    | none =>
      cases hmarker : step.marker? with
      | none => exact .layout hmissing hmarker (ih _ seen hseen)
      | some m =>
        obtain rfl := Step.eq_marker hmarker
        simp only [Option.isSome_none, Bool.false_eq_true, if_false, Option.toList_some,
          List.singleton_append, Marker.firsts]
        cases hknown : pass.ordinals m.slot with
        | some n =>
          have hmem : m.slot ∈ seen := (hseen _).2 (by simp [hknown])
          have hmark : pass.mark push format.markers m =
              { pass with page := pass.page.write (m.spell format.markers [] fun _ => n) } := by
            simp [mark, h, hknown]
          rw [if_pos hmem]
          refine .shared (by rw [hmark]) ?_ ?_
          · simp [hmark, noted_of_known hknown]
          · rw [hmark]
            exact ih _ seen hseen
        | none =>
          have hmem : m.slot ∉ seen := fun hin => by simpa [hknown] using (hseen _).1 hin
          have hmark : pass.mark push format.markers m =
              { page := pass.page.write
                  (m.spell format.markers [] fun _ => (push pass.sink m.value).1)
                ordinals := Arguments.answer pass.ordinals m.slot (some (push pass.sink m.value).1)
                sink := (push pass.sink m.value).2 } := by
            simp [mark, h, hknown]
          rw [if_neg hmem, List.map_cons]
          refine .pushed (by rw [hmark]) ?_ ?_
          · simp [hmark, noted, hknown, answers]
          · rw [hmark, ← noted_cons hknown]
            refine ih _ (m.slot :: seen) fun slot => ?_
            by_cases hslot : slot = m.slot <;> simp [Arguments.answer, hslot, hseen]

end Pass

/-! ## Sinks that collect values -/

namespace Sink

theorem append_append (sink : Sink) (values more : List Value) :
    (sink.append values).append more = sink.append (values ++ more) := by
  simp [append, Nat.add_assoc]

theorem pushAll_push (sink : Sink) (values : List Value) :
    pushAll Sink.push sink values = sink.append values := by
  induction values generalizing sink with
  | nil => simp [pushAll, append]
  | cons v values ih => simp [pushAll, Sink.push, ih, append_append]

/-- The ordinals of a sink are its answers. -/
theorem answerAt_push (sink : Sink) {values : List Value} {k : Nat} (hk : k < values.length) :
    answerAt Sink.push sink values k = sink.ordinal k := by
  induction values generalizing sink k with
  | nil => exact absurd hk (Nat.not_lt_zero k)
  | cons v values ih =>
    cases k with
    | zero => rfl
    | succ k =>
      calc answerAt Sink.push sink (v :: values) (k + 1)
          = answerAt Sink.push (sink.append [v]) values k := rfl
        _ = (sink.append [v]).ordinal k := ih _ (Nat.lt_of_succ_lt_succ hk)
        _ = sink.ordinal (k + 1) := congrArg sink.ordinal (Nat.add_comm 1 k)

end Sink

namespace Template

variable {t : Template} {a : Arguments}

/-- Every marker stands for the slot of a bound one. -/
theorem idxOf_slot_lt (hcomplete : (t.steps a).findSome? Step.missing? = none) {m : Marker}
    (hm : m ∈ (t.steps a).filterMap Step.marker?) :
    ((t.bound a).map Marker.slot).idxOf m.slot < (t.bound a).length := by
  have hslot : m.slot ∈ (t.bound a).map Marker.slot := by
    rw [bound, Step.markers_of_complete hcomplete, Marker.bound]
    split
    · exact Marker.mem_map_slot_firsts.2 ⟨List.mem_map_of_mem hm, by simp⟩
    · exact List.mem_map_of_mem hm
  simpa using List.idxOf_lt_length_of_mem hslot

/-- Only the ordinals of the bound values show. -/
theorem textWith_congr (hcomplete : (t.steps a).findSome? Step.missing? = none)
    {ordinal ordinal' : Nat → Nat} (h : ∀ k < (t.bound a).length, ordinal k = ordinal' k) :
    t.textWith a ordinal = t.textWith a ordinal' := by
  refine congrArg Page.text (Step.actAll_congr (fun m hm => ?_) {})
  have hordinal := h _ (idxOf_slot_lt hcomplete hm)
  simp only [Marker.spell, hordinal]

/-- A pass over the steps of an execution hands over the bound values, and numbered markers show the
answers to them. -/
theorem runsTo (push : σ → Value → Nat × σ) (t : Template) (a : Arguments) (sink : σ) :
    let values := (t.bound a).map Marker.value
    Pass.RunsTo push t.format { sink } (t.steps a) values
      (Marker.spell t.format.markers ((t.bound a).map Marker.slot)
        (answerAt push sink values)) := by
  intro values
  cases hshares : t.format.markers.shares with
  | false =>
    have hstyle : t.format.markers = .positional := by
      cases hmarkers : t.format.markers <;> simp_all [MarkerStyle.shares]
    have hbound : t.bound a = Step.markers (t.steps a) := by simp [bound, Marker.bound, hshares]
    have hrun : Pass.RunsTo push t.format { sink } (t.steps a) _ _ :=
      Pass.runsTo_positional hstyle { sink } (t.steps a)
    rw [← hbound] at hrun
    rw [hstyle]
    exact hrun
  | true =>
    have hbound : t.bound a = Marker.firsts [] (Step.markers (t.steps a)) := by
      simp [bound, Marker.bound, hshares]
    have hrun : Pass.RunsTo push t.format { sink } (t.steps a) _ _ :=
      Pass.runsTo_sharing hshares { sink } [] (by simp) (t.steps a)
    rw [← hbound] at hrun
    -- At the start no ordinals are noted, so all of them are answers.
    have hspell : (fun m : Marker => m.spell t.format.markers [] fun _ =>
          (Pass.noted push { sink } (t.bound a) m.slot).getD 0) =
        Marker.spell t.format.markers ((t.bound a).map Marker.slot)
          (answerAt push sink values) := by
      funext m
      cases t.format.markers <;> rfl
    rw [← hspell]
    exact hrun

/-- Handing values over one at a time binds what is bound, and the ordinals are the answers. -/
theorem fillPushing_eq (push : σ → Value → Nat × σ) (t : Template) (a : Arguments) (sink : σ) :
    let values := (t.bound a).map Marker.value
    t.fillPushing push a sink =
      (((t.steps a).findSome? Step.missing?).elim
          (.ok (t.textWith a (answerAt push sink values))) fun what => .error ⟨.missing what, []⟩,
        pushAll push sink values) := by
  intro values
  obtain ⟨hmissing, hsink, hpage⟩ := runsTo push t a sink
  generalize hpass : Pass.run push t.format { sink } (t.steps a) = outcome at hmissing hsink hpage
  obtain ⟨missing, pass⟩ := outcome
  simp only at hmissing hsink hpage
  rw [fillPushing, hpass, ← hmissing, ← hsink]
  cases missing with
  | some what => rfl
  | none =>
    rw [textWith, ← hpage hmissing.symm]
    rfl

theorem spell_of_sign {style : MarkerStyle} {sign : String} (h : style.sign? = some sign)
    (slots : List Slot) (ordinal : Nat → Nat) (m : Marker) :
    m.spell style slots ordinal = sign ++ toString (ordinal (slots.idxOf m.slot)) := by
  cases style <;> simp_all [MarkerStyle.sign?, Marker.spell]

theorem textWith_of_sign_none (h : t.format.markers.sign? = none) (ordinal ordinal' : Nat → Nat) :
    t.textWith a ordinal = t.textWith a ordinal' := by
  have hspell (slots : List Slot) : Marker.spell t.format.markers slots ordinal =
      Marker.spell t.format.markers slots ordinal' := by
    funext m
    cases hstyle : t.format.markers <;> simp_all [MarkerStyle.sign?, Marker.spell]
  simp only [textWith, hspell]

/-- With numbered markers, texts for different ordinals are the same but for the numbers. -/
theorem exists_numbered (t : Template) (a : Arguments) :
    ∃ gs, Glyph.markers gs = (t.steps a).filterMap Step.marker? ∧
      ∀ sign, t.format.markers.sign? = some sign → ∀ ordinal, t.textWith a ordinal =
        Glyph.text
          (fun m => sign ++ toString (ordinal (((t.bound a).map Marker.slot).idxOf m.slot)))
          gs := by
  obtain ⟨gs, hmarkers, htext⟩ := Step.exists_glyphs t.format.pretty (t.steps a)
  refine ⟨gs, hmarkers, fun sign hsign ordinal => ?_⟩
  have hspell := funext (spell_of_sign hsign ((t.bound a).map Marker.slot) ordinal)
  rw [textWith, hspell]
  exact htext _ fun _ _ => (solid_numeral _).append sign

/-- Collecting values all at once is handing them over one at a time. -/
theorem fillInto_eq_fillPushing (t : Template) (a : Arguments) (sink : Sink) :
    t.fillInto a sink = t.fillPushing Sink.push a sink := by
  rw [fillPushing_eq, fillInto, Sink.pushAll_push]
  cases hmissing : (t.steps a).findSome? Step.missing? with
  | some what => rfl
  | none =>
    have hordinal : ∀ k < (t.bound a).length,
        sink.ordinal k = answerAt Sink.push sink ((t.bound a).map Marker.value) k := fun k hk =>
      (sink.answerAt_push (by simpa using hk)).symm
    rw [textWith_congr hmissing hordinal]
    rfl

/-- A list counts values from one. -/
theorem fillInto_list (t : Template) (a : Arguments) :
    (t.fillInto a (.list [])).1 = ((t.steps a).findSome? Step.missing?).elim
      (.ok (t.textWith a (· + 1))) fun what => .error ⟨.missing what, []⟩ := by
  simp only [fillInto, Sink.list, List.length_nil, Nat.zero_add]
  cases (t.steps a).findSome? Step.missing? <;> rfl

/-- The values go to any sink as they go to an empty list. A sink that collects them has them behind
what it held before. Every sink ends in the state that these values lead to, also when the execution
fails, and it fails if and as the one into the list does. On success, the texts are the same but for
the numbers that markers show: where the list counts a value as its `k`-th one, another sink shows
what it answered to the `k`-th value. -/
theorem fillPushing_list (t : Template) (a : Arguments) :
    let result := (t.fillInto a (.list [])).1
    let values := (t.fillInto a (.list [])).2.values
    (∀ sink : Sink, t.fillInto a sink = t.fillPushing Sink.push a sink ∧
        (t.fillInto a sink).2.values = sink.values ++ values ∧
        ∀ k < values.length, answerAt Sink.push sink values k = sink.ordinal k) ∧
      ∃ (gs : List Glyph) (number : Marker → Nat),
        (∀ text, result = .ok text →
          Glyph.markers gs = Step.markers (t.steps a) ∧
          (∀ m ∈ Glyph.markers gs, number m < values.length) ∧
          ∀ sign, t.format.markers.sign? = some sign →
            text = Glyph.text (fun m => sign ++ toString (number m + 1)) gs) ∧
        ∀ (σ : Type) (push : σ → Value → Nat × σ) (sink : σ),
          (t.fillPushing push a sink).2 = pushAll push sink values ∧
          (∀ failure, (t.fillPushing push a sink).1 = .error failure ↔ result = .error failure) ∧
          ∀ text, result = .ok text →
            (t.format.markers.sign? = none → (t.fillPushing push a sink).1 = .ok text) ∧
            ∀ sign, t.format.markers.sign? = some sign →
              (t.fillPushing push a sink).1 = .ok (Glyph.text
                (fun m => sign ++ toString (answerAt push sink values (number m))) gs) := by
  intro result values
  have hvalues : values = (t.bound a).map Marker.value := List.nil_append _
  have hlength : values.length = (t.bound a).length := by rw [hvalues, List.length_map]
  constructor
  · intro sink
    refine ⟨fillInto_eq_fillPushing t a sink, ?_, fun k hk => sink.answerAt_push hk⟩
    rw [hvalues]
    rfl
  · obtain ⟨gs, hmarkers, htext⟩ := exists_numbered t a
    have hresult : result = _ := fillInto_list t a
    refine ⟨gs, fun m => ((t.bound a).map Marker.slot).idxOf m.slot, ?_, ?_⟩
    · intro text hok
      cases hmissing : (t.steps a).findSome? Step.missing? with
      | some what => simp [hresult, hmissing] at hok
      | none =>
        obtain rfl : t.textWith a (· + 1) = text := by simpa [hresult, hmissing] using hok
        refine ⟨hmarkers.trans (Step.markers_of_complete hmissing).symm, fun m hm => ?_,
          fun sign hsign => htext sign hsign _⟩
        rw [hlength]
        exact idxOf_slot_lt hmissing (hmarkers ▸ hm)
    · intro σ push sink
      have hpushing := fillPushing_eq push t a sink
      rw [← hvalues] at hpushing
      rw [hpushing, hresult]
      cases hmissing : (t.steps a).findSome? Step.missing? with
      | some what => simp
      | none =>
        refine ⟨rfl, by simp, fun text hok => ⟨fun hsign => ?_, fun sign hsign => ?_⟩⟩
        · rw [← hok]
          exact congrArg Except.ok (textWith_of_sign_none hsign _ _)
        · exact congrArg Except.ok (htext sign hsign _)

end Template

end PreparedSql
