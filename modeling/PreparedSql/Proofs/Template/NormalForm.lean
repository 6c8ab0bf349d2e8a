import Mathlib.Data.List.Chain
import PreparedSql.Proofs.Template.Condensing

/-!
# The normal form of condensed templates

In a condensed template, and in every branch inside it, texts that are not empty stand between open
fragments, and no two texts stand side by side. Condensing reaches this form without losing,
repeating or moving anything but white space: `Fragment.substanceAll` is what is left of fragments
when their layout is disregarded, and condensing keeps it. This holds of all fragments, well spaced
or not.
-/

namespace PreparedSql

/-- The characters of a text that are not white space. -/
def Text.visible (cs : List Char) : List Char := cs.filter (!isBlank ·)

namespace Page

open Text (visible)

/-! ## Layout is white space -/

theorem visible_of_spaces {cs : List Char} (h : ∀ c ∈ cs, c = ' ') : visible cs = [] := by
  refine List.filter_eq_nil_iff.2 fun c hc => ?_
  rw [h c hc]
  decide

theorem visible_closeUp (ink : List Char) : visible (closeUp ink) = visible ink := by
  unfold closeUp
  split
  · split <;> rfl
  · rfl

theorem visible_makeRoom (tail : Tail) (first : Char) (ink : List Char) :
    visible (makeRoom tail first ink) = visible ink := by
  unfold makeRoom
  split
  · exact visible_closeUp ink
  · split <;> rfl

/-- An empty line shows nothing, whatever its margin is. -/
theorem visible_line {spaces : List Char} (h : ∀ c ∈ spaces, c = ' ') (ink : List Char) :
    visible (spaces ++ '\n' :: ink) = visible ink := by
  have hspaces := visible_of_spaces h
  rw [visible, List.filter_append] at *
  rw [hspaces]
  rfl

/-- The visible characters of a page, in reading order. -/
def shown (p : Page) : List Char := (visible p.ink).reverse

theorem shown_of_nil {p : Page} (h : p.ink = []) : p.shown = [] := by rw [shown, h]; rfl

theorem shown_token (p : Page) (s : String) : (p.token s).shown = p.shown ++ visible s.toList := by
  cases hs : s.toList with
  | nil => simp [token, hs, visible]
  | cons first rest =>
    have hroom := visible_makeRoom p.tail first p.ink
    simp only [visible] at hroom
    simp [token, hs, shown, visible, List.filter_cons, List.filter_reverse, hroom]
    split <;> simp

theorem shown_newline (p : Page) : p.newline.shown = p.shown := by
  unfold newline
  split
  · rfl
  · exact congrArg List.reverse (visible_line (fun _ hc => eq_space_of_mem_margin hc) p.ink)

theorem shown_reindent (p : Page) : p.reindent.shown = p.shown := by
  unfold reindent
  split
  · next rest hline =>
    obtain ⟨spaces, hspaces, hink⟩ := exists_spaces_of_dropWhile hline
    have hmargin : ∀ c ∈ margin p.indent, c = ' ' := fun _ hc => eq_space_of_mem_margin hc
    simp only [shown, hink, visible_line hspaces, visible_line hmargin]
  · rfl

theorem shown_gap (p : Page) : p.gap.shown = p.shown := by
  unfold gap
  split <;> rfl

theorem shown_delimiter (p : Page) (pretty : Bool) (s : String) (kind : DelimiterKind) :
    (p.delimiter pretty s kind).shown = p.shown ++ visible s.toList := by
  unfold delimiter
  split
  · rw [shown_newline, shown_token]
  · exact shown_token p s

theorem shown_enter (p : Page) (pretty : Bool) : (p.enter pretty).shown = p.shown := by
  unfold enter
  split
  · exact shown_newline _
  · rfl

theorem shown_exit (p : Page) (pretty : Bool) : (p.exit pretty).shown = p.shown := by
  cases pretty with
  | false => rfl
  | true =>
    simp only [exit, if_true]
    split
    · exact shown_reindent _
    · exact shown_newline _

end Page

namespace Fragment

/-! ## What condensing keeps -/

/-- Characters, each as a text of its own. -/
def letters (cs : List Char) : List Fragment := cs.map fun c => .text (String.singleton c)

mutual

/-- What is left of a fragment when its layout is disregarded. -/
def substance : Fragment → List Fragment
  | .text s => letters (Text.visible s.toList)
  | .delimiter s _ => letters (Text.visible s.toList)
  | .group _ children => substanceAll children
  | .hole h => [.hole h]
  | .choice key main alternative => [.choice key (substanceAll main) (substanceAll alternative)]
  | .each key body empty between => [.each key (substanceAll body) (substanceAll empty) between]
  | .cell index => [.cell index]

/-- The open fragments of a list, in order and each with what is left of its branches, and between
them the characters of texts and delimiters that are not white space. -/
def substanceAll : List Fragment → List Fragment
  | [] => []
  | f :: fs => substance f ++ substanceAll fs

end

theorem substanceAll_append (fs gs : List Fragment) :
    substanceAll (fs ++ gs) = substanceAll fs ++ substanceAll gs := by
  induction fs with
  | nil => rfl
  | cons f fs ih => simp only [List.cons_append, substanceAll, ih, List.append_assoc]

theorem letters_append (cs ds : List Char) : letters (cs ++ ds) = letters cs ++ letters ds :=
  List.map_append

theorem substanceAll_collected (p : Page) : substanceAll p.collected = letters p.shown := by
  unfold Page.collected
  split
  · next h => rw [Page.shown_of_nil (List.isEmpty_iff.1 h)]; rfl
  · simp [substanceAll, substance, Page.text, Page.shown, Text.visible, List.filter_reverse]

/-- Laying the fragments out on a page keeps what the page shows and what the fragments hold. -/
def Kept (pretty : Bool) (fs : List Fragment) : Prop :=
  ∀ p : Page,
    substanceAll (condenseAll pretty p fs).1 ++ letters (condenseAll pretty p fs).2.shown =
      letters p.shown ++ substanceAll fs

namespace Kept

variable {pretty : Bool} {f : Fragment} {fs : List Fragment}

/-- A branch is condensed from a page on which nothing is written. -/
theorem branch (h : Kept pretty fs) {p : Page} (hp : p.ink = []) :
    substanceAll (condensedFrom pretty p fs) = substanceAll fs := by
  rw [condensedFrom, substanceAll_append, substanceAll_collected, h p, Page.shown_of_nil hp]
  rfl

/-- An open fragment is handed over behind what the page shows, and nothing is left on it. -/
theorem handOver (h : Kept pretty fs) (p : Page) {q : Page} (hq : q.ink = []) (f : Fragment) :
    substanceAll (p.collected ++ [f] ++ (condenseAll pretty q fs).1) ++
        letters (condenseAll pretty q fs).2.shown =
      letters p.shown ++ (substance f ++ substanceAll fs) := by
  have hrest := h q
  rw [Page.shown_of_nil hq] at hrest
  rw [substanceAll_append, substanceAll_append, substanceAll_collected, List.append_assoc, hrest]
  simp [substanceAll, letters]

end Kept

/-- Condensing keeps what is left of fragments when layout is disregarded. -/
theorem kept (pretty : Bool) (fs : List Fragment) : Kept pretty fs := by
  induction fs using listInduction with
  | nil =>
    intro p
    simp [condenseAll, substanceAll]
  | text s fs ih =>
    intro p
    simp only [condenseAll, condense, List.nil_append, ih (p.token s), Page.shown_token,
      letters_append, substanceAll, substance, List.append_assoc]
  | delimiter s kind fs ih =>
    intro p
    simp only [condenseAll, condense, List.nil_append, ih (p.delimiter pretty s kind),
      Page.shown_delimiter, letters_append, substanceAll, substance, List.append_assoc]
  | group indented children fs inner ih =>
    intro p
    cases indented with
    | false =>
      simp only [condenseAll, condense, substanceAll_append, List.append_assoc, substanceAll,
        substance]
      rw [ih, ← List.append_assoc, inner, List.append_assoc]
    | true =>
      simp only [condenseAll, condense, substanceAll_append, List.append_assoc, substanceAll,
        substance]
      rw [ih, Page.shown_exit, ← List.append_assoc, inner, Page.shown_enter, List.append_assoc]
  | hole h fs ih =>
    intro p
    rw [← Page.shown_gap p]
    exact ih.handOver p.gap (q := p.gap.cleared.settle h.qualifies) rfl (.hole h)
  | choice key main alternative fs first second ih =>
    intro p
    simp only [condenseAll, condense_choice, substanceAll]
    rw [ih.handOver p rfl, substance, first.branch rfl, second.branch rfl]
    rfl
  | each key body empty between fs first second ih =>
    intro p
    simp only [condenseAll, condense_each, substanceAll]
    rw [ih.handOver p.gap rfl, substance, first.branch rfl, second.branch rfl, Page.shown_gap]
    rfl
  | cell index fs ih =>
    intro p
    rw [← Page.shown_gap p]
    exact ih.handOver p.gap (q := p.gap.cleared.settle false) rfl (.cell index)

/-! ## The form that condensing reaches -/

/-- Texts that are not empty and open fragments, with no two texts side by side. -/
structure Alternating (fs : List Fragment) : Prop where
  members : ∀ f ∈ fs, f.isOpen = true ∨ ∃ s, s ≠ "" ∧ f = .text s
  apart : fs.IsChain fun f g => f.isOpen = true ∨ g.isOpen = true

/-- The branches anywhere inside fragments. -/
def innerLevels (fs : List Fragment) : List (List Fragment) := (partsAll fs).flatMap branches

/-- A list of fragments and the branches anywhere inside it. -/
def levels (fs : List Fragment) : List (List Fragment) := fs :: innerLevels fs

theorem innerLevels_append (fs gs : List Fragment) :
    innerLevels (fs ++ gs) = innerLevels fs ++ innerLevels gs := by
  simp only [innerLevels, partsAll_append, List.flatMap_append]

/-- What is inside a fragment is what is in its two branches. -/
theorem forall_mem_innerLevels {P : List Fragment → Prop} {f : Fragment}
    {left right : List Fragment} (hparts : f.parts = f :: (partsAll left ++ partsAll right))
    (hbranches : f.branches = [left, right]) (hleft : ∀ level ∈ levels left, P level)
    (hright : ∀ level ∈ levels right, P level) : ∀ level ∈ innerLevels [f], P level := by
  obtain ⟨hleft, hleft'⟩ := List.forall_mem_cons.1 hleft
  obtain ⟨hright, hright'⟩ := List.forall_mem_cons.1 hright
  simp only [innerLevels, partsAll, hparts, List.append_nil, List.flatMap_cons, hbranches,
    List.flatMap_append, List.forall_mem_append, List.forall_mem_cons]
  exact ⟨⟨hleft, hright, by simp⟩, hleft', hright'⟩

/-- A page hands over a text that is not empty, or nothing. -/
theorem collected_cases (p : Page) : p.collected = [] ∨ ∃ s, s ≠ "" ∧ p.collected = [.text s] := by
  unfold Page.collected
  split
  · exact .inl rfl
  · next h =>
    refine .inr ⟨p.text, ?_, rfl⟩
    intro hempty
    apply h
    have htext := congrArg String.toList hempty
    simpa [Page.text] using htext

theorem innerLevels_collected (p : Page) : innerLevels p.collected = [] := by
  rcases collected_cases p with h | ⟨s, -, h⟩ <;> rw [h] <;> rfl

theorem alternating_collected (p : Page) : Alternating p.collected := by
  rcases collected_cases p with h | ⟨s, hs, h⟩
  · rw [h]
    exact ⟨by simp, .nil⟩
  · rw [h]
    exact ⟨fun f hf => .inr ⟨s, hs, List.mem_singleton.1 hf⟩, .singleton _⟩

/-- Fragments that condensing has handed over: every text in them is followed by an open fragment,
and the branches inside are complete. -/
structure HandedOver (fs : List Fragment) : Prop extends Alternating fs where
  last : ∀ f ∈ fs.getLast?, f.isOpen = true
  inner : ∀ level ∈ innerLevels fs, Alternating level

namespace HandedOver

variable {f : Fragment} {fs gs : List Fragment}

theorem nil : HandedOver [] := ⟨⟨by simp, .nil⟩, by simp, by simp [innerLevels, partsAll]⟩

/-- Behind an open fragment anything may follow. -/
theorem alternating_append (h : HandedOver fs) (hg : Alternating gs) : Alternating (fs ++ gs) :=
  ⟨List.forall_mem_append.2 ⟨h.members, hg.members⟩,
    h.apart.append hg.apart fun f hf _ _ => .inl (h.last f hf)⟩

theorem append (h : HandedOver fs) (hg : HandedOver gs) : HandedOver (fs ++ gs) := by
  refine ⟨h.alternating_append hg.toAlternating, ?_, ?_⟩
  · intro f hf
    rw [List.getLast?_append] at hf
    cases hlast : gs.getLast? with
    | none => exact h.last f (by simpa [hlast] using hf)
    | some g =>
      obtain rfl : g = f := by simpa [hlast] using hf
      exact hg.last g hlast
  · rw [innerLevels_append]
    exact List.forall_mem_append.2 ⟨h.inner, hg.inner⟩

/-- What a page has collected is handed over together with an open fragment. -/
theorem collected (p : Page) (hopen : f.isOpen = true)
    (hinner : ∀ level ∈ innerLevels [f], Alternating level) : HandedOver (p.collected ++ [f]) := by
  have hcollected := alternating_collected p
  refine ⟨⟨?_, ?_⟩, by simpa using hopen, ?_⟩
  · exact List.forall_mem_append.2 ⟨hcollected.members, by simpa using .inl hopen⟩
  · refine hcollected.apart.append (.singleton f) fun _ _ g hg => .inr ?_
    obtain rfl : f = g := by simpa using hg
    exact hopen
  · rw [innerLevels_append, innerLevels_collected]
    exact hinner

/-- The text that is collected last completes a list. -/
theorem levels (h : HandedOver fs) (p : Page) :
    ∀ level ∈ levels (fs ++ p.collected), Alternating level := by
  refine List.forall_mem_cons.2 ⟨h.alternating_append (alternating_collected p), ?_⟩
  rw [innerLevels_append, innerLevels_collected, List.append_nil]
  exact h.inner

end HandedOver

theorem handedOver_condenseAll (pretty : Bool) (p : Page) (fs : List Fragment) :
    HandedOver (condenseAll pretty p fs).1 := by
  induction fs using listInduction generalizing p with
  | nil => exact .nil
  | text s fs ih => exact ih _
  | delimiter s kind fs ih => exact ih _
  | group indented children fs inner ih => cases indented <;> exact (inner _).append (ih _)
  | hole h fs ih =>
    exact (HandedOver.collected p.gap rfl (by simp [innerLevels, partsAll, parts, branches])).append
      (ih _)
  | choice key main alternative fs first second ih =>
    refine (HandedOver.collected p rfl ?_).append (ih _)
    exact forall_mem_innerLevels rfl rfl ((first _).levels _) ((second _).levels _)
  | each key body empty between fs first second ih =>
    refine (HandedOver.collected p.gap rfl ?_).append (ih _)
    exact forall_mem_innerLevels rfl rfl ((first _).levels _) ((second _).levels _)
  | cell index fs ih =>
    exact (HandedOver.collected p.gap rfl (by simp [innerLevels, partsAll, parts, branches])).append
      (ih _)

end Fragment

/-- Condensed templates are in normal form: at the top and in every branch, texts that are not empty
stand between open fragments, no two of them side by side. They hold the open fragments that were
there before, in order and down into the branches, and between them the same characters other than
white space. -/
theorem Template.condense_normal (fragments : List Fragment) (format : Format) :
    let condensed := (condense ⟨fragments, format, false⟩).fragments
    (∀ level ∈ Fragment.levels condensed, Fragment.Alternating level) ∧
      Fragment.substanceAll condensed = Fragment.substanceAll fragments :=
  ⟨(Fragment.handedOver_condenseAll format.pretty {} fragments).levels _,
    (Fragment.kept format.pretty fragments).branch rfl⟩

end PreparedSql
